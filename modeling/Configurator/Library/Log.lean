import Mathlib.Data.List.Nodup

namespace Configurator

/-- A history that is never empty, names each version once and has one of them
checked out. -/
structure Log (V C : Type) where
  newest : V × C
  older : List (V × C)
  head : V
  distinct : ((newest :: older).map Prod.fst).Nodup
  present : head ∈ (newest :: older).map Prod.fst

namespace Log

variable {V C : Type}

def commits (log : Log V C) : List (V × C) := log.newest :: log.older

def versions (log : Log V C) : List V := log.commits.map Prod.fst

/-- The history of a first commit. -/
def first (version : V) (content : C) : Log V C where
  newest := (version, content)
  older := []
  head := version
  distinct := List.nodup_singleton version
  present := List.mem_singleton.mpr rfl

/-- A new version on top, checked out. -/
def commit (log : Log V C) (version : V) (content : C) (unused : version ∉ log.versions) :
    Log V C where
  newest := (version, content)
  older := log.commits
  head := version
  distinct := List.nodup_cons.mpr ⟨unused, log.distinct⟩
  present := List.mem_cons_self

/-- Another version of the history. -/
def checkout (log : Log V C) (version : V) (known : version ∈ log.versions) : Log V C :=
  { log with head := version, present := known }

@[simp] theorem commits_first (version : V) (content : C) :
    (first version content).commits = [(version, content)] := rfl

@[simp] theorem head_first (version : V) (content : C) : (first version content).head = version :=
  rfl

@[simp] theorem commits_commit (log : Log V C) (version : V) (content : C)
    (unused : version ∉ log.versions) :
    (log.commit version content unused).commits = (version, content) :: log.commits := rfl

@[simp] theorem head_commit (log : Log V C) (version : V) (content : C)
    (unused : version ∉ log.versions) : (log.commit version content unused).head = version := rfl

@[simp] theorem commits_checkout (log : Log V C) (version : V) (known : version ∈ log.versions) :
    (log.checkout version known).commits = log.commits := rfl

@[simp] theorem head_checkout (log : Log V C) (version : V) (known : version ∈ log.versions) :
    (log.checkout version known).head = version := rfl

/-- What a round may do to a history. -/
inductive Step : Log V C → Log V C → Prop where
  | stay (log : Log V C) : Step log log
  | commit (log : Log V C) (version : V) (content : C) (unused : version ∉ log.versions) :
      Step log (log.commit version content unused)
  | checkout (log : Log V C) (version : V) (known : version ∈ log.versions) :
      Step log (log.checkout version known)

/-- Nothing that was committed is lost or reordered. -/
theorem Step.suffix {log next : Log V C} (step : log.Step next) : log.commits <:+ next.commits := by
  cases step with
  | stay => exact List.suffix_rfl
  | commit version content unused => exact List.suffix_cons _ _
  | checkout version known => exact List.suffix_rfl

end Log

end Configurator
