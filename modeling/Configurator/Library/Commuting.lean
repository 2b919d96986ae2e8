import Mathlib.Data.List.Perm.Basic

/-! Steps that leave one another alone. A step needs something of the state it is taken in; where no
step of a row changes what another one needs, the row ends the same in every order. -/
namespace Configurator

variable {State Step : Type} {take : State → Step → State} {Ready : State → Step → Prop}
  {Apart : Step → Step → Prop} {state : State} {row again : List Step} {first other : Step}

/-- Two steps that are apart and ready stay ready one after the other, and end the same in both orders. -/
structure Independent (take : State → Step → State) (Ready : State → Step → Prop)
    (Apart : Step → Step → Prop) : Prop where
  symm : ∀ {one other}, Apart one other → Apart other one
  still : ∀ {state one other}, Ready state one → Ready state other → Apart one other →
    Ready (take state one) other
  comm : ∀ {state one other}, Ready state one → Ready state other → Apart one other →
    take (take state one) other = take (take state other) one

namespace Independent

theorem ready_rest (independent : Independent take Ready Apart) (apart : (first :: row).Pairwise Apart)
    (ready : ∀ one ∈ first :: row, Ready state one) : ∀ one ∈ row, Ready (take state first) one := by
  obtain ⟨starts, rest⟩ := List.forall_mem_cons.mp ready
  intro one member
  exact independent.still starts (rest one member) (List.rel_of_pairwise_cons apart member)

theorem ready_foldl (independent : Independent take Ready Apart) (apart : row.Pairwise Apart)
    (ready : ∀ one ∈ row, Ready state one) (its : Ready state other) (away : ∀ one ∈ row, Apart one other) :
    Ready (row.foldl take state) other := by
  induction row generalizing state with
  | nil => exact its
  | cons first row ih =>
    obtain ⟨close, far⟩ := List.forall_mem_cons.mp away
    have starts := ready first List.mem_cons_self
    exact ih apart.of_cons (independent.ready_rest apart ready) (independent.still starts its close) far

/-- The order of a row does not matter. -/
theorem foldl_perm (independent : Independent take Ready Apart) (perm : row.Perm again)
    (apart : row.Pairwise Apart) (ready : ∀ one ∈ row, Ready state one) :
    row.foldl take state = again.foldl take state := by
  induction perm generalizing state with
  | nil => rfl
  | cons first _ ih => exact ih apart.of_cons (independent.ready_rest apart ready)
  | swap first second row =>
    obtain ⟨starts, follows, _⟩ := List.forall_mem_cons.mp ready |>.imp_right List.forall_mem_cons.mp
    have away : Apart second first := List.rel_of_pairwise_cons apart List.mem_cons_self
    exact congrArg (row.foldl take) (independent.comm starts follows away)
  | trans perm _ ih later =>
    rw [ih apart ready]
    exact later (perm.pairwise apart independent.symm) fun one member => ready one (perm.mem_iff.mpr member)

/-- Any step of a row can be the last one, and is still ready then. -/
theorem foldl_last (independent : Independent take Ready Apart) (apart : row.Pairwise Apart)
    (ready : ∀ one ∈ row, Ready state one) (member : other ∈ row) :
    ∃ before, Ready before other ∧ row.foldl take state = take before other := by
  obtain ⟨front, back, rfl⟩ := List.append_of_mem member
  have moved := @List.perm_middle _ other front back
  have apart' := moved.pairwise apart independent.symm
  have ready' : ∀ one ∈ other :: (front ++ back), Ready state one :=
    fun one present => ready one (moved.mem_iff.mpr present)
  obtain ⟨its, others⟩ := List.forall_mem_cons.mp ready'
  have away : ∀ one ∈ front ++ back, Apart one other :=
    fun one present => independent.symm (List.rel_of_pairwise_cons apart' present)
  refine ⟨_, independent.ready_foldl apart'.of_cons others its away, ?_⟩
  rw [independent.foldl_perm (moved.trans (List.perm_append_singleton other _).symm) apart ready]
  rw [List.foldl_append]
  rfl

end Independent

end Configurator
