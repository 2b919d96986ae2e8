import Configurator.Library.Table
import Mathlib.Logic.Function.Basic

/-! What a store holds, the versions aside, and the two ways in which it changes: whole objects are
written, or the object under one key is changed. Changes that do not meet commute. -/
namespace Configurator

open Resource

variable {α κ : Type} [DecidableEq κ]

section Table

variable [Resource α κ] {table next : Table α} {wanted : κ} {entry held sent answer : α}

/-- What the table holds under a key, without the version. -/
def Table.content (table : Table α) (wanted : κ) : Option α :=
  (table.find? wanted).map (stamp 0)

theorem Table.content_eq_some :
    table.content wanted = some held ↔ ∃ entry ∈ table, key entry = wanted ∧ stamp 0 entry = held := by
  simp only [content, Option.map_eq_some_iff, find?_eq_some]
  constructor
  · rintro ⟨entry, ⟨member, same⟩, stored⟩
    exact ⟨entry, member, same, stored⟩
  · rintro ⟨entry, member, same, stored⟩
    exact ⟨entry, ⟨member, same⟩, stored⟩

theorem Table.content_eq_none : table.content wanted = none ↔ ∀ entry ∈ table, key entry ≠ wanted := by
  rw [content, Option.map_eq_none_iff, find?_eq_none]

theorem Table.content_of_mem (member : entry ∈ table) : table.content (key entry) = some (stamp 0 entry) :=
  content_eq_some.mpr ⟨entry, member, rfl, rfl⟩

theorem Table.Written.content (written : table.Written sent answer next) :
    next.content = Function.update table.content (key sent) (some (stamp 0 sent)) := by
  funext wanted
  rw [Table.content, written.find? wanted]
  by_cases same : wanted = key sent
  · subst same
    rw [if_pos rfl, Function.update_self, written.answered, Option.map_some, stamp_stamp]
  · rw [if_neg same, Function.update_of_ne same]
    rfl

end Table

section Overwrite

variable [Resource α κ] {held : κ → Option α} {wanted : κ} {entry : α} {writes left right : List α}

def overwrite (held : κ → Option α) (writes : List α) : κ → Option α :=
  writes.foldl (fun held written => Function.update held (key written) (some written)) held

@[simp] theorem overwrite_nil (held : κ → Option α) : overwrite held [] = held := rfl

@[simp] theorem overwrite_cons (held : κ → Option α) (written : α) (writes : List α) :
    overwrite held (written :: writes) =
      overwrite (Function.update held (key written) (some written)) writes := rfl

theorem overwrite_of_ne (others : ∀ written ∈ writes, key written ≠ wanted) :
    overwrite held writes wanted = held wanted := by
  induction writes generalizing held with
  | nil => rfl
  | cons written writes ih =>
    obtain ⟨other, rest⟩ := List.forall_mem_cons.mp others
    rw [overwrite_cons, ih rest, Function.update_of_ne (Ne.symm other)]

/-- What is there in the end has been written, or it was there and no write met it. -/
theorem overwrite_cases (found : overwrite held writes wanted = some entry) :
    entry ∈ writes ∧ key entry = wanted ∨ held wanted = some entry ∧ ∀ written ∈ writes, key written ≠ wanted := by
  induction writes generalizing held with
  | nil => exact Or.inr ⟨found, nofun⟩
  | cons written writes ih =>
    rw [overwrite_cons] at found
    rcases ih found with ⟨member, same⟩ | ⟨there, others⟩
    · exact Or.inl ⟨List.mem_cons_of_mem written member, same⟩
    · by_cases same : key written = wanted
      · subst same
        rw [Function.update_self, Option.some.injEq] at there
        exact Or.inl ⟨there ▸ List.mem_cons_self, there ▸ rfl⟩
      · rw [Function.update_of_ne (Ne.symm same)] at there
        exact Or.inr ⟨there, List.forall_mem_cons.mpr ⟨same, others⟩⟩

/-- What is under a key in the end depends on what the writes are, and on what was under that key. -/
theorem overwrite_agrees {other : κ → Option α} (agrees : held wanted = some entry ↔ other wanted = some entry) :
    overwrite held writes wanted = some entry ↔ overwrite other writes wanted = some entry := by
  induction writes generalizing held other with
  | nil => exact agrees
  | cons written writes ih =>
    rw [overwrite_cons, overwrite_cons]
    apply ih
    by_cases same : wanted = key written
    · rw [same, Function.update_self, Function.update_self]
    · rwa [Function.update_of_ne same, Function.update_of_ne same]

private theorem overwrite_update {written : α} (others : ∀ other ∈ writes, key other ≠ key written) :
    overwrite (Function.update held (key written) (some written)) writes =
      Function.update (overwrite held writes) (key written) (some written) := by
  induction writes generalizing held with
  | nil => rfl
  | cons first writes ih =>
    obtain ⟨other, rest⟩ := List.forall_mem_cons.mp others
    rw [overwrite_cons, overwrite_cons, Function.update_comm (Ne.symm other), ih rest]

theorem overwrite_comm (apart : ∀ one ∈ left, ∀ other ∈ right, key one ≠ key other) :
    overwrite (overwrite held left) right = overwrite (overwrite held right) left := by
  induction left generalizing held with
  | nil => rfl
  | cons written left ih =>
    obtain ⟨others, rest⟩ := List.forall_mem_cons.mp apart
    rw [overwrite_cons, overwrite_cons, ih rest, overwrite_update fun other member => (others other member).symm]

end Overwrite

section Modify

variable {held : κ → Option α} {wanted first second : κ} {change one other : α → α}

def modify (held : κ → Option α) (wanted : κ) (change : α → α) : κ → Option α :=
  Function.update held wanted ((held wanted).map change)

theorem modify_apply (asked : κ) :
    modify held wanted change asked = if asked = wanted then (held asked).map change else held asked := by
  by_cases same : asked = wanted
  · subst same
    simp [modify]
  · simp [modify, same]

theorem modify_comm (commute : first = second → ∀ entry, one (other entry) = other (one entry)) :
    modify (modify held first one) second other = modify (modify held second other) first one := by
  funext asked
  simp only [modify_apply]
  by_cases isFirst : asked = first
  · subst isFirst
    by_cases isSecond : asked = second
    · subst isSecond
      have swaps := commute rfl
      cases held asked <;> simp [swaps]
    · simp [isSecond]
  · by_cases isSecond : asked = second
    · subst isSecond
      simp [isFirst]
    · simp [isFirst, isSecond]

end Modify

end Configurator
