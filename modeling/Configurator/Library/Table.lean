import Mathlib.Data.List.Sort
import Mathlib.Data.List.Nodup
import Mathlib.Data.List.Perm.Basic

/-! A store under optimistic concurrency. Every object carries the version it was
last written at; an update names the version it was made from and is refused when
the stored object has moved on. -/
namespace Configurator

/-- What a store has to know of an object. `stamp` writes a version into it and
brings it into the form in which the store keeps it. -/
class Resource (α : Type) (κ : outParam Type) where
  key : α → κ
  version : α → Nat
  stamp : Nat → α → α
  before : α → α → Bool
  key_stamp (version : Nat) (object : α) : key (stamp version object) = key object
  version_stamp (written : Nat) (object : α) : version (stamp written object) = written
  stamp_stamp (later earlier : Nat) (object : α) :
    stamp later (stamp earlier object) = stamp later object

namespace Resource

attribute [simp] key_stamp version_stamp stamp_stamp

end Resource

open Resource

/-- Why a store refuses a request. -/
inductive Refusal where
  | notFound
  | conflict
  | alreadyExists
  deriving DecidableEq

/-- The objects of one type: no two under one key, each in stored form and written
no later than the clock. -/
structure Table (α : Type) {κ : Type} [Resource α κ] where
  entries : List α
  clock : Nat
  distinct : (entries.map key).Nodup
  bounded : ∀ entry ∈ entries, version entry ≤ clock
  stored : ∀ entry ∈ entries, stamp (version entry) entry = entry

namespace Table

variable {α κ : Type} [Resource α κ]

instance : Membership α (Table α) := ⟨fun table entry => entry ∈ table.entries⟩

theorem mem_def {table : Table α} {entry : α} : entry ∈ table ↔ entry ∈ table.entries := Iff.rfl

def empty : Table α := ⟨[], 0, List.nodup_nil, nofun, nofun⟩

@[simp] theorem not_mem_empty (entry : α) : entry ∉ (empty : Table α) := List.not_mem_nil

theorem ext {left right : Table α} (entries : left.entries = right.entries)
    (clock : left.clock = right.clock) : left = right := by
  cases left
  cases right
  cases entries
  cases clock
  rfl

theorem unique {table : Table α} {left right : α} (first : left ∈ table) (second : right ∈ table)
    (same : key left = key right) : left = right :=
  List.inj_on_of_nodup_map table.distinct first second same

theorem bound {table : Table α} {entry : α} (member : entry ∈ table) :
    version entry ≤ table.clock :=
  table.bounded entry member

theorem stamp_of_mem {table : Table α} {entry : α} (member : entry ∈ table) :
    stamp (version entry) entry = entry :=
  table.stored entry member

/-- A list request: the entries that satisfy a selector, in the order of the keys. -/
def select (table : Table α) (selects : α → Bool) : List α :=
  table.entries.filter selects

section Lookup

variable [DecidableEq κ]

def find? (table : Table α) (wanted : κ) : Option α :=
  table.entries.find? fun entry => decide (key entry = wanted)

theorem find?_eq_some {table : Table α} {wanted : κ} {entry : α} :
    table.find? wanted = some entry ↔ entry ∈ table ∧ key entry = wanted := by
  constructor
  · intro found
    exact ⟨List.mem_of_find?_eq_some found, by simpa using List.find?_some found⟩
  · rintro ⟨member, rfl⟩
    cases found : table.find? (key entry) with
    | none =>
      have missing := List.find?_eq_none.mp found entry member
      simp at missing
    | some other =>
      have same : key other = key entry := by simpa using List.find?_some found
      rw [unique (List.mem_of_find?_eq_some found) member same]

theorem find?_eq_none {table : Table α} {wanted : κ} :
    table.find? wanted = none ↔ ∀ entry ∈ table, key entry ≠ wanted := by
  simp [find?, List.find?_eq_none, mem_def]

theorem find?_of_mem {table : Table α} {entry : α} (member : entry ∈ table) :
    table.find? (key entry) = some entry :=
  find?_eq_some.mpr ⟨member, rfl⟩

end Lookup

theorem mem_select {table : Table α} {selects : α → Bool} {entry : α} :
    entry ∈ table.select selects ↔ entry ∈ table ∧ selects entry = true := by
  simp [select, mem_def]

theorem nodup_select (table : Table α) (selects : α → Bool) : (table.select selects).Nodup :=
  (List.Nodup.of_map _ table.distinct).filter _

theorem select_eq_nil {table : Table α} {selects : α → Bool} :
    table.select selects = [] ↔ ∀ entry ∈ table, selects entry = false := by
  simp [select, mem_def]

/-- `entry` is the one entry that satisfies the selector. -/
def Sole (table : Table α) (selects : α → Bool) (entry : α) : Prop :=
  entry ∈ table ∧ selects entry = true ∧ ∀ other ∈ table, selects other = true → other = entry

theorem select_eq_singleton {table : Table α} {selects : α → Bool} {entry : α} :
    table.select selects = [entry] ↔ table.Sole selects entry := by
  constructor
  · intro listed
    have own : entry ∈ table.select selects := by simp [listed]
    refine ⟨(mem_select.mp own).1, (mem_select.mp own).2, ?_⟩
    intro other member selected
    have listedOther : other ∈ table.select selects := mem_select.mpr ⟨member, selected⟩
    simpa [listed] using listedOther
  · rintro ⟨member, selected, sole⟩
    refine List.perm_singleton.mp ((List.perm_ext_iff_of_nodup (nodup_select table selects)
      (List.nodup_singleton entry)).mpr ?_)
    intro other
    rw [mem_select, List.mem_singleton]
    exact ⟨fun own => sole other own.1 own.2, fun same => same ▸ ⟨member, selected⟩⟩

/-- `next` follows `table`: whatever it holds at an old version was there already. -/
structure Later (table next : Table α) : Prop where
  clock : table.clock ≤ next.clock
  old : ∀ entry ∈ next, version entry ≤ table.clock → entry ∈ table

theorem Later.refl (table : Table α) : table.Later table :=
  ⟨Nat.le_refl _, fun _ member _ => member⟩

theorem Later.trans {first second third : Table α} (earlier : first.Later second)
    (later : second.Later third) : first.Later third where
  clock := Nat.le_trans earlier.clock later.clock
  old := fun entry member aged =>
    earlier.old entry (later.old entry member (Nat.le_trans aged earlier.clock)) aged

/-- An object read at its version is still the stored one while that version is. -/
theorem Later.same {table next : Table α} (later : table.Later next) {held entry : α}
    (read : held ∈ table) (member : entry ∈ next) (sameKey : key entry = key held)
    (sameVersion : version entry = version held) : entry = held :=
  unique (later.old entry member (sameVersion ▸ bound read)) read sameKey

/-- `held` was read from this table or from one that it follows. -/
def Seen (table : Table α) (held : α) : Prop :=
  ∃ past : Table α, held ∈ past ∧ past.Later table

theorem Seen.of_mem {table : Table α} {held : α} (member : held ∈ table) : table.Seen held :=
  ⟨table, member, Later.refl table⟩

theorem Seen.later {table next : Table α} {held : α} (seen : table.Seen held)
    (later : table.Later next) : next.Seen held := by
  obtain ⟨past, read, earlier⟩ := seen
  exact ⟨past, read, earlier.trans later⟩

theorem Seen.same {table : Table α} {held entry : α} (seen : table.Seen held) (member : entry ∈ table)
    (sameKey : key entry = key held) (sameVersion : version entry = version held) : entry = held := by
  obtain ⟨past, read, later⟩ := seen
  exact later.same read member sameKey sameVersion

/-- An object that is not stored any more does not come back. -/
theorem Seen.gone {table next : Table α} {held : α} (seen : table.Seen held) (later : table.Later next)
    (gone : held ∉ table) : held ∉ next := by
  obtain ⟨past, read, earlier⟩ := seen
  exact fun member => gone (later.old held member (Nat.le_trans (bound read) earlier.clock))

/-- `sent` was accepted and is now stored as `answer`. -/
structure Written (table : Table α) (sent answer : α) (next : Table α) : Prop where
  later : table.Later next
  answered : answer = stamp (version answer) sent
  members : ∀ entry, entry ∈ next ↔ entry = answer ∨ entry ∈ table ∧ key entry ≠ key sent

namespace Written

variable {table next : Table α} {sent answer : α}

theorem key_eq (written : table.Written sent answer next) : key answer = key sent := by
  rw [written.answered, key_stamp]

theorem mem (written : table.Written sent answer next) : answer ∈ next :=
  (written.members answer).mpr (Or.inl rfl)

theorem mem_of_ne (written : table.Written sent answer next) {entry : α} (member : entry ∈ table)
    (other : key entry ≠ key sent) : entry ∈ next :=
  (written.members entry).mpr (Or.inr ⟨member, other⟩)

end Written

/-- Both tables hold objects under the same keys, each related to the one it follows. -/
structure Evolves (related : α → α → Prop) (table next : Table α) : Prop where
  forth : ∀ entry ∈ table, ∃ after ∈ next, key after = key entry ∧ related entry after
  back : ∀ after ∈ next, ∃ entry ∈ table, key after = key entry ∧ related entry after

section Evolves

variable {related : α → α → Prop} {table next : Table α}

theorem Evolves.refl (reflexive : ∀ entry, related entry entry) (table : Table α) :
    table.Evolves related table :=
  ⟨fun entry member => ⟨entry, member, rfl, reflexive entry⟩,
    fun entry member => ⟨entry, member, rfl, reflexive entry⟩⟩

theorem Evolves.trans {first second third : Table α}
    (transitive : ∀ {one two three}, related one two → related two three → related one three)
    (earlier : first.Evolves related second) (later : second.Evolves related third) :
    first.Evolves related third where
  forth := by
    intro entry member
    obtain ⟨middle, present, same, before⟩ := earlier.forth entry member
    obtain ⟨after, stored, again, since⟩ := later.forth middle present
    exact ⟨after, stored, again.trans same, transitive before since⟩
  back := by
    intro after stored
    obtain ⟨middle, present, again, since⟩ := later.back after stored
    obtain ⟨entry, member, same, before⟩ := earlier.back middle present
    exact ⟨entry, member, again.trans same, transitive before since⟩

theorem Written.evolves {sent answer stored : α} (written : table.Written sent answer next)
    (reflexive : ∀ entry, related entry entry) (member : stored ∈ table) (same : key stored = key sent)
    (relation : related stored answer) : table.Evolves related next where
  forth := by
    intro entry present
    by_cases own : key entry = key sent
    · obtain rfl : entry = stored := unique present member (own.trans same.symm)
      exact ⟨answer, written.mem, written.key_eq.trans own.symm, relation⟩
    · exact ⟨entry, written.mem_of_ne present own, rfl, reflexive entry⟩
  back := by
    intro after present
    rcases (written.members after).mp present with rfl | ⟨was, _⟩
    · exact ⟨stored, member, written.key_eq.trans same.symm, relation⟩
    · exact ⟨after, was, rfl, reflexive after⟩

end Evolves

variable [DecidableEq κ]

def replace (table : Table α) (object : α) : Table α where
  entries := table.entries.map fun entry =>
    if key entry = key object then stamp (table.clock + 1) object else entry
  clock := table.clock + 1
  distinct := by
    have same : (table.entries.map fun entry =>
        if key entry = key object then stamp (table.clock + 1) object else entry).map key =
          table.entries.map key := by
      rw [List.map_map]
      refine List.map_congr_left fun entry _ => ?_
      simp only [Function.comp_apply]
      split
      · simp [*]
      · rfl
    rw [same]
    exact table.distinct
  bounded := by
    intro entry member
    obtain ⟨old, present, rfl⟩ := List.mem_map.mp member
    split
    · simp
    · exact Nat.le_succ_of_le (table.bounded old present)
  stored := by
    intro entry member
    obtain ⟨old, present, rfl⟩ := List.mem_map.mp member
    split
    · simp
    · exact table.stored old present

/-- Add an object whose key is free. -/
def insert (table : Table α) (object : α) (free : table.find? (key object) = none) : Table α where
  entries := table.entries.orderedInsert (fun left right => before left right = true)
    (stamp (table.clock + 1) object)
  clock := table.clock + 1
  distinct := by
    rw [((List.perm_orderedInsert _ _ _).map key).nodup_iff, List.map_cons, List.nodup_cons,
      key_stamp]
    refine ⟨?_, table.distinct⟩
    intro taken
    obtain ⟨entry, member, same⟩ := List.mem_map.mp taken
    exact find?_eq_none.mp free entry member same
  bounded := by
    intro entry member
    rcases (List.mem_orderedInsert _).mp member with rfl | present
    · simp
    · exact Nat.le_succ_of_le (table.bounded entry present)
  stored := by
    intro entry member
    rcases (List.mem_orderedInsert _).mp member with rfl | present
    · simp
    · exact table.stored entry present

def erase (table : Table α) (wanted : κ) : Table α where
  entries := table.entries.filter fun entry => decide (key entry ≠ wanted)
  clock := table.clock + 1
  distinct := (List.filter_sublist.map key).nodup table.distinct
  bounded := fun entry member =>
    Nat.le_succ_of_le (table.bounded entry (List.mem_of_mem_filter member))
  stored := fun entry member => table.stored entry (List.mem_of_mem_filter member)

def create (table : Table α) (object : α) : Except Refusal (α × Table α) :=
  match free : table.find? (key object) with
  | some _ => .error .alreadyExists
  | none => .ok (stamp (table.clock + 1) object, table.insert object free)

/-- An update request. An update that changes nothing is answered without a write. -/
def update [DecidableEq α] (table : Table α) (object : α) : Except Refusal (α × Table α) :=
  match table.find? (key object) with
  | none => .error .notFound
  | some entry =>
    if version entry ≠ version object then .error .conflict
    else if stamp (version entry) object = entry then .ok (entry, table)
    else .ok (stamp (table.clock + 1) object, table.replace object)

def delete (table : Table α) (wanted : κ) : Except Refusal (Table α) :=
  match table.find? wanted with
  | none => .error .notFound
  | some _ => .ok (table.erase wanted)

theorem Written.find? {table next : Table α} {sent answer : α} (written : table.Written sent answer next)
    (wanted : κ) : next.find? wanted = if wanted = key sent then some answer else table.find? wanted := by
  split
  · rename_i same
    exact find?_eq_some.mpr ⟨written.mem, written.key_eq.trans same.symm⟩
  · rename_i different
    cases found : table.find? wanted with
    | none =>
      refine find?_eq_none.mpr fun entry member same => ?_
      rcases (written.members entry).mp member with rfl | ⟨was, _⟩
      · exact different (same.symm.trans written.key_eq)
      · exact find?_eq_none.mp found entry was same
    | some entry =>
      obtain ⟨member, same⟩ := find?_eq_some.mp found
      exact find?_eq_some.mpr ⟨written.mem_of_ne member (same ▸ different), same⟩

theorem mem_replace {table : Table α} {object entry : α} (taken : ∃ old ∈ table, key old = key object) :
    entry ∈ table.replace object ↔
      entry = stamp (table.clock + 1) object ∨ entry ∈ table ∧ key entry ≠ key object := by
  constructor
  · intro member
    obtain ⟨old, present, rfl⟩ := List.mem_map.mp member
    split
    · exact Or.inl rfl
    · exact Or.inr ⟨present, by assumption⟩
  · rintro (rfl | ⟨member, other⟩)
    · obtain ⟨old, present, same⟩ := taken
      exact List.mem_map.mpr ⟨old, present, by simp [same]⟩
    · exact List.mem_map.mpr ⟨entry, member, by simp [other]⟩

theorem mem_insert {table : Table α} {object entry : α}
    {free : table.find? (key object) = none} :
    entry ∈ table.insert object free ↔
      entry = stamp (table.clock + 1) object ∨ entry ∈ table :=
  List.mem_orderedInsert _

theorem mem_erase {table : Table α} {wanted : κ} {entry : α} :
    entry ∈ table.erase wanted ↔ entry ∈ table ∧ key entry ≠ wanted := by
  simp [erase, mem_def]

/-- A write that the selector does not notice leaves one entry selected. -/
theorem Sole.rewrite {table next : Table α} {selects : α → Bool} {holder old sent answer : α}
    (sole : table.Sole selects holder) (written : table.Written sent answer next)
    (member : old ∈ table) (sameKey : key sent = key old) (same : selects answer = selects old) :
    ∃ after, next.Sole selects after ∧
      (holder = old ∧ after = answer ∨ key holder ≠ key old ∧ after = holder) := by
  by_cases own : key holder = key old
  · have equal : holder = old := unique sole.1 member own
    subst equal
    refine ⟨answer, ⟨written.mem, same.trans sole.2.1, ?_⟩, Or.inl ⟨rfl, rfl⟩⟩
    intro entry present selected
    rcases (written.members entry).mp present with equal | ⟨was, different⟩
    · exact equal
    · exact absurd (sameKey ▸ congrArg key (sole.2.2 entry was selected)) different
  · refine ⟨holder, ⟨written.mem_of_ne sole.1 (sameKey ▸ own), sole.2.1, ?_⟩, Or.inr ⟨own, rfl⟩⟩
    intro entry present selected
    rcases (written.members entry).mp present with rfl | ⟨was, _⟩
    · have equal := sole.2.2 old member (same ▸ selected)
      exact absurd (congrArg key equal.symm) own
    · exact sole.2.2 entry was selected

theorem create_cases (table : Table α) (sent : α) :
    (table.create sent = .error .alreadyExists ∧ ∃ entry ∈ table, key entry = key sent) ∨
    ∃ answer next, table.create sent = .ok (answer, next) ∧ table.Written sent answer next ∧
      ∀ entry ∈ table, key entry ≠ key sent := by
  unfold create
  split
  · rename_i entry found
    obtain ⟨member, same⟩ := find?_eq_some.mp found
    exact Or.inl ⟨rfl, entry, member, same⟩
  · rename_i free
    have other := find?_eq_none.mp free
    refine Or.inr ⟨_, _, rfl, ⟨⟨Nat.le_succ _, ?_⟩, by simp, ?_⟩, other⟩
    · intro entry member aged
      rcases mem_insert.mp member with rfl | present
      · rw [version_stamp] at aged
        omega
      · exact present
    · intro entry
      rw [mem_insert]
      refine or_congr_right ⟨fun present => ⟨present, other entry present⟩, And.left⟩

theorem create_of_free {table : Table α} {sent : α} (free : ∀ entry ∈ table, key entry ≠ key sent) :
    ∃ answer next, table.create sent = .ok (answer, next) ∧ table.Written sent answer next := by
  rcases create_cases table sent with
    ⟨_, entry, member, same⟩ | ⟨answer, next, created, written, _⟩
  · exact absurd same (free entry member)
  · exact ⟨answer, next, created, written⟩

theorem written_of_create {table next : Table α} {sent answer : α}
    (created : table.create sent = .ok (answer, next)) : table.Written sent answer next := by
  rcases create_cases table sent with ⟨refused, _⟩ | ⟨_, _, accepted, written, _⟩
  · simp [refused] at created
  · rw [accepted, Except.ok.injEq, Prod.mk.injEq] at created
    obtain ⟨rfl, rfl⟩ := created
    exact written

theorem free_of_create {table next : Table α} {sent answer : α}
    (created : table.create sent = .ok (answer, next)) : ∀ entry ∈ table, key entry ≠ key sent := by
  rcases create_cases table sent with ⟨refused, _⟩ | ⟨_, _, _, _, free⟩
  · simp [refused] at created
  · exact free

section Update

variable [DecidableEq α]

/-- What an update can do: it is refused, or it was made from the stored version. -/
theorem update_cases (table : Table α) (sent : α) :
    (table.update sent = .error .notFound ∧ ∀ entry ∈ table, key entry ≠ key sent) ∨
    (∃ entry ∈ table, key entry = key sent ∧
      ((table.update sent = .error .conflict ∧ version entry ≠ version sent) ∨
        version entry = version sent ∧ ∃ answer next,
          table.update sent = .ok (answer, next) ∧ table.Written sent answer next)) := by
  unfold update
  split
  · rename_i free
    exact Or.inl ⟨rfl, find?_eq_none.mp free⟩
  · rename_i entry found
    obtain ⟨member, same⟩ := find?_eq_some.mp found
    refine Or.inr ⟨entry, member, same, ?_⟩
    split
    · rename_i moved
      exact Or.inl ⟨rfl, moved⟩
    · rename_i current
      refine Or.inr ⟨not_not.mp current, ?_⟩
      split
      · rename_i unchanged
        refine ⟨_, _, rfl, Later.refl table, unchanged.symm, ?_⟩
        intro other
        constructor
        · intro present
          by_cases equal : key other = key sent
          · exact Or.inl (unique present member (equal.trans same.symm))
          · exact Or.inr ⟨present, equal⟩
        · rintro (rfl | ⟨present, _⟩)
          · exact member
          · exact present
      · refine ⟨_, _, rfl, ⟨Nat.le_succ _, ?_⟩, by simp, fun other => mem_replace ⟨entry, member, same⟩⟩
        intro other present aged
        rcases (mem_replace ⟨entry, member, same⟩).mp present with rfl | ⟨old, _⟩
        · rw [version_stamp] at aged
          omega
        · exact old

theorem written_of_update {table next : Table α} {sent answer : α}
    (updated : table.update sent = .ok (answer, next)) :
    (∃ entry ∈ table, key entry = key sent ∧ version entry = version sent) ∧
      table.Written sent answer next := by
  rcases update_cases table sent with
    ⟨refused, _⟩ | ⟨entry, member, same, ⟨refused, _⟩ | ⟨current, _, _, accepted, written⟩⟩
  · simp [refused] at updated
  · simp [refused] at updated
  · rw [accepted, Except.ok.injEq, Prod.mk.injEq] at updated
    obtain ⟨rfl, rfl⟩ := updated
    exact ⟨⟨entry, member, same, current⟩, written⟩

/-- An update that is accepted on the strength of what has been read meets just that. -/
theorem Seen.update {table next : Table α} {held sent answer : α} (seen : table.Seen held)
    (sameKey : key sent = key held) (sameVersion : version sent = version held)
    (updated : table.update sent = .ok (answer, next)) : held ∈ table ∧ table.Written sent answer next := by
  obtain ⟨⟨entry, member, entryKey, entryVersion⟩, written⟩ := written_of_update updated
  obtain rfl : entry = held := seen.same member (entryKey.trans sameKey) (entryVersion.trans sameVersion)
  exact ⟨member, written⟩

theorem update_of_current {table : Table α} {entry : α} (sent : α) (member : entry ∈ table)
    (same : key entry = key sent) (current : version entry = version sent) :
    ∃ answer next, table.update sent = .ok (answer, next) ∧ table.Written sent answer next := by
  rcases update_cases table sent with
    ⟨_, free⟩ | ⟨other, present, sameOther, ⟨_, moved⟩ | ⟨_, accepted⟩⟩
  · exact absurd same (free entry member)
  · rw [unique member present (same.trans sameOther.symm)] at current
    exact absurd current moved
  · exact accepted

/-- An update made from another version than the stored one is refused. -/
theorem update_of_stale {table : Table α} {entry : α} (sent : α) (member : entry ∈ table)
    (same : key entry = key sent) (stale : version entry ≠ version sent) :
    table.update sent = .error .conflict := by
  simp [update, find?_eq_some.mpr ⟨member, same⟩, stale]

/-- An update that changes something is stored at a new version. -/
theorem update_of_changed {table : Table α} {entry sent : α} (member : entry ∈ table)
    (same : key entry = key sent) (current : version entry = version sent)
    (changed : stamp (version entry) sent ≠ entry) :
    ∃ answer next, table.update sent = .ok (answer, next) ∧ table.Written sent answer next ∧
      table.clock < version answer := by
  obtain ⟨answer, next, accepted, written⟩ := update_of_current sent member same current
  refine ⟨answer, next, accepted, written, ?_⟩
  simp only [update, find?_eq_some.mpr ⟨member, same⟩, current, ne_eq, not_true_eq_false, if_false] at accepted
  rw [if_neg (current ▸ changed), Except.ok.injEq, Prod.mk.injEq] at accepted
  rw [← accepted.1, version_stamp]
  exact Nat.lt_succ_self _

/-- Sending back a stored object writes nothing. -/
theorem update_self {table : Table α} {entry : α} (member : entry ∈ table) :
    table.update entry = .ok (entry, table) := by
  simp [update, find?_of_mem member, stamp_of_mem member]

end Update

theorem delete_cases (table : Table α) (wanted : κ) :
    (table.delete wanted = .error .notFound ∧ ∀ entry ∈ table, key entry ≠ wanted) ∨
    ∃ next, table.delete wanted = .ok next ∧ table.Later next ∧
      ∀ entry, entry ∈ next ↔ entry ∈ table ∧ key entry ≠ wanted := by
  unfold delete
  split
  · rename_i free
    exact Or.inl ⟨rfl, find?_eq_none.mp free⟩
  · refine Or.inr ⟨_, rfl, ⟨Nat.le_succ _, fun entry member _ => (mem_erase.mp member).1⟩,
      fun entry => mem_erase⟩

end Table

end Configurator
