import Configurator.Library.GoMap
import Configurator.Library.Table

/-! A change of the stored objects that the store itself does not notice: requests on the changed store are
answered by the changed objects. Renaming the keys of a map is one. -/
namespace Configurator

open Resource

namespace GoMap

variable {V : Type} (names : String ≃ String)

/-- The map with each key renamed. -/
def rename : GoMap V → GoMap V
  | .nil => .nil
  | .make entries => .make
    { entries := entries.entries.map fun entry => ⟨names entry.1, entry.2⟩
      nodupKeys := by
        rw [← Multiset.nodup_keys, Multiset.keys, Multiset.map_map]
        have distinct := (Multiset.nodup_keys.mpr entries.nodupKeys).map names.injective
        rwa [Multiset.keys, Multiset.map_map] at distinct }

@[simp] theorem lookup_rename (map : GoMap V) (key : String) :
    (map.rename names).lookup key = map.lookup (names.symm key) := by
  cases map with
  | nil => rfl
  | make entries =>
    apply Option.ext
    intro value
    rw [rename, lookup, lookup, Finmap.lookup_eq_some_iff, Finmap.lookup_eq_some_iff, Multiset.mem_map]
    constructor
    · rintro ⟨entry, member, same⟩
      cases same
      rw [Equiv.symm_apply_apply]
      exact member
    · intro member
      exact ⟨⟨names.symm key, value⟩, member, by rw [Equiv.apply_symm_apply]⟩

@[simp] theorem index_rename (map : GoMap String) (key : String) :
    (map.rename names).index key = map.index (names.symm key) := by
  rw [index, lookup_rename, index]

@[simp] theorem isEmpty_rename (map : GoMap V) : (map.rename names).isEmpty = map.isEmpty := by
  cases map with
  | nil => rfl
  | make entries => simp [rename, isEmpty]

theorem omitEmpty_rename (map : GoMap V) : (map.rename names).omitEmpty = map.omitEmpty.rename names := by
  rw [omitEmpty, isEmpty_rename, omitEmpty]
  split <;> rfl

theorem ext_of_ne_nil {left right : GoMap V} (first : left ≠ nil) (second : right ≠ nil)
    (same : ∀ key, left.lookup key = right.lookup key) : left = right := by
  cases left with
  | nil => exact absurd rfl first
  | make one =>
    cases right with
    | nil => exact absurd rfl second
    | make other => exact congrArg GoMap.make (Finmap.ext_lookup same)

theorem rename_eq_nil {map : GoMap V} : map.rename names = nil ↔ map = nil := by
  cases map with
  | nil => exact iff_of_true rfl rfl
  | make => simp [rename]

theorem rename_injective : Function.Injective (rename names : GoMap V → GoMap V) := by
  intro left right same
  by_cases nothing : left = nil
  · rw [nothing, rename, eq_comm, rename_eq_nil] at same
    rw [nothing, same]
  · have something : right ≠ nil := by
      intro none
      rw [none, rename, rename_eq_nil] at same
      exact nothing same
    apply ext_of_ne_nil nothing something
    intro key
    have found := congrArg (fun map => map.lookup (names key)) same
    simpa using found

theorem rename_put (map : GoMap V) (key : String) (value : V) :
    (map.put key value).rename names = (map.rename names).put (names key) value := by
  apply ext_of_ne_nil
  · rw [Ne, rename_eq_nil]
    exact put_ne_nil map key value
  · exact put_ne_nil _ _ _
  · intro other
    simp [names.symm_apply_eq]

end GoMap

/-- A change of objects that keeps what a store looks at. -/
structure Symmetry (α : Type) {κ : Type} [Resource α κ] where
  apply : α → α
  injective : Function.Injective apply
  key_apply (object : α) : key (apply object) = key object
  version_apply (object : α) : version (apply object) = version object
  stamp_apply (written : Nat) (object : α) : stamp written (apply object) = apply (stamp written object)

namespace Table

variable {α κ : Type} [Resource α κ] (symmetry : Symmetry α)

/-- The table with every object changed. -/
def changed (table : Table α) : Table α where
  entries := table.entries.map symmetry.apply
  clock := table.clock
  distinct := by
    rw [List.map_map, show key ∘ symmetry.apply = key from funext symmetry.key_apply]
    exact table.distinct
  bounded := by
    intro entry member
    obtain ⟨object, present, rfl⟩ := List.mem_map.mp member
    rw [symmetry.version_apply]
    exact table.bounded object present
  stored := by
    intro entry member
    obtain ⟨object, present, rfl⟩ := List.mem_map.mp member
    rw [symmetry.version_apply, symmetry.stamp_apply, table.stored object present]

theorem mem_changed {table : Table α} {entry : α} :
    entry ∈ table.changed symmetry ↔ ∃ object ∈ table, symmetry.apply object = entry :=
  List.mem_map

variable [DecidableEq κ]

theorem find?_changed (table : Table α) (wanted : κ) :
    (table.changed symmetry).find? wanted = (table.find? wanted).map symmetry.apply := by
  rw [find?, changed, List.find?_map, find?]
  simp only [Function.comp_def, symmetry.key_apply]

theorem replace_changed (table : Table α) (object : α) :
    (table.changed symmetry).replace (symmetry.apply object) = (table.replace object).changed symmetry := by
  apply Table.ext
  · simp only [replace, changed, List.map_map, symmetry.key_apply, symmetry.stamp_apply]
    apply List.map_congr_left
    intro entry _
    simp only [Function.comp_apply, symmetry.key_apply]
    split <;> rfl
  · rfl

theorem update_changed [DecidableEq α] (table : Table α) (object : α) :
    (table.changed symmetry).update (symmetry.apply object) =
      (table.update object).map fun result => (symmetry.apply result.1, result.2.changed symmetry) := by
  rw [update, symmetry.key_apply, find?_changed, update]
  cases table.find? (key object) with
  | none => rfl
  | some entry =>
    simp only [Option.map_some, symmetry.version_apply, symmetry.stamp_apply, symmetry.injective.eq_iff,
      replace_changed]
    split_ifs <;> rfl

end Table

end Configurator
