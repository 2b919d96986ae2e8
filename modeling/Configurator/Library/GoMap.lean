import Mathlib.Data.Finmap

/-! Go's `map[string]V`, with the nil map kept apart from the empty one: both
read as empty, assigning into the nil map panics, and JSON's `omitempty` turns an
empty map into a nil one. -/
namespace Configurator

/-- A Go map: nil, or a map made by `make` or by a decoder. -/
inductive GoMap (V : Type) where
  | nil
  | make (entries : Finmap (fun _ : String => V))

namespace GoMap

variable {V : Type}

instance [DecidableEq V] : DecidableEq (GoMap V)
  | .nil, .nil => .isTrue rfl
  | .nil, .make _ => .isFalse nofun
  | .make _, .nil => .isFalse nofun
  | .make left, .make right => decidable_of_iff (left = right) (by simp)

def lookup : GoMap V → String → Option V
  | .nil, _ => none
  | .make entries, key => entries.lookup key

/-- `m[key]` with the zero value of a string for an absent key. -/
def index (map : GoMap String) (key : String) : String :=
  (map.lookup key).getD ""

/-- `len(m) == 0`. -/
def isEmpty : GoMap V → Bool
  | .nil => true
  | .make entries => Multiset.card entries.entries == 0

/-- `m[key] = value`; `none` is the panic of a nil map. -/
def assign? : GoMap V → String → V → Option (GoMap V)
  | .nil, _, _ => none
  | .make entries, key, value => some (.make (entries.insert key value))

/-- `m[key] = value` on a map that is made first when it is nil. -/
def put : GoMap V → String → V → GoMap V
  | .nil, key, value => .make (Finmap.insert key value ∅)
  | .make entries, key, value => .make (entries.insert key value)

/-- `delete(m, key)`, which a nil map ignores. -/
def delete : GoMap V → String → GoMap V
  | .nil, _ => .nil
  | .make entries, key => .make (entries.erase key)

/-- The entries a `range` loop goes over. -/
def entries : GoMap V → Finmap (fun _ : String => V)
  | .nil => ∅
  | .make entries => entries

/-- `for k, v := range upper { base[k] = v }` on a copy of `base`. -/
def overlay : GoMap V → GoMap V → GoMap V
  | .nil, base => base
  | .make upper, base => .make (upper ∪ base.entries)

/-- A map with the same keys and each value converted. -/
def mapValues {W : Type} (convert : V → W) : GoMap V → GoMap W
  | .nil => .nil
  | .make entries => .make
    { entries := entries.entries.map fun entry => ⟨entry.1, convert entry.2⟩
      nodupKeys := by
        rw [← Multiset.nodup_keys, Multiset.keys, Multiset.map_map]
        exact Multiset.nodup_keys.mpr entries.nodupKeys }

/-- A made map with the entries whose key passes. -/
def restrict (map : GoMap V) (keeps : String → Bool) : GoMap V :=
  .make
    { entries := map.entries.entries.filter fun entry => keeps entry.1
      nodupKeys := by
        have distinct := Multiset.nodup_keys.mpr map.entries.nodupKeys
        refine Multiset.nodup_keys.mp (Multiset.nodup_of_le ?_ distinct)
        exact Multiset.map_le_map (Multiset.filter_le _ _) }

/-- What a map becomes when it is stored under `omitempty` and read back. -/
def omitEmpty (map : GoMap V) : GoMap V :=
  if map.isEmpty then .nil else map

@[simp] theorem lookup_nil (key : String) : (nil : GoMap V).lookup key = none := rfl

@[simp] theorem index_nil (key : String) : nil.index key = "" := rfl

@[simp] theorem overlay_nil (base : GoMap V) : nil.overlay base = base := rfl

@[simp] theorem mapValues_nil {W : Type} (convert : V → W) : nil.mapValues convert = nil := rfl

theorem isEmpty_iff {map : GoMap V} : map.isEmpty = true ↔ ∀ key, map.lookup key = none := by
  cases map with
  | nil => simp [isEmpty]
  | make entries =>
    constructor
    · intro empty key
      have none : entries.entries = 0 := by simpa [isEmpty] using empty
      have same : entries = ∅ := Finmap.ext none
      simp [lookup, same]
    · intro absent
      have same : entries = ∅ := Finmap.ext_lookup (by simpa [lookup] using absent)
      subst same
      rfl

@[simp] theorem lookup_put (map : GoMap V) (key other : String) (value : V) :
    (map.put key value).lookup other = if other = key then some value else map.lookup other := by
  by_cases same : other = key
  · subst same
    cases map <;> simp [put, lookup]
  · cases map <;> simp [put, lookup, same]

@[simp] theorem lookup_delete (map : GoMap V) (key other : String) :
    (map.delete key).lookup other = if other = key then none else map.lookup other := by
  by_cases same : other = key
  · subst same
    cases map <;> simp [delete, lookup]
  · cases map <;> simp [delete, lookup, same]

@[simp] theorem lookup_omitEmpty (map : GoMap V) (key : String) :
    map.omitEmpty.lookup key = map.lookup key := by
  unfold omitEmpty
  split
  · rename_i empty
    simp [isEmpty_iff.mp empty key]
  · rfl

@[simp] theorem omitEmpty_omitEmpty (map : GoMap V) : map.omitEmpty.omitEmpty = map.omitEmpty := by
  unfold omitEmpty
  split <;> simp_all [isEmpty]

theorem omitEmpty_congr {left right : GoMap V} (same : ∀ key, left.lookup key = right.lookup key) :
    left.omitEmpty = right.omitEmpty := by
  by_cases empty : left.isEmpty = true
  · have other : right.isEmpty = true :=
      isEmpty_iff.mpr fun key => (same key).symm.trans (isEmpty_iff.mp empty key)
    simp [omitEmpty, empty, other]
  · have other : ¬ right.isEmpty = true := fun none =>
      empty (isEmpty_iff.mpr fun key => (same key).trans (isEmpty_iff.mp none key))
    cases left with
    | nil => exact absurd rfl empty
    | make first =>
      cases right with
      | nil => exact absurd rfl other
      | make second =>
        have equal : first = second := Finmap.ext_lookup same
        rw [equal]

@[simp] theorem isEmpty_omitEmpty (map : GoMap V) : map.omitEmpty.isEmpty = map.isEmpty := by
  unfold omitEmpty
  split
  · rename_i empty
    exact empty.symm
  · rfl

theorem omitEmpty_of_not_isEmpty {map : GoMap V} (filled : map.isEmpty = false) :
    map.omitEmpty = map := by
  simp [omitEmpty, filled]

/-- A map with entries is told from the stored form of another one as from the map itself. -/
theorem omitEmpty_eq_iff {map filled : GoMap V} (entries : filled.isEmpty = false) :
    map.omitEmpty = filled ↔ map = filled := by
  constructor
  · intro same
    have inside : map.isEmpty = false := by rw [← isEmpty_omitEmpty, same, entries]
    rwa [omitEmpty_of_not_isEmpty inside] at same
  · intro same
    rw [same, omitEmpty_of_not_isEmpty entries]

/-- A stored map is nil exactly when it has no entry. -/
theorem omitEmpty_ne_nil {map : GoMap V} : map.omitEmpty ≠ nil ↔ map.isEmpty = false := by
  unfold omitEmpty
  split
  · simp [*]
  · rename_i filled
    simp only [Bool.not_eq_true] at filled
    simp only [filled, iff_true]
    rintro rfl
    cases filled

@[simp] theorem lookup_overlay (upper base : GoMap V) (key : String) :
    (upper.overlay base).lookup key = (upper.lookup key).or (base.lookup key) := by
  cases upper with
  | nil => rfl
  | make entries =>
    have below : base.entries.lookup key = base.lookup key := by cases base <;> rfl
    show (entries ∪ base.entries).lookup key = _
    rw [← below]
    by_cases present : key ∈ entries
    · obtain ⟨value, found⟩ := Finmap.mem_iff.mp present
      rw [Finmap.lookup_union_left present]
      simp [lookup, found]
    · rw [Finmap.lookup_union_right present]
      simp [lookup, Finmap.lookup_eq_none.mpr present]

@[simp] theorem lookup_restrict (map : GoMap V) (keeps : String → Bool) (key : String) :
    (map.restrict keeps).lookup key = if keeps key = true then map.lookup key else none := by
  have found : map.lookup key = map.entries.lookup key := by
    cases map <;> rfl
  apply Option.ext
  intro value
  rw [restrict, lookup, Finmap.lookup_eq_some_iff, Multiset.mem_filter, ← Finmap.lookup_eq_some_iff, ← found]
  split
  · rename_i kept
    simp [kept]
  · rename_i dropped
    simp [dropped]

theorem overlay_empty (map : GoMap V) : (map.overlay (.make ∅)).omitEmpty = map.omitEmpty := by
  refine omitEmpty_congr fun key => ?_
  cases map <;> simp [overlay, entries, lookup]

@[simp] theorem index_put (map : GoMap String) (key other value : String) :
    (map.put key value).index other = if other = key then value else map.index other := by
  simp only [index, lookup_put]
  split <;> rfl

@[simp] theorem index_delete (map : GoMap String) (key other : String) :
    (map.delete key).index other = if other = key then "" else map.index other := by
  simp only [index, lookup_delete]
  split <;> rfl

@[simp] theorem index_omitEmpty (map : GoMap String) (key : String) :
    map.omitEmpty.index key = map.index key := by
  simp [index]

theorem assign?_eq_some {map : GoMap V} (made : map ≠ nil) (key : String) (value : V) :
    map.assign? key value = some (map.put key value) := by
  cases map with
  | nil => exact absurd rfl made
  | make entries => rfl

theorem eq_put_of_assign? {map next : GoMap V} {key : String} {value : V}
    (assigned : map.assign? key value = some next) : next = map.put key value := by
  cases map with
  | nil => cases assigned
  | make entries => exact (Option.some.inj assigned).symm

theorem put_of_lookup {map : GoMap V} {key : String} {value : V} (present : map.lookup key = some value) :
    map.put key value = map := by
  cases map with
  | nil => cases present
  | make entries =>
    refine congrArg GoMap.make (Finmap.ext_lookup fun other => ?_)
    by_cases same : other = key
    · subst same
      rw [Finmap.lookup_insert]
      exact present.symm
    · rw [Finmap.lookup_insert_of_ne _ same]

theorem put_comm {map : GoMap V} {first second : String} (apart : first ≠ second) (one other : V) :
    (map.put first one).put second other = (map.put second other).put first one := by
  cases map <;> exact congrArg GoMap.make (Finmap.insert_insert_of_ne _ apart)

theorem delete_of_lookup {map : GoMap V} {key : String} (absent : map.lookup key = none) :
    map.delete key = map := by
  cases map with
  | nil => rfl
  | make entries =>
    refine congrArg GoMap.make (Finmap.ext_lookup fun other => ?_)
    by_cases same : other = key
    · subst same
      rw [Finmap.lookup_erase]
      exact absent.symm
    · rw [Finmap.lookup_erase_ne same]

theorem ne_nil_of_lookup {map : GoMap V} {key : String} {value : V}
    (found : map.lookup key = some value) : map ≠ nil := by
  rintro rfl
  cases found

theorem ne_nil_of_index {map : GoMap String} {key : String} (present : map.index key ≠ "") :
    map ≠ nil := by
  rintro rfl
  exact present rfl

@[simp] theorem put_ne_nil (map : GoMap V) (key : String) (value : V) :
    map.put key value ≠ nil := by
  cases map <;> simp [put]

end GoMap

end Configurator
