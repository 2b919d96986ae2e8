import Configurator.Library.JsonPatch
import Configurator.Scaling
import Mathlib.Data.Finset.Max

namespace Configurator

open Json

def GoMap.members (map : GoMap String) (key : String) : Option Json := (map.lookup key).map .text

/-- A map of strings as the API server writes it. -/
def GoMap.json (map : GoMap String) : Json := .object map.members

/-- A nil map is left out. -/
def GoMap.json? : GoMap String → Option Json
  | .nil => none
  | .make entries => some (GoMap.make entries).json

def PatchValue.json : PatchValue → Json
  | .text value => .text value
  | .map entries => .object fun key => (entries.lookup key).map .text

/-- One operation. `add` and `replace` both set a member. -/
def PatchOperation.apply (operation : PatchOperation) (document : Json) : Option Json := do
  let (parent, name) ← Pointer.parse? operation.path
  match operation.op with
  | .remove => document.modify? (remove? name) parent
  | _ => document.modify? (set? name operation.value.json) parent

def applyPatch (patch : List PatchOperation) : Json → Option Json :=
  changeAll (patch.map PatchOperation.apply)

def metadataPath : List String := ["spec", "template", "metadata"]

/-- The list has the entries of the map, each once. -/
structure Enumerates (list : List (String × String)) (map : GoMap String) : Prop where
  distinct : (list.map Prod.fst).Nodup
  entries : ∀ key value, (key, value) ∈ list ↔ map.lookup key = some value

/-- The patch makes this map of the annotations of the template and leaves the rest of the document. -/
def Annotates (patch : List PatchOperation) (document : Json) (metadata : String → Option Json)
    (map : GoMap String) : Prop :=
  applyPatch patch document =
    document.modify? (fun _ => some (.object (Function.update metadata "annotations" (some map.json)))) metadataPath

section Enumerates

variable {list : List (String × String)} {map : GoMap String}

theorem Enumerates.perm {other : List (String × String)} (enumerates : Enumerates list map) (same : list.Perm other) :
    Enumerates other map where
  distinct := (same.map Prod.fst).nodup_iff.mp enumerates.distinct
  entries key value := same.mem_iff.symm.trans (enumerates.entries key value)

theorem Enumerates.mem_keys (enumerates : Enumerates list map) {key : String} :
    key ∈ list.map Prod.fst ↔ map.lookup key ≠ none := by
  rw [List.mem_map]
  constructor
  · intro ⟨entry, member, same⟩ absent
    subst same
    rw [(enumerates.entries entry.1 entry.2).mp member] at absent
    cases absent
  · intro found
    obtain ⟨value, its⟩ := Option.ne_none_iff_exists'.mp found
    exact ⟨(key, value), (enumerates.entries key value).mpr its, rfl⟩

theorem Enumerates.eq_nil_iff (enumerates : Enumerates list map) : list = [] ↔ map.isEmpty = true := by
  rw [GoMap.isEmpty_iff]
  constructor
  · intro none key
    by_contra found
    rw [← Ne, ← enumerates.mem_keys, none] at found
    cases found
  · intro empty
    apply List.eq_nil_iff_forall_not_mem.mpr
    intro entry member
    have found := (enumerates.entries entry.1 entry.2).mp member
    rw [empty] at found
    cases found

theorem exists_enumerates (map : GoMap String) : ∃ list, Enumerates list map := by
  let list := map.entries.entries.toList.map fun entry => (entry.1, entry.2)
  have keys : list.map Prod.fst = map.entries.entries.toList.map Sigma.fst := by simp [list]
  have found : ∀ key, map.lookup key = map.entries.lookup key := by
    intro key
    cases map <;> rfl
  refine ⟨list, ?_, fun key value => ?_⟩
  · rw [keys, ← Multiset.coe_nodup, ← Multiset.map_coe, Multiset.coe_toList]
    exact Multiset.nodup_keys.mpr map.entries.nodupKeys
  · rw [found, Finmap.lookup_eq_some_iff]
    constructor
    · intro member
      obtain ⟨entry, present, same⟩ := List.mem_map.mp member
      obtain ⟨rfl, rfl⟩ := Prod.mk.inj same
      exact Multiset.mem_toList.mp present
    · intro present
      exact List.mem_map.mpr ⟨⟨key, value⟩, Multiset.mem_toList.mpr present, rfl⟩

end Enumerates

section Operations

variable {metadata annotations : String → Option Json} {document : Json} {key value : String}

/-- The name that the API server reads in the path for a key. -/
def readKey (key : String) : String := Pointer.unescape (escapeKey key)

theorem slash_notMem_escapeKey (key : String) : '/' ∉ (escapeKey key).toList := by
  rw [escapeKey, String.toList_ofList, List.mem_flatMap]
  rintro ⟨letter, _, member⟩
  split at member
  · exact absurd member (by decide)
  · rename_i other
    exact other (List.mem_singleton.mp member).symm

theorem readKey_of_absent (absent : '/' ∉ key.toList) : readKey key = Pointer.unescape key := by
  rw [readKey, escapeKey_of_plain absent]

private theorem unescapeLetters_escape {letters : List Char} (absent : '~' ∉ letters) :
    Pointer.unescapeLetters (letters.flatMap fun letter => if letter = '/' then ['~', '1'] else [letter]) =
      letters := by
  induction letters with
  | nil => rfl
  | cons letter rest ih =>
    rw [List.mem_cons, not_or] at absent
    rw [List.flatMap_cons]
    split
    · rename_i slash
      subst slash
      exact congrArg (List.cons '/') (ih absent.2)
    · rw [List.singleton_append, Pointer.unescapeLetters, ih absent.2]
      · intro tail same
        exact absurd same.symm absent.1
      · intro tail same
        exact absurd same.symm absent.1

theorem readKey_of_valid (valid : '~' ∉ key.toList) : readKey key = key := by
  rw [readKey, Pointer.unescape, escapeKey, String.toList_ofList, unescapeLetters_escape valid, String.ofList_toList]

theorem parse?_annotationPath (key : String) :
    Pointer.parse? (annotationPath key) = some (metadataPath ++ ["annotations"], readKey key) := by
  have goes : split annotationsPath '/' = "" :: "spec" :: ["template", "metadata", "annotations"] := by decide
  exact Pointer.parse?_append goes (slash_notMem_escapeKey key)

/-- `add` and `replace` of a key. -/
def annotate (entry : String × String) : Json → Option Json := set? (readKey entry.1) (.text entry.2)

theorem apply_member {operation : PatchOperation} (path : operation.path = annotationPath key)
    (kept : operation.op ≠ .remove) (text : operation.value = .text value) :
    operation.apply = modify? (annotate (key, value)) (metadataPath ++ ["annotations"]) := by
  funext document
  obtain ⟨verb, place, content⟩ := operation
  dsimp only at path kept text
  subst path text
  cases verb with
  | remove => exact absurd rfl kept
  | add | replace =>
    simp only [PatchOperation.apply, parse?_annotationPath]
    rfl

theorem apply_remove (key : String) (value : PatchValue) : (⟨.remove, annotationPath key, value⟩ :
    PatchOperation).apply = modify? (remove? (readKey key)) (metadataPath ++ ["annotations"]) := by
  funext document
  simp only [PatchOperation.apply, parse?_annotationPath]
  rfl

theorem apply_whole (entries : List (String × String)) : (⟨.add, annotationsPath, .map entries⟩ :
    PatchOperation).apply =
      modify? (set? "annotations" (.object fun key => (entries.lookup key).map .text)) metadataPath := by
  funext document
  have place : Pointer.parse? annotationsPath = some (metadataPath, "annotations") := by decide
  simp only [PatchOperation.apply, place]
  rfl

end Operations

section Outcome

variable {target added remove map : GoMap String} {ts as rs : List (String × String)}
  {metadata members : String → Option Json} {document : Json} {key : String}

def writes (entries : List (String × String)) : List (String × Json) :=
  entries.map fun entry => (readKey entry.1, .text entry.2)

/-- What the patch makes of the annotations: it begins with a map of its first new annotation where there is
none to keep. -/
def outcome (members : String → Option Json) : List (String × String) → List (String × String) →
    List (String × String) → Option (String → Option Json)
  | [], first :: rest, rs => removeAll (rs.map fun entry => readKey entry.1)
      (writeAll (writes rest) fun key => ([(escapeKey first.1, first.2)].lookup key).map .text)
  | ts, as, rs => removeAll (rs.map fun entry => readKey entry.1) (writeAll (writes (ts ++ as)) members)

private theorem changeAll_entries (entries rs : List (String × String)) (members : String → Option Json) :
    changeAll (entries.map annotate ++ rs.map fun entry => remove? (readKey entry.1)) (.object members) =
      (removeAll (rs.map fun entry => readKey entry.1) (writeAll (writes entries) members)).map .object := by
  have sets : entries.map annotate = (writes entries).map fun entry => set? entry.1 entry.2 := by
    rw [writes, List.map_map]
    rfl
  have removes : (rs.map fun entry => remove? (readKey entry.1)) =
      (rs.map fun entry => readKey entry.1).map remove? := by
    rw [List.map_map]
    rfl
  rw [changeAll_append, sets, changeAll_set, Option.bind_some, removes, changeAll_remove]

/-- The operations on single annotations are changes of the annotations' object. -/
private theorem apply_entries (verb : PatchVerb) (kept : verb ≠ .remove) (entries : List (String × String)) :
    (entries.map fun entry => (⟨verb, annotationPath entry.1, .text entry.2⟩ : PatchOperation)).map
        PatchOperation.apply =
      (entries.map annotate).map fun change => modify? change (metadataPath ++ ["annotations"]) := by
  rw [List.map_map, List.map_map]
  apply List.map_congr_left
  intro entry _
  exact apply_member rfl kept rfl

private theorem apply_removes (rs : List (String × String)) :
    (rs.map fun entry => (⟨.remove, annotationPath entry.1, .text entry.2⟩ : PatchOperation)).map
        PatchOperation.apply =
      (rs.map fun entry => remove? (readKey entry.1)).map fun change =>
        modify? change (metadataPath ++ ["annotations"]) := by
  rw [List.map_map, List.map_map]
  apply List.map_congr_left
  intro entry _
  exact apply_remove entry.1 (.text entry.2)

theorem applyPatch_outcome (there : document.get? metadataPath = some (.object metadata))
    (annotated : metadata "annotations" = map.json?) (filled : as ≠ []) (made : ts ≠ [] → map ≠ .nil) :
    (applyPatch <| updateAnnotation ts as rs) document = document.modify? (fun _ =>
      (outcome map.members ts as rs).map fun members =>
        .object (Function.update metadata "annotations" (some (.object members)))) metadataPath := by
  have within : ∀ changes : List (Json → Option Json), (changes.map fun change =>
      modify? change (metadataPath ++ ["annotations"])) =
        (changes.map fun change => modify? change ["annotations"]).map fun change => modify? change metadataPath := by
    intro changes
    rw [List.map_map]
    apply List.map_congr_left
    intro change _
    funext document
    exact modify?_append change metadataPath ["annotations"] document
  cases ts with
  | cons first rest =>
    have object : metadata "annotations" = some (.object map.members) := by
      cases map with
      | nil => exact absurd rfl (made (List.cons_ne_nil first rest))
      | make entries => exact annotated
    have patch : (List.map PatchOperation.apply <| updateAnnotation (first :: rest) as rs) =
        (((first :: rest ++ as).map annotate ++ rs.map fun entry => remove? (readKey entry.1)).map fun change =>
          modify? change ["annotations"]).map fun change => modify? change metadataPath := by
      rw [← within, updateAnnotation, List.map_append, List.map_append, apply_entries .add nofun,
        apply_entries .replace nofun, apply_removes]
      · rw [List.map_append, List.map_append, List.map_append]
      · nofun
    rw [applyPatch, patch, changeAll_modify? _ there]
    refine modify?_congr there ?_
    have inside : (Json.object metadata).get? ["annotations"] = some (.object map.members) := by
      simp [get?, object]
    rw [changeAll_modify? _ inside]
    simp only [modify?, object, Option.bind_eq_bind, Option.bind_some, changeAll_entries, outcome]
    cases removeAll (rs.map fun entry => readKey entry.1) (writeAll (writes (first :: rest ++ as)) map.members) <;> rfl
  | nil =>
    cases as with
    | nil => exact absurd rfl filled
    | cons first rest =>
      let single : String → Option Json := fun key => ([(escapeKey first.1, first.2)].lookup key).map .text
      have patch : (List.map PatchOperation.apply <| updateAnnotation [] (first :: rest) rs) =
          (set? "annotations" (.object single) ::
            (rest.map annotate ++ rs.map fun entry => remove? (readKey entry.1)).map fun change =>
              modify? change ["annotations"]).map fun change => modify? change metadataPath := by
        rw [List.map_cons, ← within, updateAnnotation, List.map_nil, List.nil_append, List.map_append,
          List.map_cons, apply_whole, apply_entries .replace nofun, apply_removes, List.map_append]
        rfl
      rw [applyPatch, patch, changeAll_modify? _ there]
      refine modify?_congr there ?_
      have inside : (Json.object (Function.update metadata "annotations" (some (.object single)))).get?
          ["annotations"] = some (.object single) := by
        simp [get?]
      rw [changeAll_cons, set?, Option.bind_some, changeAll_modify? _ inside]
      simp only [modify?, Function.update_self, Option.bind_eq_bind, Option.bind_some, changeAll_entries, outcome]
      cases removeAll (rs.map fun entry => readKey entry.1) (writeAll (writes rest) single) <;> simp [single]

theorem annotates_iff {after : GoMap String} (there : document.get? metadataPath = some (.object metadata))
    (annotated : metadata "annotations" = map.json?) (filled : as ≠ []) (made : ts ≠ [] → map ≠ .nil) :
    (Annotates <| updateAnnotation ts as rs) document metadata after ↔
      outcome map.members ts as rs = some after.members := by
  rw [Annotates, applyPatch_outcome there annotated filled made]
  constructor
  · intro same
    have equal := modify?_inj there same
    obtain ⟨members, found, object⟩ := Option.map_eq_some_iff.mp equal
    rw [found]
    have inside := congrFun (Json.object.inj object) "annotations"
    rw [Function.update_self, Function.update_self] at inside
    exact congrArg some (Json.object.inj (Option.some.inj inside))
  · intro found
    rw [found]
    rfl

end Outcome

/-- The annotations of a template, parted into those that are kept and those that are removed. -/
structure Parts (annotations target remove : GoMap String) : Prop where
  whole : ∀ key, annotations.lookup key = (target.lookup key).or (remove.lookup key)
  apart : ∀ key, target.lookup key ≠ none → remove.lookup key = none

theorem Parts.kept {annotations target remove : GoMap String} (parts : Parts annotations target remove)
    {key : String} (found : target.lookup key ≠ none) : annotations.lookup key ≠ none := by
  rw [parts.whole, Ne, Option.or_eq_none_iff]
  exact fun absent => found absent.1

theorem Parts.gone {annotations target remove : GoMap String} (parts : Parts annotations target remove)
    {key : String} (found : remove.lookup key ≠ none) : annotations.lookup key ≠ none := by
  rw [parts.whole, Ne, Option.or_eq_none_iff]
  exact fun absent => found absent.2

/-- Every new key is spelled as it is, or there is only one. -/
def SpelledOrSingle (added : GoMap String) : Prop :=
  (∀ key, added.lookup key ≠ none → Pointer.Literal key) ∨
    ∀ one other, added.lookup one ≠ none → added.lookup other ≠ none → one = other

/-- There is something to keep and every new key is spelled as it is, or there is nothing to keep or to
remove and every new key but the first is spelled as it is. -/
def Patchable (target added remove : GoMap String) : Prop :=
  target.isEmpty = false ∧ (∀ key, added.lookup key ≠ none → Pointer.Literal key) ∨
    target.isEmpty = true ∧ remove.isEmpty = true ∧ SpelledOrSingle added

section Applies

variable {annotations target added remove : GoMap String} {list ts as rs : List (String × String)}
  {members after : String → Option Json} {key : String}

theorem readKey_of_literal (absent : '/' ∉ key.toList) (literal : Pointer.Literal key) : readKey key = key :=
  (readKey_of_absent absent).trans (Pointer.unescape_eq_self.mpr literal)

private theorem keys_writes (reads : ∀ entry ∈ list, readKey entry.1 = entry.1) :
    (writes list).map Prod.fst = list.map Prod.fst := by
  rw [writes, List.map_map]
  exact List.map_congr_left reads

theorem members_writeAll {map : GoMap String} (enumerates : Enumerates list map)
    (reads : ∀ entry ∈ list, readKey entry.1 = entry.1) (members : String → Option Json) (key : String) :
    writeAll (writes list) members key = (map.members key).or (members key) := by
  have keys := keys_writes reads
  cases found : map.lookup key with
  | none =>
    have absent : key ∉ (writes list).map Prod.fst := by
      rw [keys, enumerates.mem_keys, found]
      exact fun other => other rfl
    rw [writeAll_of_notMem absent, GoMap.members, found]
    rfl
  | some value =>
    have member := (enumerates.entries key value).mpr found
    have written : (key, Json.text value) ∈ writes list := by
      refine List.mem_map.mpr ⟨(key, value), member, ?_⟩
      rw [reads _ member]
    have distinct : ((writes list).map Prod.fst).Nodup := by
      rw [keys]
      exact enumerates.distinct
    rw [writeAll_of_mem distinct written, GoMap.members, found]
    rfl

private theorem writeAll_append (first second : List (String × Json)) (members : String → Option Json) :
    writeAll (first ++ second) members = writeAll second (writeAll first members) := by
  induction first generalizing members with
  | nil => rfl
  | cons entry rest ih => exact ih _

private theorem reads_of_valid {map : GoMap String} (enumerates : Enumerates list map)
    (valid : ∀ key, map.lookup key ≠ none → '~' ∉ key.toList) : ∀ entry ∈ list, readKey entry.1 = entry.1 := by
  intro entry member
  apply readKey_of_valid
  apply valid
  rw [(enumerates.entries entry.1 entry.2).mp member]
  nofun

private theorem removeAll_entries (enumerates : Enumerates rs remove)
    (reads : ∀ entry ∈ rs, readKey entry.1 = entry.1)
    (there : ∀ key, remove.lookup key ≠ none → (members key).isSome) :
    removeAll (rs.map fun entry => readKey entry.1) members =
      some fun key => if remove.lookup key = none then members key else none := by
  have keys : (rs.map fun entry => readKey entry.1) = rs.map Prod.fst := List.map_congr_left reads
  rw [keys, removeAll_of_there enumerates.distinct fun key member => there key (enumerates.mem_keys.mp member)]
  congr 1
  funext key
  by_cases absent : remove.lookup key = none
  · have outside : key ∉ rs.map Prod.fst := fun member => enumerates.mem_keys.mp member absent
    rw [if_neg outside, if_pos absent]
  · rw [if_pos (enumerates.mem_keys.mpr absent), if_neg absent]

theorem members_overlay (key : String) :
    (added.overlay target).members key = (added.members key).or (target.members key) := by
  rw [GoMap.members, GoMap.lookup_overlay, GoMap.members, GoMap.members]
  cases added.lookup key <;> rfl

/-- With something to keep the patch sets what is kept and what is new, and removes the rest. -/
theorem outcome_kept (parts : Parts annotations target remove)
    (valid : ∀ key, annotations.lookup key ≠ none → '~' ∉ key.toList)
    (reads : ∀ entry ∈ as, readKey entry.1 = entry.1) (kept : ts ≠ []) (keeps : Enumerates ts target)
    (adds : Enumerates as added) (removes : Enumerates rs remove) :
    outcome annotations.members ts as rs =
      some fun key => if remove.lookup key = none then (added.overlay target).members key else none := by
  have readsKept := reads_of_valid keeps fun key found => valid key (parts.kept found)
  have readsGone := reads_of_valid removes fun key found => valid key (parts.gone found)
  have written : ∀ key, writeAll (writes (ts ++ as)) annotations.members key =
      (added.members key).or ((target.members key).or (annotations.members key)) := by
    intro key
    rw [writes, List.map_append, writeAll_append]
    exact (members_writeAll adds reads _ key).trans
      (congrArg _ (members_writeAll keeps readsKept annotations.members key))
  cases ts with
  | nil => exact absurd rfl kept
  | cons first rest =>
    rw [outcome, removeAll_entries removes readsGone]
    · congr 1
      funext key
      rw [members_overlay, written]
      by_cases removed : remove.lookup key = none
      · have same : annotations.members key = target.members key := by
          rw [GoMap.members, parts.whole, removed, Option.or_none]
          rfl
        rw [same, Option.or_self]
      · rw [if_neg removed, if_neg removed]
    · intro key removed
      have found : annotations.lookup key ≠ none := parts.gone removed
      rw [written, Option.isSome_or, Option.isSome_or, GoMap.members, GoMap.members, GoMap.members,
        Option.isSome_map, Option.isSome_map, Option.isSome_map, Option.isSome_iff_ne_none.mpr found]
      simp
    · nofun

/-- What is new or kept is not removed. -/
theorem members_overlay_of_apart (parts : Parts annotations target remove)
    (apart : ∀ key, added.lookup key ≠ none → remove.lookup key = none) :
    (fun key => if remove.lookup key = none then (added.overlay target).members key else none) =
      (added.overlay target).members := by
  funext key
  split
  · rfl
  · rename_i removed
    have old : target.lookup key = none := by
      by_contra found
      exact removed (parts.apart key found)
    have new : added.lookup key = none := by
      by_contra found
      exact removed (apart key found)
    rw [GoMap.members, GoMap.lookup_overlay, old, new]
    rfl

/-- With nothing to keep or to remove it begins a map with its first new annotation. -/
theorem outcome_fresh {first : String × String} {rest : List (String × String)} (bare : target.isEmpty = true)
    (nothing : remove.isEmpty = true) (adds : Enumerates (first :: rest) added)
    (unslashed : '/' ∉ first.1.toList) (reads : ∀ entry ∈ rest, readKey entry.1 = entry.1)
    (removes : Enumerates rs remove) :
    outcome members [] (first :: rest) rs = some (added.overlay target).members := by
  obtain rfl : rs = [] := removes.eq_nil_iff.mpr nothing
  rw [outcome, escapeKey_of_plain unslashed, List.map_nil, removeAll]
  congr 1
  funext key
  rw [members_overlay]
  have none : target.members key = none := by rw [GoMap.members, GoMap.isEmpty_iff.mp bare key]; rfl
  rw [none, Option.or_none]
  have distinct := adds.distinct
  rw [List.map_cons, List.nodup_cons] at distinct
  have keys := keys_writes reads
  by_cases later : key ∈ rest.map Prod.fst
  · obtain ⟨entry, member, same⟩ := List.mem_map.mp later
    subst same
    have written : (entry.1, Json.text entry.2) ∈ writes rest := by
      refine List.mem_map.mpr ⟨entry, member, ?_⟩
      rw [reads _ member]
    rw [writeAll_of_mem (keys ▸ distinct.2) written, GoMap.members,
      (adds.entries entry.1 entry.2).mp (List.mem_cons_of_mem _ member)]
    rfl
  · rw [writeAll_of_notMem (keys ▸ later)]
    by_cases same : key = first.1
    · subst same
      rw [GoMap.members, (adds.entries first.1 first.2).mp List.mem_cons_self, List.lookup_cons_self]
    · have absent : added.lookup key = Option.none := by
        by_contra found
        have member := adds.mem_keys.mpr found
        rw [List.map_cons, List.mem_cons] at member
        exact member.elim same later
      rw [GoMap.members, absent, List.lookup_cons]
      have other : (key == first.1) = false := beq_eq_false_iff_ne.mpr same
      rw [other]
      rfl

/-- A new key that is not spelled as it is, such that none of these is longer. -/
structure Longest (added : GoMap String) (key : String) : Prop where
  present : added.lookup key ≠ none
  spelled : ¬ Pointer.Literal key
  most : ∀ other, added.lookup other ≠ none → ¬ Pointer.Literal other → other.toList.length ≤ key.toList.length

theorem exists_longest (present : added.lookup key ≠ none) (spelled : ¬ Pointer.Literal key) :
    ∃ longest, Longest added longest := by
  obtain ⟨list, adds⟩ := exists_enumerates added
  let wrong := (list.map Prod.fst).toFinset.filter fun key => ¬ Pointer.Literal key
  have mem_wrong : ∀ {other}, other ∈ wrong ↔ added.lookup other ≠ none ∧ ¬ Pointer.Literal other := by
    intro other
    rw [Finset.mem_filter, List.mem_toFinset, adds.mem_keys]
  obtain ⟨longest, member, most⟩ := Finset.exists_max_image wrong (fun key => key.toList.length)
    ⟨key, mem_wrong.mpr ⟨present, spelled⟩⟩
  obtain ⟨its, other⟩ := mem_wrong.mp member
  exact ⟨longest, its, other, fun key present spelled => most key (mem_wrong.mpr ⟨present, spelled⟩)⟩

/-- No path is read as a longest such key: a key that is read differently gets shorter. -/
theorem Longest.notMem_writes (longest : Longest added key)
    (unslashed : ∀ key, added.lookup key ≠ none → '/' ∉ key.toList)
    (new : ∀ entry ∈ list, added.lookup entry.1 ≠ none) : key ∉ (writes list).map Prod.fst := by
  intro member
  obtain ⟨_, written, same⟩ := List.mem_map.mp member
  obtain ⟨entry, inside, rfl⟩ := List.mem_map.mp written
  have read : Pointer.unescape entry.1 = key :=
    (readKey_of_absent (unslashed entry.1 (new entry inside))).symm.trans same
  by_cases literal : Pointer.Literal entry.1
  · rw [Pointer.unescape_eq_self.mpr literal] at read
    exact longest.spelled (read ▸ literal)
  · have shorter := Pointer.length_unescape_lt literal
    have most := longest.most entry.1 (new entry inside) literal
    rw [read] at shorter
    omega

theorem Enumerates.lookup_ne_none {map : GoMap String} (enumerates : Enumerates list map) :
    ∀ entry ∈ list, map.lookup entry.1 ≠ none := by
  intro entry member
  rw [(enumerates.entries entry.1 entry.2).mp member]
  nofun

/-- A new key that is there in the end has been set. -/
theorem there_of_outcome (found : removeAll (rs.map fun entry => readKey entry.1) members =
    some (added.overlay target).members) (present : added.lookup key ≠ none) : ∃ value, members key = some value := by
  obtain ⟨text, its⟩ := Option.ne_none_iff_exists'.mp present
  refine ⟨.text text, there_of_removeAll found ?_⟩
  rw [members_overlay, GoMap.members, its]
  rfl

/-- The new keys after the first are read as they are. -/
theorem SpelledOrSingle.reads (spelled : SpelledOrSingle added) {first : String × String}
    {rest : List (String × String)} (adds : Enumerates (first :: rest) added)
    (unslashed : ∀ key, added.lookup key ≠ none → '/' ∉ key.toList) :
    ∀ entry ∈ rest, readKey entry.1 = entry.1 := by
  intro entry member
  have new := adds.lookup_ne_none
  have present := new entry (List.mem_cons_of_mem _ member)
  rcases spelled with literal | single
  · exact readKey_of_literal (unslashed _ present) (literal _ present)
  · have distinct := adds.distinct
    rw [List.map_cons, List.nodup_cons] at distinct
    have same := single first.1 entry.1 (new first List.mem_cons_self) present
    exact absurd (List.mem_map_of_mem member) (same ▸ distinct.1)

/-- The keys of the annotations are not among the ones that the API server reads differently. -/
theorem literal_of_kept (parts : Parts annotations target remove)
    (valid : ∀ key, annotations.lookup key ≠ none → '~' ∉ key.toList) (kept : ts ≠ [])
    (unslashed : ∀ key, added.lookup key ≠ none → '/' ∉ key.toList) (keeps : Enumerates ts target)
    (adds : Enumerates as added)
    (found : outcome annotations.members ts as rs = some (added.overlay target).members) :
    ∀ key, added.lookup key ≠ none → Pointer.Literal key := by
  intro key present
  by_contra spelled
  obtain ⟨longest, its⟩ := exists_longest present spelled
  cases ts with
  | nil => exact kept rfl
  | cons first rest =>
    obtain ⟨value, there⟩ := there_of_outcome (by simpa only [outcome] using found) its.present
    rw [writes, List.map_append, writeAll_append] at there
    rcases writeAll_cases there with inAdded | there
    · exact its.notMem_writes unslashed adds.lookup_ne_none inAdded
    · have valid : '~' ∉ longest.toList := by
        rcases writeAll_cases there with inTarget | before
        · have reads := reads_of_valid keeps fun key found => valid key (parts.kept found)
          rw [← writes, keys_writes reads, keeps.mem_keys] at inTarget
          exact valid longest (parts.kept inTarget)
        · apply valid
          intro absent
          rw [GoMap.members, absent] at before
          cases before
      exact its.spelled (Pointer.literal_of_absent valid)

/-- Where nothing is kept, a new key that is not the first is spelled as it is. -/
theorem literal_of_bare {front : List (String × String)} {last : String × String} (filled : front ≠ [])
    (unslashed : ∀ key, added.lookup key ≠ none → '/' ∉ key.toList) (adds : Enumerates (front ++ [last]) added)
    (found : outcome members [] (front ++ [last]) rs = some (added.overlay target).members) :
    ¬ Longest added last.1 := by
  intro longest
  cases front with
  | nil => exact filled rfl
  | cons first rest =>
    obtain ⟨value, there⟩ := there_of_outcome (by simpa only [outcome, List.cons_append] using found) longest.present
    have new := adds.lookup_ne_none
    rcases writeAll_cases there with inRest | single
    · exact longest.notMem_writes unslashed
        (fun entry member => new entry (List.mem_cons_of_mem _ member)) inRest
    · have other : first.1 ≠ last.1 := by
        have distinct := adds.distinct
        simp only [List.cons_append, List.map_cons, List.nodup_cons, List.map_append, List.mem_append] at distinct
        intro same
        exact distinct.1 (Or.inr (by simp [same]))
      have plain := escapeKey_of_plain (unslashed first.1 (new first (by simp)))
      rw [plain, List.lookup_cons, beq_eq_false_iff_ne.mpr other.symm] at single
      cases single

/-- Nothing can be removed from the map that begins with the first new annotation. -/
theorem nothing_of_bare {first : String × String} {rest : List (String × String)}
    (unslashed : ∀ key, added.lookup key ≠ none → '/' ∉ key.toList)
    (apart : ∀ key, added.lookup key ≠ none → remove.lookup key = none)
    (valid : ∀ key, remove.lookup key ≠ none → '~' ∉ key.toList)
    (adds : Enumerates (first :: rest) added) (removes : Enumerates rs remove)
    (reads : ∀ entry ∈ rest, readKey entry.1 = entry.1)
    (found : outcome members [] (first :: rest) rs = some after) : remove.isEmpty = true := by
  rw [← removes.eq_nil_iff]
  cases rs with
  | nil => rfl
  | cons gone others =>
    rw [outcome, List.map_cons, reads_of_valid removes valid gone List.mem_cons_self] at found
    obtain ⟨value, there⟩ := there_of_removeAll_cons found
    have new := adds.lookup_ne_none
    have present : added.lookup gone.1 ≠ none := by
      rcases writeAll_cases there with inRest | single
      · rw [keys_writes reads] at inRest
        apply adds.mem_keys.mp
        rw [List.map_cons]
        exact List.mem_cons_of_mem _ inRest
      · rw [escapeKey_of_plain (unslashed first.1 (new first List.mem_cons_self)), List.lookup_cons] at single
        by_cases same : gone.1 = first.1
        · rw [same]
          exact new first List.mem_cons_self
        · rw [beq_eq_false_iff_ne.mpr same] at single
          cases single
    exact absurd (apart gone.1 present) (removes.lookup_ne_none gone List.mem_cons_self)

/-- Where nothing is kept, a new key may be read differently only if it is the only one: it could come last. -/
theorem spelled_of_bare (unslashed : ∀ key, added.lookup key ≠ none → '/' ∉ key.toList) (adds : Enumerates as added)
    (found : ∀ as, Enumerates as added → outcome members [] as rs = some (added.overlay target).members) :
    SpelledOrSingle added := by
  by_contra mixed
  rw [SpelledOrSingle, not_or] at mixed
  obtain ⟨several, different⟩ := mixed
  push Not at several different
  obtain ⟨key, present, spelled⟩ := several
  obtain ⟨longest, its⟩ := exists_longest present spelled
  obtain ⟨value, member⟩ := List.mem_map.mp (adds.mem_keys.mpr its.present)
  obtain ⟨inside, same⟩ := member
  have last : as.Perm (as.erase value ++ [value]) :=
    (List.perm_cons_erase inside).trans (List.perm_append_singleton _ _).symm
  have filled : as.erase value ≠ [] := by
    intro none
    obtain ⟨one, other, first, second, apart⟩ := different
    have single : ∀ {key}, added.lookup key ≠ Option.none → key = value.1 := by
      intro key found
      have member := (adds.perm last).mem_keys.mpr found
      rw [none] at member
      simpa using member
    exact apart ((single first).trans (single second).symm)
  exact literal_of_bare filled unslashed (adds.perm last) (found _ (adds.perm last)) (same ▸ its)

theorem Enumerates.ne_nil (adds : Enumerates as added) (filled : added.isEmpty = false) : as ≠ [] := by
  rw [Ne, adds.eq_nil_iff, filled]
  exact Bool.false_ne_true

theorem made_of_kept (parts : Parts annotations target remove) (keeps : Enumerates ts target) (kept : ts ≠ []) :
    annotations ≠ .nil := by
  intro nil
  obtain ⟨entry, member⟩ := List.exists_mem_of_ne_nil ts kept
  have found := parts.whole entry.1
  rw [nil, (keeps.entries entry.1 entry.2).mp member] at found
  cases found

section Orders

variable (parts : Parts annotations target remove)
  (valid : ∀ key, annotations.lookup key ≠ none → '~' ∉ key.toList) (filled : added.isEmpty = false)
  (apart : ∀ key, added.lookup key ≠ none → remove.lookup key = none)
  (unslashed : ∀ key, added.lookup key ≠ none → '/' ∉ key.toList)

include parts valid filled apart unslashed

theorem patchable_of_outcome (keeps : Enumerates ts target) (removes : Enumerates rs remove)
    (found : ∀ as, Enumerates as added →
      outcome annotations.members ts as rs = some (added.overlay target).members) :
    Patchable target added remove := by
  obtain ⟨as, adds⟩ := exists_enumerates added
  by_cases bare : ts = []
  · right
    subst bare
    have spelled := spelled_of_bare unslashed adds found
    refine ⟨keeps.eq_nil_iff.mp rfl, ?_, spelled⟩
    obtain ⟨first, rest, rfl⟩ := List.exists_cons_of_ne_nil (adds.ne_nil filled)
    exact nothing_of_bare unslashed apart (fun key found => valid key (parts.gone found)) adds removes
      (spelled.reads adds unslashed) (found _ adds)
  · left
    refine ⟨?_, literal_of_kept parts valid bare unslashed keeps adds (found as adds)⟩
    rw [← Bool.not_eq_true, ← keeps.eq_nil_iff]
    exact bare

theorem outcome_of_patchable (patchable : Patchable target added remove) (keeps : Enumerates ts target)
    (adds : Enumerates as added) (removes : Enumerates rs remove) :
    outcome annotations.members ts as rs = some (added.overlay target).members := by
  have new := adds.lookup_ne_none
  rcases patchable with ⟨kept, literal⟩ | ⟨bare, nothing, spelled⟩
  · rw [← members_overlay_of_apart parts apart]
    refine outcome_kept parts valid (fun entry member => ?_) (keeps.ne_nil kept) keeps adds removes
    exact readKey_of_literal (unslashed _ (new entry member)) (literal _ (new entry member))
  · obtain rfl : ts = [] := keeps.eq_nil_iff.mpr bare
    obtain ⟨first, rest, rfl⟩ := List.exists_cons_of_ne_nil (adds.ne_nil filled)
    exact outcome_fresh bare nothing adds (unslashed _ (new first List.mem_cons_self))
      (spelled.reads adds unslashed) removes

end Orders

/-- For every order of the three maps the patch turns the annotations into what is kept, overridden by what is
new, exactly if something is kept or nothing is removed, and no new key would be read differently. -/
theorem updateAnnotation_applies_iff {document : Json} {metadata : String → Option Json}
    (there : document.get? metadataPath = some (.object metadata))
    (annotated : metadata "annotations" = annotations.json?) (parts : Parts annotations target remove)
    (valid : ∀ key, annotations.lookup key ≠ none → '~' ∉ key.toList) (filled : added.isEmpty = false)
    (apart : ∀ key, added.lookup key ≠ none → remove.lookup key = none)
    (unslashed : ∀ key, added.lookup key ≠ none → '/' ∉ key.toList) :
    (∀ ts as rs, Enumerates ts target → Enumerates as added → Enumerates rs remove →
      (Annotates <| updateAnnotation ts as rs) document metadata (added.overlay target)) ↔
      Patchable target added remove := by
  have ends : ∀ {ts as rs}, Enumerates ts target → Enumerates as added →
      ((Annotates <| updateAnnotation ts as rs) document metadata (added.overlay target) ↔
        outcome annotations.members ts as rs = some (added.overlay target).members) :=
    fun keeps adds => annotates_iff there annotated (adds.ne_nil filled) (made_of_kept parts keeps)
  constructor
  · intro applies
    obtain ⟨ts, keeps⟩ := exists_enumerates target
    obtain ⟨rs, removes⟩ := exists_enumerates remove
    refine patchable_of_outcome parts valid filled apart unslashed keeps removes fun as adds => ?_
    exact (ends keeps adds).mp (applies ts as rs keeps adds removes)
  · intro patchable ts as rs keeps adds removes
    exact (ends keeps adds).mpr (outcome_of_patchable parts valid filled apart unslashed patchable keeps adds removes)

end Applies

namespace Sample

def entry (key value : String) : GoMap String := (GoMap.make ∅).put key value

theorem lookup_entry (key value other : String) :
    (entry key value).lookup other = if other = key then some value else none := by
  rw [entry, GoMap.lookup_put]
  rfl

theorem enumerates_entry (key value : String) : Enumerates [(key, value)] (entry key value) where
  distinct := List.nodup_singleton _
  entries other text := by
    rw [List.mem_singleton, Prod.mk.injEq, lookup_entry]
    constructor
    · intro same
      rw [if_pos same.1, same.2]
    · intro found
      split at found
      · rename_i same
        exact ⟨same, (Option.some.inj found).symm⟩
      · cases found

theorem enumerates_nil : Enumerates [] (.make ∅) where
  distinct := List.nodup_nil
  entries _ _ := ⟨nofun, nofun⟩

/-- A Deployment's document whose template has these annotations and nothing else. -/
def metadataOf (annotations : GoMap String) : String → Option Json :=
  Function.update (fun _ => none) "annotations" annotations.json?

def documentOf (annotations : GoMap String) : Json :=
  .object (Function.update (fun _ => none) "spec" (some (.object (Function.update (fun _ => none) "template"
    (some (.object (Function.update (fun _ => none) "metadata" (some (.object (metadataOf annotations))))))))))

theorem annotations_metadataOf (annotations : GoMap String) :
    metadataOf annotations "annotations" = annotations.json? := Function.update_self ..

theorem there_documentOf (annotations : GoMap String) :
    (documentOf annotations).get? metadataPath = some (.object (metadataOf annotations)) := by
  simp [documentOf, metadataPath, get?]

def controlled : GoMap String := entry "config-sync-controller" "configurator"

theorem lookup_controlled {key : String} (present : controlled.lookup key ≠ none) : key = "config-sync-controller" := by
  rw [controlled, lookup_entry] at present
  by_contra other
  exact present (if_neg other)

/-- An annotation is kept, another one is removed. -/
def teamed : GoMap String := (entry "team" "shop").put "ccm-old" "aaaaa"

theorem parts_teamed : Parts teamed (entry "team" "shop") (entry "ccm-old" "aaaaa") where
  whole key := by
    rw [teamed, GoMap.lookup_put, lookup_entry, lookup_entry]
    split_ifs with old team
    · subst old
      exact absurd team (by decide)
    · rfl
    · rfl
    · rfl
  apart key found := by
    rw [lookup_entry] at found ⊢
    have team : key = "team" := by
      by_contra other
      exact found (if_neg other)
    rw [team]
    decide

theorem teamed_applies : (Annotates <| updateAnnotation [("team", "shop")]
      [("config-sync-controller", "configurator")] [("ccm-old", "aaaaa")]) (documentOf teamed) (metadataOf teamed)
    (controlled.overlay (entry "team" "shop")) := by
  have valid : ∀ key, teamed.lookup key ≠ none → '~' ∉ key.toList := by
    intro key found
    rw [teamed, GoMap.lookup_put, lookup_entry] at found
    split_ifs at found with old team
    · subst old
      decide
    · subst team
      decide
    · exact absurd rfl found
  have apart : ∀ key, controlled.lookup key ≠ none → (entry "ccm-old" "aaaaa").lookup key = none := by
    intro key present
    rw [lookup_controlled present]
    decide
  have unslashed : ∀ key, controlled.lookup key ≠ none → '/' ∉ key.toList := by
    intro key present
    rw [lookup_controlled present]
    decide
  refine (updateAnnotation_applies_iff (there_documentOf teamed) (annotations_metadataOf teamed) parts_teamed
    valid rfl apart unslashed).mpr (Or.inl ⟨rfl, fun key present => ?_⟩) _ _ _
      (enumerates_entry "team" "shop") (enumerates_entry _ _) (enumerates_entry _ _)
  rw [lookup_controlled present]
  exact Pointer.literal_of_absent (by decide)

/-- Where every annotation is removed the whole request is rejected: its first operation has replaced the map
from which the next one removes. -/
theorem untracked_rejected : Parts (entry "ccm-old" "aaaaa") (.make ∅) (entry "ccm-old" "aaaaa") ∧
    Enumerates [] (.make ∅) ∧ Enumerates [("config-sync-controller", "configurator")] controlled ∧
    Enumerates [("ccm-old", "aaaaa")] (entry "ccm-old" "aaaaa") ∧
    (applyPatch <| updateAnnotation [] [("config-sync-controller", "configurator")] [("ccm-old", "aaaaa")])
      (documentOf (entry "ccm-old" "aaaaa")) = none := by
  refine ⟨⟨fun _ => rfl, fun _ found => absurd rfl found⟩, enumerates_nil, enumerates_entry _ _,
    enumerates_entry _ _, ?_⟩
  rw [applyPatch_outcome (there_documentOf _) (annotations_metadataOf _) (List.cons_ne_nil _ _)
    (absurd rfl),
    modify?_eq_none (there_documentOf _)]
  have read : readKey "ccm-old" = "ccm-old" := readKey_of_valid (by decide)
  have spelled : escapeKey "config-sync-controller" = "config-sync-controller" := escapeKey_of_plain (by decide)
  simp [outcome, read, spelled, writes, writeAll, removeAll, List.lookup_cons]

end Sample

end Configurator
