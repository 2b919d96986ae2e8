import Configurator.Keeping
import Configurator.Library.Identifiers
import Configurator.Lookup

namespace Configurator

open Json Resource

variable {kind : Kind} {workload : WorkloadKind} {cluster after : Cluster} {sent : Workload} {name key : String}
  {order : Iteration} {patch : List PatchOperation} {object : Object kind}

/-- The metadata of the revision is in the limits of the API server. -/
structure Revision.Acceptable (revision : Revision kind) : Prop where
  name : DnsName revision.name
  labels : ∀ label value, revision.labels.lookup label = some value → QualifiedName label ∧ LabelValue value
  annotations : ∀ key, revision.annotations.lookup key ≠ none → QualifiedName key

section Revisions

/-- The name of a revision is that of its object with the dots replaced, a dash and the version. -/
theorem toList_newRevision {version : String} (named : DnsName object.name) (plain : Plain version) :
    (newRevision object version).name.toList =
      ['s'].intercalate ((split object.name '.').map String.toList) ++ '-' :: version.toList := by
  have suffix : ∀ letter ∈ '-' :: version.toList, allowed letter = true :=
    List.forall_mem_cons.mpr ⟨rfl, plain⟩
  have parts : ∀ part ∈ (split object.name '.').map String.toList,
      part ≠ [] ∧ ∀ letter ∈ part, allowed letter = true := by
    intro part member
    obtain ⟨label, listed, rfl⟩ := List.mem_map.mp member
    have framed := named.labels label listed
    exact ⟨framed.ne_nil, framed.all⟩
  have whole : (object.name ++ "-" ++ version).toList =
      ['.'].intercalate ((split object.name '.').map String.toList) ++ '-' :: version.toList := by
    rw [intercalate_split]
    simp
  rw [newRevision, nameValidation, String.toList_ofList, whole, replaceRuns_append suffix,
    replaceRuns_intercalate rfl parts]

theorem lowerAlphanumeric_randomSequence (draws : Draws) (n : Nat) :
    ∀ letter ∈ (randomSequence draws n).toList, lowerAlphanumeric letter = true := by
  intro letter member
  simp only [randomSequence, String.toList_ofList, List.mem_map] at member
  obtain ⟨position, _, rfl⟩ := member
  have every : letters.all lowerAlphanumeric = true := by decide
  exact List.all_eq_true.mp every _ (List.get_mem _ _)

theorem framed_newRevision (named : DnsName object.name) (draws : Draws) (n : Nat) :
    Framed lowerAlphanumeric dashedLetter (newRevision object (randomSequence draws (n + 1))).name.toList := by
  have labels : Framed lowerAlphanumeric dashedLetter
      (['s'].intercalate ((split object.name '.').map String.toList)) := by
    refine framed_intercalate rfl (by simpa using split_ne_nil object.name '.') ?_
    intro part member
    obtain ⟨label, listed, rfl⟩ := List.mem_map.mp member
    exact named.labels label listed
  have version := lowerAlphanumeric_randomSequence draws (n + 1)
  have filled : (randomSequence draws (n + 1)).toList ≠ [] := by
    intro empty
    exact absurd (length_randomSequence draws (n + 1)) (by simp [empty])
  rw [toList_newRevision named (plain_randomSequence draws (n + 1))]
  refine framed_append labels.first ?_ labels.all ?_
  · refine ⟨_, List.getLast?_eq_some_getLast (List.cons_ne_nil _ _), ?_⟩
    rw [List.getLast_cons filled]
    exact version _ (List.getLast_mem filled)
  · refine List.forall_mem_cons.mpr ⟨rfl, fun letter member => ?_⟩
    rw [dashedLetter, version letter member, Bool.true_or]

theorem length_newRevision (named : DnsName object.name) (draws : Draws) (n : Nat) :
    (newRevision object (randomSequence draws n)).name.length = object.name.length + (n + 1) := by
  have front : (['s'].intercalate ((split object.name '.').map String.toList)).length = object.name.length := by
    rw [length_intercalate_congr 's' '.', intercalate_split, String.length_toList]
  rw [← String.length_toList, toList_newRevision named (plain_randomSequence draws n), List.length_append, front,
    List.length_cons, length_randomSequence]

/-- The name of a revision is valid if the name of its object leaves room for a dash and the version. -/
theorem dnsName_newRevision_iff (named : DnsName object.name) (draws : Draws) :
    DnsName (newRevision object (randomSequence draws 5)).name ↔ object.name.length + 6 ≤ 253 := by
  have undotted : '.' ∉ (newRevision object (randomSequence draws 5)).name.toList := by
    intro dot
    exact absurd (plain_nameValidation _ '.' dot) (by decide)
  rw [dnsName_iff_of_absent undotted, length_newRevision named, and_iff_left (framed_newRevision named draws 4)]

/-- A revision is acceptable if the name of its object can be a label value; the limit of its own name
is never met first. -/
theorem acceptable_newRevision_iff (named : DnsName object.name) (draws : Draws) :
    (newRevision object (randomSequence draws 5)).Acceptable ↔ object.name.length ≤ 63 := by
  rw [← named.labelValue_iff]
  constructor
  · intro acceptable
    have labelled : (newRevision object (randomSequence draws 5)).labels.lookup "name" = some object.name := by
      simp [newRevision]
    exact (acceptable.labels "name" object.name labelled).2
  · intro value
    refine ⟨(dnsName_newRevision_iff named draws).mpr ?_, fun label text found => ?_, fun key found => ?_⟩
    · have short := named.labelValue_iff.mp value
      omega
    · simp only [newRevision, GoMap.lookup_put] at found
      split_ifs at found with current latest own
      · obtain rfl := Option.some.inj found
        exact ⟨current ▸ by decide, by decide⟩
      · obtain rfl := Option.some.inj found
        exact ⟨latest ▸ by decide, by decide⟩
      · obtain rfl := Option.some.inj found
        exact ⟨own ▸ by decide, value⟩
      · cases found
    · simp only [newRevision, GoMap.lookup_put] at found
      split_ifs at found with own
      · rw [own]
        cases kind <;> decide
      · exact absurd rfl found

end Revisions

/-- The annotations that the operation sets, under the keys that the API server reads. -/
def PatchOperation.sets (operation : PatchOperation) : List String :=
  match operation.op, operation.value with
  | .remove, _ => []
  | _, .text _ => ((Pointer.parse? operation.path).map Prod.snd).toList
  | _, .map entries => entries.map Prod.fst

section Patches

theorem sets_of_path (op : PatchVerb) (set : op ≠ .remove) (key value : String) :
    (PatchOperation.mk op (annotationPath key) (.text value)).sets = [readKey key] := by
  cases op with
  | remove => exact absurd rfl set
  | add | replace => simp [PatchOperation.sets, parse?_annotationPath]

theorem flatMap_sets (op : PatchVerb) (set : op ≠ .remove) {entries : List (String × String)}
    (reads : ∀ entry ∈ entries, readKey entry.1 = entry.1) :
    (entries.map fun entry => PatchOperation.mk op (annotationPath entry.1) (.text entry.2)).flatMap
      PatchOperation.sets = entries.map Prod.fst := by
  induction entries with
  | nil => rfl
  | cons entry rest ih =>
    obtain ⟨own, others⟩ := List.forall_mem_cons.mp reads
    rw [List.map_cons, List.flatMap_cons, sets_of_path op set, ih others, own]
    rfl

/-- Keys without an escape are set as they are, the whole map that a patch may begin with included. -/
theorem flatMap_sets_patch {target added : List (String × String)} (remove : List (String × String))
    (kept : ∀ entry ∈ target, readKey entry.1 = entry.1)
    (new : ∀ entry ∈ added, escapeKey entry.1 = entry.1 ∧ readKey entry.1 = entry.1) :
    (List.flatMap PatchOperation.sets <| updateAnnotation target added remove) =
      target.map Prod.fst ++ added.map Prod.fst := by
  have reads := flatMap_sets .replace nofun fun entry member => (new entry member).2
  have removed : (remove.map fun entry => PatchOperation.mk .remove (annotationPath entry.1) (.text entry.2)).flatMap
      PatchOperation.sets = [] := by
    simp [PatchOperation.sets, List.flatMap_map]
  unfold updateAnnotation
  rw [List.flatMap_append, List.flatMap_append, removed, List.append_nil, flatMap_sets .add nofun kept]
  congr 1
  split
  · rename_i first rest
    obtain ⟨own, others⟩ := List.forall_mem_cons.mp new
    rw [List.flatMap_cons, flatMap_sets .replace nofun fun entry member => (others entry member).2, own.1]
    rfl
  · exact reads

/-- The names of the objects are valid. -/
def Cluster.Named (cluster : Cluster) : Prop :=
  ∀ kind, ∀ object ∈ cluster.objects kind, DnsName object.name

theorem named_pin {pinned : String × String} (named : cluster.Named)
    (ran : (pin workload sent kind name).run Cluster.serve cluster = (after, .returned pinned)) :
    DnsName name ∧ after.Named := by
  cases found : (cluster.objects kind).find? (sent.ns, name) with
  | none =>
    rw [run_pin_missing found] at ran
    cases congrArg Prod.snd ran
  | some object =>
    obtain ⟨member, own⟩ := Table.find?_eq_some.mp found
    obtain ⟨stored, objects, accepted, runs⟩ := run_pin workload member own
    have written := (Table.written_of_update accepted).2
    have valid := named kind object member
    obtain rfl : object.name = name := congrArg Prod.snd own
    rw [runs] at ran
    obtain rfl := congrArg Prod.fst ran
    refine ⟨valid, fun other entry present => ?_⟩
    by_cases kinds : other = kind
    · subst kinds
      rw [Cluster.withObjects_objects] at present
      rcases (written.members entry).mp present with rfl | ⟨was, _⟩
      · have same : entry.name = object.name :=
          congrArg Prod.snd (written.key_eq.trans (key_register workload sent.name object))
        exact same ▸ valid
      · exact named other entry was
    · simp only [Cluster.withObjects, Function.update_of_ne kinds] at present
      exact named other entry present

/-- The loops return only if all references without a pin have valid names. -/
theorem named_newAnnotations {references : List (Kind × String)} {added result : GoMap String}
    (named : cluster.Named)
    (ran : (newAnnotations workload sent references added).run Cluster.serve cluster = (after, .returned result)) :
    ∀ kind name, (kind, name) ∈ references → sent.pinned kind name = "" → DnsName name := by
  induction references generalizing added cluster with
  | nil => exact fun _ _ => nofun
  | cons reference rest ih =>
    obtain ⟨first, called⟩ := reference
    unfold newAnnotations at ran
    split at ran
    · obtain ⟨middle, pinned, registered, ran⟩ := Program.returned_bind ran
      obtain ⟨own, still⟩ := named_pin named registered
      exact forall_references_cons (fun _ => own) (ih still ran)
    · rename_i pinned
      exact forall_references_cons (fun unpinned => absurd unpinned pinned) (ih named ran)

theorem framed_pin (kind : Kind) (named : DnsName name) :
    Framed Char.isAlphanum innerLetter (kind.tag ++ name).toList := by
  have inside : kind.tag.toList.all innerLetter = true := by cases kind <;> decide
  rw [String.toList_append]
  refine framed_append ?_ named.framed.last (List.all_eq_true.mp inside) named.framed.all
  cases kind <;> exact ⟨'c', rfl, rfl⟩

theorem notMem_pin {letter : Char} (kind : Kind) (named : DnsName name) (other : innerLetter letter = false) :
    letter ∉ (kind.tag ++ name).toList := by
  intro member
  rw [(framed_pin kind named).all letter member] at other
  cases other

theorem qualifiedName_pin_iff (kind : Kind) (named : DnsName name) :
    QualifiedName (kind.tag ++ name) ↔ (kind.tag ++ name).length ≤ 63 := by
  rw [qualifiedName_iff_of_absent (notMem_pin kind named rfl)]
  exact ⟨NamePart.length, fun short => ⟨short, framed_pin kind named⟩⟩

theorem tilde_notMem_of_qualified (qualified : QualifiedName key) : '~' ∉ key.toList := by
  intro member
  rcases qualified.letters '~' member with slash | inner
  · exact absurd slash (by decide)
  · exact absurd inner (by decide)

/-- The handler's annotations: its own, and a pin for every reference without one. -/
theorem lookup_pins {added : GoMap String}
    (loops : (newAnnotations workload sent sent.template.spec.references (.make ∅)).run Cluster.serve cluster =
      (after, .returned added)) (key : String) :
    (added.put "config-sync-controller" "configurator").lookup key ≠ none ↔ key = "config-sync-controller" ∨
      ∃ kind name, (kind, name) ∈ sent.template.spec.references ∧ sent.pinned kind name = "" ∧
        key = Kind.tag kind ++ name := by
  have pins := lookup_newAnnotations loops key
  rw [GoMap.lookup_put]
  by_cases control : key = "config-sync-controller"
  · simp [control]
  · rw [if_neg control, pins, or_iff_right control]
    constructor
    · intro which
      rcases which with none | ⟨kind, name, member, same, unpinned⟩
      · exact absurd rfl none
      · exact ⟨kind, name, member, by rw [Workload.pinned, ← same, unpinned], same⟩
    · rintro ⟨kind, name, member, unpinned, same⟩
      exact Or.inr ⟨kind, name, member, same, same ▸ unpinned⟩

variable (orders : ∀ map, Enumerates (order map) map)
  (valid : ∀ key, sent.template.annotations.lookup key ≠ none → QualifiedName key) (named : cluster.Named)
  (ran : (createPatch workload order sent).run Cluster.serve cluster = (after, .returned patch))
include orders valid named ran

/-- What a handler sets: the annotations that it keeps and its own. -/
theorem mem_sets_iff : key ∈ patch.flatMap PatchOperation.sets ↔
    sent.keptAnnotations.lookup key ≠ none ∨ key = "config-sync-controller" ∨
      ∃ kind name, (kind, name) ∈ sent.template.spec.references ∧ sent.pinned kind name = "" ∧
        key = Kind.tag kind ++ name := by
  obtain ⟨added, loops, rfl⟩ := returned_createPatch ran
  have keeps := orders sent.keptAnnotations
  have adds := orders (added.put "config-sync-controller" "configurator")
  have names := named_newAnnotations named loops
  have kept : ∀ entry ∈ order sent.keptAnnotations, readKey entry.1 = entry.1 := by
    intro entry member
    have there := sent.parts_annotations.kept (keeps.lookup_ne_none entry member)
    exact readKey_of_valid (tilde_notMem_of_qualified (valid entry.1 there))
  have new : ∀ entry ∈ order (added.put "config-sync-controller" "configurator"),
      escapeKey entry.1 = entry.1 ∧ readKey entry.1 = entry.1 := by
    intro entry member
    rcases (lookup_pins loops entry.1).mp (adds.lookup_ne_none entry member) with
      control | ⟨kind, name, refers, unpinned, same⟩
    · rw [control]
      exact ⟨escapeKey_of_plain (by decide), readKey_of_valid (by decide)⟩
    · have own := names kind name refers unpinned
      rw [same]
      exact ⟨escapeKey_of_plain (notMem_pin kind own rfl), readKey_of_valid (notMem_pin kind own rfl)⟩
  rw [flatMap_sets_patch _ kept new, List.mem_append, keeps.mem_keys, adds.mem_keys, lookup_pins loops]

/-- All that a handler sets is valid if every pin that it adds is short enough. -/
theorem sets_valid_iff : (∀ key ∈ patch.flatMap PatchOperation.sets, QualifiedName key) ↔
    ∀ kind name, (kind, name) ∈ sent.template.spec.references → sent.pinned kind name = "" →
      (Kind.tag kind ++ name).length ≤ 63 := by
  obtain ⟨added, loops, _⟩ := returned_createPatch ran
  have names := named_newAnnotations named loops
  constructor
  · intro every kind name refers unpinned
    rw [← qualifiedName_pin_iff kind (names kind name refers unpinned)]
    exact every _ ((mem_sets_iff orders valid named ran).mpr (Or.inr (Or.inr ⟨kind, name, refers, unpinned, rfl⟩)))
  · intro short key member
    rcases (mem_sets_iff orders valid named ran).mp member with kept | control | ⟨kind, name, refers, unpinned, same⟩
    · exact valid key (sent.parts_annotations.kept kept)
    · rw [control]
      decide
    · rw [same, qualifiedName_pin_iff kind (names kind name refers unpinned)]
      exact short kind name refers unpinned

/-- The revisions of an object are acceptable exactly if its name has at most 63 letters, and the annotations
that a handler sets exactly if no name that it pins has more than 59, or 60 for a Secret. -/
theorem limits_iff (proper : DnsName object.name) (draws : Draws) :
    ((newRevision object (randomSequence draws 5)).Acceptable ↔ object.name.length ≤ 63) ∧
      ((∀ key ∈ patch.flatMap PatchOperation.sets, QualifiedName key) ↔
        ∀ kind name, (kind, name) ∈ sent.template.spec.references → sent.pinned kind name = "" →
          (Kind.tag kind).length + name.length ≤ 63) := by
  refine ⟨acceptable_newRevision_iff proper draws, ?_⟩
  rw [sets_valid_iff orders valid named ran]
  simp only [String.length_append]

end Patches

namespace Sample

theorem settings_within : ∃ order after patch,
    (createPatch .deployment order api).run Cluster.serve synced = (after, .returned patch) ∧
      (newRevision (settings "red" "aaaaa" 1) (randomSequence (synced.entropy 0) 5)).Acceptable ∧
        ∀ key ∈ patch.flatMap PatchOperation.sets, QualifiedName key := by
  obtain ⟨order, orders⟩ := exists_iteration
  have named : synced.Named := by
    intro kind object member
    cases kind with
    | configMap =>
      obtain rfl := List.mem_singleton.mp member
      decide
    | secret => exact absurd member (Table.not_mem_empty object)
  have valid : ∀ key, api.template.annotations.lookup key ≠ none → QualifiedName key :=
    fun _ found => absurd rfl found
  obtain ⟨after, added, loops⟩ : ∃ after added, (newAnnotations .deployment api api.template.spec.references
    (.make ∅)).run Cluster.serve synced = (after, .returned added) := ⟨_, _, rfl⟩
  have ran := run_createPatch_of_loops loops order
  have proper : DnsName (settings "red" "aaaaa" 1).name := by decide
  have limits := limits_iff orders valid named ran proper (synced.entropy 0)
  refine ⟨order, after, _, ran, limits.1.mpr (by decide), limits.2.mpr fun kind name refers _ => ?_⟩
  obtain ⟨rfl, rfl⟩ := Prod.mk.inj (List.mem_singleton.mp refers)
  decide

def longName : String := String.ofList (List.replicate 64 'a')

def long : Cluster :=
  shop ⟨[configMap longName "red" "aaaaa" 1], 1, by decide, by decide, by decide⟩ .empty

def longApi : Workload :=
  { api with template := ⟨.nil, ⟨[], [⟨[⟨some longName, none⟩]⟩], []⟩⟩ }

/-- The revisions of a long name are rejected, and so is the Deployment that refers to it, by the pin that it gets. -/
theorem long_rejected : DnsName longName ∧
    (∀ draws, ¬ (newRevision (configMap longName "red" "aaaaa" 1) (randomSequence draws 5)).Acceptable) ∧
    (.configMap, longName) ∈ longApi.template.spec.references ∧
    (∀ key, longApi.template.annotations.lookup key ≠ none → QualifiedName key) ∧
    ∃ order after patch, (∀ map, Enumerates (order map) map) ∧
      (createPatch .deployment order longApi).run Cluster.serve long = (after, .returned patch) ∧
      "ccm-" ++ longName ∈ patch.flatMap PatchOperation.sets ∧ ¬ QualifiedName ("ccm-" ++ longName) := by
  have domain : DnsName longName := by decide
  have named : long.Named := by
    intro kind object member
    cases kind with
    | configMap =>
      obtain rfl := List.mem_singleton.mp member
      exact domain
    | secret => exact absurd member (Table.not_mem_empty object)
  have valid : ∀ key, longApi.template.annotations.lookup key ≠ none → QualifiedName key :=
    fun _ found => absurd rfl found
  refine ⟨domain, fun draws => ?_, List.mem_singleton_self _, valid, ?_⟩
  · rw [acceptable_newRevision_iff domain]
    decide
  obtain ⟨order, orders⟩ := exists_iteration
  obtain ⟨after, added, loops⟩ : ∃ after added, (newAnnotations .deployment longApi longApi.template.spec.references
    (.make ∅)).run Cluster.serve long = (after, .returned added) := ⟨_, _, rfl⟩
  have ran := run_createPatch_of_loops loops order
  refine ⟨order, after, _, orders, ran, ?_, by decide⟩
  exact (mem_sets_iff orders valid named ran).mpr
    (Or.inr (Or.inr ⟨.configMap, longName, List.mem_singleton_self _, rfl, rfl⟩))

end Sample

end Configurator
