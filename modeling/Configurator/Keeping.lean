import Configurator.Patch

/-! Which annotations of a template survive the workload handlers: they tell their own by a tag that may
stand anywhere in the key, and take the tag of ConfigMaps first. -/
namespace Configurator

open Resource

variable {kind : Kind} {workload : WorkloadKind} {cluster after : Cluster} {sent : Workload} {name key : String}
  {order : Iteration} {patch : List PatchOperation}

namespace Workload

theorem lookup_kept (sent : Workload) (key : String) : sent.keptAnnotations.lookup key =
    if keepsAnnotation sent.template.spec key = true then sent.template.annotations.lookup key else none :=
  GoMap.lookup_restrict _ _ _

theorem lookup_dropped (sent : Workload) (key : String) : sent.droppedAnnotations.lookup key =
    if keepsAnnotation sent.template.spec key = true then none else sent.template.annotations.lookup key := by
  rw [droppedAnnotations, GoMap.lookup_restrict]
  cases keepsAnnotation sent.template.spec key <;> rfl

theorem parts_annotations (sent : Workload) :
    Parts sent.template.annotations sent.keptAnnotations sent.droppedAnnotations where
  whole key := by
    rw [lookup_kept, lookup_dropped]
    split
    · rw [Option.or_none]
    · rfl
  apart key kept := by
    rw [lookup_kept] at kept
    rw [lookup_dropped]
    split
    · rfl
    · rename_i dropped
      exact absurd (if_neg dropped) kept

end Workload

section Runs

theorem pinned_key {pinned : String × String}
    (ran : (pin workload sent kind name).run Cluster.serve cluster = (after, .returned pinned)) :
    pinned.1 = kind.tag ++ name := by
  cases found : (cluster.objects kind).find? (sent.ns, name) with
  | none =>
    rw [run_pin_missing found] at ran
    cases congrArg Prod.snd ran
  | some object =>
    obtain ⟨member, own⟩ := Table.find?_eq_some.mp found
    obtain ⟨stored, objects, accepted, runs⟩ := run_pin workload member own
    rw [runs] at ran
    obtain rfl := Outcome.returned.inj (congrArg Prod.snd ran)
    have keys : key stored = (sent.ns, name) :=
      (Table.written_of_update accepted).2.key_eq.trans ((key_register _ _ _).trans own)
    have names : stored.name = name := congrArg Prod.snd keys
    rw [names]

/-- The new annotations are those of the references that the template does not pin. -/
theorem lookup_newAnnotations {references : List (Kind × String)} {added result : GoMap String}
    (ran : (newAnnotations workload sent references added).run Cluster.serve cluster = (after, .returned result))
    (key : String) : result.lookup key ≠ none ↔ added.lookup key ≠ none ∨ ∃ kind name, (kind, name) ∈ references ∧
      key = Kind.tag kind ++ name ∧ sent.template.annotations.index key = "" := by
  induction references generalizing added cluster with
  | nil =>
    obtain rfl := Outcome.returned.inj (congrArg Prod.snd ran)
    simp
  | cons reference rest ih =>
    obtain ⟨first, called⟩ := reference
    have grows : (∃ kind name, (kind, name) ∈ (first, called) :: rest ∧ key = Kind.tag kind ++ name ∧
        sent.template.annotations.index key = "") ↔
          (key = first.tag ++ called ∧ sent.template.annotations.index key = "") ∨
            ∃ kind name, (kind, name) ∈ rest ∧ key = Kind.tag kind ++ name ∧
              sent.template.annotations.index key = "" := by
      constructor
      · intro ⟨kind, name, member, its⟩
        rcases List.mem_cons.mp member with same | later
        · obtain ⟨rfl, rfl⟩ := Prod.mk.inj same
          exact Or.inl its
        · exact Or.inr ⟨kind, name, later, its⟩
      · intro which
        rcases which with its | ⟨kind, name, later, its⟩
        · exact ⟨first, called, List.mem_cons_self, its⟩
        · exact ⟨kind, name, List.mem_cons_of_mem _ later, its⟩
    rw [grows]
    unfold newAnnotations at ran
    split at ran
    · rename_i unpinned
      obtain ⟨middle, pinned, registered, ran⟩ := Program.returned_bind ran
      rw [ih ran, GoMap.lookup_put, pinned_key registered]
      by_cases same : key = first.tag ++ called
      · subst same
        simp [unpinned]
      · simp [same]
    · rename_i pinned
      rw [ih ran]
      constructor
      · intro which
        exact which.imp_right Or.inr
      · intro which
        rcases which with before | its | later
        · exact Or.inl before
        · exact absurd (its.1 ▸ its.2) pinned
        · exact Or.inr later

end Runs

section Keys

/-- An annotation that is none of the handler's. -/
structure UserKey (key : String) : Prop where
  other : key ≠ "config-sync-controller"
  untagged : ∀ kind : Kind, ¬ kind.tag.toList <+: key.toList

theorem prefix_tagged (kind : Kind) (name : String) : kind.tag.toList <+: (kind.tag ++ name).toList := by
  rw [String.toList_append]
  exact List.prefix_append _ _

/-- A user's key is kept if no tag stands anywhere in it. -/
theorem UserKey.keeps_iff (user : UserKey key) (spec : PodSpec) :
    keepsAnnotation spec key = true ↔ contains key "ccm-" = false ∧ contains key "cs-" = false := by
  have other : ∀ (kind : Kind) (name : String), key ≠ kind.tag ++ name := by
    intro kind name same
    apply user.untagged kind
    rw [same]
    exact prefix_tagged kind name
  unfold keepsAnnotation
  split
  · rename_i tagged
    have none : ∀ name ∈ spec.mentions .configMap, ¬ key = "ccm-" ++ name := fun name _ => other .configMap name
    simpa [tagged] using none
  · rename_i untagged
    split
    · rename_i tagged
      have none : ∀ name ∈ spec.mentions .secret, ¬ key = "cs-" ++ name := fun name _ => other .secret name
      simpa [tagged] using none
    · rename_i clean
      simp [untagged, clean]

theorem contains_tag (kind : Kind) (name : String) : contains (kind.tag ++ name) kind.tag = true :=
  contains_iff.mpr (prefix_tagged kind name).isInfix

/-- The tag of ConfigMaps stands in the annotation of a Secret only if it stands in the Secret's name. -/
theorem contains_secret (name : String) : contains ("cs-" ++ name) "ccm-" = contains name "ccm-" := by
  rw [Bool.eq_iff_iff, contains_iff, contains_iff, String.toList_append]
  simp [List.infix_cons_iff]

/-- The annotation of a referenced ConfigMap is kept; that of a Secret is taken for one of a ConfigMap if its
name contains the other tag. -/
theorem keeps_pin_iff {spec : PodSpec} (mentioned : name ∈ spec.mentions kind) :
    keepsAnnotation spec (kind.tag ++ name) = true ↔ (kind = .secret → contains name "ccm-" = false) := by
  cases kind with
  | configMap =>
    have tagged : contains ("ccm-" ++ name) "ccm-" = true := contains_tag .configMap name
    have found : ((spec.mentions .configMap).any fun other => "ccm-" ++ name == "ccm-" ++ other) = true :=
      List.any_eq_true.mpr ⟨name, mentioned, beq_self_eq_true _⟩
    simp [Kind.tag, keepsAnnotation, tagged, found]
  | secret =>
    have tagged : contains ("cs-" ++ name) "cs-" = true := contains_tag .secret name
    have found : ((spec.mentions .secret).any fun other => "cs-" ++ name == "cs-" ++ other) = true :=
      List.any_eq_true.mpr ⟨name, mentioned, beq_self_eq_true _⟩
    have none : ((spec.mentions .configMap).any fun other => "cs-" ++ name == "ccm-" ++ other) = false := by
      rw [List.any_eq_false]
      intro other _ same
      have kinds := (@pin_inj .secret .configMap name other (beq_iff_eq.mp same)).1
      cases kinds
    cases inside : contains name "ccm-" <;>
      simp [Kind.tag, keepsAnnotation, contains_secret, tagged, found, none, inside]

theorem readKey_pin (kind : Kind) (name : String) : readKey (kind.tag ++ name) = kind.tag ++ readKey name := by
  cases kind <;> simp [readKey, escapeKey, Pointer.unescape, Kind.tag, Pointer.unescapeLetters, ← String.toList_inj]

end Keys

section Survival

/-- The patch has an operation that removes the key. -/
def RemovesKey (patch : List PatchOperation) (key : String) : Prop :=
  ∃ operation ∈ patch, operation.op = .remove ∧ operation.path = annotationPath key

/-- Wherever the patch sets the key, alone or in a whole map, it sets this value. -/
def SetsOnly (patch : List PatchOperation) (key value : String) : Prop :=
  ∀ operation ∈ patch, operation.op ≠ .remove →
    (operation.path = annotationPath key → operation.value = .text value) ∧
      ∀ entries, operation.path = annotationsPath → operation.value = .map entries →
        ∀ text, (key, text) ∈ entries → text = value

/-- Different keys have different paths. -/
theorem key_of_path {one other : String} (valid : '~' ∉ one.toList) (alike : '~' ∉ other.toList)
    (same : annotationPath one = annotationPath other) : one = other := by
  rw [← readKey_of_valid valid, ← readKey_of_valid alike, readKey, readKey, annotationPath_inj same]

variable (orders : ∀ map, Enumerates (order map) map)
  (valid : ∀ key, sent.template.annotations.lookup key ≠ none → '~' ∉ key.toList)
  (ran : (createPatch workload order sent).run Cluster.serve cluster = (after, .returned patch))

include orders valid ran

theorem removesKey_iff (held : sent.template.annotations.lookup key ≠ none) :
    RemovesKey patch key ↔ ¬ keepsAnnotation sent.template.spec key = true := by
  obtain ⟨added, _, rfl⟩ := returned_createPatch ran
  have dropped := orders sent.droppedAnnotations
  constructor
  · intro ⟨operation, member, removes, path⟩ kept
    rcases updateAnnotation_cases member with
      ⟨_, _, rfl⟩ | ⟨_, _, rfl⟩ | ⟨_, _, _, rfl⟩ | ⟨entry, listed, rfl⟩
    · cases removes
    · cases removes
    · cases removes
    · have found := dropped.lookup_ne_none entry listed
      have its := sent.parts_annotations.gone found
      rw [key_of_path (valid entry.1 its) (valid key held) path, sent.lookup_dropped, if_pos kept] at found
      exact found rfl
  · intro unkept
    obtain ⟨value, found⟩ := Option.ne_none_iff_exists'.mp held
    have listed : (key, value) ∈ order sent.droppedAnnotations := by
      rw [dropped.entries, sent.lookup_dropped, if_neg unkept, found]
    refine ⟨⟨.remove, annotationPath key, .text value⟩, ?_, rfl, rfl⟩
    exact List.mem_append_right _ (List.mem_map.mpr ⟨(key, value), listed, rfl⟩)

theorem setsOnly_of_kept {value : String} (held : sent.template.annotations.lookup key = some value)
    (user : UserKey key) (kept : keepsAnnotation sent.template.spec key = true) : SetsOnly patch key value := by
  obtain ⟨added, loops, rfl⟩ := returned_createPatch ran
  have its : '~' ∉ key.toList := valid key (by rw [held]; nofun)
  have keeps := orders sent.keptAnnotations
  have listed : (key, value) ∈ order sent.keptAnnotations := by
    rw [keeps.entries, sent.lookup_kept, if_pos kept, held]
  have filled : order sent.keptAnnotations ≠ [] := List.ne_nil_of_mem listed
  have new : ∀ entry ∈ order (added.put "config-sync-controller" "configurator"),
      annotationPath entry.1 ≠ annotationPath key := by
    intro entry member path
    have found := (orders _).lookup_ne_none entry member
    have read : readKey entry.1 = key := by
      rw [readKey, annotationPath_inj path]
      exact readKey_of_valid its
    rw [GoMap.lookup_put] at found
    split at found
    · rename_i control
      rw [control, readKey_of_valid (by decide)] at read
      exact user.other read.symm
    · obtain none | ⟨kind, name, _, same, _⟩ := (lookup_newAnnotations loops entry.1).mp found
      · exact none rfl
      · rw [same, readKey_pin] at read
        exact user.untagged kind (read ▸ prefix_tagged kind _)
  intro operation member sets
  rcases updateAnnotation_cases member with ⟨entry, inKept, rfl⟩ | ⟨entry, inNew, rfl⟩ | ⟨bare, _⟩ | ⟨_, _, rfl⟩
  · refine ⟨fun path => ?_, fun entries _ whole => by cases whole⟩
    have found := keeps.lookup_ne_none entry inKept
    have same := key_of_path (valid entry.1 (sent.parts_annotations.kept found)) its path
    have here := (keeps.entries entry.1 entry.2).mp inKept
    rw [same, (keeps.entries key value).mp listed] at here
    exact congrArg PatchValue.text (Option.some.inj here).symm
  · exact ⟨fun path => absurd path (new entry inNew), fun entries _ whole => by cases whole⟩
  · exact absurd bare filled
  · exact absurd rfl sets

/-- A user's annotation survives a handler exactly if no tag stands in its key, and the annotation of a
referenced object exactly if it is a ConfigMap's, or a Secret's whose name does not contain the other tag. -/
theorem annotations_survive_iff {value : String} (held : sent.template.annotations.lookup key = some value) :
    (UserKey key → (¬ RemovesKey patch key ∧ SetsOnly patch key value ↔
      contains key "ccm-" = false ∧ contains key "cs-" = false)) ∧
    ∀ kind name, key = Kind.tag kind ++ name → name ∈ sent.template.spec.mentions kind →
      (¬ RemovesKey patch key ↔ (kind = .secret → contains name "ccm-" = false)) := by
  have there : sent.template.annotations.lookup key ≠ none := by
    rw [held]
    nofun
  have removes := removesKey_iff orders valid ran there
  constructor
  · intro user
    rw [removes, not_not, ← user.keeps_iff sent.template.spec]
    constructor
    · exact And.left
    · intro kept
      exact ⟨kept, setsOnly_of_kept orders valid ran held user kept⟩
  · intro kind name same mentioned
    rw [removes, not_not, same]
    exact keeps_pin_iff mentioned

end Survival

namespace Sample

theorem exists_iteration : ∃ order : Iteration, ∀ map, Enumerates (order map) map :=
  ⟨fun map => (exists_enumerates map).choose, fun map => (exists_enumerates map).choose_spec⟩

/-- A Deployment without references whose template has one annotation. -/
def annotatedApi (key : String) : Workload :=
  { api with template := ⟨entry key "shop", ⟨[], [], []⟩⟩ }

theorem valid_annotatedApi {key : String} (valid : '~' ∉ key.toList) (other : String)
    (found : (annotatedApi key).template.annotations.lookup other ≠ none) : '~' ∉ other.toList := by
  have same : other = key := by
    by_contra different
    refine found ?_
    rw [annotatedApi, lookup_entry, if_neg different]
  rwa [same]

theorem run_annotatedApi (order : Iteration) (key : String) : ∃ patch,
    (createPatch .deployment order (annotatedApi key)).run Cluster.serve synced = (synced, .returned patch) := by
  have loops : (newAnnotations .deployment (annotatedApi key) (annotatedApi key).template.spec.references
      (.make ∅)).run Cluster.serve synced = (synced, .returned (.make ∅)) := by rfl
  exact ⟨_, run_createPatch_of_loops loops order⟩

theorem lookup_annotatedApi (key : String) : (annotatedApi key).template.annotations.lookup key = some "shop" := by
  rw [annotatedApi, lookup_entry, if_pos rfl]

theorem team_survives : ∃ order patch,
    (createPatch .deployment order (annotatedApi "team")).run Cluster.serve synced = (synced, .returned patch) ∧
      ¬ RemovesKey patch "team" ∧ SetsOnly patch "team" "shop" := by
  obtain ⟨order, orders⟩ := exists_iteration
  obtain ⟨patch, ran⟩ := run_annotatedApi order "team"
  have user : UserKey "team" := ⟨by decide, fun kind => by cases kind <;> decide⟩
  have survives := annotations_survive_iff orders (valid_annotatedApi (by decide)) ran (lookup_annotatedApi "team")
  exact ⟨order, patch, ran, (survives.1 user).mpr ⟨by simp [contains, List.infix_cons_iff],
    by simp [contains, List.infix_cons_iff]⟩⟩

/-- The annotation `docs-team` is taken for one of a Secret and removed. -/
theorem docsTeam_removed : UserKey "docs-team" ∧ ∃ order patch,
    (createPatch .deployment order (annotatedApi "docs-team")).run Cluster.serve synced =
      (synced, .returned patch) ∧ RemovesKey patch "docs-team" := by
  obtain ⟨order, orders⟩ := exists_iteration
  obtain ⟨patch, ran⟩ := run_annotatedApi order "docs-team"
  have there : (annotatedApi "docs-team").template.annotations.lookup "docs-team" ≠ none := by
    rw [lookup_annotatedApi]
    nofun
  have user : UserKey "docs-team" := ⟨by decide, fun kind => by cases kind <;> decide⟩
  have tagged : contains "docs-team" "cs-" = true := by simp [contains, List.infix_cons_iff]
  refine ⟨user, order, patch, ran, (removesKey_iff orders (valid_annotatedApi (by decide)) ran there).mpr ?_⟩
  rw [user.keeps_iff, tagged]
  exact fun clean => absurd clean.2 Bool.noConfusion

end Sample

end Configurator
