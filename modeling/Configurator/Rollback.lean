import Configurator.PodValidation
import Configurator.Reconciliation

/-! What a roll-back of the pod webhook does to the revisions of a namespace: it takes
the label `current` from the first revision of one fixed object and gives it to the
revision that the pod pins. -/
namespace Configurator

open Resource

variable {kind : Kind}

namespace PodWebhook

theorem restore?_configMap {configMap : Object .configMap} {ccm : Revision .configMap}
    (made : configMap.annotations ≠ .nil) :
    restore? configMap ccm = some { configMap with
      annotations := configMap.annotations.put "customConfigMap-name" ccm.name
      content :=
        ({ data := ccm.spec.data, binaryData := ccm.spec.binaryData } : ConfigMapContent) } := by
  simp [restore?, GoMap.assign?_eq_some made]

/-- The annotations of a Secret after a copy. -/
def secretAnnotations (secret : Object .secret) (cs : Revision .secret) : GoMap String :=
  ((((cs.spec.secretAnnotations.put "customConfigMap-name" cs.name).put "deployments"
    (secret.annotations.index "deployments")).put
    "statefulsets" (secret.annotations.index "statefulsets")).put
    "updateMethod" (secret.annotations.index "updateMethod")).put
    "currentCustomSecretVersion" (secret.annotations.index "currentCustomSecretVersion")

theorem restore?_secret {secret : Object .secret} {cs : Revision .secret}
    (made : cs.spec.secretAnnotations ≠ .nil) :
    restore? secret cs = some { secret with
      annotations := secretAnnotations secret cs
      content := ({ secret.content with data := cs.spec.data } : SecretContent) } := by
  simp [restore?, secretAnnotations, GoMap.assign?_eq_some made, GoMap.assign?_eq_some]

theorem restore?_secret_nil {secret : Object .secret} {cs : Revision .secret}
    (nil : cs.spec.secretAnnotations = .nil) : restore? secret cs = none := by
  simp [restore?, nil, GoMap.assign?]

/-- Copying a revision into a versioned object panics only on a nil annotation map. -/
theorem exists_restored {object : Object kind} {revision : Revision kind}
    (made : object.annotations ≠ .nil) :
    (∃ restored, restore? object revision = some restored) ↔ Restorable revision := by
  cases kind with
  | configMap => simp [restore?_configMap made, Restorable]
  | secret =>
    by_cases nil : revision.spec.secretAnnotations = .nil
    · simp [restore?_secret_nil nil, Restorable, nil]
    · simp [restore?_secret nil, Restorable, nil]

theorem restored_of_restore? {object restored : Object kind} {revision : Revision kind}
    (copied : restore? object revision = some restored) : object.Restored revision restored := by
  cases kind with
  | configMap =>
    have made : object.annotations ≠ .nil := by
      intro nil
      simp [restore?, nil, GoMap.assign?] at copied
    rw [restore?_configMap made, Option.some.injEq] at copied
    subst copied
    refine ⟨rfl, rfl, ?_, ?_, ?_⟩
    · simp [Object.currentVersion, Kind.versionKey]
    · intro workload
      cases workload <;> simp [Object.registered, WorkloadKind.registry]
    · simp
  | secret =>
    have made : revision.spec.secretAnnotations ≠ .nil := by
      intro nil
      simp [restore?_secret_nil nil] at copied
    rw [restore?_secret made, Option.some.injEq] at copied
    subst copied
    refine ⟨rfl, rfl, ?_, ?_, ?_⟩
    · simp [Object.currentVersion, secretAnnotations, Kind.versionKey]
    · intro workload
      cases workload <;> simp [Object.registered, secretAnnotations, WorkloadKind.registry]
    · simp [secretAnnotations]

theorem relabel?_eq_some {revision labelled : Revision kind}
    (relabelled : relabel? revision = some labelled) :
    labelled = { revision with
      labels := revision.labels.put "current" "true", spec := keptSpec revision } := by
  cases assigned : revision.label? "current" with
  | none => simp [relabel?, assigned] at relabelled
  | some marked =>
    rw [Revision.label?_eq_some assigned] at assigned
    simpa [relabel?, assigned] using relabelled.symm

theorem relabel?_of_labelled {revision : Revision kind} {label value : String}
    (carries : revision.Labelled label value) :
    relabel? revision = some { revision with
      labels := revision.labels.put "current" "true", spec := keptSpec revision } := by
  simp [relabel?, Revision.label?_of_labelled carries]

end PodWebhook

/-- The answers and tables that a roll-back goes through. -/
structure Rollback (cluster : Cluster) (object : Object kind) where
  target : Revision kind
  restored : Object kind
  updated : Object kind
  objects : Table (Object kind)
  first : Revision kind
  others : List (Revision kind)
  stripped : Revision kind
  withNone : Table (Revision kind)
  labelled : Revision kind
  promoted : Revision kind
  withOne : Table (Revision kind)
  find : (cluster.revisions kind).find? (object.ns, object.name ++ "-" ++ object.currentVersion) =
    some target
  restore : PodWebhook.restore? object target = some restored
  update : (cluster.objects kind).update restored = .ok (updated, objects)
  list : (cluster.revisions kind).select (marked object.ns PodWebhook.selectedName "current") =
    first :: others
  strip : (cluster.revisions kind).update (first.unlabel "current") = .ok (stripped, withNone)
  relabel : PodWebhook.relabel? target = some labelled
  promote : withNone.update labelled = .ok (promoted, withOne)

namespace Rollback

variable {cluster : Cluster} {object : Object kind}

def moved (rollback : Rollback cluster object) : Cluster :=
  (cluster.withObjects kind rollback.objects).withRevisions kind rollback.withOne

theorem run_copyRevision (rollback : Rollback cluster object) :
    (PodWebhook.copyRevision object).run Cluster.serve cluster = (rollback.moved, .returned ()) := by
  simp [PodWebhook.copyRevision, getRevision, updateObject, updateRevision, rollback.find,
    rollback.restore, rollback.update, rollback.list, rollback.strip, rollback.relabel,
    rollback.promote, moved, Except.toOption]

theorem of_returned {after : Cluster}
    (returned : (PodWebhook.copyRevision object).run Cluster.serve cluster = (after, .returned ())) :
    ∃ rollback : Rollback cluster object, after = rollback.moved := by
  simp only [PodWebhook.copyRevision, getRevision, updateObject, updateRevision] at returned
  cases find : (cluster.revisions kind).find?
      (object.ns, object.name ++ "-" ++ object.currentVersion) with
  | none => simp [find] at returned
  | some target =>
  cases restore : PodWebhook.restore? object target with
  | none => simp [find, restore] at returned
  | some restored =>
  cases update : (cluster.objects kind).update restored with
  | error refusal => simp [find, restore, update] at returned
  | ok result =>
  obtain ⟨updated, objects⟩ := result
  cases list : (cluster.revisions kind).select
      (marked object.ns PodWebhook.selectedName "current") with
  | nil => simp [find, restore, update, list, Except.toOption] at returned
  | cons first others =>
  cases strip : (cluster.revisions kind).update (first.unlabel "current") with
  | error refusal => simp [find, restore, update, list, strip, Except.toOption] at returned
  | ok result =>
  obtain ⟨stripped, withNone⟩ := result
  cases relabel : PodWebhook.relabel? target with
  | none => simp [find, restore, update, list, strip, relabel, Except.toOption] at returned
  | some labelled =>
  cases promote : withNone.update labelled with
  | error refusal =>
    simp [find, restore, update, list, strip, relabel, promote, Except.toOption] at returned
  | ok result =>
  obtain ⟨promoted, withOne⟩ := result
  refine ⟨⟨target, restored, updated, objects, first, others, stripped, withNone, labelled, promoted,
    withOne, find, restore, update, list, strip, relabel, promote⟩, ?_⟩
  simp [find, restore, update, list, strip, relabel, promote, Except.toOption] at returned
  exact returned.symm

variable (rollback : Rollback cluster object)

theorem first_mem : rollback.first ∈ cluster.revisions kind ∧
    marked object.ns PodWebhook.selectedName "current" rollback.first = true := by
  refine Table.mem_select.mp ?_
  rw [rollback.list]
  exact List.mem_cons_self

theorem target_mem : rollback.target ∈ cluster.revisions kind :=
  (Table.find?_eq_some.mp rollback.find).1

theorem key_target :
    key rollback.target = (object.ns, object.name ++ "-" ++ object.currentVersion) :=
  (Table.find?_eq_some.mp rollback.find).2

theorem labelled_eq : rollback.labelled = { rollback.target with
    labels := rollback.target.labels.put "current" "true"
    spec := PodWebhook.keptSpec rollback.target } :=
  PodWebhook.relabel?_eq_some rollback.relabel

theorem stripping : (cluster.revisions kind).Written (rollback.first.unlabel "current")
    rollback.stripped rollback.withNone :=
  (Table.written_of_update rollback.strip).2

theorem promoting : rollback.withNone.Written rollback.labelled rollback.promoted rollback.withOne :=
  (Table.written_of_update rollback.promote).2

theorem key_promoted : key rollback.promoted = key rollback.target := by
  rw [rollback.promoting.key_eq, rollback.labelled_eq]
  rfl

/-- The label is not taken from the pinned revision itself: the copy read before that
is outdated when it is written back. -/
theorem apart : key rollback.first ≠ key rollback.target := by
  intro same
  obtain ⟨member, carries⟩ := rollback.first_mem
  have equal : rollback.first = rollback.target := Table.unique member rollback.target_mem same
  have later := rollback.stripping.clock_lt_unlabel member (marked_iff.mp carries).2.2
  obtain ⟨⟨entry, present, sameKey, current⟩, _⟩ := Table.written_of_update rollback.promote
  have sentKey : key rollback.labelled = key rollback.target := by
    rw [rollback.labelled_eq]
    rfl
  have sentVersion : version rollback.labelled = version rollback.target := by
    rw [rollback.labelled_eq]
    rfl
  have strippedKey : key rollback.stripped = key rollback.first := rollback.stripping.key_eq
  have stored : entry = rollback.stripped :=
    Table.unique present rollback.stripping.mem
      (sameKey.trans (sentKey.trans (same.symm.trans strippedKey.symm)))
  have bounded := Table.bound rollback.target_mem
  rw [stored, sentVersion] at current
  omega

/-- What is stored afterwards: the two revisions that were written, and the others. -/
theorem mem_withOne {revision : Revision kind} : revision ∈ rollback.withOne ↔
    revision = rollback.promoted ∨ revision = rollback.stripped ∨
      revision ∈ cluster.revisions kind ∧ key revision ≠ key rollback.first ∧
        key revision ≠ key rollback.target := by
  have sentKey : key rollback.labelled = key rollback.target := by
    rw [rollback.labelled_eq]
    rfl
  have strippedKey : key rollback.stripped = key rollback.first := rollback.stripping.key_eq
  rw [rollback.promoting.members, rollback.stripping.members, sentKey]
  constructor
  · rintro (same | ⟨same | ⟨member, other⟩, different⟩)
    · exact Or.inl same
    · exact Or.inr (Or.inl same)
    · exact Or.inr (Or.inr ⟨member, other, different⟩)
  · rintro (same | rfl | ⟨member, other, different⟩)
    · exact Or.inl same
    · exact Or.inr ⟨Or.inl rfl, strippedKey ▸ rollback.apart⟩
    · exact Or.inr ⟨Or.inr ⟨member, other⟩, different⟩

theorem labelled_promoted {label value : String} : rollback.promoted.Labelled label value ↔
    if label = "current" then "true" = value else rollback.target.Labelled label value := by
  rw [rollback.promoting.answered, rollback.labelled_eq]
  simp only [Revision.Labelled, Resource.stamp, GoMap.lookup_omitEmpty, GoMap.lookup_put]
  split <;> simp

theorem not_labelled_stripped : ¬ rollback.stripped.Labelled "current" "true" := by
  rw [rollback.stripping.labelled_unlabel]
  exact fun carries => carries.1 rfl

end Rollback

/-- A pod whose template pins a revision of an object is admitted: the call completes,
no revision of another object changes, and the pinned one becomes the only current one. -/
structure RollsBack (cluster : Cluster) (pod : Pod) (object : Object kind) (target : Revision kind) :
    Prop where
  completes : ((matchVersion pod object.name object).run Cluster.serve cluster).2 = .returned ()
  others : ∀ revision : Revision kind, ¬ revision.Labelled "name" object.name →
    (revision ∈ ((matchVersion pod object.name object).run Cluster.serve cluster).1.revisions kind ↔
      revision ∈ cluster.revisions kind)
  sole : ∃ promoted : Revision kind, key promoted = key target ∧
    (((matchVersion pod object.name object).run Cluster.serve cluster).1.revisions kind).Sole
      (marked object.ns object.name "current") promoted

section RollsBack

variable {cluster : Cluster} {pod : Pod} {object : Object kind} {current target : Revision kind}

def pinned (pod : Pod) (object : Object kind) : Object kind :=
  object.naming (pod.annotations.index (kind.tag ++ object.name))

theorem matchVersion_of_other (made : object.annotations ≠ .nil)
    (other : pod.annotations.index (kind.tag ++ object.name) ≠ object.currentVersion) :
    matchVersion pod object.name object = PodWebhook.copyRevision (pinned pod object) := by
  simp [matchVersion, other, GoMap.assign?_eq_some made, pinned, Object.naming]

theorem matchVersion_of_nil (nil : object.annotations = .nil)
    (other : pod.annotations.index (kind.tag ++ object.name) ≠ object.currentVersion) :
    matchVersion pod object.name object = .panic := by
  simp [matchVersion, other, nil, GoMap.assign?]

@[simp] theorem currentVersion_pinned (pod : Pod) (object : Object kind) :
    (pinned pod object).currentVersion = pod.annotations.index (kind.tag ++ object.name) := by
  simp [pinned]

/-- Where the pinned revision is another one than the current, is found and can be copied
back, the roll-back goes through all its calls. -/
theorem Rollback.exists_of_selected (held : object ∈ cluster.objects kind)
    (isCurrent : (cluster.revisions kind).Sole (marked object.ns object.name "current") current)
    (selected : object.name = PodWebhook.selectedName) (member : target ∈ cluster.revisions kind)
    (named : key target = (object.ns, object.name ++ "-" ++ target.customVersion))
    (owned : target.Labelled "name" object.name)
    (version : pod.annotations.index (kind.tag ++ object.name) = target.customVersion)
    (restorable : Restorable target) (different : current ≠ target) :
    ∃ rollback : Rollback cluster (pinned pod object),
      rollback.target = target ∧ rollback.first = current := by
  obtain ⟨restored, restore⟩ := (PodWebhook.exists_restored
    (show (pinned pod object).annotations ≠ .nil by simp [pinned, Object.naming])).mpr restorable
  have kept := PodWebhook.restored_of_restore? restore
  obtain ⟨updated, objects, update, _⟩ :=
    Table.update_of_current restored held kept.key.symm kept.version.symm
  obtain ⟨stripped, withNone, strip, stripping⟩ :=
    Table.update_of_current (current.unlabel "current") isCurrent.1 rfl rfl
  have apart : key target ≠ key current := fun same =>
    different (Table.unique isCurrent.1 member same.symm)
  obtain ⟨promoted, withOne, promote, _⟩ := Table.update_of_current
    { target with
      labels := target.labels.put "current" "true", spec := PodWebhook.keptSpec target }
    (stripping.mem_of_ne member apart) rfl rfl
  have find := Table.find?_eq_some.mpr ⟨member, named⟩
  have list := Table.select_eq_singleton.mpr isCurrent
  rw [selected] at list
  exact ⟨⟨target, restored, updated, objects, current, [], stripped, withNone, _, promoted, withOne,
    by rwa [currentVersion_pinned, version], restore, update, list, strip,
    PodWebhook.relabel?_of_labelled owned, promote⟩, rfl, rfl⟩

/-- A roll-back of the object whose name stands in the selector moves the label. -/
theorem Rollback.rollsBack (rollback : Rollback cluster (pinned pod object))
    (ran : (matchVersion pod object.name object).run Cluster.serve cluster =
      (rollback.moved, .returned ()))
    (isCurrent : (cluster.revisions kind).Sole (marked object.ns object.name "current")
      rollback.first)
    (owned : rollback.target.Labelled "name" object.name) :
    RollsBack cluster pod object rollback.target := by
  obtain ⟨inNs, ownedFirst, _⟩ := marked_iff.mp isCurrent.2.1
  have ownedStripped : rollback.stripped.Labelled "name" object.name :=
    rollback.stripping.labelled_unlabel.mpr ⟨by decide, ownedFirst⟩
  have ownedPromoted : rollback.promoted.Labelled "name" object.name :=
    rollback.labelled_promoted.mpr (by simpa using owned)
  refine ⟨by rw [ran], fun revision foreign => ?_, rollback.promoted, rollback.key_promoted, ?_⟩
  · rw [ran]
    simp only [moved, Cluster.withRevisions_revisions, rollback.mem_withOne]
    constructor
    · rintro (rfl | rfl | ⟨member, _⟩)
      · exact absurd ownedPromoted foreign
      · exact absurd ownedStripped foreign
      · exact member
    · intro member
      refine Or.inr (Or.inr ⟨member, fun same => ?_, fun same => ?_⟩)
      · exact foreign (Table.unique member isCurrent.1 same ▸ ownedFirst)
      · exact foreign (Table.unique member rollback.target_mem same ▸ owned)
  · rw [ran]
    simp only [moved, Cluster.withRevisions_revisions]
    refine ⟨rollback.mem_withOne.mpr (Or.inl rfl), marked_iff.mpr ⟨?_, ownedPromoted, ?_⟩, ?_⟩
    · exact (congrArg Prod.fst rollback.key_promoted).trans (congrArg Prod.fst rollback.key_target)
    · exact rollback.labelled_promoted.mpr (by simp)
    · intro other member carries
      rcases rollback.mem_withOne.mp member with rfl | rfl | ⟨present, notFirst, _⟩
      · rfl
      · exact absurd (marked_iff.mp carries).2.2 rollback.not_labelled_stripped
      · exact absurd (congrArg key (isCurrent.2.2 other present carries)) notFirst

/-- The label of another object's revision is taken away, unless the object's name stands
in the selector. -/
theorem Rollback.selected (rollback : Rollback cluster object)
    (others : ∀ revision : Revision kind, ¬ revision.Labelled "name" object.name →
      (revision ∈ rollback.withOne ↔ revision ∈ cluster.revisions kind)) :
    object.name = PodWebhook.selectedName := by
  by_contra different
  obtain ⟨member, carries⟩ := rollback.first_mem
  obtain ⟨_, owned, labelled⟩ := marked_iff.mp carries
  have foreign : ¬ rollback.first.Labelled "name" object.name := fun same =>
    different (Option.some.inj (same.symm.trans owned))
  rcases rollback.mem_withOne.mp ((others _ foreign).mpr member) with same | same | ⟨_, apart, _⟩
  · exact rollback.apart (same ▸ rollback.key_promoted)
  · exact rollback.not_labelled_stripped (same ▸ labelled)
  · exact apart rfl

/-- Only the revision that was looked up can become the current one. -/
theorem Rollback.of_sole (rollback : Rollback cluster object) {promoted : Revision kind}
    (isCurrent : (cluster.revisions kind).Sole (marked object.ns object.name "current") current)
    (selected : object.name = PodWebhook.selectedName)
    (sole : rollback.withOne.Sole (marked object.ns object.name "current") promoted) :
    key promoted = key rollback.target ∧ rollback.first = current := by
  obtain ⟨member, carries⟩ := rollback.first_mem
  rw [← selected] at carries
  have first := isCurrent.2.2 rollback.first member carries
  refine ⟨?_, first⟩
  rcases rollback.mem_withOne.mp sole.1 with rfl | rfl | ⟨present, notFirst, _⟩
  · exact rollback.key_promoted
  · exact absurd (marked_iff.mp sole.2.1).2.2 rollback.not_labelled_stripped
  · exact absurd (congrArg key ((isCurrent.2.2 promoted present sole.2.1).trans first.symm)) notFirst

/-- A roll-back does what it is for exactly if the object is the one whose name stands
in the selector, the pinned revision is stored under the name it is looked up by and can
be copied back, and it is not the current one already. -/
theorem rollsBack_iff (held : object ∈ cluster.objects kind)
    (isCurrent : (cluster.revisions kind).Sole (marked object.ns object.name "current") current)
    (member : target ∈ cluster.revisions kind) (inNs : target.ns = object.ns)
    (owned : target.Labelled "name" object.name)
    (version : pod.annotations.index (kind.tag ++ object.name) = target.customVersion)
    (other : target.customVersion ≠ object.currentVersion) :
    RollsBack cluster pod object target ↔
      object.annotations ≠ .nil ∧ object.name = PodWebhook.selectedName ∧
        target.name = object.name ++ "-" ++ target.customVersion ∧ Restorable target ∧
        current ≠ target := by
  rw [← version] at other
  constructor
  · intro rollsBack
    have made : object.annotations ≠ .nil := by
      intro nil
      have completes := rollsBack.completes
      rw [matchVersion_of_nil nil other] at completes
      cases completes
    obtain ⟨completes, others, promoted, sameKey, sole⟩ := rollsBack
    rw [matchVersion_of_other made other] at completes others sole
    obtain ⟨rollback, moved⟩ := Rollback.of_returned (Prod.ext rfl completes)
    simp only [moved, Rollback.moved, Cluster.withRevisions_revisions] at others sole
    have selected : object.name = PodWebhook.selectedName := rollback.selected others
    obtain ⟨keyTarget, first⟩ := rollback.of_sole isCurrent selected sole
    have found : rollback.target = target :=
      Table.unique rollback.target_mem member (keyTarget.symm.trans sameKey)
    have named := congrArg Prod.snd rollback.key_target
    rw [currentVersion_pinned, version, found] at named
    refine ⟨made, selected, named, ?_, ?_⟩
    · rw [← found]
      exact (PodWebhook.exists_restored (by simp [pinned, Object.naming])).mp ⟨rollback.restored, rollback.restore⟩
    · rintro rfl
      exact rollback.apart (first ▸ found ▸ rfl)
  · rintro ⟨made, selected, named, restorable, different⟩
    obtain ⟨rollback, rfl, rfl⟩ := Rollback.exists_of_selected held isCurrent selected member
      (Prod.ext inNs named) owned version restorable different
    refine rollback.rollsBack ?_ isCurrent owned
    rw [matchVersion_of_other made other, rollback.run_copyRevision]

end RollsBack

namespace Sample

/-- A pod whose template pins a version of a ConfigMap. -/
def podPinning (name version : String) : Pod where
  ns := "shop"
  name := "web-1"
  annotations := ((GoMap.make ∅).put "config-sync-controller" "configurator").put ("ccm-" ++ name) version
  spec := ⟨[⟨some name, none⟩], [], []⟩

/-- A ConfigMap with a current CustomConfigMap `bbbbb` and an older one `aaaaa`. -/
def twoVersions : Cluster :=
  shop ⟨[settings "blue" "bbbbb" 1], 1, by decide, by decide, by decide⟩
    ⟨[settingsCCM "red" "aaaaa" [] 1, settingsCCM "blue" "bbbbb" ["current", "latest"] 2], 2,
      by decide, by decide, by decide⟩

/-- Two versions of the ConfigMap whose name stands in the selector. -/
def selectedVersions : Cluster :=
  shop ⟨[configMap "config-multi-env-files" "blue" "bbbbb" 1], 1, by decide, by decide, by decide⟩
    ⟨[ccm "config-multi-env-files" "red" "aaaaa" [] 1,
      ccm "config-multi-env-files" "blue" "bbbbb" ["current", "latest"] 2], 2,
      by decide, by decide, by decide⟩

theorem current_selectedVersions : (selectedVersions.revisions .configMap).Sole
    (marked "shop" "config-multi-env-files" "current")
    (ccm "config-multi-env-files" "blue" "bbbbb" ["current", "latest"] 2) :=
  Table.select_eq_singleton.mp (by decide)

theorem selected_rollsBack : RollsBack selectedVersions
    (podPinning "config-multi-env-files" "aaaaa") (configMap "config-multi-env-files" "blue" "bbbbb" 1)
    (ccm "config-multi-env-files" "red" "aaaaa" [] 1) :=
  (rollsBack_iff (List.mem_singleton_self _) current_selectedVersions List.mem_cons_self rfl (by decide)
    (by decide) (by decide)).mpr ⟨by decide, by decide, by decide, trivial, by decide⟩

/-- A ConfigMap that is not the selected one is not rolled back: no CustomConfigMap is listed and the
index is out of range. -/
theorem settings_not_rolledBack :
    (twoVersions.revisions .configMap).Sole (marked "shop" "settings" "current")
        (settingsCCM "blue" "bbbbb" ["current", "latest"] 2) ∧
      settingsCCM "red" "aaaaa" [] 1 ∈ twoVersions.revisions .configMap ∧
      ¬ RollsBack twoVersions (podPinning "settings" "aaaaa") (settings "blue" "bbbbb" 1)
        (settingsCCM "red" "aaaaa" [] 1) := by
  refine ⟨Table.select_eq_singleton.mp (by decide), List.mem_cons_self, fun rollsBack => ?_⟩
  have panics : ((matchVersion (podPinning "settings" "aaaaa") "settings"
      (settings "blue" "bbbbb" 1)).run Cluster.serve twoVersions).2 = .panicked := by
    rfl
  cases panics.symm.trans rollsBack.completes

end Sample

end Configurator
