import Configurator.Marks
import Configurator.Reconciler

namespace Configurator

open Resource

variable {kind : Kind}

/-- Copying the revision back does not panic: the annotations of a Secret are
written into the map that the revision keeps. -/
def Restorable : {kind : Kind} → Revision kind → Prop
  | .configMap, _ => True
  | .secret, cs => cs.spec.secretAnnotations ≠ .nil

instance : {kind : Kind} → (revision : Revision kind) → Decidable (Restorable revision)
  | .configMap, _ => inferInstanceAs (Decidable True)
  | .secret, cs => inferInstanceAs (Decidable (cs.spec.secretAnnotations ≠ .nil))

/-- A Secret has the type of its revision. -/
def SameType : {kind : Kind} → Object kind → Revision kind → Prop
  | .configMap, _, _ => True
  | .secret, secret, cs => secret.content.type = cs.spec.type

/-- The annotations of a Secret after a copy. -/
def secretAnnotations (secret : Object .secret) (cs : Revision .secret) : GoMap String :=
  ((((cs.spec.secretAnnotations.put "deployments" (secret.annotations.index "deployments")).put
    "statefulsets" (secret.annotations.index "statefulsets")).put
    "updateMethod" (secret.annotations.index "updateMethod")).put
    "currentCustomSecretVersion" (secret.annotations.index "currentCustomSecretVersion")).put
    "customSecret-name" cs.name

theorem restore?_secret {secret : Object .secret} {cs : Revision .secret}
    (made : cs.spec.secretAnnotations ≠ .nil) :
    restore? secret cs = some { secret with
      annotations := secretAnnotations secret cs
      content := ({ secret.content with data := cs.spec.data } : SecretContent) } := by
  simp [restore?, secretAnnotations, GoMap.assign?_eq_some made, GoMap.assign?_eq_some]

theorem restore?_secret_nil {secret : Object .secret} {cs : Revision .secret}
    (nil : cs.spec.secretAnnotations = .nil) : restore? secret cs = none := by
  simp [restore?, nil, GoMap.assign?]

theorem restore?_eq_none {object : Object kind} {revision : Revision kind} :
    restore? object revision = none ↔ ¬ Restorable revision := by
  cases kind with
  | configMap => simp [restore?, Restorable]
  | secret =>
    by_cases nil : revision.spec.secretAnnotations = .nil
    · simp [restore?_secret_nil nil, Restorable, nil]
    · simp [restore?_secret nil, Restorable, nil]

theorem exists_restored {revision : Revision kind} (object : Object kind)
    (restorable : Restorable revision) : ∃ restored, restore? object revision = some restored := by
  cases found : restore? object revision with
  | none => exact absurd restorable (restore?_eq_none.mp found)
  | some restored => exact ⟨restored, rfl⟩

/-- What a copy leaves alone. -/
structure Object.Restored (object : Object kind) (revision : Revision kind) (restored : Object kind) :
    Prop where
  key : key restored = key object
  version : version restored = version object
  current : restored.currentVersion = object.currentVersion
  registered : ∀ workload, restored.registered workload = object.registered workload
  method : restored.annotations.index "updateMethod" = object.annotations.index "updateMethod"

theorem restored_of_restore? {object restored : Object kind} {revision : Revision kind}
    (copied : restore? object revision = some restored) : object.Restored revision restored := by
  cases kind with
  | configMap =>
    simp only [restore?, Option.some.injEq] at copied
    subst copied
    exact ⟨rfl, rfl, rfl, fun _ => rfl, rfl⟩
  | secret =>
    have made : revision.spec.secretAnnotations ≠ .nil := by
      intro nil
      simp [restore?_secret_nil nil] at copied
    rw [restore?_secret made, Option.some.injEq] at copied
    subst copied
    refine ⟨rfl, rfl, ?_, ?_, ?_⟩
    · simp [Object.currentVersion, secretAnnotations, Kind.versionKey]
    · intro workload
      cases workload <;> simp [Object.registered, secretAnnotations, WorkloadKind.registry]
    · simp [secretAnnotations]

theorem relabel?_eq_some {revision labelled : Revision kind}
    (relabelled : relabel? revision = some labelled) :
    labelled = { revision with
      labels := revision.labels.put "current" "true", spec := revision.spec.untracked } := by
  cases assigned : revision.label? "current" with
  | none => simp [relabel?, assigned] at relabelled
  | some marked =>
    rw [Revision.label?_eq_some assigned] at assigned
    simpa [relabel?, assigned] using relabelled.symm

theorem relabel?_of_labelled {revision : Revision kind} {label value : String}
    (carries : revision.Labelled label value) :
    relabel? revision = some { revision with
      labels := revision.labels.put "current" "true", spec := revision.spec.untracked } := by
  simp [relabel?, Revision.label?_of_labelled carries]

/-- A copied object agrees with its revision, up to the type of a Secret, which is
not copied. -/
theorem differs_restored {object restored updated : Object kind} {revision promoted : Revision kind}
    (stored : object.content.stored = object.content)
    (copied : restore? object revision = some restored)
    (written : updated = stamp (version updated) restored)
    (kept : promoted.spec = revision.spec.untracked.stored)
    (sameType : ∀ same : kind = .secret,
      (same ▸ object : Object .secret).content.type = (same ▸ revision : Revision .secret).spec.type) :
    differs updated promoted = false := by
  cases kind with
  | configMap =>
    simp only [restore?, Option.some.injEq] at copied
    subst copied
    rw [written]
    simp [differs, kept, Resource.stamp, Content.stored, Spec.stored]
  | secret =>
    have made : revision.spec.secretAnnotations ≠ .nil := by
      intro nil
      simp [restore?_secret_nil nil] at copied
    rw [restore?_secret made, Option.some.injEq] at copied
    have cleared : object.content.stringData = .nil :=
      (congrArg SecretContent.stringData stored).symm
    have same := sameType rfl
    have own : (untracked updated.annotations).omitEmpty =
        (untracked revision.spec.secretAnnotations).omitEmpty := by
      refine GoMap.omitEmpty_congr fun key => ?_
      rw [written, ← copied, lookup_untracked, lookup_untracked]
      split
      · rfl
      · rename_i outside
        simp only [trackingKeys, List.mem_cons, List.not_mem_nil, or_false, not_or] at outside
        simp [Resource.stamp, secretAnnotations, outside]
    have shape : updated.content.data = promoted.spec.data ∧
        updated.content.type = promoted.spec.type ∧
        promoted.spec.secretAnnotations = (untracked updated.annotations).omitEmpty := by
      refine ⟨?_, ?_, ?_⟩
      · rw [written, ← copied, kept]
        simp [Resource.stamp, Content.stored, cleared, Spec.stored, Spec.untracked]
      · rw [written, ← copied, kept]
        exact same
      · rw [own, kept]
        rfl
    simp only [differs, shape, GoMap.isEmpty_omitEmpty]
    split
    · simp
    · rename_i filled
      simp [GoMap.omitEmpty_of_not_isEmpty (by simpa using filled)]

/-- The answers and tables that moving to another revision goes through. -/
structure Checkout (cluster : Cluster) (object : Object kind) (current target : Revision kind) where
  restored : Object kind
  updated : Object kind
  objects : Table (Object kind)
  labelled : Revision kind
  promoted : Revision kind
  withTwo : Table (Revision kind)
  stripped : Revision kind
  withOne : Table (Revision kind)
  list : (cluster.revisions kind).select (marked object.ns object.name "current") = [current]
  other : current.customVersion ≠ object.currentVersion
  find : (cluster.revisions kind).find? (object.ns, object.name ++ "-" ++ object.currentVersion) =
    some target
  restore : restore? object target = some restored
  update : (cluster.objects kind).update restored = .ok (updated, objects)
  relabel : relabel? target = some labelled
  promote : (cluster.revisions kind).update labelled = .ok (promoted, withTwo)
  strip : withTwo.update (current.unlabel "current") = .ok (stripped, withOne)
  updating : (cluster.objects kind).Written restored updated objects
  promoting : (cluster.revisions kind).Written labelled promoted withTwo
  stripping : withTwo.Written (current.unlabel "current") stripped withOne

namespace Checkout

variable {cluster : Cluster} {object : Object kind} {current target latest : Revision kind}

theorem exists_of_sole (held : object ∈ cluster.objects kind)
    (isCurrent : (cluster.revisions kind).Sole (marked object.ns object.name "current") current)
    (other : current.customVersion ≠ object.currentVersion)
    (member : target ∈ cluster.revisions kind)
    (named : key target = (object.ns, object.name ++ "-" ++ object.currentVersion))
    (version : target.customVersion = object.currentVersion)
    {label value : String} (carries : target.Labelled label value)
    (restorable : Restorable target) : Nonempty (Checkout cluster object current target) := by
  obtain ⟨restored, restore⟩ := exists_restored object restorable
  have kept := restored_of_restore? restore
  obtain ⟨updated, objects, update, updating⟩ :=
    Table.update_of_current restored held kept.key.symm kept.version.symm
  have relabel := relabel?_of_labelled carries
  obtain ⟨promoted, withTwo, promote, promoting⟩ := Table.update_of_current
    { target with labels := target.labels.put "current" "true", spec := target.spec.untracked }
    member rfl rfl
  have apart : key current ≠ key target := by
    intro same
    exact other (Table.unique isCurrent.1 member same ▸ version)
  obtain ⟨stripped, withOne, strip, stripping⟩ := Table.update_of_current
    (current.unlabel "current") (promoting.mem_of_ne isCurrent.1 apart) rfl rfl
  exact ⟨⟨restored, updated, objects, _, promoted, withTwo, stripped, withOne,
    Table.select_eq_singleton.mpr isCurrent, other, Table.find?_eq_some.mpr ⟨member, named⟩,
    restore, update, relabel, promote, strip, updating, promoting, stripping⟩⟩

variable (checkout : Checkout cluster object current target)

def moved : Cluster :=
  (cluster.withObjects kind checkout.objects).withRevisions kind checkout.withOne

theorem run_synchronize :
    (synchronize object).run Cluster.serve cluster = (checkout.moved, .returned ()) := by
  simp [synchronize, listRevisions, copyRevision, getRevision, updateObject, updateRevision,
    checkout.list, checkout.other, checkout.find, checkout.restore, checkout.update,
    checkout.relabel, checkout.promote, checkout.strip, moved]

include checkout in
theorem target_mem : target ∈ cluster.revisions kind :=
  (Table.find?_eq_some.mp checkout.find).1

include checkout in
theorem key_target : key target = (object.ns, object.name ++ "-" ++ object.currentVersion) :=
  (Table.find?_eq_some.mp checkout.find).2

include checkout in
theorem apart (version : target.customVersion = object.currentVersion) : key current ≠ key target := by
  intro same
  have member := (Table.select_eq_singleton.mp checkout.list).1
  exact checkout.other (Table.unique member checkout.target_mem same ▸ version)

theorem labelled_eq : checkout.labelled = { target with
    labels := target.labels.put "current" "true", spec := target.spec.untracked } :=
  relabel?_eq_some checkout.relabel

theorem restoring : object.Restored target checkout.restored :=
  restored_of_restore? checkout.restore

theorem key_promoted : key checkout.promoted = key target := by
  rw [checkout.promoting.key_eq, checkout.labelled_eq]
  rfl

theorem labelled_promoted {label value : String} :
    checkout.promoted.Labelled label value ↔
      if label = "current" then "true" = value else target.Labelled label value := by
  rw [checkout.promoting.answered, checkout.labelled_eq]
  simp only [Revision.Labelled, Resource.stamp, GoMap.lookup_omitEmpty, GoMap.lookup_put]
  split <;> simp

theorem customVersion_promoted : checkout.promoted.customVersion = target.customVersion := by
  rw [checkout.promoting.answered, checkout.labelled_eq]
  simp [Revision.customVersion, Resource.stamp]

theorem spec_promoted : checkout.promoted.spec = target.spec.untracked.stored := by
  rw [checkout.promoting.answered, checkout.labelled_eq]
  rfl

theorem currentVersion_updated : checkout.updated.currentVersion = object.currentVersion := by
  rw [checkout.updating.answered, Object.currentVersion_stamp, checkout.restoring.current]

/-- The object agrees with its revision afterwards, if a Secret has the type of its revision. -/
theorem agrees (held : object ∈ cluster.objects kind) (sameType : SameType object target) :
    differs checkout.updated checkout.promoted = false := by
  refine differs_restored (Object.stored_content held) checkout.restore checkout.updating.answered
    checkout.spec_promoted ?_
  cases kind with
  | configMap => nofun
  | secret => exact fun _ => sameType

theorem key_updated : key checkout.updated = key object := by
  rw [checkout.updating.key_eq, checkout.restoring.key]

/-- A copy changes a revision beyond its labels only if the revision kept tracking
annotations. -/
theorem relabelled_promoted (kept : target.spec.untracked.stored = target.spec) :
    target.Relabelled checkout.promoted where
  ns := congrArg Prod.fst checkout.key_promoted
  name := congrArg Prod.snd checkout.key_promoted
  annotations := by
    have same : target.annotations.omitEmpty = target.annotations :=
      Revision.stored_annotations checkout.target_mem
    rw [checkout.promoting.answered, checkout.labelled_eq]
    exact same
  spec := checkout.spec_promoted.trans kept
  labels := by
    intro label current _
    rw [checkout.promoting.answered, checkout.labelled_eq]
    simp [Resource.stamp, current]

theorem keeps (kept : target.spec.untracked.stored = target.spec)
    (member : current ∈ cluster.revisions kind) (apart : key current ≠ key target) :
    (cluster.revisions kind).Keeps checkout.withOne := by
  have key : key checkout.labelled = key target := by rw [checkout.labelled_eq]; rfl
  have stays := checkout.promoting.mem_of_ne member (key ▸ apart)
  exact (checkout.promoting.keeps checkout.target_mem (checkout.relabelled_promoted kept)).trans
    (checkout.stripping.keeps stays (checkout.stripping.relabelled_unlabel stays (Or.inl rfl)))

theorem stems (kept : target.spec.untracked.stored = target.spec)
    (member : current ∈ cluster.revisions kind) (apart : key current ≠ key target) :
    (cluster.revisions kind).Stems checkout.withOne := by
  have key : key checkout.labelled = key target := by rw [checkout.labelled_eq]; rfl
  have stays := checkout.promoting.mem_of_ne member (key ▸ apart)
  exact (checkout.promoting.stems checkout.target_mem (checkout.relabelled_promoted kept)).trans
    (checkout.stripping.stems stays (checkout.stripping.relabelled_unlabel stays (Or.inl rfl)))

theorem keys (member : current ∈ cluster.revisions kind) : ∀ revision ∈ checkout.withOne,
    ∃ old ∈ cluster.revisions kind, key old = key revision := by
  intro revision present
  rcases (checkout.stripping.members revision).mp present with rfl | ⟨stays, _⟩
  · exact ⟨current, member, checkout.stripping.key_eq.symm⟩
  · rcases (checkout.promoting.members revision).mp stays with rfl | ⟨old, _⟩
    · exact ⟨target, checkout.target_mem, checkout.key_promoted.symm⟩
    · exact ⟨revision, old, rfl⟩

/-- The label stays where it is for every revision but the target. -/
theorem withTwo_iff
    (isCurrent : (cluster.revisions kind).Sole (marked object.ns object.name "current") current)
    (owned : target.Labelled "name" object.name) (apart : key current ≠ key target)
    (revision : Revision kind) :
    revision ∈ checkout.withTwo ∧ marked object.ns object.name "current" revision = true ↔
      revision = checkout.promoted ∨ revision = current := by
  have key : key checkout.labelled = key target := by rw [checkout.labelled_eq]; rfl
  rw [checkout.promoting.members, key]
  constructor
  · rintro ⟨same | ⟨member, _⟩, selected⟩
    · exact Or.inl same
    · exact Or.inr (isCurrent.2.2 revision member selected)
  · rintro (rfl | rfl)
    · refine ⟨Or.inl rfl, marked_iff.mpr ⟨?_, ?_, ?_⟩⟩
      · exact (congrArg Prod.fst checkout.key_promoted).trans (congrArg Prod.fst checkout.key_target)
      · exact checkout.labelled_promoted.mpr (by simpa using owned)
      · exact checkout.labelled_promoted.mpr (by simp)
    · exact ⟨Or.inr ⟨isCurrent.1, apart⟩, isCurrent.2.1⟩

/-- Once the old label is gone the target is the only current revision. -/
theorem sole_promoted
    (isCurrent : (cluster.revisions kind).Sole (marked object.ns object.name "current") current)
    (owned : target.Labelled "name" object.name) (apart : key current ≠ key target) :
    checkout.withOne.Sole (marked object.ns object.name "current") checkout.promoted := by
  have two := checkout.withTwo_iff isCurrent owned apart
  have own := (two checkout.promoted).mpr (Or.inl rfl)
  refine ⟨checkout.stripping.mem_of_ne own.1 ?_, own.2, ?_⟩
  · rw [checkout.key_promoted]
    exact Ne.symm apart
  · intro other member selected
    rcases (checkout.stripping.members other).mp member with rfl | ⟨present, different⟩
    · rw [marked_iff, checkout.stripping.labelled_unlabel, checkout.stripping.labelled_unlabel]
        at selected
      exact absurd rfl selected.2.2.1
    · rcases (two other).mp ⟨present, selected⟩ with same | rfl
      · exact same
      · exact absurd rfl different

theorem sole_latest
    (isCurrent : (cluster.revisions kind).Sole (marked object.ns object.name "current") current)
    (isLatest : (cluster.revisions kind).Sole (marked object.ns object.name "latest") latest)
    (apart : key current ≠ key target) :
    ∃ after, checkout.withOne.Sole (marked object.ns object.name "latest") after ∧
      key after = key latest := by
  have same : marked object.ns object.name "latest" checkout.promoted =
      marked object.ns object.name "latest" target := by
    rw [Bool.eq_iff_iff, marked_iff, marked_iff, checkout.labelled_promoted,
      checkout.labelled_promoted, show checkout.promoted.ns = target.ns from
        congrArg Prod.fst checkout.key_promoted]
    simp
  have key : key checkout.labelled = key target := by rw [checkout.labelled_eq]; rfl
  obtain ⟨middle, sole, which⟩ :=
    isLatest.rewrite checkout.promoting checkout.target_mem key same
  have stays : current ∈ checkout.withTwo :=
    checkout.promoting.mem_of_ne isCurrent.1 (key ▸ apart)
  obtain ⟨after, last, relabelled, _⟩ :=
    sole.unlabel_other checkout.stripping stays (Or.inl rfl) (by decide)
  refine ⟨after, last, relabelled.key_eq.trans ?_⟩
  rcases which with ⟨rfl, rfl⟩ | ⟨_, rfl⟩
  · exact checkout.key_promoted
  · rfl

end Checkout

end Configurator
