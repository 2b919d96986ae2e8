import Configurator.Library.Log
import Configurator.Reconciliation
import Mathlib.Logic.Relation

/-! The version history of a ConfigMap under fault-free reconciliation. What the API
server stores for it represents a log of commits, and every round of a user's change
and a reconcile is a commit or a checkout of that log. -/
namespace Configurator

open Resource

/-- What a user does to a ConfigMap: edit it, name another version, or drop the
annotations of the controller. -/
inductive UserEvent where
  | edit (content : ConfigMapContent)
  | choose (version : String) (content : ConfigMapContent)
  | forget (content : ConfigMapContent)

namespace UserEvent

def apply : UserEvent → Object .configMap → Object .configMap
  | .edit content, object => { object with content := content }
  | .choose version content, object =>
    { object with
      annotations := object.annotations.put Kind.configMap.versionKey version, content := content }
  | .forget content, object =>
    { object with
      annotations := ((object.annotations.delete Kind.configMap.versionKey).delete
        Kind.configMap.nameKey).delete "updateMethod"
      content := content }

/-- A version can be chosen if a CustomConfigMap has it; annotations can be dropped
while another one remains. -/
def Allowed (cluster : Cluster) (object : Object .configMap) : UserEvent → Prop
  | .edit _ => True
  | .choose version _ => ∃ ccm ∈ cluster.revisions .configMap,
      ccm.ns = object.ns ∧ ccm.Labelled "name" object.name ∧ ccm.customVersion = version
  | .forget content => (apply (.forget content) object).annotations.isEmpty = false

end UserEvent

/-- The CustomConfigMaps of a ConfigMap that are stored after a reconcile and were not
before it. -/
def createdSince (ns name : String) (before after : Cluster) : List (Revision .configMap) :=
  (after.revisions .configMap).select fun ccm =>
    ccm.matches ns [("name", name)] &&
      ((before.revisions .configMap).find? (key ccm)).isNone

/-- A ConfigMap without CustomConfigMaps and without the controller's annotations. -/
structure Untouched (ns name : String) (cluster : Cluster) (object : Object .configMap) : Prop where
  held : object ∈ cluster.objects .configMap
  key : object.ns = ns ∧ object.name = name
  version : object.annotations.lookup Kind.configMap.versionKey = none
  revision : object.annotations.lookup Kind.configMap.nameKey = none
  method : object.annotations.lookup "updateMethod" = none
  none : ∀ ccm ∈ cluster.revisions .configMap, ¬ (ccm.ns = ns ∧ ccm.Labelled "name" name)

/-- A cluster with the CustomConfigMaps that the rounds so far have created, newest first. -/
abbrev Recorded := Cluster × List (Revision .configMap)

/-- The cluster once the API server has taken a change to the ConfigMaps, with
whatever random generators come next. -/
def Cluster.changed (cluster : Cluster) (objects : Table (Object .configMap))
    (entropy : Nat → Draws) : Cluster :=
  { cluster.withObjects .configMap objects with entropy := entropy }

@[simp] theorem Cluster.changed_revisions (cluster : Cluster) (objects : Table (Object .configMap))
    (entropy : Nat → Draws) : (cluster.changed objects entropy).revisions = cluster.revisions := rfl

@[simp] theorem Cluster.changed_objects (cluster : Cluster) (objects : Table (Object .configMap))
    (entropy : Nat → Draws) : (cluster.changed objects entropy).objects .configMap = objects := by
  simp [changed]

/-- A user's change, accepted by the API server, and one reconcile without a failure.
The version it would generate is new. -/
inductive Round (ns name : String) : Recorded → Recorded → Prop where
  | mk {cluster : Cluster} {created : List (Revision .configMap)} {object edited : Object .configMap}
      {objects : Table (Object .configMap)} (event : UserEvent) (entropy : Nat → Draws)
      (held : object ∈ cluster.objects .configMap) (inNs : object.ns = ns)
      (owner : object.name = name) (allowed : event.Allowed cluster object)
      (accepted : (cluster.objects .configMap).update (event.apply object) = .ok (edited, objects))
      (unused : (cluster.changed objects entropy).Unused .configMap ns name
        (cluster.changed objects entropy).nextVersion) :
      Round ns name (cluster, created)
        (((cluster.changed objects entropy).reconcile .configMap ns name).1,
          createdSince ns name cluster
            ((cluster.changed objects entropy).reconcile .configMap ns name).1 ++ created)

/-- What holds of a ConfigMap after a round: one current and one latest
CustomConfigMap, the latest is the one created last, the annotation and the content
are those of the current one, and all that were created still hold their content. -/
structure Consistent (ns name : String) (cluster : Cluster) (created : List (Revision .configMap))
    (object : Object .configMap) (current latest : Revision .configMap) : Prop where
  held : object ∈ cluster.objects .configMap
  key : object.ns = ns ∧ object.name = name
  isCurrent : (cluster.revisions .configMap).Sole (marked ns name "current") current
  isLatest : (cluster.revisions .configMap).Sole (marked ns name "latest") latest
  last : ∃ newest older, created = newest :: older ∧ newest.Relabelled latest
  version : object.currentVersion = current.customVersion
  data : object.content.data = current.spec.data
  binaryData : object.content.binaryData = current.spec.binaryData
  kept : ∀ ccm ∈ created, ∃ still ∈ cluster.revisions .configMap, ccm.Relabelled still

/-- The CustomConfigMaps of a ConfigMap hold a log: each is a commit of it and each
commit is stored; one is current, one is latest. -/
structure HoldsLog (ns name : String) (log : Log String (Spec .configMap))
    (table : Table (Revision .configMap)) (current latest : Revision .configMap) : Prop where
  isCurrent : table.Sole (marked ns name "current") current
  isLatest : table.Sole (marked ns name "latest") latest
  head : current.customVersion = log.head
  newest : latest.customVersion = log.newest.1
  stored : ∀ commit ∈ log.commits, ∃ ccm ∈ table,
    ccm.ns = ns ∧ ccm.Labelled "name" name ∧ ccm.customVersion = commit.1 ∧ ccm.spec = commit.2
  known : ∀ ccm ∈ table, ccm.ns = ns → ccm.Labelled "name" name →
    (ccm.customVersion, ccm.spec) ∈ log.commits
  named : table.Named ns name
  plain : ∀ version ∈ log.versions, Plain version

namespace HoldsLog

variable {ns name : String} {log : Log String (Spec .configMap)} (cluster : Cluster)
  {object : Object .configMap} {current latest target : Revision .configMap}

/-- A version under whose name nothing is stored is not in the log. -/
theorem unused (holds : HoldsLog ns name log (cluster.revisions .configMap) current latest)
    {version : String} (unused : cluster.Unused .configMap ns name version) :
    version ∉ log.versions := by
  intro used
  obtain ⟨commit, member, same⟩ := List.mem_map.mp used
  obtain ⟨ccm, present, inNs, owned, its, _⟩ := holds.stored commit member
  have named := (holds.named ccm present inNs owned).1
  rw [its, same] at named
  exact unused ccm present (Prod.ext inNs named)

/-- Moving labels keeps every commit and adds none. -/
theorem moved {table next : Table (Revision .configMap)}
    (holds : HoldsLog ns name log table current latest) (keeps : table.Keeps next)
    (stems : table.Stems next) :
    (∀ commit ∈ log.commits, ∃ ccm ∈ next, ccm.ns = ns ∧ ccm.Labelled "name" name ∧
      ccm.customVersion = commit.1 ∧ ccm.spec = commit.2) ∧
    (∀ ccm ∈ next, ccm.ns = ns → ccm.Labelled "name" name →
      (ccm.customVersion, ccm.spec) ∈ log.commits) := by
  constructor
  · intro commit member
    obtain ⟨ccm, present, inNs, owned, its, content⟩ := holds.stored commit member
    obtain ⟨kept, stays, relabelled⟩ := keeps ccm present
    exact ⟨kept, stays, relabelled.ns.trans inNs, (relabelled.owned name).mpr owned,
      relabelled.customVersion_eq.trans its, relabelled.spec.trans content⟩
  · intro ccm present inNs owned
    obtain ⟨old, was, relabelled⟩ := stems ccm present
    rw [relabelled.customVersion_eq, relabelled.spec]
    exact holds.known old was (relabelled.ns ▸ inNs) ((relabelled.owned name).mp owned)

theorem commit (holds : HoldsLog ns name log (cluster.revisions .configMap) current latest)
    (inNs : object.ns = ns) (owner : object.name = name)
    (unused : cluster.nextVersion ∉ log.versions) (commit : Commit cluster object current) :
    HoldsLog ns name (log.commit cluster.nextVersion commit.created.spec unused) commit.withNew
      commit.created commit.created := by
  subst inNs owner
  have member := holds.isCurrent.1
  have keeps : (cluster.revisions .configMap).Keeps commit.noLatest :=
    (commit.stripping.keeps member (commit.stripping.relabelled_unlabel member (Or.inl rfl))).trans
      (commit.retiring.keeps commit.latest_mem commit.relabelled_retired)
  obtain ⟨stored, known⟩ := holds.moved keeps (commit.stems member)
  refine ⟨commit.sole_created holds.isCurrent (Or.inl rfl),
    commit.sole_created holds.isCurrent (Or.inr rfl), commit.customVersion_created,
    commit.customVersion_created, ?_, ?_, commit.named member holds.named, ?_⟩
  · intro entry committed
    rcases List.mem_cons.mp committed with rfl | older
    · obtain ⟨inNs, owned, _⟩ :=
        marked_iff.mp (commit.sole_created holds.isCurrent (Or.inl rfl)).2.1
      exact ⟨commit.created, commit.creating.mem, inNs, owned, commit.customVersion_created, rfl⟩
    · obtain ⟨ccm, present, facts⟩ := stored entry older
      exact ⟨ccm, commit.creating.mem_of_ne present (commit.free ccm present), facts⟩
  · intro ccm present inNs owned
    rcases (commit.creating.members ccm).mp present with rfl | ⟨was, _⟩
    · rw [commit.customVersion_created]
      exact List.mem_cons_self
    · exact List.mem_cons_of_mem _ (known ccm was inNs owned)
  · intro version member
    rcases List.mem_cons.mp member with rfl | older
    · exact plain_randomSequence _ _
    · exact holds.plain version older

theorem checkout (holds : HoldsLog ns name log (cluster.revisions .configMap) current latest)
    (inNs : object.ns = ns) (owner : object.name = name) (owned : target.Labelled "name" name)
    (apart : key current ≠ key target) (known : target.customVersion ∈ log.versions)
    (checkout : Checkout cluster object current target) :
    ∃ after, HoldsLog ns name (log.checkout target.customVersion known) checkout.withOne
      checkout.promoted after := by
  subst inNs owner
  have kept : target.spec.untracked.stored = target.spec :=
    Revision.stored_spec checkout.target_mem
  have keeps := checkout.keeps kept holds.isCurrent.1 apart
  have stems := checkout.stems kept holds.isCurrent.1 apart
  obtain ⟨after, isLatest, same⟩ := checkout.sole_latest holds.isCurrent holds.isLatest apart
  obtain ⟨stored, all⟩ := holds.moved keeps stems
  refine ⟨after, checkout.sole_promoted holds.isCurrent owned apart, isLatest,
    checkout.customVersion_promoted, ?_, stored, all, stems.named holds.named, holds.plain⟩
  -- the revision under the key of the latest one carries the same version
  obtain ⟨successor, stays, relabelled⟩ := keeps latest holds.isLatest.1
  have equal : after = successor :=
    Table.unique isLatest.1 stays (same.trans relabelled.key_eq.symm)
  rw [equal, relabelled.customVersion_eq]
  exact holds.newest

end HoldsLog

section Since

variable {ns name : String} {before after : Cluster}

theorem createdSince_of_stems
    (stems : (before.revisions .configMap).Stems (after.revisions .configMap)) :
    createdSince ns name before after = [] := by
  refine Table.select_eq_nil.mpr fun ccm member => ?_
  obtain ⟨old, present, relabelled⟩ := stems ccm member
  have taken : (before.revisions .configMap).find? (key ccm) = some old :=
    Table.find?_eq_some.mpr ⟨present, relabelled.key_eq.symm⟩
  simp [taken]

/-- A reconcile that makes a revision has created that one. -/
theorem createdSince_of_written {middle : Table (Revision .configMap)} {object : Object .configMap}
    {version : String} {created : Revision .configMap} (inNs : object.ns = ns)
    (owner : object.name = name) (stems : (before.revisions .configMap).Stems middle)
    (creating : middle.Written (newRevision object version) created (after.revisions .configMap))
    (unused : before.Unused .configMap ns name version) :
    createdSince ns name before after = [created] := by
  subst inNs owner
  refine Table.select_eq_singleton.mpr ⟨creating.mem, ?_, ?_⟩
  · have free : (before.revisions .configMap).find? (key created) = none := by
      rw [Table.find?_eq_none, creating.key_eq]
      exact unused
    have own : created.ns = object.ns ∧ created.Labelled "name" object.name := by
      rw [creating.answered, Revision.labelled_stamp, Table.labelled_newRevision]
      exact ⟨rfl, by simp⟩
    simp [Revision.matches, own, free]
  · intro other member selected
    rcases (creating.members other).mp member with same | ⟨present, _⟩
    · exact same
    · obtain ⟨old, was, relabelled⟩ := stems other present
      have taken : (before.revisions .configMap).find? (key other) = some old :=
        Table.find?_eq_some.mpr ⟨was, relabelled.key_eq.symm⟩
      simp [taken] at selected

end Since

namespace UserEvent

@[simp] theorem currentVersion_edit (content : ConfigMapContent) (object : Object .configMap) :
    ((edit content).apply object).currentVersion = object.currentVersion := rfl

@[simp] theorem currentVersion_choose (version : String) (content : ConfigMapContent)
    (object : Object .configMap) :
    ((choose version content).apply object).currentVersion = version := by
  simp [apply, Object.currentVersion]

@[simp] theorem currentVersion_forget (content : ConfigMapContent) (object : Object .configMap) :
    ((forget content).apply object).currentVersion = "" := by
  simp [apply, Object.currentVersion, Kind.versionKey, Kind.nameKey]

@[simp] theorem key_apply (event : UserEvent) (object : Object .configMap) :
    key (event.apply object) = key object := by
  cases event <;> rfl

end UserEvent

/-- The API server's state of a ConfigMap, with the record of its CustomConfigMaps,
represents a log: it names the version checked out and agrees with it. -/
structure Represents (ns name : String) (log : Log String (Spec .configMap)) (cluster : Cluster)
    (created : List (Revision .configMap)) : Prop where
  synced : ∃ object current latest, object ∈ cluster.objects .configMap ∧ object.ns = ns ∧
    object.name = name ∧ object.currentVersion = log.head ∧ differs object current = false ∧
    HoldsLog ns name log (cluster.revisions .configMap) current latest
  record : created.map (fun ccm => (ccm.customVersion, ccm.spec)) = log.commits
  owned : ∀ ccm ∈ created, ccm.ns = ns ∧ ccm.Labelled "name" name
  kept : ∀ ccm ∈ created, ∃ still ∈ cluster.revisions .configMap, ccm.Relabelled still

namespace Represents

variable {ns name : String} {log : Log String (Spec .configMap)} {before after : Cluster}
  {created : List (Revision .configMap)} {edited : Object .configMap}
  {current latest : Revision .configMap}

theorem congr (represents : Represents ns name log before created)
    (same : before.SameRecords after) : Represents ns name log after created where
  synced := by
    rw [same.objects, same.revisions]
    exact represents.synced
  record := represents.record
  owned := represents.owned
  kept := by
    rw [same.revisions]
    exact represents.kept

theorem keeps (kept : ∀ ccm ∈ created, ∃ still ∈ before.revisions .configMap, ccm.Relabelled still)
    (keeps : (before.revisions .configMap).Keeps (after.revisions .configMap)) :
    ∀ ccm ∈ created, ∃ still ∈ after.revisions .configMap, ccm.Relabelled still := by
  intro ccm member
  obtain ⟨still, present, relabelled⟩ := kept ccm member
  obtain ⟨last, stays, again⟩ := keeps still present
  exact ⟨last, stays, relabelled.trans again⟩

variable (represents : Represents ns name log before created) {objects : Table (Object .configMap)}
  {entropy : Nat → Draws}
  (holds : HoldsLog ns name log (before.revisions .configMap) current latest)
  (held : edited ∈ objects) (inNs : edited.ns = ns) (owner : edited.name = name)

include represents holds held inNs owner

theorem round_commit (made : edited.annotations ≠ .nil)
    (unused : (before.changed objects entropy).Unused .configMap ns name
      (before.changed objects entropy).nextVersion)
    (runs : ∀ commit : Commit (before.changed objects entropy) edited current,
      (before.changed objects entropy).reconcile .configMap ns name =
        (rollOuts commit.updated (before.changed objects entropy).nextVersion).run Cluster.serve
          commit.published) :
    ∃ next, log.Step next ∧
      Represents ns name next ((before.changed objects entropy).reconcile .configMap ns name).1
        (createdSince ns name before
          ((before.changed objects entropy).reconcile .configMap ns name).1 ++ created) := by
  subst inNs owner
  have stored : edited ∈ (before.changed objects entropy).objects .configMap := by
    simpa using held
  obtain ⟨commit, _⟩ := Commit.exists_of_sole stored holds.isCurrent holds.isLatest made unused
  have fresh := HoldsLog.unused (before.changed objects entropy) holds unused
  have committed := HoldsLog.commit (before.changed objects entropy) holds rfl rfl fresh
    commit
  have same := run_rollOuts commit.updated (before.changed objects entropy).nextVersion
    commit.published
  rw [runs commit]
  refine ⟨_, Log.Step.commit log _ commit.created.spec fresh, ?_⟩
  have since : createdSince edited.ns edited.name before
      ((rollOuts commit.updated (before.changed objects entropy).nextVersion).run Cluster.serve
        commit.published).1 = [commit.created] := by
    refine createdSince_of_written rfl rfl (commit.stems holds.isCurrent.1) ?_ unused
    rw [same.revisions]
    simpa [Commit.published] using commit.creating
  rw [since]
  refine congr ⟨⟨commit.updated, commit.created, commit.created, ?_, ?_⟩, ?_, ?_, ?_⟩ same
  · simpa [Commit.published] using commit.updating.mem
  · have key := commit.updating.key_eq
    refine ⟨congrArg Prod.fst key, congrArg Prod.snd key, ?_, ?_, ?_⟩
    · exact commit.currentVersion_updated
    · exact commit.differs_updated stored
    · simpa [Commit.published] using committed
  · simp [commit.customVersion_created, represents.record]
  · intro ccm member
    rcases List.mem_cons.mp member with rfl | older
    · exact ⟨(marked_iff.mp committed.isCurrent.2.1).1, (marked_iff.mp committed.isCurrent.2.1).2.1⟩
    · exact represents.owned ccm older
  · intro ccm member
    rcases List.mem_cons.mp member with rfl | older
    · exact ⟨commit.created, by simpa [Commit.published] using commit.creating.mem,
        Revision.Relabelled.refl _⟩
    · refine keeps represents.kept ?_ ccm older
      simpa [Commit.published] using commit.keeps holds.isCurrent.1

theorem round_checkout (plain : Plain name) (known : edited.currentVersion ∈ log.versions)
    (other : current.customVersion ≠ edited.currentVersion) :
    ∃ next, log.Step next ∧
      Represents ns name next ((before.changed objects entropy).reconcile .configMap ns name).1
        (createdSince ns name before
          ((before.changed objects entropy).reconcile .configMap ns name).1 ++ created) := by
  subst inNs owner
  have stored : edited ∈ (before.changed objects entropy).objects .configMap := by
    simpa using held
  obtain ⟨commit, member, same⟩ := List.mem_map.mp known
  obtain ⟨target, present, targetNs, owned, version, _⟩ := holds.stored commit member
  replace version := version.trans same
  obtain ⟨named, filled⟩ := holds.named target present targetNs owned
  rw [version] at named filled
  have itsName : Plain (edited.name ++ "-" ++ edited.currentVersion) := by
    simp only [plain_append]
    exact ⟨⟨plain, by decide⟩, holds.plain _ known⟩
  rw [nameValidation_of_plain itsName] at named
  have targetKey : key target = (edited.ns, edited.name ++ "-" ++ edited.currentVersion) :=
    Prod.ext targetNs named
  obtain ⟨checkout⟩ := Checkout.exists_of_sole stored holds.isCurrent other present targetKey version
    owned trivial
  have apart : key current ≠ key target := by
    intro equal
    rw [Table.unique holds.isCurrent.1 present equal] at other
    exact other version
  have kept : target.spec.untracked.stored = target.spec := Revision.stored_spec present
  obtain ⟨after, moved⟩ := HoldsLog.checkout (before.changed objects entropy) holds rfl rfl
    owned apart (version ▸ known) checkout
  rw [Cluster.reconcile_checkout stored filled checkout]
  refine ⟨_, Log.Step.checkout log _ (version ▸ known), ?_⟩
  have since : createdSince edited.ns edited.name before checkout.moved = [] :=
    createdSince_of_stems (by simpa [Checkout.moved] using checkout.stems kept holds.isCurrent.1 apart)
  rw [since]
  refine ⟨⟨checkout.updated, checkout.promoted, after, ?_, ?_⟩, represents.record,
    represents.owned, ?_⟩
  · simpa [Checkout.moved] using checkout.updating.mem
  · have sameKey := checkout.key_updated
    refine ⟨congrArg Prod.fst sameKey, congrArg Prod.snd sameKey, ?_, ?_, ?_⟩
    · exact checkout.currentVersion_updated.trans version.symm
    · exact checkout.agrees stored trivial
    · simpa [Checkout.moved] using moved
  · refine keeps represents.kept ?_
    simpa [Checkout.moved] using checkout.keeps kept holds.isCurrent.1 apart

/-- An object that lost its annotations adopts its current revision. -/
theorem round_adopt (unversioned : edited.currentVersion = "")
    (agrees : differs edited current = false) :
    ∃ next, log.Step next ∧
      Represents ns name next ((before.changed objects entropy).reconcile .configMap ns name).1
        (createdSince ns name before
          ((before.changed objects entropy).reconcile .configMap ns name).1 ++ created) := by
  subst inNs owner
  have stored : edited ∈ (before.changed objects entropy).objects .configMap := by
    simpa using held
  obtain ⟨updated, after, update, updating⟩ := Table.update_of_current
    (edited.annotate current.customVersion current.name) stored rfl rfl
  rw [Cluster.reconcile_adopt stored unversioned holds.isCurrent agrees update]
  refine ⟨log, Log.Step.stay log, ?_⟩
  have since : createdSince edited.ns edited.name before
      ((before.changed objects entropy).withObjects .configMap after) = [] :=
    createdSince_of_stems (Table.Stems.refl _)
  rw [since]
  refine ⟨⟨updated, current, latest, ?_, ?_⟩, represents.record, represents.owned,
    represents.kept⟩
  · simpa using updating.mem
  · have sameKey := updating.key_eq
    have content : updated.content = edited.content := by
      have kept : edited.content.stored = edited.content := Object.stored_content stored
      rw [updating.answered]
      exact kept
    refine ⟨congrArg Prod.fst sameKey, congrArg Prod.snd sameKey, ?_, ?_, holds⟩
    · rw [updating.answered, Object.currentVersion_stamp, Object.currentVersion_annotate, holds.head]
    · simpa [differs, content] using agrees

theorem round_stay (head : edited.currentVersion = log.head) (agrees : differs edited current = false) :
    ∃ next, log.Step next ∧
      Represents ns name next ((before.changed objects entropy).reconcile .configMap ns name).1
        (createdSince ns name before
          ((before.changed objects entropy).reconcile .configMap ns name).1 ++ created) := by
  subst inNs owner
  have stored : edited ∈ (before.changed objects entropy).objects .configMap := by
    simpa using held
  have same : edited.currentVersion = current.customVersion := head.trans holds.head.symm
  have versioned : edited.currentVersion ≠ "" := by
    rw [same]
    obtain ⟨inNs, owned, _⟩ := marked_iff.mp holds.isCurrent.2.1
    exact (holds.named current holds.isCurrent.1 inNs owned).2
  rw [Cluster.reconcile_synced stored versioned holds.isCurrent same agrees]
  refine ⟨log, Log.Step.stay log, ?_⟩
  have since : createdSince edited.ns edited.name before (before.changed objects entropy) = [] :=
    createdSince_of_stems (Table.Stems.refl _)
  rw [since]
  exact ⟨⟨edited, current, latest, by simpa using held, rfl, rfl, head, agrees, holds⟩,
    represents.record, represents.owned, represents.kept⟩

end Represents

namespace Represents

variable {ns name : String} {log : Log String (Spec .configMap)}

/-- A change that leaves the version in place is a commit or nothing at all. -/
theorem round_edit {before : Cluster} {created : List (Revision .configMap)}
    {edited : Object .configMap} {current latest : Revision .configMap}
    {objects : Table (Object .configMap)} {entropy : Nat → Draws}
    (represents : Represents ns name log before created)
    (holds : HoldsLog ns name log (before.revisions .configMap) current latest)
    (held : edited ∈ objects) (inNs : edited.ns = ns) (owner : edited.name = name)
    (head : edited.currentVersion = log.head)
    (unused : (before.changed objects entropy).Unused .configMap ns name
      (before.changed objects entropy).nextVersion) :
    ∃ next, log.Step next ∧
      Represents ns name next ((before.changed objects entropy).reconcile .configMap ns name).1
        (createdSince ns name before
          ((before.changed objects entropy).reconcile .configMap ns name).1 ++ created) := by
  have same : edited.currentVersion = current.customVersion := head.trans holds.head.symm
  have versioned : edited.currentVersion ≠ "" := by
    rw [same]
    obtain ⟨inNs, owned, _⟩ := marked_iff.mp holds.isCurrent.2.1
    exact (holds.named current holds.isCurrent.1 inNs owned).2
  cases edits : differs edited current with
  | false => exact represents.round_stay holds held inNs owner head edits
  | true =>
    refine represents.round_commit holds held inNs owner (Object.ne_nil_of_versioned versioned)
      unused fun commit => ?_
    have stored : edited ∈ (before.changed objects entropy).objects .configMap := by
      simpa using held
    subst inNs owner
    exact Cluster.reconcile_commit stored versioned holds.isCurrent same edits commit

theorem round {before after : Recorded} (plain : Plain name)
    (represents : Represents ns name log before.1 before.2) (round : Round ns name before after) :
    ∃ next, log.Step next ∧ Represents ns name next after.1 after.2 := by
  obtain @⟨cluster, created, object, edited, objects, event, entropy, held, inNs, owner, allowed,
    accepted, unused⟩ := round
  obtain ⟨synced, current, latest, present, inSynced, itsName, head, agrees, holds⟩ :=
    represents.synced
  have same : synced = object :=
    Table.unique present held (Prod.ext (inSynced.trans inNs.symm) (itsName.trans owner.symm))
  subst same
  obtain ⟨_, written⟩ := Table.written_of_update accepted
  have sameKey := written.key_eq.trans (event.key_apply synced)
  have inEdited : edited.ns = ns := (congrArg Prod.fst sameKey).trans inNs
  have itsEdited : edited.name = name := (congrArg Prod.snd sameKey).trans owner
  have version : edited.currentVersion = (event.apply synced).currentVersion := by
    rw [written.answered, Object.currentVersion_stamp]
  cases event with
  | edit content =>
    exact represents.round_edit holds written.mem inEdited itsEdited (version.trans head) unused
  | choose chosen content =>
    rw [UserEvent.currentVersion_choose] at version
    by_cases head : chosen = log.head
    · exact represents.round_edit holds written.mem inEdited itsEdited (version.trans head) unused
    · obtain ⟨ccm, stored, inCcm, owned, its⟩ := allowed
      have known : edited.currentVersion ∈ log.versions := by
        rw [version, ← its]
        exact List.mem_map_of_mem
          (holds.known ccm stored (inCcm.trans inNs) (owner ▸ owned))
      refine represents.round_checkout holds written.mem inEdited itsEdited plain known ?_
      rw [holds.head, version]
      exact Ne.symm head
  | forget content =>
    rw [UserEvent.currentVersion_forget] at version
    cases edits : differs edited current with
    | false => exact represents.round_adopt holds written.mem inEdited itsEdited version edits
    | true =>
      have made : edited.annotations ≠ .nil := by
        rw [written.answered]
        exact GoMap.omitEmpty_ne_nil.mpr allowed
      refine represents.round_commit holds written.mem inEdited itsEdited made unused fun commit => ?_
      have stored : edited ∈ (cluster.changed objects entropy).objects .configMap := by
        simpa using written.mem
      subst inEdited itsEdited
      exact Cluster.reconcile_recommit stored version holds.isCurrent edits commit

theorem represents_first {start : Cluster} {edited updated : Object .configMap} {created : Revision .configMap}
    {withNew : Table (Revision .configMap)} {next : Table (Object .configMap)}
    (stored : edited ∈ start.objects .configMap)
    (none : ∀ ccm ∈ start.revisions .configMap, ¬ (ccm.ns = edited.ns ∧ ccm.Labelled "name" edited.name))
    (creating : (start.revisions .configMap).Written (newRevision edited start.nextVersion) created withNew)
    (updating : (start.objects .configMap).Written (edited.annotate start.nextVersion created.name) updated next) :
    Represents edited.ns edited.name (Log.first start.nextVersion created.spec)
      ((start.reseeded.withRevisions .configMap withNew).withObjects .configMap next) [created] := by
  have unmarked : ∀ (label : String), ∀ ccm ∈ start.revisions .configMap,
      marked edited.ns edited.name label ccm = false := by
    intro label ccm member
    rw [marked_eq_false]
    exact fun carries => none ccm member ⟨carries.1, carries.2.1⟩
  have agrees : differs updated created = false := differs_annotated stored updating creating
  have isCurrent := creating.sole_new (Or.inl rfl) (unmarked "current")
  have isLatest := creating.sole_new (Or.inr rfl) (unmarked "latest")
  obtain ⟨inNs, owned, _⟩ := marked_iff.mp isCurrent.2.1
  have every : ∀ ccm ∈ withNew, ccm.ns = edited.ns → ccm.Labelled "name" edited.name →
      ccm = created := by
    intro ccm member inCcm owner
    rcases (creating.members ccm).mp member with same | ⟨present, _⟩
    · exact same
    · exact absurd ⟨inCcm, owner⟩ (none ccm present)
  have sameKey := updating.key_eq
  refine ⟨⟨updated, created, created, ?_, ?_⟩, ?_, ?_, ?_⟩
  · simpa using updating.mem
  · refine ⟨congrArg Prod.fst sameKey, congrArg Prod.snd sameKey, ?_, agrees, ?_⟩
    · rw [updating.answered, Object.currentVersion_stamp, Object.currentVersion_annotate]
      rfl
    · simp only [Cluster.withObjects_revisions, Cluster.withRevisions_revisions]
      refine ⟨isCurrent, isLatest, creating.customVersion_new, creating.customVersion_new, ?_, ?_, ?_, ?_⟩
      · intro commit member
        rw [Log.commits_first, List.mem_singleton] at member
        subst member
        exact ⟨created, creating.mem, inNs, owned, creating.customVersion_new, rfl⟩
      · intro ccm member inCcm owner
        rw [every ccm member inCcm owner, creating.customVersion_new]
        exact List.mem_singleton_self _
      · refine creating.named_new ?_ (randomSequence_ne_empty _ _)
        intro ccm member inCcm owner
        exact absurd ⟨inCcm, owner⟩ (none ccm member)
      · intro version member
        rw [Log.versions, Log.commits_first, List.map_singleton, List.mem_singleton] at member
        rw [member]
        exact plain_randomSequence _ _
  · simp [creating.customVersion_new]
  · intro ccm member
    rw [List.mem_singleton] at member
    rw [member]
    exact ⟨inNs, owned⟩
  · intro ccm member
    rw [List.mem_singleton] at member
    exact ⟨created, by simpa using creating.mem, member ▸ Revision.Relabelled.refl created⟩

theorem first_round {cluster : Cluster} {object : Object .configMap} {after : Recorded}
    (untouched : Untouched ns name cluster object) (round : Round ns name (cluster, []) after) :
    ∃ log, Represents ns name log after.1 after.2 := by
  obtain @⟨_, _, found, edited, objects, event, entropy, held, inNs, owner, allowed, accepted,
    unused⟩ := round
  have same : found = object := Table.unique held untouched.held
    (Prod.ext (inNs.trans untouched.key.1.symm) (owner.trans untouched.key.2.symm))
  subst same
  obtain ⟨_, written⟩ := Table.written_of_update accepted
  have sameKey := written.key_eq.trans (event.key_apply found)
  have inEdited : edited.ns = ns := (congrArg Prod.fst sameKey).trans inNs
  have itsEdited : edited.name = name := (congrArg Prod.snd sameKey).trans owner
  have unversioned : edited.currentVersion = "" := by
    rw [written.answered, Object.currentVersion_stamp]
    cases event with
    | edit content =>
      rw [UserEvent.currentVersion_edit]
      simp [Object.currentVersion, GoMap.index, untouched.version]
    | forget content => exact UserEvent.currentVersion_forget content found
    | choose version content =>
      obtain ⟨ccm, stored, inCcm, owned, _⟩ := allowed
      exact absurd ⟨inCcm.trans inNs, owner ▸ owned⟩ (untouched.none ccm stored)
  subst inEdited itsEdited
  generalize changed : cluster.changed objects entropy = start at unused
  have revisions : start.revisions = cluster.revisions := by rw [← changed]; rfl
  have stored : edited ∈ start.objects .configMap := by
    rw [← changed]
    simpa using written.mem
  have none : ∀ ccm ∈ start.revisions .configMap, ¬ (ccm.ns = edited.ns ∧ ccm.Labelled "name" edited.name) := by
    rw [revisions]
    exact untouched.none
  have unlabelled : ∀ ccm ∈ start.revisions .configMap,
      marked edited.ns edited.name "current" ccm = false := by
    intro ccm member
    rw [marked_eq_false]
    exact fun carries => none ccm member ⟨carries.1, carries.2.1⟩
  have free : ∀ ccm ∈ start.revisions .configMap,
      key ccm ≠ key (newRevision edited start.nextVersion) := unused
  obtain ⟨created, withNew, create, creating⟩ := Table.create_of_free free
  obtain ⟨updated, next, update, updating⟩ := Table.update_of_current
    (edited.annotate start.nextVersion created.name) stored rfl rfl
  have runs := Cluster.reconcile_first stored unversioned unlabelled create update
  have since : createdSince edited.ns edited.name cluster
      ((start.reseeded.withRevisions .configMap withNew).withObjects .configMap next) = [created] := by
    have before : cluster.Unused .configMap edited.ns edited.name start.nextVersion := by
      rw [Cluster.Unused, ← revisions]
      exact unused
    refine createdSince_of_written rfl rfl (Table.Stems.refl _) ?_ before
    rw [← revisions]
    simpa using creating
  rw [runs, since]
  exact ⟨_, represents_first stored none creating updating⟩

/-- A represented state is what the annotations, labels and contents say. -/
theorem consistent {cluster : Cluster} {created : List (Revision .configMap)}
    (represents : Represents ns name log cluster created) :
    ∃ object current latest, Consistent ns name cluster created object current latest := by
  obtain ⟨object, current, latest, held, inNs, owner, head, agrees, holds⟩ := represents.synced
  have same : object.content.data = current.spec.data ∧
      object.content.binaryData = current.spec.binaryData := by
    simpa [differs] using agrees
  refine ⟨object, current, latest, held, ⟨inNs, owner⟩, holds.isCurrent, holds.isLatest, ?_,
    head.trans holds.head.symm, same.1, same.2, represents.kept⟩
  cases listed : created with
  | nil =>
    have record := represents.record
    rw [listed] at record
    cases record
  | cons newest older =>
    have member : newest ∈ created := by simp [listed]
    obtain ⟨still, present, relabelled⟩ := represents.kept newest member
    have version : newest.customVersion = log.newest.1 := by
      have record := represents.record
      rw [listed] at record
      exact congrArg Prod.fst (List.cons.inj record).1
    obtain ⟨inNewest, owned⟩ := represents.owned newest member
    obtain ⟨inLatest, ownedLatest, _⟩ := marked_iff.mp holds.isLatest.2.1
    have one := (holds.named still present (relabelled.ns.trans inNewest)
      ((relabelled.owned name).mpr owned)).1
    have other := (holds.named latest holds.isLatest.1 inLatest ownedLatest).1
    rw [relabelled.customVersion_eq, version, ← holds.newest] at one
    have equal : still = latest := Table.unique present holds.isLatest.1
      (Prod.ext ((relabelled.ns.trans inNewest).trans inLatest.symm) (one.trans other.symm))
    exact ⟨newest, older, rfl, equal ▸ relabelled⟩

/-- Along every run of rounds the record is a log that only grows at its end. -/
theorem rounds {before after : Recorded} (plain : Plain name)
    (represents : Represents ns name log before.1 before.2)
    (run : Relation.ReflTransGen (Round ns name) before after) :
    ∃ next, log.commits <:+ next.commits ∧ Represents ns name next after.1 after.2 := by
  induction run with
  | refl => exact ⟨log, List.suffix_rfl, represents⟩
  | tail _ last ih =>
    obtain ⟨middle, grown, represented⟩ := ih
    obtain ⟨next, step, final⟩ := represented.round plain last
    exact ⟨next, grown.trans step.suffix, final⟩

end Represents

/-- After every round of a user's change and a fault-free reconcile, from a ConfigMap
without CustomConfigMaps on, its revision history is consistent. -/
theorem history_consistent {ns name : String} {cluster : Cluster} {object : Object .configMap}
    {before after : Recorded} (plain : Plain name) (untouched : Untouched ns name cluster object)
    (run : Relation.ReflTransGen (Round ns name) (cluster, []) before)
    (round : Round ns name before after) :
    ∃ object current latest, Consistent ns name after.1 after.2 object current latest := by
  rcases Relation.ReflTransGen.cases_head run with rfl | ⟨first, head, rest⟩
  · obtain ⟨log, represents⟩ := Represents.first_round untouched round
    exact represents.consistent
  · obtain ⟨log, represents⟩ := Represents.first_round untouched head
    obtain ⟨middle, _, represented⟩ := represents.rounds plain rest
    obtain ⟨next, _, final⟩ := represented.round plain round
    exact final.consistent

namespace Sample

/-- A ConfigMap with one annotation that is not the controller's. -/
def raw (text : String) (written : Nat) : Object .configMap where
  ns := "shop"
  name := "settings"
  annotations := (GoMap.make ∅).put "team" "front"
  resourceVersion := written
  content := (⟨(GoMap.make ∅).put "colour" text, .nil⟩ : ConfigMapContent)

def unversioned : Cluster := shop ⟨[raw "red" 1], 1, by decide, by decide, by decide⟩ .empty

def repainted : Table (Object .configMap) :=
  ⟨[raw "blue" 2], 2, by decide, by decide, by decide⟩

theorem untouched : Untouched "shop" "settings" unversioned (raw "red" 1) :=
  ⟨List.mem_singleton_self _, ⟨rfl, rfl⟩, by decide, by decide, by decide, nofun⟩

/-- A reconcile of `settings` after a change. -/
def reconciledFrom (before : Recorded) (objects : Table (Object .configMap)) (entropy : Nat → Draws) : Recorded :=
  let after := ((before.1.changed objects entropy).reconcile .configMap "shop" "settings").1
  (after, createdSince "shop" "settings" before.1 after ++ before.2)

/-- `settings` as a reconcile leaves it that has made a version. -/
def versioned (text version : String) (written : Nat) : Object .configMap :=
  { (raw text 0).annotate version ("settings-" ++ version) with resourceVersion := written }

def blueOnce : Recorded := reconciledFrom (unversioned, []) repainted unversioned.entropy

def redStored : Table (Object .configMap) := ⟨[versioned "red" "bbbbb" 4], 4, by decide, by decide, by decide⟩

def redSince : Recorded := reconciledFrom blueOnce redStored unversioned.reseeded.entropy

theorem blueOnce_round : Round "shop" "settings" (unversioned, []) blueOnce :=
  .mk (.edit (⟨(GoMap.make ∅).put "colour" "blue", .nil⟩ : ConfigMapContent)) _ untouched.held rfl rfl trivial
    (by rfl) fun _ member => absurd member List.not_mem_nil

theorem blue_mem : versioned "blue" "bbbbb" 3 ∈ blueOnce.1.objects .configMap :=
  List.mem_of_mem_head? (by rfl)

theorem redSince_round : Round "shop" "settings" blueOnce redSince :=
  .mk (.edit (⟨(GoMap.make ∅).put "colour" "red", .nil⟩ : ConfigMapContent)) _ blue_mem rfl rfl trivial
    (by rfl) (by unfold Cluster.Unused; decide)

/-- The user names the blue version, and makes `settings` green in the same change. -/
def greenNamed : Object .configMap :=
  { versioned "green" "ccccc" 6 with
    annotations := (versioned "red" "ccccc" 5).annotations.put Kind.configMap.versionKey "bbbbb" }

def greenStored : Table (Object .configMap) := ⟨[greenNamed], 6, by decide, by decide, by decide⟩

theorem greenNamed_accepted : (redSince.1.objects .configMap).update
    ((UserEvent.choose "bbbbb" (⟨(GoMap.make ∅).put "colour" "green", .nil⟩ : ConfigMapContent)).apply
      (versioned "red" "ccccc" 5)) = .ok (greenNamed, greenStored) := by
  rfl

def blueAgain : Recorded := reconciledFrom redSince greenStored fun _ => drawD

theorem blueAgain_round : Round "shop" "settings" redSince blueAgain :=
  have held : versioned "red" "ccccc" 5 ∈ redSince.1.objects .configMap := List.mem_of_mem_head? (by rfl)
  .mk (.choose "bbbbb" (⟨(GoMap.make ∅).put "colour" "green", .nil⟩ : ConfigMapContent)) _ held rfl rfl
    ⟨_, List.mem_cons_self, rfl, rfl, rfl⟩ greenNamed_accepted (by unfold Cluster.Unused; decide)

def blueStored : Table (Object .configMap) := ⟨[raw "blue" 8], 8, by decide, by decide, by decide⟩

/-- The user drops the annotations of the controller, and the current version is adopted. -/
def adopted : Recorded := reconciledFrom blueAgain blueStored fun _ => drawD

theorem adopted_round : Round "shop" "settings" blueAgain adopted :=
  have held : { greenNamed with
      content := (⟨(GoMap.make ∅).put "colour" "blue", .nil⟩ : ConfigMapContent)
      resourceVersion := 7 } ∈ blueAgain.1.objects .configMap := List.mem_of_mem_head? (by rfl)
  .mk (.forget (⟨(GoMap.make ∅).put "colour" "blue", .nil⟩ : ConfigMapContent)) _ held rfl rfl rfl (by rfl)
    (by unfold Cluster.Unused; decide)

/-- Two edits, a roll-back to the first version and its adoption. -/
theorem adopted_consistent : ∃ object current latest,
    Consistent "shop" "settings" adopted.1 adopted.2 object current latest :=
  history_consistent (by decide) untouched
    (.tail (.tail (.single blueOnce_round) redSince_round) blueAgain_round) adopted_round

end Sample

end Configurator
