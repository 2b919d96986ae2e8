import Configurator.Marks
import Configurator.Reconciler

/-! What `CreateNewCCM` and `CreateNewCS` do to an object whose current and latest
revisions are unique, call by call and without a failure. -/
namespace Configurator

open Resource

variable {kind : Kind}

/-- The calls that roll a version out. -/
def Call.Rolls : Call → Prop
  | .getWorkload _ _ _ => True
  | .updateWorkload _ _ => True
  | _ => False

/-- A cluster with the same objects, revisions and generators. -/
structure Cluster.SameRecords (before after : Cluster) : Prop where
  objects : after.objects = before.objects
  revisions : after.revisions = before.revisions
  entropy : after.entropy = before.entropy

theorem Cluster.SameRecords.refl (cluster : Cluster) : cluster.SameRecords cluster := ⟨rfl, rfl, rfl⟩

theorem Cluster.SameRecords.trans {first second third : Cluster}
    (earlier : first.SameRecords second) (later : second.SameRecords third) :
    first.SameRecords third :=
  ⟨later.objects.trans earlier.objects, later.revisions.trans earlier.revisions,
    later.entropy.trans earlier.entropy⟩

theorem Call.Rolls.serve {call : Call} (rolls : call.Rolls) (cluster : Cluster) :
    cluster.SameRecords (cluster.serve call).1 := by
  cases call <;> try exact rolls.elim
  case getWorkload workload ns name =>
    cases found : (cluster.workloads workload).find? (ns, name) <;>
      simpa [found] using Cluster.SameRecords.refl cluster
  case updateWorkload workload sent =>
    cases updated : (cluster.workloads workload).update sent with
    | ok result =>
      simp only [Cluster.serve_updateWorkload, updated]
      exact ⟨rfl, rfl, rfl⟩
    | error refusal => simpa [updated] using Cluster.SameRecords.refl cluster

theorem emits_rollOut (workload : WorkloadKind) (object : Object kind) (version : String) :
    (rollOut workload object version).Emits Call.Rolls := by
  unfold rollOut
  split_ifs
  · split
    · trivial
    · refine Program.Emits.bind ⟨trivial, fun answer => ?_⟩ fun stored => ?_
      · exact Program.Emits.ofExcept answer
      · refine Program.Emits.bind (Program.Emits.orPanic _) fun annotations => ?_
        exact Program.Emits.bind ⟨trivial, Program.Emits.ofExcept⟩ fun _ => trivial
    · trivial
  · trivial
  · trivial

/-- The workload with a version in its template. -/
def Workload.carrying (stored : Workload) (label version : String) : Workload :=
  { stored with
    template := { stored.template with
      annotations := stored.template.annotations.put label version } }

/-- The two roll-outs that end `CreateNewCCM`. -/
def rollOuts (object : Object kind) (version : String) : Client Unit := do
  rollOut .deployment object version
  rollOut .statefulSet object version

theorem emits_rollOuts (object : Object kind) (version : String) :
    (rollOuts object version).Emits Call.Rolls :=
  (emits_rollOut .deployment object version).bind fun _ => emits_rollOut .statefulSet object version

theorem run_rollOuts (object : Object kind) (version : String) (cluster : Cluster) :
    cluster.SameRecords ((rollOuts object version).run Cluster.serve cluster).1 :=
  (emits_rollOuts object version).run Cluster.SameRecords.refl
    (fun earlier later => earlier.trans later) (fun cluster _ rolls => rolls.serve cluster) cluster

/-- To give an object a version does not change how it compares with a revision. -/
theorem differs_adopted {cluster : Cluster} {object updated : Object kind} {objects : Table (Object kind)}
    {version name : String} (held : object ∈ cluster.objects kind)
    (updating : (cluster.objects kind).Written (object.annotate version name) updated objects)
    (revision : Revision kind) : differs updated revision = differs object revision := by
  have kept : object.content.stored = object.content := Object.stored_content held
  apply differs_congr
  · rw [updating.answered]
    exact kept
  · rintro rfl key own
    rw [updating.answered]
    simp only [Resource.stamp, GoMap.lookup_omitEmpty]
    exact Object.lookup_annotate_of_own object _ _ own

/-- An object that has been given the version of its new revision agrees with it. -/
theorem differs_annotated {cluster : Cluster} {object updated : Object kind} {created : Revision kind}
    {objects : Table (Object kind)} {before withNew : Table (Revision kind)} {version name : String}
    (held : object ∈ cluster.objects kind)
    (updating : (cluster.objects kind).Written (object.annotate version name) updated objects)
    (creating : before.Written (newRevision object version) created withNew) :
    differs updated created = false := by
  have spec : created.spec = (newSpec object).stored := by
    rw [creating.answered]
    rfl
  rw [differs_adopted held updating]
  exact differs_newSpec (Object.stored_content held) rfl spec fun _ _ _ => rfl

theorem latests_unlabel {table noCurrent : Table (Revision kind)} {current stripped : Revision kind} {ns name : String}
    (stripping : table.Written (current.unlabel "current") stripped noCurrent) (member : current ∈ table) :
    noCurrent.select (marked ns name "latest") = [] ↔ table.select (marked ns name "latest") = [] := by
  have same : marked ns name "latest" stripped = marked ns name "latest" current := by
    rw [stripping.answered, marked_stamp, Bool.eq_iff_iff, marked_iff, marked_iff, Revision.labelled_unlabel,
      Revision.labelled_unlabel]
    simp [Revision.unlabel]
  rw [Table.select_eq_nil, Table.select_eq_nil]
  constructor
  · intro none entry present
    by_cases own : key entry = key current
    · rw [Table.unique present member own, ← same]
      exact none stripped stripping.mem
    · exact none entry (stripping.mem_of_ne present own)
  · intro none entry present
    rcases (stripping.members entry).mp present with rfl | ⟨was, _⟩
    · rw [same]
      exact none current member
    · exact none entry was

/-- The answers and tables that making a new revision goes through. -/
structure Commit (cluster : Cluster) (object : Object kind) (current : Revision kind) where
  stripped : Revision kind
  noCurrent : Table (Revision kind)
  latest : Revision kind
  retired : Revision kind
  noLatest : Table (Revision kind)
  created : Revision kind
  withNew : Table (Revision kind)
  updated : Object kind
  objects : Table (Object kind)
  strip : (cluster.revisions kind).update (current.unlabel "current") = .ok (stripped, noCurrent)
  list : noCurrent.select (marked object.ns object.name "latest") = [latest]
  retire : noCurrent.update (latest.unlabel "latest") = .ok (retired, noLatest)
  create : noLatest.create (newRevision object cluster.nextVersion) = .ok (created, withNew)
  made : object.annotations ≠ .nil
  update : (cluster.objects kind).update (object.annotate cluster.nextVersion created.name) =
    .ok (updated, objects)
  stripping : (cluster.revisions kind).Written (current.unlabel "current") stripped noCurrent
  retiring : noCurrent.Written (latest.unlabel "latest") retired noLatest
  creating : noLatest.Written (newRevision object cluster.nextVersion) created withNew
  updating : (cluster.objects kind).Written (object.annotate cluster.nextVersion created.name)
    updated objects

/-- No revision is stored under the name that the version would get. -/
def Cluster.Unused (cluster : Cluster) (kind : Kind) (ns name version : String) : Prop :=
  ∀ revision ∈ cluster.revisions kind,
    key revision ≠ (ns, nameValidation (name ++ "-" ++ version))

namespace Commit

variable {cluster : Cluster} {object : Object kind} {current latest : Revision kind}

/-- From a stored object with one current and one latest revision nothing refuses a
call, if the version is new. -/
theorem exists_of_sole (held : object ∈ cluster.objects kind)
    (isCurrent : (cluster.revisions kind).Sole (marked object.ns object.name "current") current)
    (isLatest : (cluster.revisions kind).Sole (marked object.ns object.name "latest") latest)
    (made : object.annotations ≠ .nil) (unused : cluster.Unused kind object.ns object.name cluster.nextVersion) :
    ∃ commit : Commit cluster object current,
      latest.Relabelled commit.latest ∧
        (latest = current ∧ commit.latest = commit.stripped ∨
          key latest ≠ key current ∧ commit.latest = latest) := by
  obtain ⟨stripped, noCurrent, strip, stripping⟩ :=
    Table.update_of_current (current.unlabel "current") isCurrent.1 rfl rfl
  obtain ⟨moved, sole, relabelled, which⟩ :=
    isLatest.unlabel_other stripping isCurrent.1 (Or.inl rfl) (by decide)
  obtain ⟨retired, noLatest, retire, retiring⟩ :=
    Table.update_of_current (moved.unlabel "latest") sole.1 rfl rfl
  have free : ∀ entry ∈ noLatest, key entry ≠ key (newRevision object cluster.nextVersion) := by
    intro entry member
    have back : ∃ old ∈ cluster.revisions kind, key old = key entry := by
      rcases (retiring.members entry).mp member with rfl | ⟨present, _⟩
      · rw [retiring.key_eq]
        exact ⟨latest, isLatest.1, relabelled.key_eq.symm⟩
      · rcases (stripping.members entry).mp present with rfl | ⟨old, _⟩
        · exact ⟨current, isCurrent.1, stripping.key_eq.symm⟩
        · exact ⟨entry, old, rfl⟩
    obtain ⟨old, present, same⟩ := back
    exact same ▸ unused old present
  obtain ⟨created, withNew, create, creating⟩ := Table.create_of_free free
  obtain ⟨updated, objects, update, updating⟩ := Table.update_of_current
    (object.annotate cluster.nextVersion created.name) held rfl rfl
  exact ⟨⟨stripped, noCurrent, moved, retired, noLatest, created, withNew, updated, objects, strip,
    Table.select_eq_singleton.mpr sole, retire, create, made, update, stripping, retiring, creating,
    updating⟩, relabelled, which⟩

variable (commit : Commit cluster object current)

/-- The cluster once the object has been brought to its new revision. -/
def published : Cluster :=
  (cluster.reseeded.withRevisions kind commit.withNew).withObjects kind commit.objects

/-- The calls of `createNew` are answered as the commit says, and the roll-outs follow. -/
theorem run_createNew : (createNew object current).run Cluster.serve cluster =
    (rollOuts commit.updated cluster.nextVersion).run Cluster.serve commit.published := by
  have annotate := Object.annotate?_of_ne_nil commit.made cluster.nextVersion commit.created.name
  simp [createNew, updateRevision, updateObject, stripLatest, addNew, publish, newCustomResource,
    rollOuts, commit.strip, commit.list, commit.retire, commit.create, annotate, commit.update,
    published]

theorem free : ∀ entry ∈ commit.noLatest,
    key entry ≠ key (newRevision object cluster.nextVersion) :=
  Table.free_of_create commit.create

theorem latest_mem : commit.latest ∈ commit.noCurrent :=
  (Table.select_eq_singleton.mp commit.list).1

theorem relabelled_retired : commit.latest.Relabelled commit.retired :=
  commit.retiring.relabelled_unlabel commit.latest_mem (Or.inr rfl)

theorem keeps (member : current ∈ cluster.revisions kind) :
    (cluster.revisions kind).Keeps commit.withNew :=
  ((commit.stripping.keeps member (commit.stripping.relabelled_unlabel member (Or.inl rfl))).trans
    (commit.retiring.keeps commit.latest_mem commit.relabelled_retired)).trans
      (commit.creating.keeps_of_free commit.free)

/-- Before the new revision comes, only labels have moved. -/
theorem stems (member : current ∈ cluster.revisions kind) :
    (cluster.revisions kind).Stems commit.noLatest :=
  (commit.stripping.stems member (commit.stripping.relabelled_unlabel member (Or.inl rfl))).trans
    (commit.retiring.stems commit.latest_mem commit.relabelled_retired)

theorem named {ns name : String} (member : current ∈ cluster.revisions kind)
    (named : (cluster.revisions kind).Named ns name) : commit.withNew.Named ns name :=
  commit.creating.named_new ((commit.stems member).named named) (randomSequence_ne_empty _ _)

theorem unlabelled
    (isCurrent : (cluster.revisions kind).Sole (marked object.ns object.name "current") current)
    {label : String} (moving : label = "current" ∨ label = "latest") :
    ∀ other ∈ commit.noLatest, marked object.ns object.name label other = false := by
  have none := isCurrent.unlabelled commit.stripping
  rcases moving with rfl | rfl
  · intro other member
    rcases (commit.retiring.members other).mp member with rfl | ⟨present, _⟩
    · rw [marked_eq_false, commit.retiring.labelled_unlabel, commit.retiring.labelled_unlabel,
        commit.relabelled_retired.ns]
      rintro ⟨inNs, ⟨_, owned⟩, _, carries⟩
      have left := none commit.latest commit.latest_mem
      rw [marked_eq_false] at left
      exact left ⟨inNs, owned, carries⟩
    · exact none other present
  · exact (Table.select_eq_singleton.mp commit.list).unlabelled commit.retiring

theorem sole_created
    (isCurrent : (cluster.revisions kind).Sole (marked object.ns object.name "current") current)
    {label : String} (moving : label = "current" ∨ label = "latest") :
    commit.withNew.Sole (marked object.ns object.name label) commit.created :=
  commit.creating.sole_new moving (commit.unlabelled isCurrent moving)

theorem customVersion_created : commit.created.customVersion = cluster.nextVersion :=
  commit.creating.customVersion_new

theorem currentVersion_updated : commit.updated.currentVersion = cluster.nextVersion := by
  rw [commit.updating.answered, Object.currentVersion_stamp, Object.currentVersion_annotate]

theorem differs_updated (held : object ∈ cluster.objects kind) :
    differs commit.updated commit.created = false :=
  differs_annotated held commit.updating commit.creating

end Commit

end Configurator
