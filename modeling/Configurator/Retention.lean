import Configurator.Examination
import Configurator.Scaling
import Configurator.Sends

namespace Configurator

open Resource

variable {kind : Kind} {workload : WorkloadKind} {ns : String}

namespace Cluster

/-- The workloads that a list call answers. -/
def listed (cluster : Cluster) (workload : WorkloadKind) (ns : String) : List Workload :=
  (cluster.workloads workload).select fun stored => decide (stored.ns = ns)

/-- The template of a history that the selector selects carries the version of the revision. -/
def Carries (cluster : Cluster) (workload : WorkloadKind) (ns : String) (selector : LabelSelector)
    (revision : Revision kind) : Prop :=
  ∃ history ∈ cluster.histories workload, history.ns = ns ∧ selector.matches history.labels = true ∧
    history.template.lookup (kind.tag ++ revision.spec.owner) = some revision.customVersion

/-- The object of the revision registers a workload. -/
def Tracks (cluster : Cluster) (ns : String) (revision : Revision kind) : Prop :=
  ∃ object ∈ cluster.objects kind, key object = (ns, revision.spec.owner) ∧
    ∃ workload, object.registered workload ≠ ""

/-- The revision under this name holds the version that its object names. -/
def InForce (cluster : Cluster) (kind : Kind) (ns name : String) : Prop :=
  ∃ revision ∈ cluster.revisions kind, key revision = (ns, name) ∧ revision.customVersion ≠ "" ∧
    ∃ object ∈ cluster.objects kind, key object = (ns, revision.spec.owner) ∧
      object.currentVersion = revision.customVersion

end Cluster

/-- The moments of an examination: the clusters in which the Deployments are listed, the histories of each
of them, the StatefulSets and theirs, in which the object is read, and in which the next call is served. -/
structure Moments (ns : String) (worlds : List Cluster) where
  listing : Cluster
  deployments : List Cluster
  relisting : Cluster
  statefulSets : List Cluster
  reading : Cluster
  due : Cluster
  later : List Cluster
  split : worlds = listing :: (deployments ++ relisting :: (statefulSets ++ reading :: due :: later))
  each_deployment : deployments.length = (listing.listed .deployment ns).length
  each_statefulSet : statefulSets.length = (relisting.listed .statefulSet ns).length

/-- One of the workloads has a history with the version when its histories are listed. -/
def FoundAmong (workload : WorkloadKind) (ns : String) (revision : Revision kind) (found : List Workload)
    (worlds : List Cluster) : Prop :=
  ∃ pair ∈ found.zip worlds, pair.2.Carries workload ns pair.1.selector revision

def Moments.Found {worlds : List Cluster} (moments : Moments ns worlds) (revision : Revision kind) : Prop :=
  FoundAmong .deployment ns revision (moments.listing.listed .deployment ns) moments.deployments ∨
    FoundAmong .statefulSet ns revision (moments.relisting.listed .statefulSet ns) moments.statefulSets

namespace Purge

variable {revision : Revision kind} {entry : Cluster × Call} {worlds : List Cluster} {α : Type}

theorem shows_iff {cluster : Cluster} {selector : LabelSelector} :
    Shows Cluster.serve cluster workload ns selector revision ↔ cluster.Carries workload ns selector revision := by
  simp [Shows, Cluster.serve, items, references, Cluster.Carries, and_assoc]

theorem registers_iff {cluster : Cluster} :
    Registers Cluster.serve cluster ns revision ↔ cluster.Tracks ns revision := by
  constructor
  · rintro ⟨object, read, registers⟩
    cases found : (cluster.objects kind).find? (ns, revision.spec.owner) with
    | none =>
      simp [found] at read
    | some other =>
      simp only [Cluster.serve_getObject, found, Cluster.present_some, Except.ok.injEq] at read
      obtain ⟨member, own⟩ := Table.find?_eq_some.mp found
      exact ⟨object, read ▸ member, read ▸ own, registers⟩
  · rintro ⟨object, member, own, registers⟩
    refine ⟨object, ?_, registers⟩
    rw [Cluster.serve_getObject, Table.find?_eq_some.mpr ⟨member, own⟩, Cluster.present_some]

/-- Where nothing fails, an examination makes its only deletion when it is due, unless the version has been found
or the object tracks no workload. -/
theorem deletes_undisturbed (deletes : entry.2.Deletes) :
    entry ∈ (examine ns revision).amid Cluster.serve worlds ↔
      ∃ moments : Moments ns worlds, entry = (moments.due, .deleteRevision kind ns revision.name) ∧
        moments.reading.Tracks ns revision ∧ ¬ moments.Found revision := by
  rw [deletes_examine deletes]
  constructor
  · rintro ⟨⟨listing, deployments, relisting, statefulSets, reading, due, later, split, each, every⟩, same, registers,
      missed⟩
    refine ⟨⟨listing, deployments, relisting, statefulSets, reading, due, later, split, each, every⟩, same,
      registers_iff.mp registers, ?_⟩
    simp only [Course.Finds, ShownAmong, shows_iff] at missed
    exact missed
  · rintro ⟨⟨listing, deployments, relisting, statefulSets, reading, due, later, split, each, every⟩, same, tracks,
      missed⟩
    refine ⟨⟨listing, deployments, relisting, statefulSets, reading, due, later, split, each, every⟩, same,
      registers_iff.mpr tracks, ?_⟩
    simp only [Course.Finds, ShownAmong, shows_iff]
    exact missed

/-- After so many calls of a program begins the examination of a revision. -/
def Examines (program : Client α) (worlds : List Cluster) (count : Nat) (ns : String) (revision : Revision kind) :
    Prop :=
  ∃ next : Unit → Client α, Program.left Cluster.serve count program worlds = examine ns revision >>= next

end Purge

def purgeJob : Client (List PatchOperation) := do
  Purge.purgeCCMAndCS
  pure []

/-- What happens beside the programs: users edit ConfigMaps and Secrets, and workloads and their histories
come and go. -/
inductive Outside : Cluster → Cluster → Prop where
  | edit {cluster : Cluster} {kind : Kind} {sent answer : Object kind} {objects : Table (Object kind)}
      (accepted : (cluster.objects kind).update sent = .ok (answer, objects)) :
      Outside cluster (cluster.withObjects kind objects)
  | workloads {cluster : Cluster} (workload : WorkloadKind) (table : Table Workload) :
      Outside cluster (cluster.withWorkloads workload table)
  | histories {cluster : Cluster} (histories : WorkloadKind → List History) :
      Outside cluster { cluster with histories := histories }

/-- The purge among any number of jobs, without a failing call. -/
def retaining (jobs : Nat → Job) :
    System Cluster Call Answer ApiError (List PatchOperation) (Option Nat) where
  react _ cluster request after answer := cluster.serve request = (after, answer)
  environment := Outside
  starts
    | none, program => program = purgeJob
    | some party, program => program = (jobs party).program

def DeletesInForce (entry : Cluster × Call) : Prop :=
  ∃ (kind : Kind) (ns name : String), entry.2 = .deleteRevision kind ns name ∧ entry.1.InForce kind ns name

section Runs

variable {jobs : Nat → Job} {begun last : Pool Cluster Call Answer ApiError (List PatchOperation) (Option Nat)}
  {entries : List (Cluster × Call)}

/-- Along every run of the purge among other jobs and users, the purge deletes no revision that is in force
exactly if each revision that is in force once its examination is due to delete it was found among the
histories of a listed workload when these were listed, or its object registered no workload when it was read. -/
theorem purge_spares_iff (starts : begun.threads none = some purgeJob)
    (run : (retaining jobs).Records none begun entries last) :
    (∀ entry ∈ entries, ¬ DeletesInForce entry) ↔
      ∀ (kind : Kind) (count : Nat) (ns : String) (revision : Revision kind),
        Purge.Examines purgeJob (entries.map Prod.fst) count ns revision →
          ∀ moments : Moments ns ((entries.map Prod.fst).drop count),
            moments.due.InForce kind ns revision.name → moments.reading.Tracks ns revision →
              moments.Found revision := by
  have calls : entries = purgeJob.amid Cluster.serve (entries.map Prod.fst) := run.amid id starts
  generalize entries.map Prod.fst = worlds at calls ⊢
  subst calls
  have ends : Purge.OnlyExamines Cluster.serve (fun _ => True) (fun _ _ _ => True)
      (pure [] : Client (List PatchOperation)) := nofun
  have only : Purge.OnlyExamines Cluster.serve (fun _ => True) (fun _ _ _ => True) purgeJob :=
    Purge.onlyExamines_purge (fun _ _ _ _ _ _ => trivial) ends
  constructor
  · intro spares kind count ns revision examines moments inForce tracks
    by_contra missed
    let entry : Cluster × Call := (moments.due, .deleteRevision kind ns revision.name)
    have deletion : entry.2.Deletes := trivial
    have deleted : entry ∈ (Purge.examine ns revision).amid Cluster.serve (worlds.drop count) :=
      (Purge.deletes_undisturbed deletion).mpr ⟨moments, rfl, tracks, missed⟩
    have begins : Purge.Begins Cluster.serve purgeJob worlds count ns revision := examines
    exact spares entry (begins.mem_amid deleted) ⟨kind, ns, revision.name, rfl, inForce⟩
  · rintro found entry member ⟨kind, ns, name, deletes, inForce⟩
    have deletion : entry.2.Deletes := by
      rw [deletes]
      trivial
    obtain ⟨other, count, space, revision, _, begins, asked⟩ :=
      only worlds entry (fun _ _ => trivial) deletion member
    obtain ⟨moments, rfl, tracks, missed⟩ := (Purge.deletes_undisturbed deletion).mp asked
    cases deletes
    exact missed (found kind count ns revision begins moments inForce tracks)

end Runs

namespace Sample

/-- `sharing` with a ReplicaSet of `api`. -/
def sharingKept : Cluster :=
  { sharing with
    histories := fun
      | .deployment => [⟨"shop", "api-1", .nil, (GoMap.make ∅).put "ccm-settings" "aaaaa"⟩]
      | .statefulSet => [] }

/-- A user paints the settings blue. -/
def sharingKeptBlue : Cluster :=
  sharingKept.withObjects .configMap (sharingBlue.objects .configMap)

def reconcileSettings (_ : Nat) : Job := .reconcile .configMap "shop" "settings"

/-- The edit has its revision, which is rolled out nowhere. -/
def sharingSplit : Cluster :=
  ((reconcileSettings 0).program.after Cluster.serve 8 sharingKeptBlue).1

theorem serves_all (jobs : Nat → Job) (party : Option Nat) (world : Cluster) (request : Call) :
    (retaining jobs).react party world request (world.serve request).1 (world.serve request).2 := rfl

theorem purge_alone {first pool : Pool Cluster Call Answer ApiError (List PatchOperation) (Option Nat)}
    (run : (retaining reconcileSettings).Reaches first pool) (free : pool.threads none = none) :
    ∃ begun last, (retaining reconcileSettings).Reaches first begun ∧ begun.threads none = some purgeJob ∧
      (retaining reconcileSettings).Records none begun (purgeJob.alone Cluster.serve pool.world) last := by
  have flight : Function.update pool.threads none (some purgeJob) none = some purgeJob :=
    Function.update_self none (some purgeJob) pool.threads
  obtain ⟨last, records⟩ := System.Records.alone (serves_all reconcileSettings none) purgeJob flight
  exact ⟨_, last, run.started none purgeJob free rfl, flight, records⟩

theorem sharingKept_spared : ∀ entry ∈ purgeJob.alone Cluster.serve sharingKept, ¬ DeletesInForce entry := by
  have reads : ∀ entry ∈ purgeJob.alone Cluster.serve sharingKept, ¬ entry.2.Deletes :=
    List.forall_mem_cons.mpr ⟨id, List.forall_mem_cons.mpr ⟨id, List.forall_mem_cons.mpr ⟨id,
      List.forall_mem_cons.mpr ⟨id, List.forall_mem_cons.mpr ⟨id, List.forall_mem_cons.mpr ⟨id,
        List.forall_mem_cons.mpr ⟨id, List.forall_mem_cons.mpr ⟨id, nofun⟩⟩⟩⟩⟩⟩⟩⟩
  rintro entry member ⟨kind, ns, name, deletes, _⟩
  refine reads entry member ?_
  rw [deletes]
  trivial

theorem sharingKept_found : ∃ begun last entries, begun.threads none = some purgeJob ∧
    (retaining reconcileSettings).Records none begun entries last ∧
      ∀ (kind : Kind) (count : Nat) (ns : String) (revision : Revision kind),
        Purge.Examines purgeJob (entries.map Prod.fst) count ns revision →
          ∀ moments : Moments ns ((entries.map Prod.fst).drop count),
            moments.due.InForce kind ns revision.name → moments.reading.Tracks ns revision →
              moments.Found revision := by
  obtain ⟨begun, last, _, flight, records⟩ := @purge_alone (System.idle sharingKept) _ .refl rfl
  exact ⟨begun, last, _, flight, records, (purge_spares_iff flight records).mp sharingKept_spared⟩

/-- The edit of a shared ConfigMap gets a revision that no template carries, and the purge deletes it. -/
theorem sharingSplit_purged : ∃ begun last entries,
    (retaining reconcileSettings).Reaches (System.idle sharingKept) begun ∧
      begun.threads none = some purgeJob ∧ (retaining reconcileSettings).Records none begun entries last ∧
        ∃ entry ∈ entries, DeletesInForce entry := by
  have accepted : (sharingKept.objects .configMap).update (shared "blue" "aaaaa" 1) =
      .ok (shared "blue" "aaaaa" 2, sharingKeptBlue.objects .configMap) := by rfl
  have edited : (retaining reconcileSettings).Reaches (System.idle sharingKept) _ :=
    System.Reaches.moved .refl (Outside.edit accepted)
  have reconciled := (edited.started (some 0) (reconcileSettings 0).program rfl rfl).calls (some 0)
    (serves_all reconcileSettings (some 0)) 8 rfl
  obtain ⟨begun, last, run, flight, records⟩ := purge_alone reconciled rfl
  refine ⟨begun, last, _, run, flight, records,
    (sharingSplit, .deleteRevision .configMap "shop" "settings-bbbbb"), ?_, .configMap, "shop",
    "settings-bbbbb", rfl, settingsCCM "blue" "bbbbb" ["current", "latest"] 4, ?_, rfl, ?_,
    stamp 3 ((shared "blue" "aaaaa" 2).annotate "bbbbb" "settings-bbbbb"), ?_, rfl, ?_⟩
  · have deletion : (purgeJob.alone Cluster.serve sharingSplit)[12]? =
        some (sharingSplit, .deleteRevision .configMap "shop" "settings-bbbbb") := by rfl
    exact List.mem_of_getElem? deletion
  · exact List.mem_cons_of_mem _ (List.mem_singleton_self _)
  · decide
  · exact List.mem_singleton_self _
  · decide

end Sample

end Configurator
