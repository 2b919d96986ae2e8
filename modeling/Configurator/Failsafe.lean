import Configurator.Examination
import Configurator.Reports
import Configurator.Retention

/-! The purge when lists and reads fail: a call that fails is used as if it had answered nothing, so a revision
that is referred to is spared only if the calls that would have shown the reference succeed. -/
namespace Configurator

open Resource

variable {kind : Kind} {workload : WorkloadKind} {ns : String} {start : Cluster} {flaky : Flaky Cluster ApiError}

/-- A history that a workload of the namespace selects carries the version of the revision. -/
def Cluster.Refers (cluster : Cluster) (revision : Revision kind) : Prop :=
  ∃ workload, ∃ stored ∈ cluster.listed workload revision.ns,
    cluster.Carries workload revision.ns stored.selector revision

/-- A revision that is referred to is deleted. -/
def DeletesReferred (start : Cluster) (entry : Flaky Cluster ApiError × Call) : Prop :=
  ∃ kind, ∃ revision ∈ start.revisions kind, start.Refers revision ∧
    entry.2 = .deleteRevision kind revision.ns revision.name ∧ entry.1.faults 0 = none

def Call.Purges : Call → Prop
  | .listNamespaces | .listRevisions _ _ _ | .listWorkloads _ _ | .listHistories _ _ _ => True
  | .getObject _ _ _ | .deleteRevision _ _ _ => True
  | _ => False

/-- The cluster as at the start, but for revisions that are gone. -/
structure Snapshot (start cluster : Cluster) : Prop where
  objects : cluster.objects = start.objects
  workloads : cluster.workloads = start.workloads
  histories : cluster.histories = start.histories
  revisions : ∀ kind, ∀ revision ∈ cluster.revisions kind, revision ∈ start.revisions kind

theorem Snapshot.serve {cluster : Cluster} (snapshot : Snapshot start cluster) {request : Call}
    (purges : request.Purges) : Snapshot start (cluster.serve request).1 := by
  cases request with
  | deleteRevision kind ns name =>
    rcases Table.delete_cases (cluster.revisions kind) (ns, name) with ⟨refused, _⟩ | ⟨next, accepted, _, members⟩
    · simpa only [Cluster.serve, refused] using snapshot
    · simp only [Cluster.serve, accepted]
      refine ⟨snapshot.objects, snapshot.workloads, snapshot.histories, fun other revision member => ?_⟩
      by_cases same : other = kind
      · subst same
        rw [Cluster.withRevisions_revisions] at member
        exact snapshot.revisions other revision ((members revision).mp member).1
      · simp only [Cluster.withRevisions, Function.update_of_ne same] at member
        exact snapshot.revisions other revision member
  | getObject kind ns name =>
    rw [Cluster.serve_getObject]
    cases (cluster.objects kind).find? (ns, name) <;> exact snapshot
  | listNamespaces | listRevisions | listWorkloads | listHistories => exact snapshot
  | updateObject | getRevision | createRevision | updateRevision | getWorkload | updateWorkload | seedRandom =>
    exact purges.elim

theorem Snapshot.server (snapshot : Snapshot start flaky.world) {request : Call} (purges : request.Purges) :
    Snapshot start (flaky.server request).1.world := by
  rcases flaky.server_cases request with served | ⟨_, _, _, failed⟩
  · rw [served]
    exact snapshot.serve purges
  · rw [failed]
    exact snapshot

namespace Purge

variable {revision : Revision kind}

theorem emits_checkWorkloads (found : List Workload) (check : Bool) :
    (checkWorkloads workload ns revision found check).Emits Call.Purges := by
  induction found generalizing check with
  | nil => trivial
  | cons stored rest ih => exact ⟨trivial, fun _ => ih _⟩

theorem emits_examine (ns : String) (revision : Revision kind) : (examine ns revision).Emits Call.Purges := by
  rw [examine_eq]
  refine ⟨trivial, fun deployments => (emits_checkWorkloads _ _).bind fun check => ?_⟩
  refine ⟨trivial, fun statefulSets => (emits_checkWorkloads _ _).bind fun check => ?_⟩
  refine ⟨trivial, fun object => ?_⟩
  cases object with
  | error => trivial
  | ok object =>
    show Program.Emits Call.Purges (if object.registered .deployment ≠ "" ∨ object.registered .statefulSet ≠ "" then
      if !check then ask (.deleteRevision kind ns revision.name) >>= fun _ => pure () else pure () else pure ())
    split_ifs
    · exact ⟨trivial, fun _ => trivial⟩
    · trivial
    · trivial

theorem emits_examineAll (list : List (Revision kind)) : (examineAll ns list).Emits Call.Purges := by
  induction list with
  | nil => trivial
  | cons first rest ih => exact (emits_examine ns first).bind fun _ => ih

theorem emits_purge : purgeCCMAndCS.Emits Call.Purges := by
  refine ⟨trivial, fun namespaces => ?_⟩
  show (purgeNamespaces (items namespaces)).Emits Call.Purges
  induction items namespaces with
  | nil => trivial
  | cons ns rest ih =>
    exact ⟨trivial, fun _ => (emits_examineAll _).bind fun _ =>
      ⟨trivial, fun _ => (emits_examineAll _).bind fun _ => ih⟩⟩

section Answers

variable (snapshot : Snapshot start flaky.world)

include snapshot

theorem yielded_server : yielded Flaky.server flaky workload ns =
    if flaky.faults 0 = none then start.listed workload ns else [] := by
  cases fault : flaky.faults 0 with
  | none =>
    rw [if_pos rfl, yielded, Flaky.server, Flaky.serve_of_none fault, Cluster.listed, ← snapshot.workloads]
    rfl
  | some error =>
    have failed : flaky.server (.listWorkloads workload ns) = (⟨flaky.world, flaky.rest⟩, .error error) :=
      Flaky.serve_of_fault fault rfl
    rw [if_neg (Option.some_ne_none error), yielded, failed]
    rfl

theorem shows_server_iff {selector : LabelSelector} :
    Shows Flaky.server flaky workload ns selector revision ↔
      flaky.faults 0 = none ∧ start.Carries workload ns selector revision := by
  cases fault : flaky.faults 0 with
  | none =>
    have same : Shows Flaky.server flaky workload ns selector revision ↔
        Shows Cluster.serve flaky.world workload ns selector revision := by
      rw [Shows, Flaky.server, Flaky.serve_of_none fault, Shows]
    rw [same, shows_iff, Cluster.Carries, snapshot.histories, Cluster.Carries, eq_self, true_and]
  | some error =>
    have failed : flaky.server (.listHistories workload ns selector) = (⟨flaky.world, flaky.rest⟩, .error error) :=
      Flaky.serve_of_fault fault rfl
    rw [Shows, failed]
    constructor
    · rintro ⟨_, member, _⟩
      cases member
    · rintro ⟨served, _⟩
      cases served

theorem registers_server_iff :
    Registers Flaky.server flaky ns revision ↔ flaky.faults 0 = none ∧ start.Tracks ns revision := by
  cases fault : flaky.faults 0 with
  | none =>
    have same : Registers Flaky.server flaky ns revision ↔ Registers Cluster.serve flaky.world ns revision := by
      rw [Registers, Flaky.server, Flaky.serve_of_none fault, Registers]
    rw [same, registers_iff, Cluster.Tracks, snapshot.objects, Cluster.Tracks, eq_self, true_and]
  | some error =>
    have failed : flaky.server (.getObject kind ns revision.spec.owner) =
        (⟨flaky.world, flaky.rest⟩, .error error) := Flaky.serve_of_fault fault rfl
    rw [Registers, failed]
    constructor
    · rintro ⟨_, read, _⟩
      cases read
    · rintro ⟨served, _⟩
      cases served

end Answers

/-- The list of one kind of workload succeeds, and so does that of the histories of one of them that refers to
the revision. -/
def Course.Succeeds {worlds : List (Flaky Cluster ApiError)} (start : Cluster)
    (course : Course Flaky.server ns worlds) (revision : Revision kind) : Prop :=
  (course.listing.faults 0 = none ∧ ∃ pair ∈ (start.listed .deployment ns).zip course.deployments,
      pair.2.faults 0 = none ∧ start.Carries .deployment ns pair.1.selector revision) ∨
    course.relisting.faults 0 = none ∧ ∃ pair ∈ (start.listed .statefulSet ns).zip course.statefulSets,
      pair.2.faults 0 = none ∧ start.Carries .statefulSet ns pair.1.selector revision

theorem shownAmong_server_iff {listing : Flaky Cluster ApiError} {worlds : List (Flaky Cluster ApiError)}
    (before : Snapshot start listing.world) (all : ∀ flaky ∈ worlds, Snapshot start flaky.world) :
    ShownAmong Flaky.server workload ns revision (yielded Flaky.server listing workload ns) worlds ↔
      listing.faults 0 = none ∧ ∃ pair ∈ (start.listed workload ns).zip worlds,
        pair.2.faults 0 = none ∧ start.Carries workload ns pair.1.selector revision := by
  rw [ShownAmong, yielded_server before]
  split
  · rename_i served
    rw [and_iff_right served]
    refine exists_congr fun pair => and_congr_right fun member => ?_
    exact shows_server_iff (all pair.2 (List.of_mem_zip member).2)
  · rename_i failed
    constructor
    · rintro ⟨_, member, _⟩
      cases member
    · rintro ⟨served, _⟩
      exact absurd served failed

/-- An examination finds the version exactly where the calls that show it succeed. -/
theorem Course.finds_iff {worlds : List (Flaky Cluster ApiError)} (course : Course Flaky.server ns worlds)
    (all : ∀ flaky ∈ worlds, Snapshot start flaky.world) : course.Finds revision ↔ course.Succeeds start revision := by
  rw [course.split] at all
  simp only [List.forall_mem_cons, List.forall_mem_append] at all
  obtain ⟨listing, deployments, relisting, statefulSets, _⟩ := all
  rw [Course.Finds, shownAmong_server_iff listing deployments, shownAmong_server_iff relisting statefulSets]
  rfl

end Purge

namespace Purge

theorem onlyExamines_snapshot (start : Cluster) :
    OnlyExamines Flaky.server (fun flaky => Snapshot start flaky.world)
      (fun kind ns revision => revision ∈ start.revisions kind ∧ revision.ns = ns) purgeCCMAndCS := by
  have ends : OnlyExamines Flaky.server (fun flaky => Snapshot start flaky.world)
      (fun kind ns revision => revision ∈ start.revisions kind ∧ revision.ns = ns)
      (pure () : Client Unit) := nofun
  have whole : purgeCCMAndCS = purgeCCMAndCS >>= pure := (bind_pure _).symm
  rw [whole]
  refine onlyExamines_purge (fun flaky snapshot kind ns revision member => ?_) ends
  rcases flaky.server_cases (.listRevisions kind ns []) with served | ⟨error, answer, fails, failed⟩
  · rw [served] at member
    obtain ⟨present, selected⟩ := Table.mem_select.mp member
    simp only [Revision.matches, List.all_nil, Bool.and_true, decide_eq_true_eq] at selected
    exact ⟨snapshot.revisions kind revision present, selected⟩
  · rw [failed] at member
    cases fails
    cases member

end Purge

/-- Whatever lists and reads fail, the purge deletes no revision that is referred to exactly if whenever it
examines one and reads its object, which registers a workload, the calls that show a reference succeed. -/
theorem purge_failsafe_iff (flaky : Flaky Cluster ApiError) :
    (∀ entry ∈ Purge.purgeCCMAndCS.alone Flaky.server flaky, ¬ DeletesReferred flaky.world entry) ↔
      ∀ (kind : Kind) (count : Nat), ∀ revision ∈ flaky.world.revisions kind, flaky.world.Refers revision →
        flaky.world.Tracks revision.ns revision →
        Purge.Begins Flaky.server Purge.purgeCCMAndCS
          ((Purge.purgeCCMAndCS.alone Flaky.server flaky).map Prod.fst) count revision.ns revision →
        ∀ course : Purge.Course Flaky.server revision.ns
            (((Purge.purgeCCMAndCS.alone Flaky.server flaky).map Prod.fst).drop count),
          course.reading.faults 0 = none → course.due.faults 0 = none →
            course.Succeeds flaky.world revision := by
  have start : Snapshot flaky.world flaky.world := ⟨rfl, rfl, rfl, fun _ _ => id⟩
  have keeps : ∀ (world : Flaky Cluster ApiError) (request : Call), Snapshot flaky.world world.world →
      request.Purges → Snapshot flaky.world (world.server request).1.world :=
    fun _ _ fine purges => fine.server purges
  have all : ∀ world ∈ (Purge.purgeCCMAndCS.alone Flaky.server flaky).map Prod.fst,
      Snapshot flaky.world world.world := by
    intro world member
    obtain ⟨entry, inside, rfl⟩ := List.mem_map.mp member
    exact Purge.emits_purge.alone keeps start entry inside
  have calls : Purge.purgeCCMAndCS.amid Flaky.server
      ((Purge.purgeCCMAndCS.alone Flaky.server flaky).map Prod.fst) =
        Purge.purgeCCMAndCS.alone Flaky.server flaky := Program.amid_alone _ _
  generalize (Purge.purgeCCMAndCS.alone Flaky.server flaky).map Prod.fst = worlds at calls all ⊢
  rw [← calls]
  constructor
  · intro spares kind count revision member refers tracks begins course read due
    have later : ∀ world ∈ worlds.drop count, Snapshot flaky.world world.world :=
      fun world inside => all world (List.mem_of_mem_drop inside)
    have reading : Snapshot flaky.world course.reading.world := later course.reading course.reading_mem
    by_contra missed
    let entry : Flaky Cluster ApiError × Call := (course.due, .deleteRevision kind revision.ns revision.name)
    have deletion : entry.2.Deletes := trivial
    have deleted : entry ∈ (Purge.examine revision.ns revision).amid Flaky.server (worlds.drop count) :=
      (Purge.deletes_examine deletion).mpr ⟨course, rfl, (Purge.registers_server_iff reading).mpr ⟨read, tracks⟩,
        fun found => missed ((course.finds_iff later).mp found)⟩
    exact spares entry (begins.mem_amid deleted) ⟨kind, revision, member, refers, rfl, due⟩
  · rintro succeeds entry member ⟨kind, revision, stored, refers, deletes, due⟩
    have deletion : entry.2.Deletes := by
      rw [deletes]
      trivial
    obtain ⟨other, count, space, examined, ⟨present, rfl⟩, begins, asked⟩ :=
      Purge.onlyExamines_snapshot flaky.world worlds entry all deletion member
    have later : ∀ world ∈ worlds.drop count, Snapshot flaky.world world.world :=
      fun world inside => all world (List.mem_of_mem_drop inside)
    obtain ⟨course, rfl, registers, missed⟩ := (Purge.deletes_examine deletion).mp asked
    obtain ⟨rfl, spaces, names⟩ := Call.deleteRevision.inj deletes
    obtain rfl := Table.unique present stored (Prod.ext spaces names)
    have reading : Snapshot flaky.world course.reading.world := later course.reading course.reading_mem
    obtain ⟨read, tracks⟩ := (Purge.registers_server_iff reading).mp registers
    exact missed ((course.finds_iff later).mpr
      (succeeds other count examined present refers tracks begins course read due))

namespace Sample

/-- The third call of the purge, which lists the Deployments, fails. -/
def unlistedDeployments : Flaky Cluster ApiError where
  world := sharingKept
  faults call := if call = 2 then some (.other "timeout") else none

/-- The list of the Deployments fails, and the purge deletes the version in their ReplicaSets. -/
theorem unlisted_purged :
    ∃ entry ∈ Purge.purgeCCMAndCS.alone Flaky.server unlistedDeployments, DeletesReferred sharingKept entry := by
  have fifth : ((Purge.purgeCCMAndCS.alone Flaky.server unlistedDeployments)[5]?).map
      (fun entry => (entry.2, entry.1.faults 0)) = some (.deleteRevision .configMap "shop" "settings-aaaaa", none) := by
    rfl
  obtain ⟨entry, found, same⟩ := Option.map_eq_some_iff.mp fifth
  obtain ⟨deletes, served⟩ := Prod.mk.inj same
  have listed : stampedApi "aaaaa" 1 ∈ sharingKept.listed .deployment "shop" :=
    Table.mem_select.mpr ⟨List.mem_cons_self, by decide⟩
  refine ⟨entry, List.mem_of_getElem? found, .configMap, settingsCCM "red" "aaaaa" ["current", "latest"] 1,
    List.mem_singleton_self _, ⟨.deployment, stampedApi "aaaaa" 1, listed, ?_⟩, deletes, served⟩
  exact ⟨_, List.mem_singleton_self _, rfl, by decide, by decide⟩

end Sample

end Configurator
