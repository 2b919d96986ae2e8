import Configurator.Library.Interference
import Configurator.Marks
import Configurator.Startup

namespace Configurator

open Resource

variable {kind : Kind} {cluster world : Cluster} {α : Type}

/-- One step of the start-up job: a call is served, a call fails, or the job is killed
and begins again. A call that fails or is never made has to meet a condition. -/
inductive StartStep (meets : Call → Prop) : Cluster × Client Unit → Cluster × Client Unit → Prop where
  | serve {world : Cluster} {request : Call} {next : Answer request → Client Unit} :
    StartStep meets (world, .call request next) ((world.serve request).1, next (world.serve request).2)
  | fail {world : Cluster} {request : Call} {next : Answer request → Client Unit} {error : ApiError}
    {answer : Answer request} (met : meets request) (failed : request.failure error = some answer) :
    StartStep meets (world, .call request next) (world, next answer)
  | restart {world : Cluster} {program : Client Unit}
    (met : ∀ request next, program = .call request next → meets request) :
    StartStep meets (world, program) (world, Init.initController)

/-- At most one revision of the object is labelled current. -/
def CurrentOnce (object : Object kind) (revisions : Table (Revision kind)) : Prop :=
  ∀ first ∈ revisions, ∀ second ∈ revisions, marked object.ns object.name "current" first = true →
    marked object.ns object.name "current" second = true → first = second

def Unambiguous (cluster : Cluster) : Prop :=
  ∀ kind, ∀ object ∈ cluster.objects kind, CurrentOnce object (cluster.revisions kind)

/-- An object without a version has no current revision. -/
def CurrentRecorded (cluster : Cluster) : Prop :=
  ∀ kind, ∀ object ∈ cluster.objects kind, object.currentVersion = "" →
    ∀ revision ∈ cluster.revisions kind, marked object.ns object.name "current" revision = false

/-- Between two objects of the job both hold. -/
structure Ready (cluster : Cluster) : Prop where
  unambiguous : Unambiguous cluster
  recorded : CurrentRecorded cluster

theorem Ready.of_same (ready : Ready cluster) (objects : world.objects = cluster.objects)
    (revisions : world.revisions = cluster.revisions) : Ready world := by
  constructor
  · intro kind object member
    rw [objects] at member
    rw [revisions]
    exact ready.unambiguous kind object member
  · intro kind object member unversioned
    rw [objects] at member
    rw [revisions]
    exact ready.recorded kind object member unversioned

/-- The rules of the job: nobody else is at work, only an update of an object always
succeeds, and wherever another call is made the cluster is ready. -/
def startRules : Rules Cluster Call Answer where
  react before request after answer := before.serve request = (after, answer) ∨
    request.SparesObjects ∧ after = before ∧ ∃ error, request.failure error = some answer
  rely before after := before = after
  guarantee before request _ := Unambiguous before ∧ (request.SparesObjects → Ready before)

/-- The program begins and ends in a ready cluster. -/
abbrev SafeStart (program : Client α) (cluster : Cluster) : Prop :=
  program.Safe startRules (fun after _ => Ready after) cluster

theorem safe_start_end {program : Client α} (done : program.Finished) (ready : Ready cluster) :
    SafeStart program cluster := by
  cases program with
  | ret | fail | panic => exact fun later same => same ▸ ready
  | call request next => exact done.elim

theorem safe_start_harmless {request : Call} {next : Answer request → Client α} (ready : Ready cluster)
    (spares : request.SparesObjects)
    (harmless : request.SparesRevisions)
    (continues : ∀ answer world, Ready world → SafeStart (next answer) world) :
    SafeStart (.call request next) cluster := by
  rintro _ rfl after answer reacts
  refine ⟨⟨ready.unambiguous, fun _ => ready⟩, continues answer after ?_⟩
  rcases reacts with served | ⟨_, rfl, _⟩
  · have objects : (cluster.serve request).1.objects = cluster.objects := Cluster.serve_objects request spares
    have revisions : (cluster.serve request).1.revisions = cluster.revisions :=
      Cluster.serve_revisions request harmless
    rw [served] at objects revisions
    exact ready.of_same objects revisions
  · exact ready

section Reference

variable {workload : WorkloadKind} {ns owner name : String} {object : Object kind}

/-- A revision has been made of an object that has no version yet. -/
structure Introduced (object : Object kind) (cluster : Cluster) : Prop where
  unambiguous : Unambiguous cluster
  held : object ∈ cluster.objects kind
  others : ∀ other, ∀ entry ∈ cluster.objects other, entry.currentVersion = "" →
    ∀ revision ∈ cluster.revisions other, marked entry.ns entry.name "current" revision = true →
      other = kind ∧ key entry = key object

theorem introduced_of_create {version : String} {created : Revision kind} {revisions : Table (Revision kind)}
    (ready : Ready cluster) (member : object ∈ cluster.objects kind) (unversioned : object.currentVersion = "")
    (written : (cluster.revisions kind).Written (newRevision object version) created revisions) :
    Introduced object (cluster.withRevisions kind revisions) := by
  have labels : ∀ {ns name}, marked ns name "current" created = true → ns = object.ns ∧ name = object.name := by
    intro ns name selected
    rw [written.answered, marked_stamp, marked_iff, Table.labelled_newRevision, Table.labelled_newRevision]
      at selected
    exact ⟨selected.1.symm, by simpa using selected.2.1⟩
  have none := ready.recorded kind object member unversioned
  refine ⟨fun other entry present => ?_, member, fun other entry present unrecorded revision stored selected => ?_⟩
  all_goals
    by_cases same : other = kind
  · subst same
    rw [Cluster.withRevisions_revisions]
    intro first one second two isFirst isSecond
    rcases (written.members first).mp one with rfl | ⟨oldFirst, _⟩ <;>
      rcases (written.members second).mp two with rfl | ⟨oldSecond, _⟩
    · rfl
    · obtain ⟨spaces, names⟩ := labels isFirst
      rw [spaces, names, none second oldSecond] at isSecond
      cases isSecond
    · obtain ⟨spaces, names⟩ := labels isSecond
      rw [spaces, names, none first oldFirst] at isFirst
      cases isFirst
    · exact ready.unambiguous other entry present first oldFirst second oldSecond isFirst isSecond
  · simp only [Cluster.withRevisions, Function.update_of_ne same]
    exact ready.unambiguous other entry present
  · subst same
    rw [Cluster.withRevisions_revisions] at stored
    rcases (written.members revision).mp stored with rfl | ⟨old, _⟩
    · obtain ⟨spaces, names⟩ := labels selected
      exact ⟨rfl, Prod.ext spaces names⟩
    · rw [ready.recorded other entry present unrecorded revision old] at selected
      cases selected
  · simp only [Cluster.withRevisions, Function.update_of_ne same] at stored
    rw [ready.recorded other entry present unrecorded revision stored] at selected
    cases selected

theorem Introduced.ready {version revision : String} {updated : Object kind} {objects : Table (Object kind)}
    (introduced : Introduced object cluster) (filled : version ≠ "")
    (written : (cluster.objects kind).Written (Init.introduce workload owner version revision object) updated
      objects) : Ready (cluster.withObjects kind objects) := by
  have keys : key updated = key object := written.key_eq.trans (Object.key_introduce _ _ _ _ _)
  have versioned : updated.currentVersion = version := by
    rw [written.answered, Object.currentVersion_stamp, Object.currentVersion_introduce]
  constructor
  · intro other entry present
    by_cases same : other = kind
    · subst same
      rw [Cluster.withObjects_objects] at present
      rcases (written.members entry).mp present with rfl | ⟨was, _⟩
      · obtain ⟨spaces, names⟩ := Prod.mk.inj keys
        have once := introduced.unambiguous other object introduced.held
        rwa [CurrentOnce, ← spaces, ← names] at once
      · exact introduced.unambiguous other entry was
    · simp only [Cluster.withObjects, Function.update_of_ne same] at present
      exact introduced.unambiguous other entry present
  · intro other entry present unrecorded revision stored
    rw [← Bool.not_eq_true]
    intro selected
    by_cases same : other = kind
    · subst same
      rw [Cluster.withObjects_objects] at present
      rcases (written.members entry).mp present with rfl | ⟨was, different⟩
      · exact filled (versioned.symm.trans unrecorded)
      · have equal := (introduced.others other entry was unrecorded revision stored selected).2
        exact different (equal.trans (Object.key_introduce _ _ _ _ _).symm)
    · simp only [Cluster.withObjects, Function.update_of_ne same] at present
      exact same (introduced.others other entry present unrecorded revision stored selected).1

theorem safe_start_version (ready : Ready cluster) :
    SafeStart (Init.version? workload ns owner kind name) cluster := by
  rintro _ rfl after answer reacts
  refine ⟨⟨ready.unambiguous, fun _ => ready⟩, ?_⟩
  have read : after = cluster ∧ ((∃ error, answer = .error error) ∨
      ∃ object ∈ cluster.objects kind, key object = (ns, name) ∧ answer = .ok object) := by
    rcases reacts with served | ⟨_, rfl, error, failed⟩
    · exact Cluster.getObject_cases served
    · exact ⟨rfl, Or.inl ⟨error, (Option.some.inj failed).symm⟩⟩
  obtain ⟨rfl, ⟨error, rfl⟩ | ⟨object, member, _, rfl⟩⟩ := read
  · exact safe_start_end trivial ready
  show SafeStart (if object.currentVersion = "" then _ else _) after
  split
  swap
  · exact safe_start_end trivial ready
  rename_i unversioned
  rintro _ rfl seeded draws reacts
  refine ⟨⟨ready.unambiguous, fun _ => ready⟩, ?_⟩
  have same : seeded.objects = after.objects ∧ seeded.revisions = after.revisions := by
    rcases reacts with served | ⟨_, rfl, _⟩
    · obtain ⟨rfl, _⟩ := Prod.mk.inj served
      exact ⟨rfl, rfl⟩
    · exact ⟨rfl, rfl⟩
  have still := ready.of_same same.1 same.2
  rw [← same.1] at member
  rintro _ rfl created answer reacts
  refine ⟨⟨still.unambiguous, fun _ => still⟩, ?_⟩
  rcases reacts with served | ⟨_, rfl, error, failed⟩
  swap
  · obtain rfl := Option.some.inj failed
    exact safe_start_end trivial still
  rcases Cluster.createRevision_cases served with ⟨rfl, refusal, _, rfl⟩ | ⟨made, revisions, accepted, rfl, rfl⟩
  · exact safe_start_end trivial still
  have introduced := introduced_of_create still member unversioned (Table.written_of_create accepted)
  rintro _ rfl updated answer reacts
  refine ⟨⟨introduced.unambiguous, fun spares => absurd rfl (spares kind _)⟩, ?_⟩
  rcases reacts with served | ⟨spares, _⟩
  swap
  · exact absurd rfl (spares kind _)
  obtain ⟨stored, objects, accepted, written⟩ := Table.update_of_current
    (Init.introduce workload owner (randomSequence draws 5) made.name object) introduced.held
    (Object.key_introduce _ _ _ _ _).symm (Object.version_introduce _ _ _ _ _).symm
  rw [Cluster.serve_updateObject, accepted, Cluster.settle_ok, Prod.mk.injEq] at served
  obtain ⟨rfl, rfl⟩ := served
  exact safe_start_end trivial (introduced.ready (randomSequence_ne_empty draws 4) written)

end Reference

section Loops

variable {workload : WorkloadKind} {ns : String}

private theorem safe_start_bind {β : Type} {program : Client α} {next : α → Client β}
    (safe : SafeStart program cluster)
    (continues : ∀ value world, Ready world → SafeStart (next value) world) :
    SafeStart (program >>= next) cluster :=
  safe.bind continues (fun _ _ => id) (fun _ => id) fun _ => rfl

theorem safe_start_annotations {stored : Workload} (references : List (Kind × String))
    (made : GoMap String) (ready : Ready cluster) :
    SafeStart (Init.annotations workload ns stored references made) cluster := by
  induction references generalizing made cluster with
  | nil => exact safe_start_end trivial ready
  | cons reference rest ih =>
    obtain ⟨kind, name⟩ := reference
    unfold Init.annotations
    split
    · refine safe_start_bind (safe_start_version ready) fun version world ready => ?_
      cases version with
      | none => exact ih made ready
      | some version => exact ih _ ready
    · exact ih made ready

theorem safe_start_workload (stored : Workload) (ready : Ready cluster) :
    SafeStart (Init.initWorkload workload ns stored) cluster := by
  refine safe_start_bind (safe_start_annotations _ _ ready) fun made world ready => ?_
  dsimp only
  split
  · refine safe_start_harmless ready (by nofun) trivial fun answer world ready => ?_
    cases answer <;> exact safe_start_end trivial ready
  · exact safe_start_end trivial ready

theorem safe_start_workloads (list : List Workload) (ready : Ready cluster) :
    SafeStart (Init.initWorkloads workload ns list) cluster := by
  induction list generalizing cluster with
  | nil => exact safe_start_end trivial ready
  | cons stored rest ih =>
    exact safe_start_bind (safe_start_workload stored ready) fun _ world ready => ih ready

theorem safe_start_list {next : List Workload → Client α} (ready : Ready cluster)
    (continues : ∀ list world, Ready world → SafeStart (next list) world) :
    SafeStart (listWorkloads workload ns >>= next) cluster := by
  refine safe_start_bind ?_ continues
  refine safe_start_harmless ready (by nofun) trivial fun answer world ready => ?_
  cases answer <;> exact safe_start_end trivial ready

theorem safe_start_namespaces (namespaces : List String) (ready : Ready cluster) :
    SafeStart (Init.initNamespaces namespaces) cluster := by
  induction namespaces generalizing cluster with
  | nil => exact safe_start_end trivial ready
  | cons ns rest ih =>
    refine safe_start_list ready fun deployments world ready => ?_
    refine safe_start_bind (safe_start_workloads deployments ready) fun _ world ready => ?_
    refine safe_start_list ready fun statefulSets world ready => ?_
    exact safe_start_bind (safe_start_workloads statefulSets ready) fun _ world ready => ih ready

theorem safe_start (ready : Ready cluster) : SafeStart Init.initController cluster := by
  refine safe_start_bind ?_ fun namespaces world ready => safe_start_namespaces namespaces ready
  refine safe_start_harmless ready (by nofun) trivial fun answer world ready => ?_
  cases answer <;> exact safe_start_end trivial ready

end Loops

/-- Wherever the job stops, the cluster is unambiguous; it is ready unless the next call
updates an object. -/
theorem SafeStart.here {program : Client α} (safe : SafeStart program cluster) : Unambiguous cluster ∧
    ((∀ request next, program = .call request next → request.SparesObjects) → Ready cluster) := by
  cases program with
  | ret | fail | panic =>
    have ready : Ready cluster := safe cluster rfl
    exact ⟨ready.unambiguous, fun _ => ready⟩
  | call request next =>
    obtain ⟨⟨unambiguous, ready⟩, _⟩ := safe cluster rfl _ _ (Or.inl rfl)
    exact ⟨unambiguous, fun spares => ready (spares request next rfl)⟩

theorem SafeStart.step {first next : Cluster × Client Unit} (safe : SafeStart first.2 first.1)
    (step : StartStep Call.SparesObjects first next) : SafeStart next.2 next.1 := by
  cases step with
  | serve => exact (safe _ rfl _ _ (Or.inl rfl)).2
  | fail spares failed => exact (safe _ rfl _ _ (Or.inr ⟨spares, rfl, _, failed⟩)).2
  | restart spares => exact safe_start (safe.here.2 spares)

/-- However often the job fails, is killed and begins again, no object ever has two current
revisions, if the start has at most one for each object and none for an object without a
version, and the job is never stopped between making a revision and recording it. -/
theorem current_once {program : Client Unit} (once : Unambiguous cluster) (recorded : CurrentRecorded cluster)
    (run : Relation.ReflTransGen (StartStep Call.SparesObjects) (cluster, Init.initController)
      (world, program)) : Unambiguous world := by
  have safe : SafeStart program world := by
    have ready : Ready cluster := ⟨once, recorded⟩
    have every : ∀ {reached : Cluster × Client Unit},
        Relation.ReflTransGen (StartStep Call.SparesObjects) (cluster, Init.initController) reached →
          SafeStart reached.2 reached.1 := by
      intro reached run
      induction run with
      | refl => exact safe_start ready
      | tail _ step ih => exact SafeStart.step ih step
    exact every run
  exact safe.here.1

theorem StartStep.calls {meets : Call → Prop} (count : Nat) (program : Client Unit) (world : Cluster) :
    Relation.ReflTransGen (StartStep meets) (world, program) (program.after Cluster.serve count world) := by
  induction count generalizing program world with
  | zero =>
    rw [Program.after_zero]
  | succ count ih =>
    cases program with
    | ret | fail | panic => exact .refl
    | call request next => exact .head .serve (ih _ _)

namespace Sample

theorem starting_ready : Ready starting := by
  have none : ∀ kind, ∀ revision, revision ∉ starting.revisions kind := by
    intro kind revision
    cases kind <;> exact Table.not_mem_empty revision
  exact ⟨fun kind _ _ revision member => absurd member (none kind revision),
    fun kind _ _ _ revision member => absurd member (none kind revision)⟩

/-- The job up to its first update of an object. -/
def stopped : Cluster × Client Unit := Init.initController.after Cluster.serve 5 starting

theorem restarted_unambiguous : Unambiguous (Init.initController.after Cluster.serve 5
    (Init.initController.after Cluster.serve 3 starting).1).1 := by
  refine current_once starting_ready.unambiguous starting_ready.recorded
    (((StartStep.calls 3 Init.initController starting).tail (.restart ?_)).trans (StartStep.calls 5 _ _))
  rintro _ _ same _ _ rfl
  cases same

/-- Restarted before it records a revision, the job makes a second one. -/
theorem stopped_ambiguous : Unambiguous starting ∧ CurrentRecorded starting ∧
    Relation.ReflTransGen (StartStep fun _ => True) (starting, Init.initController)
      (Init.initController.after Cluster.serve 5 stopped.1) ∧
    ¬ Unambiguous (Init.initController.after Cluster.serve 5 stopped.1).1 := by
  refine ⟨starting_ready.unambiguous, starting_ready.recorded,
    ((StartStep.calls 5 Init.initController starting).tail (.restart fun _ _ _ => trivial)).trans
      (StartStep.calls 5 _ _), fun unambiguous => ?_⟩
  have equal := unambiguous .configMap { settings "red" "" 1 with annotations := .nil }
    (List.mem_singleton_self _) (stamp 1 (newRevision { settings "red" "" 1 with annotations := .nil } "bbbbb"))
    List.mem_cons_self (stamp 2 (newRevision { settings "red" "" 1 with annotations := .nil } "ccccc"))
    (List.mem_cons_of_mem _ (List.mem_singleton_self _)) (by decide) (by decide)
  exact absurd (congrArg Revision.name equal) (by decide)

end Sample

end Configurator
