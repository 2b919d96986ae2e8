import Configurator.Conduct

namespace Configurator

open Resource

variable {kind : Kind} {cluster : Cluster} {workload : WorkloadKind} {α : Type}

/-- The call lists the latest revisions. Where this one fails, the loop that takes the label
away runs out of its list instead. -/
def Call.ListsLatest : Call → Prop
  | .listRevisions _ _ labels => ("latest", "true") ∈ labels
  | _ => False

/-- How a call can be answered: it is served, or it fails where that is allowed. -/
def ReactsWhere (allowed : Call → Prop) (cluster : Cluster) (request : Call) (after : Cluster)
    (answer : Answer request) : Prop :=
  cluster.Reacts request after answer ∧ (¬ allowed request → cluster.serve request = (after, answer))

/-- Nobody interferes, and every call but that one may fail. -/
def failingRules : Rules Cluster Call Answer where
  react := ReactsWhere fun call => ¬ call.ListsLatest
  rely before after := before = after
  guarantee _ _ _ := True

/-- Some run of the program panics. -/
def Panics (program : Client α) (cluster : Cluster) : Prop :=
  ∃ after, program.Ends failingRules.react cluster after .panicked

/-- No run of the program panics, and one that returns ends as it should. -/
abbrev Calm (ends : Cluster → α → Prop) (program : Client α) (cluster : Cluster) : Prop :=
  program.Safe failingRules
    (fun after outcome => outcome ≠ .panicked ∧
      ∀ value, outcome = .returned value → ends after value) cluster

section Runs

variable {ends : Cluster → α → Prop} {program : Client α}

theorem Calm.not_panics (calm : Calm ends program cluster) : ¬ Panics program cluster := by
  rintro ⟨after, ran⟩
  exact (calm.ends (fun _ => rfl) ran).1 rfl

/-- A run without failures is one of the runs. -/
theorem panics_of_run (ran : (program.run Cluster.serve cluster).2 = .panicked) :
    Panics program cluster := by
  refine ⟨(program.run Cluster.serve cluster).1, ?_⟩
  rw [← ran]
  exact .of_run (fun _ _ => ⟨Or.inl rfl, fun _ => rfl⟩) program cluster

theorem calm_ret {value : α} (holds : ends cluster value) : Calm ends (Program.ret value) cluster := by
  rintro _ rfl
  refine ⟨nofun, fun other same => ?_⟩
  cases same
  exact holds

theorem calm_fail {error : ApiError} : Calm ends (Program.fail error) cluster := by
  intro _ _
  exact ⟨nofun, nofun⟩

theorem Calm.bind {β : Type} {between : Cluster → β → Prop} {first : Client β} {next : β → Client α}
    (calm : Calm between first cluster)
    (continues : ∀ value after, between after value → Calm ends (next value) after) :
    Calm ends (first >>= next) cluster :=
  Program.Safe.bind calm (fun value after post => continues value after (post.2 value rfl))
    (fun _ _ _ => ⟨nofun, nofun⟩) (fun _ post => absurd rfl post.1) fun _ => rfl

theorem Calm.mono {weaker : Cluster → α → Prop} (calm : Calm ends program cluster)
    (implies : ∀ after value, ends after value → weaker after value) : Calm weaker program cluster :=
  Program.Safe.mono (fun after _ post =>
    ⟨post.1, fun value same => implies after value (post.2 value same)⟩) calm

theorem calm_call {request : Call} {next : Answer request → Client α}
    (failed : ∀ error answer, request.failure error = some answer → Calm ends (next answer) cluster)
    (served : ∀ after answer, cluster.serve request = (after, answer) → Calm ends (next answer) after) :
    Calm ends (Program.call request next) cluster := by
  rintro _ rfl after answer ⟨answered | ⟨rfl, error, failure⟩, _⟩
  · exact ⟨trivial, served after answer answered⟩
  · exact ⟨trivial, failed error answer failure⟩

theorem calm_listLatest {ns : String} {labels : List (String × String)}
    {next : Except ApiError (List (Revision kind)) → Client α} (latest : ("latest", "true") ∈ labels)
    (served : Calm ends (next (.ok ((cluster.revisions kind).select fun revision =>
      revision.matches ns labels))) cluster) :
    Calm ends (Program.call (.listRevisions kind ns labels) next) cluster := by
  rintro _ rfl after answer ⟨_, never⟩
  obtain ⟨rfl, rfl⟩ := Prod.mk.inj (never (not_not_intro latest))
  exact ⟨trivial, served⟩

theorem calm_raise {β : Type} {next : β → Client α} (request : Call)
    (read : Answer request → Except ApiError β)
    (served : ∀ after answer value, cluster.serve request = (after, answer) → read answer = .ok value →
      Calm ends (next value) after)
    (failed : ∀ error answer, request.failure error = some answer → read answer = .error error) :
    Calm ends (Program.call request fun answer => Program.ofExcept (read answer) >>= next) cluster := by
  refine calm_call (fun error answer failure => ?_) fun after answer accepted => ?_
  · rw [failed error answer failure]
    exact calm_fail
  · cases answered : read answer with
    | error error => exact calm_fail
    | ok value => exact served after answer value accepted answered

theorem calm_updateRevision {sent : Revision kind} {next : Revision kind → Client α}
    (accepted : ∀ stored revisions, (cluster.revisions kind).Written sent stored revisions →
      Calm ends (next stored) (cluster.withRevisions kind revisions)) :
    Calm ends (updateRevision sent >>= next) cluster := by
  refine calm_raise (.updateRevision kind sent) id (fun after answer stored served same => ?_)
    fun _ _ failed => (Option.some.inj failed).symm
  rcases Cluster.updateRevision_cases served with ⟨_, _, _, refused⟩ | ⟨_, revisions, updated, rfl, rfl⟩
  · cases refused.symm.trans same
  · cases same
    exact accepted stored revisions (Table.written_of_update updated).2

theorem calm_updateObject {sent : Object kind} {next : Object kind → Client α}
    (accepted : ∀ stored objects, (cluster.objects kind).Written sent stored objects →
      Calm ends (next stored) (cluster.withObjects kind objects)) :
    Calm ends (updateObject sent >>= next) cluster := by
  refine calm_raise (.updateObject kind sent) id (fun after answer stored served same => ?_)
    fun _ _ failed => (Option.some.inj failed).symm
  rcases Cluster.updateObject_cases served with ⟨_, _, _, refused⟩ | ⟨_, objects, updated, rfl, rfl⟩
  · cases refused.symm.trans same
  · cases same
    exact accepted stored objects (Table.written_of_update updated).2

theorem calm_updateWorkload {sent : Workload} {next : Workload → Client α}
    (accepted : ∀ stored workloads, Calm ends (next stored) (cluster.withWorkloads workload workloads)) :
    Calm ends (updateWorkload workload sent >>= next) cluster := by
  refine calm_raise (.updateWorkload workload sent) id (fun after answer stored served same => ?_)
    fun _ _ failed => (Option.some.inj failed).symm
  rcases Cluster.updateWorkload_cases served with ⟨_, _, _, refused⟩ | ⟨_, workloads, _, rfl, rfl⟩
  · cases refused.symm.trans same
  · exact accepted stored workloads

theorem calm_getRevision {ns name : String} {next : Revision kind → Client α}
    (found : ∀ revision ∈ cluster.revisions kind, key revision = (ns, name) →
      Calm ends (next revision) cluster) :
    Calm ends (getRevision kind ns name >>= next) cluster := by
  refine calm_raise (.getRevision kind ns name) id (fun after answer revision served same => ?_)
    fun _ _ failed => (Option.some.inj failed).symm
  rcases Cluster.getRevision_cases served with ⟨rfl, ⟨_, refused⟩ | ⟨_, member, own, rfl⟩⟩
  · cases refused.symm.trans same
  · cases same
    exact found revision member own

theorem calm_getWorkload {ns name : String} {next : Workload → Client α}
    (found : ∀ stored ∈ cluster.workloads workload, key stored = (ns, name) →
      Calm ends (next stored) cluster) :
    Calm ends (getWorkload workload ns name >>= next) cluster := by
  refine calm_raise (.getWorkload workload ns name) id (fun after answer stored served same => ?_)
    fun _ _ failed => (Option.some.inj failed).symm
  rcases Cluster.getWorkload_cases served with ⟨rfl, ⟨_, refused⟩ | ⟨_, member, own, rfl⟩⟩
  · cases refused.symm.trans same
  · cases same
    exact found stored member own

theorem calm_listRevisions {ns : String} {labels : List (String × String)}
    {next : List (Revision kind) → Client α}
    (listed : Calm ends (next ((cluster.revisions kind).select fun revision =>
      revision.matches ns labels)) cluster) :
    Calm ends (listRevisions kind ns labels >>= next) cluster := by
  refine calm_raise (.listRevisions kind ns labels) id (fun after answer revisions served same => ?_)
    fun _ _ failed => (Option.some.inj failed).symm
  obtain ⟨rfl, rfl⟩ := Cluster.listRevisions_cases served
  cases same
  exact listed

end Runs

end Configurator
