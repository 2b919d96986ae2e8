import Configurator.Commit
import Configurator.Init
import Configurator.PodValidation
import Configurator.Reactions

namespace Configurator

/-- The requests and jobs that write ConfigMaps and Secrets. -/
inductive Job where
  | admission (workload : WorkloadKind) (order : Iteration) (sent : Workload)
  | podAdmission (pod : Pod)
  | reconcile (kind : Kind) (ns name : String)
  | start

namespace Job

def program : Job → Client (List PatchOperation)
  | .admission .deployment order sent => createDeploymentPatch order sent
  | .admission .statefulSet order sent => createStatefulsetPatch order sent
  | .podAdmission pod => do
    let _ ← configValidation pod
    pure []
  | .reconcile kind ns name => do
    Configurator.reconcile kind ns name
    pure []
  | .start => do
    Init.initController
    pure []

end Job

variable {kind : Kind} {object : Object kind} {sort : Call → Prop}

/-- The name stands in the annotation of the kind. -/
def Registered (object : Object kind) (workload : WorkloadKind) (owner : String) : Prop :=
  object.registered workload ≠ "" ∧ owner ∈ split (object.registered workload) ','

/-- The version that the template carries for an object. -/
def Workload.pinned (stored : Workload) (kind : Kind) (name : String) : String :=
  stored.template.annotations.index (kind.tag ++ name)

theorem pin_inj {kind other : Kind} {name otherName : String}
    (same : kind.tag ++ name = other.tag ++ otherName) : kind = other ∧ name = otherName := by
  have letters := congrArg String.toList same
  rw [String.toList_append, String.toList_append] at letters
  cases kind <;> cases other <;> simp [Kind.tag, String.toList_inj] at letters ⊢
  all_goals exact letters

theorem key_register (workload : WorkloadKind) (owner : String) (object : Object kind) :
    Resource.key (register workload owner object) = Resource.key object := by
  dsimp only [register]
  split_ifs <;> rfl

theorem version_register (workload : WorkloadKind) (owner : String) (object : Object kind) :
    Resource.version (register workload owner object) = Resource.version object := by
  dsimp only [register]
  split_ifs <;> rfl

theorem currentVersion_register (workload : WorkloadKind) (owner : String) (object : Object kind) :
    (register workload owner object).currentVersion = object.currentVersion := by
  dsimp only [register]
  split_ifs <;> simp [Object.currentVersion, kind.versionKey_ne_registry workload]

def Call.SparesObjects (call : Call) : Prop :=
  ∀ kind sent, call ≠ .updateObject kind sent

theorem emits_updateObject (sent : sort (.updateObject kind object)) : (updateObject object).Emits sort :=
  Program.Emits.bind ⟨sent, fun _ => trivial⟩ Program.Emits.ofExcept

section Relabels

variable (relabels : ∀ call : Call, call.Relabels → sort call)
include relabels

theorem emits_updateRevision (revision : Revision kind) : (updateRevision revision).Emits sort :=
  Program.Emits.bind ⟨relabels _ trivial, fun _ => trivial⟩ Program.Emits.ofExcept

theorem emits_getRevision (ns name : String) : (getRevision kind ns name).Emits sort :=
  Program.Emits.bind ⟨relabels _ trivial, fun _ => trivial⟩ Program.Emits.ofExcept

theorem emits_listRevisions (ns : String) (labels : List (String × String)) :
    (listRevisions kind ns labels).Emits sort :=
  Program.Emits.bind ⟨relabels _ trivial, fun _ => trivial⟩ Program.Emits.ofExcept

theorem emits_newCustomResource (object : Object kind) : (newCustomResource object).Emits sort :=
  ⟨relabels _ trivial, fun _ => trivial⟩

theorem emits_relabel (revision : Option (Revision kind)) :
    (do let labelled ← Program.orPanic revision; let _ ← updateRevision labelled : Client Unit).Emits
      sort :=
  (Program.Emits.orPanic revision).bind fun labelled =>
    (emits_updateRevision relabels labelled).bind fun _ => trivial

theorem emits_revert (current : Revision kind) (latest : List (Revision kind)) (error : ApiError) :
    (revert current latest error).Emits sort := by
  refine (Program.Emits.orPanic _).bind fun labelled => (emits_updateRevision relabels _).bind fun _ => ?_
  cases latest with
  | nil => trivial
  | cons first others =>
    refine (Program.Emits.orPanic _).bind fun labelled => ?_
    exact (emits_updateRevision relabels _).bind fun _ => trivial

theorem emits_stripLatest (object : Object kind) (current : Revision kind) (rounds : Nat)
    (before : List (Revision kind)) : (stripLatest object current rounds before).Emits sort := by
  induction rounds generalizing before with
  | zero => trivial
  | succ rounds ih =>
    refine Program.Emits.bind ⟨relabels _ trivial, fun _ => trivial⟩ fun listed => ?_
    cases itemsAfter before listed with
    | nil => trivial
    | cons first others =>
      refine Program.Emits.bind ⟨relabels _ trivial, fun _ => trivial⟩ fun answer => ?_
      rcases answer with error | stored
      · dsimp only
        split
        · exact ih _
        · refine (Program.Emits.orPanic _).bind fun labelled => ?_
          exact (emits_updateRevision relabels _).bind fun _ => trivial
      · trivial

/-- What the pod webhook sends when it copies a revision into the object. -/
theorem emits_podCopy (restores : ∀ revision restored,
      PodWebhook.restore? object revision = some restored → sort (.updateObject kind restored)) :
    (PodWebhook.copyRevision object).Emits sort := by
  refine (emits_getRevision relabels _ _).bind fun revision => ?_
  cases restored : PodWebhook.restore? object revision with
  | none => trivial
  | some restored =>
    refine (emits_updateObject (restores _ _ (by assumption))).bind fun _ => ?_
    refine Program.Emits.bind ⟨relabels _ trivial, fun _ => trivial⟩ fun listed => ?_
    split
    · refine (emits_updateRevision relabels _).bind fun _ => ?_
      exact emits_relabel relabels _
    · trivial

/-- What the pod webhook sends for an object that it has read. -/
theorem emits_checkReference (pod : Pod) (name : String)
    (restores : ∀ annotations revision restored,
      object.annotations.assign? kind.versionKey (pod.annotations.index (kind.tag ++ name)) =
        some annotations →
      PodWebhook.restore? { object with annotations := annotations } revision = some restored →
        sort (.updateObject kind restored)) : (checkReference pod name object).Emits sort := by
  have matching : (matchVersion pod name object).Emits sort := by
    unfold matchVersion
    dsimp only
    split
    · trivial
    · cases assigned : object.annotations.assign? kind.versionKey
          (pod.annotations.index (kind.tag ++ name)) with
      | none => trivial
      | some annotations =>
        exact emits_podCopy relabels fun revision restored => restores annotations revision restored assigned
  refine matching.attempt.bind fun answer => ?_
  cases answer <;> trivial

end Relabels

theorem emits_checkReference_empty (pod : Pod) (name : String) :
    (checkReference pod name (Object.empty kind)).Emits sort := by
  refine Program.Emits.bind (Program.Emits.attempt ?_) fun answer => by cases answer <;> trivial
  unfold matchVersion
  dsimp only
  split
  · trivial
  · cases kind <;> trivial

section Emits

variable (quiet : ∀ call : Call, call.SparesObjects → sort call)
include quiet

private theorem relabels_of_quiet (call : Call) (relabels : call.Relabels) : sort call :=
  quiet call (by rintro _ _ rfl; exact relabels)

theorem emits_createRevision (revision : Revision kind) : (createRevision revision).Emits sort :=
  Program.Emits.bind ⟨quiet _ nofun, fun _ => trivial⟩ Program.Emits.ofExcept

section Annotates

variable (annotates : ∀ version name, sort (.updateObject kind (object.annotate version name)))
include annotates

theorem emits_publish (created : Revision kind) (version : String) :
    (publish object created version).Emits sort := by
  unfold publish
  cases assigned : object.annotate? version created.name with
  | none => trivial
  | some annotated =>
    obtain ⟨_, rfl⟩ := Object.annotate?_eq_some assigned
    refine (emits_updateObject (annotates _ _)).bind fun updated => ?_
    refine (emits_rollOuts updated version).mono fun call rolls => quiet call ?_
    rintro _ _ rfl
    exact rolls

theorem emits_createNew (previous : Revision kind) : (createNew object previous).Emits sort := by
  refine (emits_updateRevision (relabels_of_quiet quiet) _).bind fun current => ?_
  refine (emits_stripLatest (relabels_of_quiet quiet) object current 6 []).bind fun latest => ?_
  cases latest with
  | none => trivial
  | some latest =>
    refine (emits_newCustomResource (relabels_of_quiet quiet) object).bind fun made => ?_
    refine Program.Emits.bind ⟨quiet _ nofun, fun _ => trivial⟩ fun answer => ?_
    cases answer with
    | error error => exact emits_revert (relabels_of_quiet quiet) _ _ _
    | ok created => exact emits_publish quiet annotates created made.2

theorem emits_adoptOrCreate : (adoptOrCreate object).Emits sort := by
  refine (emits_listRevisions (relabels_of_quiet quiet) _ _).bind fun listed => ?_
  rcases listed with _ | ⟨current, _ | ⟨second, others⟩⟩
  · refine (emits_newCustomResource (relabels_of_quiet quiet) object).bind fun made => ?_
    refine (emits_createRevision quiet _).bind fun created => ?_
    exact (emits_updateObject (annotates _ _)).bind fun _ => trivial
  · dsimp only
    split
    · exact emits_createNew quiet annotates current
    · exact (emits_updateObject (annotates _ _)).bind fun _ => trivial
  · trivial

variable (restores : ∀ revision restored, restore? object revision = some restored →
  sort (.updateObject kind restored))
include restores

theorem emits_synchronize : (synchronize object).Emits sort := by
  refine (emits_listRevisions (relabels_of_quiet quiet) _ _).bind fun listed => ?_
  rcases listed with _ | ⟨current, _ | ⟨second, others⟩⟩
  · trivial
  · dsimp only
    split_ifs
    · refine Program.Emits.bind ?_ fun _ => (emits_updateRevision (relabels_of_quiet quiet) _).bind fun _ => trivial
      refine (emits_getRevision (relabels_of_quiet quiet) _ _).bind fun revision => ?_
      cases restored : restore? object revision with
      | none => trivial
      | some restored =>
        refine (emits_updateObject (restores _ _ (by assumption))).bind fun _ => ?_
        exact emits_relabel (relabels_of_quiet quiet) _
    · exact emits_createNew quiet annotates current
    · trivial
  · trivial

/-- What `Reconcile` sends once it has read the object. -/
theorem emits_reconciled :
    (if object.currentVersion = "" then adoptOrCreate object else synchronize object).Emits sort := by
  split
  · exact emits_adoptOrCreate quiet annotates
  · exact emits_synchronize quiet annotates restores

end Annotates

end Emits

namespace Sample

/-- A Deployment that takes its environment from the ConfigMap `settings`. -/
def api : Workload where
  ns := "shop"
  name := "api"
  selector := ⟨.nil, []⟩
  template := ⟨.nil, ⟨[], [⟨[⟨some "settings", none⟩]⟩], []⟩⟩
  resourceVersion := 0

/-- The entries under these keys, in this order. -/
def inOrder (keys : List String) : Iteration := fun map =>
  keys.filterMap fun key => (map.lookup key).map fun value => (key, value)

def apiOrder : Iteration := inOrder ["ccm-settings", "config-sync-controller"]

def admitApi (_ : Nat) : Job := .admission .deployment apiOrder api

end Sample

end Configurator
