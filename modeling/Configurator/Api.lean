import Configurator.Library.Program
import Configurator.Naming
import Configurator.Objects

/-! The API server as the sources use it: the calls, their answers and errors, and
the cluster that serves them one at a time. -/
namespace Configurator

/-- An error of the API server, or one the controller makes up itself. -/
inductive ApiError where
  | notFound (resource name : String)
  | conflict (resource name : String)
  | alreadyExists (resource name : String)
  | badRequest (message : String)
  | other (message : String)
  deriving DecidableEq

/-- What the controller looks for in the text of an error to see a conflict. -/
def retryText : String := "changes to the latest version and try again"

/-- `err.Error()`. -/
def ApiError.text : ApiError → String
  | .notFound resource name => resource ++ " \"" ++ name ++ "\" not found"
  | .conflict resource name =>
    "Operation cannot be fulfilled on " ++ resource ++ " \"" ++ name ++
      "\": the object has been modified; please apply your " ++ retryText
  | .alreadyExists resource name => resource ++ " \"" ++ name ++ "\" already exists"
  | .badRequest message => message
  | .other message => message

/-- The error that goes with a refusal. -/
def Refusal.error (resource name : String) : Refusal → ApiError
  | .notFound => .notFound resource name
  | .conflict => .conflict resource name
  | .alreadyExists => .alreadyExists resource name

/-- One request to the API server, or the seeding of the random generator. -/
inductive Call where
  | getObject (kind : Kind) (ns name : String)
  | updateObject (kind : Kind) (object : Object kind)
  | getRevision (kind : Kind) (ns name : String)
  | listRevisions (kind : Kind) (ns : String) (labels : List (String × String))
  | createRevision (kind : Kind) (revision : Revision kind)
  | updateRevision (kind : Kind) (revision : Revision kind)
  | deleteRevision (kind : Kind) (ns name : String)
  | getWorkload (kind : WorkloadKind) (ns name : String)
  | listWorkloads (kind : WorkloadKind) (ns : String)
  | updateWorkload (kind : WorkloadKind) (workload : Workload)
  | listHistories (kind : WorkloadKind) (ns : String) (selector : LabelSelector)
  | listNamespaces
  | seedRandom

/-- The type of what a call answers. -/
@[reducible] def Answer : Call → Type
  | .getObject kind _ _ => Except ApiError (Object kind)
  | .updateObject kind _ => Except ApiError (Object kind)
  | .getRevision kind _ _ => Except ApiError (Revision kind)
  | .listRevisions kind _ _ => Except ApiError (List (Revision kind))
  | .createRevision kind _ => Except ApiError (Revision kind)
  | .updateRevision kind _ => Except ApiError (Revision kind)
  | .deleteRevision _ _ _ => Except ApiError Unit
  | .getWorkload _ _ _ => Except ApiError Workload
  | .listWorkloads _ _ => Except ApiError (List Workload)
  | .updateWorkload _ _ => Except ApiError Workload
  | .listHistories _ _ _ => Except ApiError (List History)
  | .listNamespaces => Except ApiError (List String)
  | .seedRandom => Draws

/-- The answer of a call that fails; seeding cannot fail. -/
def Call.failure (error : ApiError) : (call : Call) → Option (Answer call)
  | .getObject _ _ _ => some (.error error)
  | .updateObject _ _ => some (.error error)
  | .getRevision _ _ _ => some (.error error)
  | .listRevisions _ _ _ => some (.error error)
  | .createRevision _ _ => some (.error error)
  | .updateRevision _ _ => some (.error error)
  | .deleteRevision _ _ _ => some (.error error)
  | .getWorkload _ _ _ => some (.error error)
  | .listWorkloads _ _ => some (.error error)
  | .updateWorkload _ _ => some (.error error)
  | .listHistories _ _ _ => some (.error error)
  | .listNamespaces => some (.error error)
  | .seedRandom => none

/-- A program of the controller, the webhook or the purge. -/
abbrev Client (α : Type) := Program Call Answer ApiError α

/-- Everything the API server stores, with the random generators that the coming
calls to `rand.Seed` will give. -/
structure Cluster where
  objects : (kind : Kind) → Table (Object kind)
  revisions : (kind : Kind) → Table (Revision kind)
  workloads : WorkloadKind → Table Workload
  histories : WorkloadKind → List History
  namespaces : List String
  entropy : Nat → Draws

/-- The revision carries all these labels. -/
def Revision.matches {kind : Kind} (revision : Revision kind) (ns : String)
    (labels : List (String × String)) : Bool :=
  decide (revision.ns = ns) && labels.all fun label => decide (revision.Labelled label.1 label.2)

def Requirement.matches (requirement : Requirement) (labels : GoMap String) : Bool :=
  match requirement.operator, labels.lookup requirement.key with
  | .isIn, some value => requirement.values.contains value
  | .isIn, none => false
  | .notIn, some value => !requirement.values.contains value
  | .notIn, none => true
  | .isPresent, found => found.isSome
  | .doesNotExist, found => found.isNone

def LabelSelector.matches (selector : LabelSelector) (labels : GoMap String) : Bool :=
  decide (∀ key ∈ selector.matchLabels.entries, labels.lookup key = selector.matchLabels.lookup key) &&
    selector.matchExpressions.all fun requirement => requirement.matches labels

namespace Kind

def plural : Kind → String
  | .configMap => "configmaps"
  | .secret => "secrets"

def customPlural : Kind → String
  | .configMap => "customconfigmaps.configurator.gopaddle.io"
  | .secret => "customsecrets.configurator.gopaddle.io"

end Kind

def WorkloadKind.plural : WorkloadKind → String
  | .deployment => "deployments.apps"
  | .statefulSet => "statefulsets.apps"

namespace Cluster

def withObjects (cluster : Cluster) (kind : Kind) (table : Table (Object kind)) : Cluster :=
  { cluster with objects := Function.update cluster.objects kind table }

def withRevisions (cluster : Cluster) (kind : Kind) (table : Table (Revision kind)) : Cluster :=
  { cluster with revisions := Function.update cluster.revisions kind table }

def withWorkloads (cluster : Cluster) (kind : WorkloadKind) (table : Table Workload) : Cluster :=
  { cluster with workloads := Function.update cluster.workloads kind table }

@[simp] theorem withRevisions_withRevisions (cluster : Cluster) (kind : Kind)
    (first second : Table (Revision kind)) :
    (cluster.withRevisions kind first).withRevisions kind second =
      cluster.withRevisions kind second := by
  simp [withRevisions]

@[simp] theorem withObjects_withObjects (cluster : Cluster) (kind : Kind)
    (first second : Table (Object kind)) :
    (cluster.withObjects kind first).withObjects kind second = cluster.withObjects kind second := by
  simp [withObjects]

@[simp] theorem withObjects_self (cluster : Cluster) (kind : Kind) :
    cluster.withObjects kind (cluster.objects kind) = cluster := by
  simp [withObjects]

def reseeded (cluster : Cluster) : Cluster :=
  { cluster with entropy := fun next => cluster.entropy (next + 1) }

@[simp] theorem reseeded_withRevisions (cluster : Cluster) (kind : Kind)
    (table : Table (Revision kind)) :
    (cluster.withRevisions kind table).reseeded = cluster.reseeded.withRevisions kind table := rfl

/-- The version that the next `RandomSequence(5)` gives. -/
def nextVersion (cluster : Cluster) : String := randomSequence (cluster.entropy 0) 5

@[simp] theorem randomSequence_entropy (cluster : Cluster) :
    randomSequence (cluster.entropy 0) 5 = cluster.nextVersion := rfl

section Fields

variable (cluster : Cluster) (kind : Kind) (workload : WorkloadKind)

@[simp] theorem reseeded_objects : cluster.reseeded.objects = cluster.objects := rfl

@[simp] theorem reseeded_revisions : cluster.reseeded.revisions = cluster.revisions := rfl

@[simp] theorem reseeded_workloads : cluster.reseeded.workloads = cluster.workloads := rfl

@[simp] theorem withObjects_objects (table : Table (Object kind)) :
    (cluster.withObjects kind table).objects kind = table := by
  simp [withObjects]

@[simp] theorem withObjects_revisions (table : Table (Object kind)) :
    (cluster.withObjects kind table).revisions = cluster.revisions := rfl

@[simp] theorem withObjects_workloads (table : Table (Object kind)) :
    (cluster.withObjects kind table).workloads = cluster.workloads := rfl

@[simp] theorem withObjects_histories (table : Table (Object kind)) :
    (cluster.withObjects kind table).histories = cluster.histories := rfl

@[simp] theorem withObjects_entropy (table : Table (Object kind)) :
    (cluster.withObjects kind table).entropy = cluster.entropy := rfl

@[simp] theorem withRevisions_revisions (table : Table (Revision kind)) :
    (cluster.withRevisions kind table).revisions kind = table := by
  simp [withRevisions]

@[simp] theorem withRevisions_objects (table : Table (Revision kind)) :
    (cluster.withRevisions kind table).objects = cluster.objects := rfl

@[simp] theorem withRevisions_workloads (table : Table (Revision kind)) :
    (cluster.withRevisions kind table).workloads = cluster.workloads := rfl

@[simp] theorem withRevisions_histories (table : Table (Revision kind)) :
    (cluster.withRevisions kind table).histories = cluster.histories := rfl

@[simp] theorem withRevisions_entropy (table : Table (Revision kind)) :
    (cluster.withRevisions kind table).entropy = cluster.entropy := rfl

@[simp] theorem withWorkloads_workloads (table : Table Workload) :
    (cluster.withWorkloads workload table).workloads workload = table := by
  simp [withWorkloads]

@[simp] theorem withWorkloads_objects (table : Table Workload) :
    (cluster.withWorkloads workload table).objects = cluster.objects := rfl

@[simp] theorem withWorkloads_revisions (table : Table Workload) :
    (cluster.withWorkloads workload table).revisions = cluster.revisions := rfl

@[simp] theorem withWorkloads_histories (table : Table Workload) :
    (cluster.withWorkloads workload table).histories = cluster.histories := rfl

@[simp] theorem withWorkloads_entropy (table : Table Workload) :
    (cluster.withWorkloads workload table).entropy = cluster.entropy := rfl

end Fields

/-- The answer of a table, with the error text that goes with a refusal. -/
def settle (resource name : String) (cluster : Cluster)
    (store : β → Cluster) : Except Refusal (α × β) → Cluster × Except ApiError α
  | .ok (answer, table) => (store table, .ok answer)
  | .error refusal => (cluster, .error (refusal.error resource name))

/-- `found` or the error that the API server gives for a missing object. -/
def present (resource name : String) (cluster : Cluster) :
    Option α → Cluster × Except ApiError α
  | some found => (cluster, .ok found)
  | none => (cluster, .error (.notFound resource name))

/-- The server without failures. -/
def serve (cluster : Cluster) : (call : Call) → Cluster × Answer call
  | .getObject kind ns name =>
    present kind.plural name cluster ((cluster.objects kind).find? (ns, name))
  | .updateObject kind object =>
    settle kind.plural object.name cluster (cluster.withObjects kind)
      ((cluster.objects kind).update object)
  | .getRevision kind ns name =>
    present kind.customPlural name cluster ((cluster.revisions kind).find? (ns, name))
  | .listRevisions kind ns labels =>
    (cluster, .ok ((cluster.revisions kind).select fun revision => revision.matches ns labels))
  | .createRevision kind revision =>
    settle kind.customPlural revision.name cluster (cluster.withRevisions kind)
      ((cluster.revisions kind).create revision)
  | .updateRevision kind revision =>
    settle kind.customPlural revision.name cluster (cluster.withRevisions kind)
      ((cluster.revisions kind).update revision)
  | .deleteRevision kind ns name =>
    match (cluster.revisions kind).delete (ns, name) with
    | .ok table => (cluster.withRevisions kind table, .ok ())
    | .error refusal => (cluster, .error (refusal.error kind.customPlural name))
  | .getWorkload kind ns name =>
    present kind.plural name cluster ((cluster.workloads kind).find? (ns, name))
  | .listWorkloads kind ns =>
    (cluster, .ok ((cluster.workloads kind).select fun workload => decide (workload.ns = ns)))
  | .updateWorkload kind workload =>
    settle kind.plural workload.name cluster (cluster.withWorkloads kind)
      ((cluster.workloads kind).update workload)
  | .listHistories kind ns selector =>
    (cluster, .ok ((cluster.histories kind).filter fun history =>
      decide (history.ns = ns) && selector.matches history.labels))
  | .listNamespaces => (cluster, .ok cluster.namespaces)
  | .seedRandom => (cluster.reseeded, cluster.entropy 0)

section Serve

variable (cluster : Cluster) (kind : Kind) (workload : WorkloadKind) (ns name : String)

@[simp] theorem settle_ok {α β : Type} (store : β → Cluster) (answer : α) (table : β) :
    settle ns name cluster store (.ok (answer, table)) = (store table, .ok answer) := rfl

@[simp] theorem settle_error {α β : Type} (store : β → Cluster) (refusal : Refusal) :
    settle ns name cluster store (.error refusal : Except Refusal (α × β)) =
      (cluster, .error (refusal.error ns name)) := rfl

@[simp] theorem present_some {α : Type} (found : α) :
    present ns name cluster (some found) = (cluster, .ok found) := rfl

@[simp] theorem present_none {α : Type} :
    present ns name cluster (none : Option α) = (cluster, .error (.notFound ns name)) := rfl

@[simp] theorem serve_getObject :
    cluster.serve (.getObject kind ns name) =
      present kind.plural name cluster ((cluster.objects kind).find? (ns, name)) := rfl

@[simp] theorem serve_updateObject (object : Object kind) :
    cluster.serve (.updateObject kind object) =
      settle kind.plural object.name cluster (cluster.withObjects kind)
        ((cluster.objects kind).update object) := rfl

@[simp] theorem serve_getRevision :
    cluster.serve (.getRevision kind ns name) =
      present kind.customPlural name cluster ((cluster.revisions kind).find? (ns, name)) := rfl

@[simp] theorem serve_listRevisions (labels : List (String × String)) :
    cluster.serve (.listRevisions kind ns labels) =
      (cluster, .ok ((cluster.revisions kind).select fun revision => revision.matches ns labels)) :=
  rfl

@[simp] theorem serve_createRevision (revision : Revision kind) :
    cluster.serve (.createRevision kind revision) =
      settle kind.customPlural revision.name cluster (cluster.withRevisions kind)
        ((cluster.revisions kind).create revision) := rfl

@[simp] theorem serve_updateRevision (revision : Revision kind) :
    cluster.serve (.updateRevision kind revision) =
      settle kind.customPlural revision.name cluster (cluster.withRevisions kind)
        ((cluster.revisions kind).update revision) := rfl

@[simp] theorem serve_getWorkload :
    cluster.serve (.getWorkload workload ns name) =
      present workload.plural name cluster ((cluster.workloads workload).find? (ns, name)) := rfl

@[simp] theorem serve_updateWorkload (sent : Workload) :
    cluster.serve (.updateWorkload workload sent) =
      settle workload.plural sent.name cluster (cluster.withWorkloads workload)
        ((cluster.workloads workload).update sent) := rfl

@[simp] theorem serve_seedRandom :
    cluster.serve .seedRandom = (cluster.reseeded, cluster.entropy 0) := rfl

end Serve

end Cluster

/-- Issue a call and look at its answer, error or not. -/
abbrev ask (call : Call) : Client (Answer call) := Program.request call

section Raising

variable {kind : Kind} {workload : WorkloadKind}

def getObject (kind : Kind) (ns name : String) : Client (Object kind) := do
  Program.ofExcept (← ask (.getObject kind ns name))

def updateObject (object : Object kind) : Client (Object kind) := do
  Program.ofExcept (← ask (.updateObject kind object))

def getRevision (kind : Kind) (ns name : String) : Client (Revision kind) := do
  Program.ofExcept (← ask (.getRevision kind ns name))

def listRevisions (kind : Kind) (ns : String) (labels : List (String × String)) :
    Client (List (Revision kind)) := do
  Program.ofExcept (← ask (.listRevisions kind ns labels))

def createRevision (revision : Revision kind) : Client (Revision kind) := do
  Program.ofExcept (← ask (.createRevision kind revision))

def updateRevision (revision : Revision kind) : Client (Revision kind) := do
  Program.ofExcept (← ask (.updateRevision kind revision))

def getWorkload (kind : WorkloadKind) (ns name : String) : Client Workload := do
  Program.ofExcept (← ask (.getWorkload kind ns name))

def listWorkloads (kind : WorkloadKind) (ns : String) : Client (List Workload) := do
  Program.ofExcept (← ask (.listWorkloads kind ns))

def updateWorkload (kind : WorkloadKind) (sent : Workload) : Client Workload := do
  Program.ofExcept (← ask (.updateWorkload kind sent))

def listNamespaces : Client (List String) := do
  Program.ofExcept (← ask .listNamespaces)

end Raising

end Configurator
