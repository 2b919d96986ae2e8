import Configurator.Api

/-! The purge job, `controllers/configurator.gopaddle.io/purge.go`. Its list and get
calls go on with an empty answer when they fail. -/
namespace Configurator.Purge

variable {kind : Kind}

/-- The items of a list call, none when it fails. -/
def items {α : Type} : Except ApiError (List α) → List α
  | .ok found => found
  | .error _ => []

/-- A template carries the version under the annotation for the revision's object. -/
def references (revision : Revision kind) (template : GoMap String) : Bool :=
  decide (template.lookup (kind.tag ++ revision.spec.owner) = some revision.customVersion)

/-- Whether the history of one of the workloads carries the version. -/
def checkWorkloads (workload : WorkloadKind) (ns : String) (revision : Revision kind) :
    List Workload → Bool → Client Bool
  | [], check => pure check
  | stored :: rest, check => do
    let histories ← ask (.listHistories workload ns stored.selector)
    let found := (items histories).any fun history => references revision history.template
    checkWorkloads workload ns revision rest (check || found)

/-- Look at one revision and delete it unless its version is carried by some history
or its object registers no workload. -/
def examine (ns : String) (revision : Revision kind) : Client Unit := do
  let deployments ← ask (.listWorkloads .deployment ns)
  let check ← checkWorkloads .deployment ns revision (items deployments) false
  let statefulSets ← ask (.listWorkloads .statefulSet ns)
  let check ← checkWorkloads .statefulSet ns revision (items statefulSets) check
  match ← ask (.getObject kind ns revision.spec.owner) with
  | .error _ => pure ()
  | .ok object =>
    if object.registered .deployment ≠ "" ∨ object.registered .statefulSet ≠ "" then
      if !check then
        let _ ← ask (.deleteRevision kind ns revision.name)

def examineAll (ns : String) : List (Revision kind) → Client Unit
  | [] => pure ()
  | revision :: rest => do
    examine ns revision
    examineAll ns rest

def purgeNamespaces : List String → Client Unit
  | [] => pure ()
  | ns :: rest => do
    examineAll ns (items (← ask (.listRevisions .configMap ns [])))
    examineAll ns (items (← ask (.listRevisions .secret ns [])))
    purgeNamespaces rest

def purgeCCMAndCS : Client Unit := do
  purgeNamespaces (items (← ask .listNamespaces))

end Configurator.Purge
