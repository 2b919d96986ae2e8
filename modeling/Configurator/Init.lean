import Configurator.Revisions

/-! The start-up job of `controllerInit`: `controllerInit.go` makes a first revision
of every ConfigMap and Secret that a workload refers to and pins it. -/
namespace Configurator.Init

variable {kind : Kind}

/-- The list with one more name; the job appends for both kinds of workload. -/
def enlist (workload : WorkloadKind) (name : String) (object : Object kind) : Object kind :=
  let before := object.registered workload
  if before = "" then
    { object with annotations := object.annotations.put workload.registry name }
  else if name ∈ split before ',' then object
  else { object with annotations := object.annotations.put workload.registry (before ++ "," ++ name) }

/-- The annotations of an object that has just got its first revision. -/
def introduce (workload : WorkloadKind) (name version revision : String) (object : Object kind) :
    Object kind :=
  enlist workload name
    { object with
      annotations := ((object.annotations.put kind.versionKey version).put kind.nameKey revision).put
        "updateMethod" "ignoreWhenShared" }

/-- The body of the loops for one reference: the version to pin, if a revision was made. -/
def version? (workload : WorkloadKind) (ns owner : String) (kind : Kind) (name : String) :
    Client (Option String) := do
  let object ← getObject kind ns name
  if object.currentVersion = "" then
    let (revision, version) ← newCustomResource object
    let created ← createRevision revision
    let _ ← updateObject (introduce workload owner version created.name object)
    pure (some version)
  else pure none

/-- The new annotations after the loops over volumes, containers and init containers. -/
def annotations (workload : WorkloadKind) (ns : String) (stored : Workload) :
    List (Kind × String) → GoMap String → Client (GoMap String)
  | [], made => pure made
  | (kind, name) :: rest, made => do
    if stored.template.annotations.index (kind.tag ++ name) = "" then
      match ← version? workload ns stored.name kind name with
      | some version => annotations workload ns stored rest (made.put (kind.tag ++ name) version)
      | none => annotations workload ns stored rest made
    else annotations workload ns stored rest made

def initWorkload (workload : WorkloadKind) (ns : String) (stored : Workload) : Client Unit := do
  let made ← annotations workload ns stored stored.template.spec.references (.make ∅)
  if !made.isEmpty then
    let merged := if stored.template.annotations.isEmpty then made
      else GoMap.overlay made stored.template.annotations
    let _ ← updateWorkload workload
      { stored with template := { stored.template with annotations := merged } }

def initWorkloads (workload : WorkloadKind) (ns : String) : List Workload → Client Unit
  | [] => pure ()
  | stored :: rest => do
    initWorkload workload ns stored
    initWorkloads workload ns rest

def initNamespaces : List String → Client Unit
  | [] => pure ()
  | ns :: rest => do
    initWorkloads .deployment ns (← listWorkloads .deployment ns)
    initWorkloads .statefulSet ns (← listWorkloads .statefulSet ns)
    initNamespaces rest

def initController : Client Unit := do
  initNamespaces (← listNamespaces)

end Configurator.Init
