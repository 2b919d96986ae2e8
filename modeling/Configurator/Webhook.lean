import Configurator.Api

/-! The workload handlers of `controllerWebhook`: `deployment-webhookhandle.go` and
`stateful-webhookhandle.go`. They register a workload on every ConfigMap and Secret
it does not name a version of, and answer with a patch of its template annotations. -/
namespace Configurator

variable {kind : Kind}

/-- The list with one more name. The handler of StatefulSets puts the name in the
place of the list. -/
def extendRegistry : WorkloadKind → String → String → String
  | .deployment, before, name => before ++ "," ++ name
  | .statefulSet, _, name => name

/-- The object with the workload in the list of its kind. -/
def register (workload : WorkloadKind) (name : String) (object : Object kind) : Object kind :=
  let before := object.registered workload
  if before = "" then
    { object with annotations := object.annotations.put workload.registry name }
  else if name ∈ split before ',' then object
  else
    { object with
      annotations :=
        object.annotations.put workload.registry (extendRegistry workload before name) }

/-- Register a workload on one object; the answer is the annotation that pins the
object's version in the template. -/
def pin (workload : WorkloadKind) (sent : Workload) (kind : Kind) (name : String) :
    Client (String × String) := do
  let object ← getObject kind sent.ns name
  let stored ← updateObject (register workload sent.name object)
  pure (kind.tag ++ stored.name, stored.currentVersion)

/-- `addnewAnnotation` after the loops over volumes, containers and init containers. -/
def newAnnotations (workload : WorkloadKind) (sent : Workload) :
    List (Kind × String) → GoMap String → Client (GoMap String)
  | [], added => pure added
  | (kind, name) :: rest, added => do
    if sent.template.annotations.index (kind.tag ++ name) = "" then
      let (key, version) ← pin workload sent kind name
      newAnnotations workload sent rest (added.put key version)
    else newAnnotations workload sent rest added

/-- Whether the handler keeps a template annotation. A key that contains the tag of
a kind is kept only if it pins an object that the template mentions. -/
def keepsAnnotation (spec : PodSpec) (key : String) : Bool :=
  if contains key "ccm-" then (spec.mentions .configMap).any fun name => key == "ccm-" ++ name
  else if contains key "cs-" then (spec.mentions .secret).any fun name => key == "cs-" ++ name
  else true

inductive PatchValue where
  | text (value : String)
  | map (entries : List (String × String))
  deriving DecidableEq

inductive PatchVerb where
  | add
  | replace
  | remove
  deriving DecidableEq

structure PatchOperation where
  op : PatchVerb
  path : String
  value : PatchValue
  deriving DecidableEq

/-- `strings.Replace(key, "/", "~1", -1)`. -/
def escapeKey (key : String) : String :=
  String.ofList (key.toList.flatMap fun letter => if letter = '/' then ['~', '1'] else [letter])

def annotationsPath : String := "/spec/template/metadata/annotations"

def annotationPath (key : String) : String := annotationsPath ++ "/" ++ escapeKey key

/-- `updateAnnotation` over the entries of its three maps in the order in which the
loops meet them. -/
def updateAnnotation (target added remove : List (String × String)) : List PatchOperation :=
  target.map (fun entry => ⟨.add, annotationPath entry.1, .text entry.2⟩) ++
    (match target, added with
      | [], first :: rest =>
        ⟨.add, annotationsPath, .map [(escapeKey first.1, first.2)]⟩ ::
          rest.map fun entry => ⟨.replace, annotationPath entry.1, .text entry.2⟩
      | _, entries => entries.map fun entry => ⟨.replace, annotationPath entry.1, .text entry.2⟩) ++
    remove.map fun entry => ⟨.remove, annotationPath entry.1, .text entry.2⟩

/-- The order in which a `range` loop meets the entries of a map. -/
abbrev Iteration := GoMap String → List (String × String)

/-- The common body of `createDeploymentPatch` and `createStatefulsetPatch`. -/
def createPatch (workload : WorkloadKind) (order : Iteration) (sent : Workload) :
    Client (List PatchOperation) := do
  let added ← newAnnotations workload sent sent.template.spec.references (.make ∅)
  let target := sent.template.annotations.restrict <| keepsAnnotation sent.template.spec
  let remove := sent.template.annotations.restrict fun key =>
    ! keepsAnnotation sent.template.spec key
  pure <| updateAnnotation (order target)
    (order (added.put "config-sync-controller" "configurator")) (order remove)

namespace Workload

def keptAnnotations (sent : Workload) : GoMap String :=
  sent.template.annotations.restrict <| keepsAnnotation sent.template.spec

def droppedAnnotations (sent : Workload) : GoMap String :=
  sent.template.annotations.restrict fun key => ! keepsAnnotation sent.template.spec key

end Workload

def createDeploymentPatch : Iteration → Workload → Client (List PatchOperation) :=
  createPatch .deployment

def createStatefulsetPatch : Iteration → Workload → Client (List PatchOperation) :=
  createPatch .statefulSet

/-- An `AdmissionResponse`: allowed with a patch, or refused with a message. -/
inductive AdmissionResponse where
  | allowed (patch : List PatchOperation)
  | refused (message : String)
  deriving DecidableEq

/-- The common body of `deployMutate` and `statefulsetMutate` on a decoded request. -/
def mutate (workload : WorkloadKind) (order : Iteration) (sent : Workload) :
    Client AdmissionResponse := do
  match ← (createPatch workload order sent).attempt with
  | .ok patch => pure (.allowed patch)
  | .error error => pure (.refused error.text)

def deployMutate : Iteration → Workload → Client AdmissionResponse := mutate .deployment

def statefulsetMutate : Iteration → Workload → Client AdmissionResponse := mutate .statefulSet

end Configurator
