import Configurator.Revisions

/-! The reconcilers of `controllers/core`: `configmap_controller.go` and
`secret_controller.go`, whose functions differ only in what a revision holds and
in how it is copied back. -/
namespace Configurator

variable {kind : Kind}

/-- The object with the content of a revision. A Secret also takes the revision's
annotations, into which the tracking annotations are written first. -/
def restore? : {kind : Kind} → Object kind → Revision kind → Option (Object kind)
  | .configMap, configMap, ccm =>
    some { configMap with
      content := ({ data := ccm.spec.data, binaryData := ccm.spec.binaryData } : ConfigMapContent) }
  | .secret, secret, cs => do
    let annotations ← cs.spec.secretAnnotations.assign? "deployments"
      (secret.annotations.index "deployments")
    let annotations ← annotations.assign? "statefulsets" (secret.annotations.index "statefulsets")
    let annotations ← annotations.assign? "updateMethod" (secret.annotations.index "updateMethod")
    let annotations ← annotations.assign? "currentCustomSecretVersion"
      (secret.annotations.index "currentCustomSecretVersion")
    let annotations ← annotations.assign? "customSecret-name" cs.name
    pure { secret with
      annotations := annotations
      content := ({ secret.content with data := cs.spec.data } : SecretContent) }

/-- The revision as it is written back once its content has been copied. -/
def relabel? (revision : Revision kind) : Option (Revision kind) := do
  let labelled ← revision.label? "current"
  pure { labelled with spec := labelled.spec.untracked }

/-- The common body of `CopyCCMToCM` and `CopyCSToSecret`. -/
def copyRevision (object : Object kind) : Client Unit := do
  let revision ← getRevision kind object.ns (object.name ++ "-" ++ object.currentVersion)
  let restored ← Program.orPanic (restore? object revision)
  let _ ← updateObject restored
  let labelled ← Program.orPanic (relabel? revision)
  let _ ← updateRevision labelled

/-- The items of a list variable after a list call, which leaves it alone when it fails. -/
def itemsAfter (before : List (Revision kind)) :
    Except ApiError (List (Revision kind)) → List (Revision kind)
  | .ok items => items
  | .error _ => before

@[simp] theorem itemsAfter_ok (before items : List (Revision kind)) :
    itemsAfter before (.ok items) = items := rfl

@[simp] theorem itemsAfter_error (before : List (Revision kind)) (error : ApiError) :
    itemsAfter before (.error error) = before := rfl

/-- The loop that takes the `latest` label away. A failed list leaves the items of
the round before; a conflict starts the next round; any other error puts the
`current` label back and ends the function, without an error where that
succeeds (`none`). After the last round nobody looks whether it succeeded. -/
def stripLatest (object : Object kind) (current : Revision kind) :
    Nat → List (Revision kind) → Client (Option (List (Revision kind)))
  | 0, latest => pure (some latest)
  | rounds + 1, before => do
    let listed ← ask (.listRevisions kind object.ns [("name", object.name), ("latest", "true")])
    match itemsAfter before listed with
    | [] => Program.panic
    | first :: others =>
      let stripped := first.unlabel "latest"
      match ← ask (.updateRevision kind stripped) with
      | .ok stored => pure (some (stored :: others))
      | .error error =>
        if contains error.text retryText then stripLatest object current rounds (stripped :: others)
        else do
          let labelled ← Program.orPanic (current.label? "current")
          let _ ← updateRevision labelled
          pure none

def sharedText : String := "can't trigger rolling update updateMethod is ignoreWhenShared"

/-- Write the new version into the template of the one workload of a kind that the
object registers. -/
def rollOut (workload : WorkloadKind) (object : Object kind) (version : String) : Client Unit := do
  if object.registered workload ≠ "" then
    if object.annotations.index "updateMethod" = "ignoreWhenShared" then
      match split (object.registered workload) ',' with
      | [] => Program.panic
      | [name] =>
        let stored ← getWorkload workload object.ns name
        let annotations ← Program.orPanic
          (stored.template.annotations.assign? (kind.tag ++ object.name) version)
        let _ ← updateWorkload workload
          { stored with template := { stored.template with annotations := annotations } }
      | _ :: _ :: _ => Program.fail (.badRequest sharedText)

/-- What `CreateNewCCM` and `CreateNewCS` do when the new revision is refused. -/
def revert (current : Revision kind) (latest : List (Revision kind)) (error : ApiError) :
    Client Unit := do
  let labelled ← Program.orPanic (current.label? "current")
  let _ ← updateRevision labelled
  match latest with
  | [] => Program.panic
  | first :: _ =>
    let labelled ← Program.orPanic (first.label? "latest")
    let _ ← updateRevision labelled
    Program.fail error

/-- Record the new revision in the object and bring its workloads to it. -/
def publish (object : Object kind) (created : Revision kind) (version : String) : Client Unit := do
  let annotated ← Program.orPanic (object.annotate? version created.name)
  let updated ← updateObject annotated
  rollOut .deployment updated version
  rollOut .statefulSet updated version

/-- Create the new revision once the two labels have been taken away. -/
def addNew (object : Object kind) (current : Revision kind) (latest : List (Revision kind)) :
    Client Unit := do
  let (revision, version) ← newCustomResource object
  match ← ask (.createRevision kind revision) with
  | .error error => revert current latest error
  | .ok created => publish object created version

/-- The common body of `CreateNewCCM` and `CreateNewCS`. -/
def createNew (object : Object kind) (previous : Revision kind) : Client Unit := do
  let current ← updateRevision (previous.unlabel "current")
  match ← stripLatest object current 6 [] with
  | none => pure ()
  | some latest => addNew object current latest

/-- The common body of `UpdateConfigMap` and `UpdateSecret`. -/
def synchronize (object : Object kind) : Client Unit := do
  match ← listRevisions kind object.ns [("name", object.name), ("current", "true")] with
  | [current] =>
    if current.customVersion ≠ object.currentVersion then
      copyRevision object
      let _ ← updateRevision (current.unlabel "current")
    else if differs object current then createNew object current
  | _ => pure ()

/-- The branch of `Reconcile` for an object without a version: make the first
revision, or adopt the one that is labelled current. -/
def adoptOrCreate (object : Object kind) : Client Unit := do
  match ← listRevisions kind object.ns [("name", object.name), ("current", "true")] with
  | [] =>
    let (revision, version) ← newCustomResource object
    let created ← createRevision revision
    let _ ← updateObject (object.annotate version created.name)
  | [current] =>
    if differs object current then createNew object current
    else
      let _ ← updateObject (object.annotate current.customVersion current.name)
  | _ => pure ()

/-- The common body of the two `Reconcile` functions. -/
def reconcile (kind : Kind) (ns name : String) : Client Unit := do
  match ← ask (.getObject kind ns name) with
  | .error _ => pure ()
  | .ok object =>
    if object.currentVersion = "" then adoptOrCreate object else synchronize object

namespace ConfigMapReconciler

def copyCCMToCM : Object .configMap → Client Unit := copyRevision

def createNewCCM : Object .configMap → Revision .configMap → Client Unit := createNew

def updateConfigMap : Object .configMap → Client Unit := synchronize

def reconcile : String → String → Client Unit := Configurator.reconcile .configMap

end ConfigMapReconciler

namespace SecretReconciler

def copyCSToSecret : Object .secret → Client Unit := copyRevision

def createNewCS : Object .secret → Revision .secret → Client Unit := createNew

def updateSecret : Object .secret → Client Unit := synchronize

def reconcile : String → String → Client Unit := Configurator.reconcile .secret

end SecretReconciler

end Configurator
