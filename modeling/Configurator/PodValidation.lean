import Configurator.Revisions
import Configurator.Webhook

/-! The pod handler of `controllerWebhook`, `podValidation-webhookhandle.go`: a pod
whose template pins another version than the one in force rolls the ConfigMap or
Secret back to it. -/
namespace Configurator

variable {kind : Kind}

namespace PodWebhook

/-- The object with the content of a revision, as this webhook writes it. -/
def restore? : {kind : Kind} → Object kind → Revision kind → Option (Object kind)
  | .configMap, configMap, ccm => do
    let annotations ← configMap.annotations.assign? "customConfigMap-name" ccm.name
    pure { configMap with
      annotations := annotations
      content := ({ data := ccm.spec.data, binaryData := ccm.spec.binaryData } : ConfigMapContent) }
  | .secret, secret, cs => do
    let annotations ← cs.spec.secretAnnotations.assign? "customConfigMap-name" cs.name
    let annotations ← annotations.assign? "deployments" (secret.annotations.index "deployments")
    let annotations ← annotations.assign? "statefulsets" (secret.annotations.index "statefulsets")
    let annotations ← annotations.assign? "updateMethod" (secret.annotations.index "updateMethod")
    let annotations ← annotations.assign? "currentCustomSecretVersion"
      (secret.annotations.index "currentCustomSecretVersion")
    pure { secret with
      annotations := annotations
      content := ({ secret.content with data := cs.spec.data } : SecretContent) }

/-- A Secret's annotation map is the one that `restore?` wrote into; only the five
tracking annotations are deleted from it again. -/
def keptSpec : {kind : Kind} → Revision kind → Spec kind
  | .configMap, ccm => ccm.spec
  | .secret, cs =>
    ({ cs.spec with
      secretAnnotations :=
        untracked (cs.spec.secretAnnotations.put "customConfigMap-name" cs.name) } :
      CustomSecretSpec)

/-- The revision as it is written back once its content has been copied. -/
def relabel? (revision : Revision kind) : Option (Revision kind) := do
  let labelled ← revision.label? "current"
  pure { labelled with spec := keptSpec revision }

/-- The name in the label selector `name=config-multi-env-files,current=true`. -/
def selectedName : String := "config-multi-env-files"

/-- The common body of `CopyCCMToCM` and `CopyCSToSecret` of this webhook. -/
def copyRevision (object : Object kind) : Client Unit := do
  let revision ← getRevision kind object.ns (object.name ++ "-" ++ object.currentVersion)
  let restored ← Program.orPanic (restore? object revision)
  let _ ← updateObject restored
  let listed ← ask (.listRevisions kind object.ns [("name", selectedName), ("current", "true")])
  match listed.toOption with
  | some (current :: _) =>
    let _ ← updateRevision (current.unlabel "current")
    let labelled ← Program.orPanic (relabel? revision)
    let _ ← updateRevision labelled
  | _ => Program.panic

def copyCCMToCM : Object .configMap → Client Unit := copyRevision

def copyCSToSecret : Object .secret → Client Unit := copyRevision

end PodWebhook

/-- What a typed client returns besides an error. -/
def Object.empty : (kind : Kind) → Object kind
  | .configMap => ⟨"", "", .nil, 0, (⟨.nil, .nil⟩ : ConfigMapContent)⟩
  | .secret => ⟨"", "", .nil, 0, (⟨.nil, .nil, ""⟩ : SecretContent)⟩

/-- Compare the version that a pod pins with the one in force, and roll back if they
differ. -/
def matchVersion (pod : Pod) (name : String) (object : Object kind) : Client Unit := do
  let pinned := pod.annotations.index (kind.tag ++ name)
  if pinned = object.currentVersion then pure ()
  else
    let annotations ← Program.orPanic (object.annotations.assign? kind.versionKey pinned)
    PodWebhook.copyRevision { object with annotations := annotations }

/-- The pods of the webhook itself are let through whatever fails. -/
def Pod.tolerated (pod : Pod) : Bool := contains pod.name "configurator-controllerwebhook"

/-- The message of a refusal, unless the versions agree or the roll-back succeeds. -/
def checkReference (pod : Pod) (name : String) (object : Object kind) : Client (Option String) := do
  match ← (matchVersion pod name object).attempt with
  | .ok () => pure none
  | .error error => pure (if pod.tolerated then none else some error.text)

/-- The body of the three loops for one reference. -/
def validateReference (pod : Pod) (kind : Kind) (name : String) : Client (Option String) := do
  match ← ask (.getObject kind pod.ns name) with
  | .ok object => checkReference pod name object
  | .error error =>
    if pod.tolerated then checkReference pod name (Object.empty kind)
    else pure (some error.text)

def validateReferences (pod : Pod) : List (Kind × String) → Client AdmissionResponse
  | [] => pure (.allowed [])
  | (kind, name) :: rest => do
    match ← validateReference pod kind name with
    | some message => pure (.refused message)
    | none => validateReferences pod rest

/-- `ConfigValidation` on a decoded request. -/
def configValidation (pod : Pod) : Client AdmissionResponse :=
  if pod.annotations.index "config-sync-controller" = "configurator" then
    validateReferences pod pod.spec.references
  else pure (.allowed [])

end Configurator
