import Configurator.Library.GoMap
import Configurator.Library.Table

/-! The objects of the cluster that the controller, the webhook and the purge read
and write. ConfigMaps and Secrets are handled alike, so what the sources write
twice is written here once over their kind. -/
namespace Configurator

abbrev Bytes := List UInt8

/-- A versioned object: a ConfigMap with its CustomConfigMaps or a Secret with its
CustomSecrets. -/
inductive Kind where
  | configMap
  | secret
  deriving DecidableEq

/-- A workload that refers to versioned objects. -/
inductive WorkloadKind where
  | deployment
  | statefulSet
  deriving DecidableEq

/-- A namespace and a name in it. -/
abbrev ObjectKey := String × String

/-- Whether the API server lists the first key before the second. -/
def ObjectKey.before (left right : ObjectKey) : Bool :=
  decide (left.1 < right.1 ∨ left.1 = right.1 ∧ left.2 ≤ right.2)

structure ConfigMapContent where
  data : GoMap String
  binaryData : GoMap Bytes
  deriving DecidableEq

structure SecretContent where
  data : GoMap Bytes
  stringData : GoMap String
  type : String
  deriving DecidableEq

def Content : Kind → Type
  | .configMap => ConfigMapContent
  | .secret => SecretContent

instance : (kind : Kind) → DecidableEq (Content kind)
  | .configMap => inferInstanceAs (DecidableEq ConfigMapContent)
  | .secret => inferInstanceAs (DecidableEq SecretContent)

/-- A ConfigMap or a Secret. -/
structure Object (kind : Kind) where
  ns : String
  name : String
  annotations : GoMap String
  resourceVersion : Nat
  content : Content kind
  deriving DecidableEq

structure CustomConfigMapSpec where
  configMapName : String
  data : GoMap String
  binaryData : GoMap Bytes
  deriving DecidableEq

structure CustomSecretSpec where
  secretName : String
  data : GoMap Bytes
  type : String
  secretAnnotations : GoMap String
  deriving DecidableEq

def Spec : Kind → Type
  | .configMap => CustomConfigMapSpec
  | .secret => CustomSecretSpec

instance : (kind : Kind) → DecidableEq (Spec kind)
  | .configMap => inferInstanceAs (DecidableEq CustomConfigMapSpec)
  | .secret => inferInstanceAs (DecidableEq CustomSecretSpec)

/-- A CustomConfigMap or a CustomSecret. -/
structure Revision (kind : Kind) where
  ns : String
  name : String
  labels : GoMap String
  annotations : GoMap String
  resourceVersion : Nat
  spec : Spec kind
  deriving DecidableEq

/-- `Spec.ConfigMapName` or `Spec.SecretName`. -/
def Spec.owner : {kind : Kind} → Spec kind → String
  | .configMap, spec => spec.configMapName
  | .secret, spec => spec.secretName

structure Volume where
  configMap : Option String
  secret : Option String
  deriving DecidableEq

structure EnvFromSource where
  configMapRef : Option String
  secretRef : Option String
  deriving DecidableEq

/-- What a volume takes from an object of a kind. -/
def Volume.source (volume : Volume) : Kind → Option String
  | .configMap => volume.configMap
  | .secret => volume.secret

def EnvFromSource.source (env : EnvFromSource) : Kind → Option String
  | .configMap => env.configMapRef
  | .secret => env.secretRef

/-- `if ConfigMap != nil { … } else if Secret != nil { … }`. -/
def reference? (source : Kind → Option String) : Option (Kind × String) :=
  match source .configMap with
  | some name => some (.configMap, name)
  | none => (source .secret).map fun name => (.secret, name)

structure Container where
  envFrom : List EnvFromSource
  deriving DecidableEq

/-- The part of a pod's spec that refers to ConfigMaps and Secrets. -/
structure PodSpec where
  volumes : List Volume
  containers : List Container
  initContainers : List Container
  deriving DecidableEq

/-- The references in the order in which the sources go over them. -/
def PodSpec.references (spec : PodSpec) : List (Kind × String) :=
  (spec.volumes.filterMap fun volume => reference? volume.source) ++
    (spec.containers.flatMap (·.envFrom)).filterMap (fun env => reference? env.source) ++
    (spec.initContainers.flatMap (·.envFrom)).filterMap fun env => reference? env.source

theorem forall_references_cons {holds : Kind → String → Prop} {kind : Kind} {name : String}
    {references : List (Kind × String)} (first : holds kind name)
    (others : ∀ other called, (other, called) ∈ references → holds other called) :
    ∀ other called, (other, called) ∈ (kind, name) :: references → holds other called := by
  intro other called member
  rcases List.mem_cons.mp member with same | later
  · obtain ⟨rfl, rfl⟩ := Prod.mk.inj same
    exact first
  · exact others other called later

/-- The names of a kind that a spec mentions. -/
def PodSpec.mentions (spec : PodSpec) (kind : Kind) : List String :=
  (spec.volumes.filterMap fun volume => volume.source kind) ++
    (spec.containers.flatMap (·.envFrom)).filterMap (fun env => env.source kind) ++
    (spec.initContainers.flatMap (·.envFrom)).filterMap fun env => env.source kind

structure PodTemplate where
  annotations : GoMap String
  spec : PodSpec
  deriving DecidableEq

structure Pod where
  ns : String
  name : String
  annotations : GoMap String
  spec : PodSpec

inductive Operator where
  | isIn
  | notIn
  | isPresent
  | doesNotExist
  deriving DecidableEq

structure Requirement where
  key : String
  operator : Operator
  values : List String
  deriving DecidableEq

structure LabelSelector where
  matchLabels : GoMap String
  matchExpressions : List Requirement
  deriving DecidableEq

/-- A Deployment or a StatefulSet. -/
structure Workload where
  ns : String
  name : String
  selector : LabelSelector
  template : PodTemplate
  resourceVersion : Nat
  deriving DecidableEq

/-- A ReplicaSet, or the StatefulSet kept in a ControllerRevision. -/
structure History where
  ns : String
  name : String
  labels : GoMap String
  template : GoMap String
  deriving DecidableEq

namespace Kind

/-- The annotation of a versioned object that names the revision in force. -/
def versionKey : Kind → String
  | .configMap => "currentCustomConfigMapVersion"
  | .secret => "currentCustomSecretVersion"

/-- The annotation of a versioned object that names its revision object. -/
def nameKey : Kind → String
  | .configMap => "customConfigMap-name"
  | .secret => "customSecret-name"

/-- The annotation of a revision that holds its version. -/
def revisionKey : Kind → String
  | .configMap => "customConfigMapVersion"
  | .secret => "customSecretVersion"

/-- The start of a template annotation that pins a version. -/
def tag : Kind → String
  | .configMap => "ccm-"
  | .secret => "cs-"

end Kind

/-- The annotation of a versioned object that lists its workloads. -/
def WorkloadKind.registry : WorkloadKind → String
  | .deployment => "deployments"
  | .statefulSet => "statefulsets"

namespace Object

variable {kind : Kind}

def currentVersion (object : Object kind) : String :=
  object.annotations.index kind.versionKey

def registered (object : Object kind) (workload : WorkloadKind) : String :=
  object.annotations.index workload.registry

end Object

namespace Revision

variable {kind : Kind}

def customVersion (revision : Revision kind) : String :=
  revision.annotations.index kind.revisionKey

/-- The revision carries the label with this value. -/
def Labelled (revision : Revision kind) (label value : String) : Prop :=
  revision.labels.lookup label = some value

instance (revision : Revision kind) (label value : String) :
    Decidable (revision.Labelled label value) :=
  inferInstanceAs (Decidable (_ = _))

end Revision

section Stored

/-- `omitempty` drops empty maps, and the API server moves `stringData` into `data`. -/
def Content.stored : {kind : Kind} → Content kind → Content kind
  | .configMap, content =>
    ({ data := content.data.omitEmpty, binaryData := content.binaryData.omitEmpty } :
      ConfigMapContent)
  | .secret, content =>
    ({ data := (GoMap.overlay (content.stringData.mapValues fun text => text.toUTF8.toList)
          content.data).omitEmpty
       stringData := .nil
       type := content.type } : SecretContent)

def Spec.stored : {kind : Kind} → Spec kind → Spec kind
  | .configMap, spec =>
    ({ spec with data := spec.data.omitEmpty, binaryData := spec.binaryData.omitEmpty } :
      CustomConfigMapSpec)
  | .secret, spec =>
    ({ spec with
        data := spec.data.omitEmpty
        secretAnnotations := spec.secretAnnotations.omitEmpty } : CustomSecretSpec)

variable {kind : Kind}

@[simp] theorem Content.stored_stored (content : Content kind) : content.stored.stored = content.stored := by
  cases kind
  · simp only [Content.stored, GoMap.omitEmpty_omitEmpty]
    rfl
  · simp only [Content.stored, GoMap.mapValues_nil, GoMap.overlay_nil, GoMap.omitEmpty_omitEmpty]
    rfl

@[simp] theorem Spec.stored_stored (spec : Spec kind) : spec.stored.stored = spec.stored := by
  cases kind <;> (simp only [Spec.stored, GoMap.omitEmpty_omitEmpty]; rfl)

@[simp] theorem Spec.owner_stored (spec : Spec kind) : spec.stored.owner = spec.owner := by
  cases kind <;> rfl

instance : Resource (Object kind) ObjectKey where
  key object := (object.ns, object.name)
  version object := object.resourceVersion
  stamp version object :=
    { object with
      annotations := object.annotations.omitEmpty
      resourceVersion := version
      content := object.content.stored }
  before left right := ObjectKey.before (left.ns, left.name) (right.ns, right.name)
  key_stamp _ _ := rfl
  version_stamp _ _ := rfl
  stamp_stamp _ _ _ := by simp

instance : Resource (Revision kind) ObjectKey where
  key revision := (revision.ns, revision.name)
  version revision := revision.resourceVersion
  stamp version revision :=
    { revision with
      labels := revision.labels.omitEmpty
      annotations := revision.annotations.omitEmpty
      resourceVersion := version
      spec := revision.spec.stored }
  before left right := ObjectKey.before (left.ns, left.name) (right.ns, right.name)
  key_stamp _ _ := rfl
  version_stamp _ _ := rfl
  stamp_stamp _ _ _ := by simp

instance : Resource Workload ObjectKey where
  key workload := (workload.ns, workload.name)
  version workload := workload.resourceVersion
  stamp version workload :=
    { workload with
      template := { workload.template with annotations := workload.template.annotations.omitEmpty }
      resourceVersion := version }
  before left right := ObjectKey.before (left.ns, left.name) (right.ns, right.name)
  key_stamp _ _ := rfl
  version_stamp _ _ := rfl
  stamp_stamp _ _ _ := by simp

end Stored

end Configurator
