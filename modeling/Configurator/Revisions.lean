import Configurator.Api
import Configurator.Library.Base64

namespace Configurator

variable {kind : Kind}

/-- The annotations of a Secret that belong to the controller. -/
def trackingKeys : List String :=
  ["currentCustomSecretVersion", "customSecret-name", "updateMethod", "deployments", "statefulsets"]

/-- A copy of the annotations through JSON, without the controller's own. -/
def untracked (annotations : GoMap String) : GoMap String :=
  trackingKeys.foldl GoMap.delete annotations

/-- A `stringData` value in the form in which `newCustomSecret` keeps it. -/
def base64Bytes (text : String) : Bytes :=
  if Base64.decodes text.toList then text.toUTF8.toList
  else (String.ofList (Base64.encode text.toUTF8.toList)).toUTF8.toList

/-- The `Spec` of a new revision. -/
def newSpec : {kind : Kind} → Object kind → Spec kind
  | .configMap, configMap =>
    ({ configMapName := configMap.name
       data := configMap.content.data
       binaryData := configMap.content.binaryData } : CustomConfigMapSpec)
  | .secret, secret =>
    let converted := GoMap.overlay (secret.content.stringData.mapValues base64Bytes) (.make ∅)
    ({ secretName := secret.name
       data := GoMap.overlay secret.content.data converted
       type := secret.content.type
       secretAnnotations := untracked secret.annotations } : CustomSecretSpec)

/-- The revision object for an object and a version. -/
def newRevision (object : Object kind) (version : String) : Revision kind where
  ns := object.ns
  name := nameValidation (object.name ++ "-" ++ version)
  labels := (((GoMap.make ∅).put "name" object.name).put "latest" "true").put "current" "true"
  annotations := (GoMap.make ∅).put kind.revisionKey version
  resourceVersion := 0
  spec := newSpec object

/-- The common body of `newCustomConfigMap` and `newCustomSecret`. -/
def newCustomResource (object : Object kind) : Client (Revision kind × String) := do
  let version := randomSequence (← ask .seedRandom) 5
  pure (newRevision object version, version)

def newCustomConfigMap : Object .configMap → Client (Revision .configMap × String) :=
  newCustomResource

def newCustomSecret : Object .secret → Client (Revision .secret × String) :=
  newCustomResource

/-- The content of the object is not the one the revision holds. A Secret's own
annotations count only where the revision has some. -/
def differs : {kind : Kind} → Object kind → Revision kind → Bool
  | .configMap, configMap, ccm =>
    configMap.content.data != ccm.spec.data || configMap.content.binaryData != ccm.spec.binaryData
  | .secret, secret, cs =>
    if cs.spec.secretAnnotations.isEmpty then
      secret.content.data != cs.spec.data || secret.content.type != cs.spec.type
    else
      secret.content.data != cs.spec.data || secret.content.type != cs.spec.type ||
        untracked secret.annotations != cs.spec.secretAnnotations

namespace Object

/-- The object naming another version. -/
def naming (object : Object kind) (version : String) : Object kind :=
  { object with annotations := object.annotations.put kind.versionKey version }

/-- The three annotations, in a map that is made first when there is none. -/
def annotate (object : Object kind) (version name : String) : Object kind :=
  { object with
    annotations := ((object.annotations.put kind.versionKey version).put kind.nameKey name).put
      "updateMethod" "ignoreWhenShared" }

/-- The three annotations, assigned into the map as it is. -/
def annotate? (object : Object kind) (version name : String) : Option (Object kind) := do
  let annotations ← object.annotations.assign? kind.versionKey version
  let annotations ← annotations.assign? kind.nameKey name
  let annotations ← annotations.assign? "updateMethod" "ignoreWhenShared"
  pure { object with annotations := annotations }

end Object

namespace Revision

/-- `delete(revision.Labels, label)`. -/
def unlabel (revision : Revision kind) (label : String) : Revision kind :=
  { revision with labels := revision.labels.delete label }

/-- `revision.Labels[label] = "true"`. -/
def label? (revision : Revision kind) (label : String) : Option (Revision kind) := do
  let labels ← revision.labels.assign? label "true"
  pure { revision with labels := labels }

end Revision

/-- The `Spec` with a Secret's tracking annotations deleted from it again. -/
def Spec.untracked : {kind : Kind} → Spec kind → Spec kind
  | .configMap, spec => spec
  | .secret, spec =>
    ({ spec with secretAnnotations := Configurator.untracked spec.secretAnnotations } :
      CustomSecretSpec)

section Lemmas

theorem lookup_untracked (annotations : GoMap String) (key : String) :
    (untracked annotations).lookup key =
      if key ∈ trackingKeys then none else annotations.lookup key := by
  simp only [untracked, trackingKeys, List.foldl_cons, List.foldl_nil, GoMap.lookup_delete,
    List.mem_cons, List.not_mem_nil, or_false]
  split_ifs <;> simp_all

/-- Only the annotations that do not belong to the controller matter. -/
theorem lookup_untracked_congr {left right : GoMap String}
    (own : ∀ key, key ∉ trackingKeys → left.lookup key = right.lookup key) (key : String) :
    (untracked left).lookup key = (untracked right).lookup key := by
  rw [lookup_untracked, lookup_untracked]
  split
  · rfl
  · rename_i outside
    exact own key outside

@[simp] theorem untracked_nil : untracked .nil = .nil := rfl

@[simp] theorem Spec.untracked_configMap (spec : Spec .configMap) : spec.untracked = spec := rfl

theorem customVersion_newRevision (object : Object kind) (version : String) :
    (newRevision object version).customVersion = version := by
  simp [Revision.customVersion, newRevision]

@[simp] theorem owner_newSpec (object : Object kind) : (newSpec object).owner = object.name := by
  cases kind <;> rfl

theorem Kind.versionKey_ne_nameKey (kind : Kind) : kind.versionKey ≠ kind.nameKey := by
  cases kind <;> decide

theorem Kind.versionKey_ne_updateMethod (kind : Kind) : kind.versionKey ≠ "updateMethod" := by
  cases kind <;> decide

theorem Kind.nameKey_ne_updateMethod (kind : Kind) : kind.nameKey ≠ "updateMethod" := by
  cases kind <;> decide

theorem Kind.versionKey_ne_registry (kind : Kind) (workload : WorkloadKind) :
    kind.versionKey ≠ workload.registry := by
  cases kind <;> cases workload <;> decide

theorem Kind.nameKey_ne_registry (kind : Kind) (workload : WorkloadKind) :
    kind.nameKey ≠ workload.registry := by
  cases kind <;> cases workload <;> decide

namespace Object

@[simp] theorem currentVersion_naming (object : Object kind) (version : String) :
    (object.naming version).currentVersion = version := by
  simp [naming, currentVersion]

@[simp] theorem currentVersion_annotate (object : Object kind) (version name : String) :
    (object.annotate version name).currentVersion = version := by
  simp [annotate, currentVersion, kind.versionKey_ne_updateMethod, kind.versionKey_ne_nameKey]

@[simp] theorem currentVersion_stamp (written : Nat) (object : Object kind) :
    (Resource.stamp written object).currentVersion = object.currentVersion := by
  simp [currentVersion, Resource.stamp]

@[simp] theorem registered_stamp (written : Nat) (object : Object kind) (workload : WorkloadKind) :
    (Resource.stamp written object).registered workload = object.registered workload := by
  simp [registered, Resource.stamp]

theorem stored_content {table : Table (Object kind)} {object : Object kind}
    (member : object ∈ table) : object.content.stored = object.content :=
  congrArg Object.content (Table.stamp_of_mem member)

theorem stored_annotations {table : Table (Object kind)} {object : Object kind}
    (member : object ∈ table) : object.annotations.omitEmpty = object.annotations :=
  congrArg Object.annotations (Table.stamp_of_mem member)

@[simp] theorem registered_annotate (object : Object kind) (version name : String)
    (workload : WorkloadKind) :
    (object.annotate version name).registered workload = object.registered workload := by
  have method : workload.registry ≠ "updateMethod" := by cases workload <;> decide
  simp [annotate, registered, method, (kind.versionKey_ne_registry workload).symm,
    (kind.nameKey_ne_registry workload).symm]

/-- The three annotations are among the ones that no revision keeps. -/
theorem lookup_annotate_of_own (object : Object .secret) (version name : String) {key : String}
    (own : key ∉ trackingKeys) :
    (object.annotate version name).annotations.lookup key = object.annotations.lookup key := by
  simp only [trackingKeys, List.mem_cons, List.not_mem_nil, or_false, not_or] at own
  simp [annotate, Kind.versionKey, Kind.nameKey, own]

theorem annotate?_of_ne_nil {object : Object kind} (made : object.annotations ≠ .nil)
    (version name : String) : object.annotate? version name = some (object.annotate version name) := by
  simp [annotate?, annotate, GoMap.assign?_eq_some made, GoMap.assign?_eq_some]

theorem annotate?_eq_some {object annotated : Object kind} {version name : String}
    (assigned : object.annotate? version name = some annotated) :
    object.annotations ≠ .nil ∧ annotated = object.annotate version name := by
  by_cases made : object.annotations = .nil
  · simp [annotate?, made, GoMap.assign?] at assigned
  · rw [annotate?_of_ne_nil made, Option.some.injEq] at assigned
    exact ⟨made, assigned.symm⟩

theorem annotate_eq_self {object annotated : Object kind} {version name : String}
    (carries : ∀ key, annotated.annotations.lookup key = (object.annotate version name).annotations.lookup key) :
    annotated.annotate version name = annotated := by
  have itsVersion : annotated.annotations.lookup kind.versionKey = some version := by
    simp [carries, annotate, kind.versionKey_ne_updateMethod, kind.versionKey_ne_nameKey]
  have itsName : annotated.annotations.lookup kind.nameKey = some name := by
    simp [carries, annotate, kind.nameKey_ne_updateMethod]
  have itsMethod : annotated.annotations.lookup "updateMethod" = some "ignoreWhenShared" := by
    simp [carries, annotate]
  simp only [annotate, GoMap.put_of_lookup itsVersion, GoMap.put_of_lookup itsName,
    GoMap.put_of_lookup itsMethod]

theorem ne_nil_of_versioned {object : Object kind} (versioned : object.currentVersion ≠ "") :
    object.annotations ≠ .nil :=
  GoMap.ne_nil_of_index versioned

end Object

theorem differs_of_spec (object : Object kind) {old new : Revision kind} (same : new.spec = old.spec) :
    differs object new = differs object old := by
  cases kind <;> simp only [differs, same]

/-- Only the content of an object and a Secret's own annotations are compared. -/
theorem differs_congr {object updated : Object kind} (revision : Revision kind)
    (content : updated.content = object.content)
    (own : kind = .secret → ∀ key, key ∉ trackingKeys →
      updated.annotations.lookup key = object.annotations.lookup key) :
    differs updated revision = differs object revision := by
  cases kind with
  | configMap => simp only [differs, content]
  | secret =>
    have same : (untracked updated.annotations).omitEmpty = (untracked object.annotations).omitEmpty :=
      GoMap.omitEmpty_congr (lookup_untracked_congr (own rfl))
    simp only [differs, content]
    split
    · rfl
    · rename_i filled
      have equal : (untracked updated.annotations = revision.spec.secretAnnotations) ↔
          (untracked object.annotations = revision.spec.secretAnnotations) := by
        rw [← GoMap.omitEmpty_eq_iff (by simpa using filled), same,
          GoMap.omitEmpty_eq_iff (by simpa using filled)]
      have unequal : (untracked updated.annotations != revision.spec.secretAnnotations) =
          (untracked object.annotations != revision.spec.secretAnnotations) := by
        rw [Bool.eq_iff_iff, bne_iff_ne, bne_iff_ne, Ne, Ne, equal]
      rw [unequal]

/-- An object agrees with the revision that was made of it, as long as its content
and its own annotations stay. -/
theorem differs_newSpec {object updated : Object kind} {revision : Revision kind}
    (stored : object.content.stored = object.content) (content : updated.content = object.content)
    (spec : revision.spec = (newSpec object).stored)
    (own : kind = .secret → ∀ key, key ∉ trackingKeys →
      updated.annotations.lookup key = object.annotations.lookup key) :
    differs updated revision = false := by
  cases kind with
  | configMap =>
    have data : object.content.data.omitEmpty = object.content.data :=
      congrArg ConfigMapContent.data stored
    have binaryData : object.content.binaryData.omitEmpty = object.content.binaryData :=
      congrArg ConfigMapContent.binaryData stored
    simp [differs, content, spec, newSpec, Spec.stored, data, binaryData]
  | secret =>
    have cleared : object.content.stringData = .nil :=
      (congrArg SecretContent.stringData stored).symm
    have data : object.content.data.omitEmpty = object.content.data := by
      have whole := congrArg SecretContent.data stored
      simpa [Content.stored, cleared] using whole
    have kept : (untracked object.annotations).omitEmpty = (untracked updated.annotations).omitEmpty :=
      (GoMap.omitEmpty_congr (lookup_untracked_congr (own rfl))).symm
    have shape : revision.spec.data = object.content.data ∧
        revision.spec.type = object.content.type ∧
        revision.spec.secretAnnotations = (untracked updated.annotations).omitEmpty := by
      rw [spec, ← kept]
      refine ⟨?_, rfl, rfl⟩
      simp only [newSpec, Spec.stored, cleared, GoMap.mapValues_nil, GoMap.overlay_nil]
      rw [GoMap.overlay_empty, data]
    simp only [differs, content, shape, GoMap.isEmpty_omitEmpty]
    split
    · simp
    · rename_i filled
      simp [GoMap.omitEmpty_of_not_isEmpty (by simpa using filled)]

end Lemmas

end Configurator
