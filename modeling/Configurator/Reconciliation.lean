import Configurator.Checkout
import Configurator.Commit

namespace Configurator

open Resource

variable {kind : Kind}

/-- One run of `Reconcile` without a failure. -/
def Cluster.reconcile (cluster : Cluster) (kind : Kind) (ns name : String) :
    Cluster × Outcome ApiError Unit :=
  (Configurator.reconcile kind ns name).run Cluster.serve cluster

namespace Cluster

variable {cluster : Cluster} {object : Object kind} {current target latest : Revision kind}

theorem find_object (held : object ∈ cluster.objects kind) :
    (cluster.objects kind).find? (object.ns, object.name) = some object :=
  Table.find?_of_mem held

theorem reconcile_versioned (held : object ∈ cluster.objects kind)
    (versioned : object.currentVersion ≠ "") :
    cluster.reconcile kind object.ns object.name = (synchronize object).run Cluster.serve cluster := by
  simp [reconcile, Configurator.reconcile, find_object held, versioned]

theorem reconcile_unversioned (held : object ∈ cluster.objects kind)
    (unversioned : object.currentVersion = "") :
    cluster.reconcile kind object.ns object.name =
      (adoptOrCreate object).run Cluster.serve cluster := by
  simp [reconcile, Configurator.reconcile, find_object held, unversioned]

/-- A synced object is left alone. -/
theorem reconcile_synced (held : object ∈ cluster.objects kind)
    (versioned : object.currentVersion ≠ "")
    (isCurrent : (cluster.revisions kind).Sole (marked object.ns object.name "current") current)
    (same : object.currentVersion = current.customVersion)
    (agrees : differs object current = false) :
    cluster.reconcile kind object.ns object.name = (cluster, .returned ()) := by
  have list := Table.select_eq_singleton.mpr isCurrent
  simp [reconcile_versioned held versioned, synchronize, listRevisions, list, same, agrees]

/-- Unless exactly one revision is current, an object with a version is left alone. -/
theorem reconcile_stuck (held : object ∈ cluster.objects kind)
    (versioned : object.currentVersion ≠ "")
    (stuck : ∀ current,
      ¬ (cluster.revisions kind).Sole (marked object.ns object.name "current") current) :
    cluster.reconcile kind object.ns object.name = (cluster, .returned ()) := by
  have list : ∀ current, (cluster.revisions kind).select
      (marked object.ns object.name "current") ≠ [current] :=
    fun current listed => stuck current (Table.select_eq_singleton.mp listed)
  simp only [reconcile_versioned held versioned, synchronize, listRevisions]
  generalize found : (cluster.revisions kind).select (marked object.ns object.name "current") =
    listed at list
  rcases listed with _ | ⟨only, _ | ⟨second, others⟩⟩
  · simp [found]
  · exact absurd rfl (list only)
  · simp [found]

/-- An edit of a synced object becomes a new revision, and the roll-outs follow. -/
theorem reconcile_commit (held : object ∈ cluster.objects kind)
    (versioned : object.currentVersion ≠ "")
    (isCurrent : (cluster.revisions kind).Sole (marked object.ns object.name "current") current)
    (same : object.currentVersion = current.customVersion)
    (edited : differs object current = true) (commit : Commit cluster object current) :
    cluster.reconcile kind object.ns object.name =
      (rollOuts commit.updated cluster.nextVersion).run Cluster.serve commit.published := by
  have list := Table.select_eq_singleton.mpr isCurrent
  rw [reconcile_versioned held versioned, ← commit.run_createNew]
  simp [synchronize, listRevisions, list, same, edited]

/-- An object that names another revision is brought to it. -/
theorem reconcile_checkout (held : object ∈ cluster.objects kind)
    (versioned : object.currentVersion ≠ "") (checkout : Checkout cluster object current target) :
    cluster.reconcile kind object.ns object.name = (checkout.moved, .returned ()) := by
  rw [reconcile_versioned held versioned, checkout.run_synchronize]

/-- An object that names a revision which is not stored is left alone. -/
theorem reconcile_missing (held : object ∈ cluster.objects kind)
    (versioned : object.currentVersion ≠ "")
    (isCurrent : (cluster.revisions kind).Sole (marked object.ns object.name "current") current)
    (other : current.customVersion ≠ object.currentVersion)
    (missing : (cluster.revisions kind).find?
      (object.ns, object.name ++ "-" ++ object.currentVersion) = none) :
    (cluster.reconcile kind object.ns object.name).1 = cluster := by
  have list := Table.select_eq_singleton.mpr isCurrent
  simp [reconcile_versioned held versioned, synchronize, listRevisions, list, other, copyRevision,
    getRevision, missing]

/-- So is a Secret that names a revision without annotations: the copy panics. -/
theorem reconcile_unrestorable (held : object ∈ cluster.objects kind)
    (versioned : object.currentVersion ≠ "")
    (isCurrent : (cluster.revisions kind).Sole (marked object.ns object.name "current") current)
    (other : current.customVersion ≠ object.currentVersion)
    (found : (cluster.revisions kind).find?
      (object.ns, object.name ++ "-" ++ object.currentVersion) = some target)
    (unrestorable : ¬ Restorable target) :
    cluster.reconcile kind object.ns object.name = (cluster, .panicked) := by
  have list := Table.select_eq_singleton.mpr isCurrent
  simp [reconcile_versioned held versioned, synchronize, listRevisions, list, other, copyRevision,
    getRevision, found, restore?_eq_none.mpr unrestorable]

/-- An object without a version takes the one of its current revision. -/
theorem reconcile_adopt {updated : Object kind} {objects : Table (Object kind)}
    (held : object ∈ cluster.objects kind) (unversioned : object.currentVersion = "")
    (isCurrent : (cluster.revisions kind).Sole (marked object.ns object.name "current") current)
    (agrees : differs object current = false)
    (update : (cluster.objects kind).update
      (object.annotate current.customVersion current.name) = .ok (updated, objects)) :
    cluster.reconcile kind object.ns object.name =
      (cluster.withObjects kind objects, .returned ()) := by
  have list := Table.select_eq_singleton.mpr isCurrent
  simp [reconcile_unversioned held unversioned, adoptOrCreate, listRevisions, list, agrees,
    updateObject, update]

/-- Or its edit becomes a new revision. -/
theorem reconcile_recommit (held : object ∈ cluster.objects kind)
    (unversioned : object.currentVersion = "")
    (isCurrent : (cluster.revisions kind).Sole (marked object.ns object.name "current") current)
    (edited : differs object current = true) (commit : Commit cluster object current) :
    cluster.reconcile kind object.ns object.name =
      (rollOuts commit.updated cluster.nextVersion).run Cluster.serve commit.published := by
  have list := Table.select_eq_singleton.mpr isCurrent
  rw [reconcile_unversioned held unversioned, ← commit.run_createNew]
  simp [adoptOrCreate, listRevisions, list, edited]

/-- Without a current revision it gets its first one. -/
theorem reconcile_first {created : Revision kind} {withNew : Table (Revision kind)}
    {updated : Object kind} {objects : Table (Object kind)}
    (held : object ∈ cluster.objects kind) (unversioned : object.currentVersion = "")
    (none : ∀ revision ∈ cluster.revisions kind,
      marked object.ns object.name "current" revision = false)
    (create : (cluster.revisions kind).create (newRevision object cluster.nextVersion) =
      .ok (created, withNew))
    (update : (cluster.objects kind).update (object.annotate cluster.nextVersion created.name) =
      .ok (updated, objects)) :
    cluster.reconcile kind object.ns object.name =
      ((cluster.reseeded.withRevisions kind withNew).withObjects kind objects, .returned ()) := by
  have list := Table.select_eq_nil.mpr none
  simp [reconcile_unversioned held unversioned, adoptOrCreate, listRevisions, list,
    newCustomResource, createRevision, create, updateObject, update]

end Cluster

namespace Sample

def configMap (name text version : String) (written : Nat) : Object .configMap where
  ns := "shop"
  name := name
  annotations := (((GoMap.make ∅).put "currentCustomConfigMapVersion" version).put
    "customConfigMap-name" (name ++ "-" ++ version)).put "updateMethod" "ignoreWhenShared"
  resourceVersion := written
  content := (⟨(GoMap.make ∅).put "colour" text, .nil⟩ : ConfigMapContent)

def ccm (name text version : String) (labels : List String) (written : Nat) :
    Revision .configMap where
  ns := "shop"
  name := name ++ "-" ++ version
  labels := labels.foldr (fun label map => map.put label "true") ((GoMap.make ∅).put "name" name)
  annotations := (GoMap.make ∅).put "customConfigMapVersion" version
  resourceVersion := written
  spec := (⟨name, (GoMap.make ∅).put "colour" text, .nil⟩ : CustomConfigMapSpec)

def settings : String → String → Nat → Object .configMap := configMap "settings"

def settingsCCM : String → String → List String → Nat → Revision .configMap := ccm "settings"

/-- The generators give `bbbbb` first and `ccccc` after that. -/
def shop (configMaps : Table (Object .configMap)) (ccms : Table (Revision .configMap)) : Cluster where
  objects
    | .configMap => configMaps
    | .secret => .empty
  revisions
    | .configMap => ccms
    | .secret => .empty
  workloads _ := .empty
  histories _ := []
  namespaces := ["shop"]
  entropy next _ := if next = 0 then ⟨1, by decide⟩ else ⟨2, by decide⟩

def drawD : Draws := fun _ => ⟨3, by decide⟩

/-- `settings` with its first CustomConfigMap. -/
def synced : Cluster :=
  shop ⟨[settings "red" "aaaaa" 1], 1, by decide, by decide, by decide⟩
    ⟨[settingsCCM "red" "aaaaa" ["current", "latest"] 1], 1, by decide, by decide, by decide⟩

def edited : Table (Object .configMap) :=
  ⟨[settings "blue" "aaaaa" 2], 2, by decide, by decide, by decide⟩

end Sample

end Configurator
