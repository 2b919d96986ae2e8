import Configurator.Library.Contents
import Configurator.Reconciliation

namespace Configurator

open Resource

/-- What the cluster holds, the resource versions aside. -/
@[ext] structure Contents where
  objects : (kind : Kind) → ObjectKey → Option (Object kind)
  revisions : (kind : Kind) → ObjectKey → Option (Revision kind)
  workloads : WorkloadKind → ObjectKey → Option Workload
  histories : WorkloadKind → List History
  namespaces : List String

def Cluster.contents (cluster : Cluster) : Contents where
  objects kind := (cluster.objects kind).content
  revisions kind := (cluster.revisions kind).content
  workloads workload := (cluster.workloads workload).content
  histories := cluster.histories
  namespaces := cluster.namespaces

section Contents

variable (cluster : Cluster) (kind : Kind) (workload : WorkloadKind)

theorem Cluster.contents_revisions :
    cluster.contents.revisions kind = (cluster.revisions kind).content := rfl

theorem Cluster.contents_workloads :
    cluster.contents.workloads workload = (cluster.workloads workload).content := rfl

@[simp] theorem Cluster.contents_reseeded : cluster.reseeded.contents = cluster.contents := rfl

@[simp] theorem Cluster.contents_withObjects (table : Table (Object kind)) :
    (cluster.withObjects kind table).contents =
      { cluster.contents with objects := Function.update cluster.contents.objects kind table.content } := by
  refine Contents.ext (funext fun other => ?_) rfl rfl rfl rfl
  exact Function.apply_update (fun kind (table : Table (Object kind)) => table.content) _ _ _ _

@[simp] theorem Cluster.contents_withRevisions (table : Table (Revision kind)) :
    (cluster.withRevisions kind table).contents =
      { cluster.contents with revisions := Function.update cluster.contents.revisions kind table.content } := by
  refine Contents.ext rfl (funext fun other => ?_) rfl rfl rfl
  exact Function.apply_update (fun kind (table : Table (Revision kind)) => table.content) _ _ _ _

@[simp] theorem Cluster.contents_withWorkloads (table : Table Workload) :
    (cluster.withWorkloads workload table).contents =
      { cluster.contents with workloads := Function.update cluster.contents.workloads workload table.content } := by
  refine Contents.ext rfl rfl (funext fun other => ?_) rfl rfl
  exact Function.apply_update (fun _ (table : Table Workload) => table.content) _ _ _ _

end Contents

/-- The template of the workload under a key has annotations, if there is one. -/
def Contents.standing (contents : Contents) (ns : String) (workload : WorkloadKind) (called : String) :
    Option Bool :=
  (contents.workloads workload (ns, called)).map fun stored => decide (stored.template.annotations ≠ .nil)

/-- What the reconcile of a ConfigMap looks at: its current and latest revision, the one stored under
the name of its version, and which workloads there are. -/
structure View where
  object : Object .configMap
  marks : Option (Revision .configMap × Revision .configMap)
  target : Option (Revision .configMap)
  standing : WorkloadKind → String → Option Bool

/-- What it does: the objects it writes, the workloads whose template gets the new version, and how it
ends. -/
structure Effect where
  objects : List (Object .configMap) := []
  revisions : List (Revision .configMap) := []
  painted : WorkloadKind → Option String := fun _ => none
  outcome : Outcome ApiError Unit := .returned ()

/-- The workload of a kind that is rolled out, and how the roll-out ends. -/
def View.roll (view : View) (workload : WorkloadKind) : Option String × Outcome ApiError Unit :=
  if view.object.registered workload = "" then (none, .returned ())
  else match split (view.object.registered workload) ',' with
    | [] => (none, .panicked)
    | [called] =>
      match view.standing workload called with
      | none => (none, .failed (.notFound workload.plural called))
      | some false => (none, .panicked)
      | some true => (some called, .returned ())
    | _ :: _ :: _ => (none, .failed (.badRequest sharedText))

/-- Both roll-outs; the second one is left out when the first does not end well. -/
def View.rolls (view : View) : (WorkloadKind → Option String) × Outcome ApiError Unit :=
  match view.roll .deployment with
  | (painted, .returned ()) =>
    ((fun | .deployment => painted | .statefulSet => (view.roll .statefulSet).1), (view.roll .statefulSet).2)
  | (_, ended) => (fun _ => none, ended)

/-- The latest revision once both labels have been taken away. -/
def bareLatest (current latest : Revision .configMap) : Revision .configMap :=
  if key latest = key current then stamp 0 ((stamp 0 (current.unlabel "current")).unlabel "latest")
  else stamp 0 (latest.unlabel "latest")

/-- The effect of `CreateNewCCM`. -/
def View.renewal (view : View) (version : String) (current latest : Revision .configMap) : Effect where
  objects := [stamp 0 (view.object.annotate version (newRevision view.object version).name)]
  revisions := [stamp 0 (current.unlabel "current"), bareLatest current latest,
    stamp 0 (newRevision view.object version)]
  painted := view.rolls.1
  outcome := view.rolls.2

def View.move (view : View) (current : Revision .configMap) : Effect :=
  match view.target with
  | none =>
    { outcome := .failed (.notFound Kind.configMap.customPlural
        (view.object.name ++ "-" ++ view.object.currentVersion)) }
  | some target =>
    let restored : Object .configMap := { view.object with
      content := ({ data := target.spec.data, binaryData := target.spec.binaryData } : ConfigMapContent) }
    if target.labels = .nil then { objects := [stamp 0 restored], outcome := .panicked }
    else
      { objects := [stamp 0 restored]
        revisions := [stamp 0 { target with labels := target.labels.put "current" "true" },
          stamp 0 (current.unlabel "current")] }

def View.effect (view : View) (version : String) : Effect :=
  match view.marks with
  | none =>
    if view.object.currentVersion = "" then
      { objects := [stamp 0 (view.object.annotate version (newRevision view.object version).name)]
        revisions := [stamp 0 (newRevision view.object version)] }
    else {}
  | some (current, latest) =>
    if view.object.currentVersion = "" then
      if differs view.object current then view.renewal version current latest
      else { objects := [stamp 0 (view.object.annotate current.customVersion current.name)] }
    else if current.customVersion ≠ view.object.currentVersion then view.move current
    else if differs view.object current then view.renewal version current latest
    else {}

/-- The contents once a workload of a kind has got a version. -/
def Contents.paint (contents : Contents) (ns annotation version : String) (workload : WorkloadKind) :
    Option String → Contents
  | none => contents
  | some called =>
    { contents with
      workloads := Function.update contents.workloads workload
        (modify (contents.workloads workload) (ns, called) (fun stored => stored.carrying annotation version)) }

def Effect.write (effect : Effect) (contents : Contents) : Contents :=
  { contents with
    objects := Function.update contents.objects .configMap
      (overwrite (contents.objects .configMap) effect.objects)
    revisions := Function.update contents.revisions .configMap
      (overwrite (contents.revisions .configMap) effect.revisions) }

def Effect.apply (effect : Effect) (ns name version : String) (contents : Contents) : Contents :=
  ((effect.write contents).paint ns ("ccm-" ++ name) version .deployment (effect.painted .deployment)).paint
    ns ("ccm-" ++ name) version .statefulSet (effect.painted .statefulSet)

section Rolls

variable {cluster : Cluster} {view : View} {object : Object .configMap} (version : String)

theorem Workload.stamp_carrying {table : Table Workload} {stored : Workload} (member : stored ∈ table)
    (label : String) : stamp 0 (stored.carrying label version) = (stamp 0 stored).carrying label version := by
  have kept : stored.template.annotations.omitEmpty = stored.template.annotations :=
    congrArg (fun workload => workload.template.annotations) (Table.stamp_of_mem member)
  have filled : (stored.template.annotations.put label version).omitEmpty =
      stored.template.annotations.put label version := by
    refine GoMap.omitEmpty_of_not_isEmpty (Bool.eq_false_iff.mpr fun empty => ?_)
    simpa using GoMap.isEmpty_iff.mp empty label
  simp only [Workload.carrying, stamp, kept, filled]

theorem rollOut_performs {workload : WorkloadKind}
    (registered : object.registered workload = view.object.registered workload)
    (method : object.annotations.index "updateMethod" = "ignoreWhenShared")
    (stands : ∀ called, cluster.contents.standing object.ns workload called = view.standing workload called) :
    ((rollOut workload object version).run Cluster.serve cluster).1.contents =
      cluster.contents.paint object.ns ("ccm-" ++ object.name) version workload (view.roll workload).1 ∧
      ((rollOut workload object version).run Cluster.serve cluster).2 = (view.roll workload).2 := by
  unfold rollOut View.roll
  rw [registered]
  by_cases none : view.object.registered workload = ""
  · simp [none, Contents.paint]
  rw [if_pos none, if_pos method, if_neg none]
  match split (view.object.registered workload) ',' with
  | [] => simp [Contents.paint]
  | _ :: _ :: _ => simp [Contents.paint]
  | [called] =>
    have its := stands called
    simp only [← its, Contents.standing, Cluster.contents_workloads, Table.content]
    cases found : (cluster.workloads workload).find? (object.ns, called) with
    | none => simp [getWorkload, found, Contents.paint]
    | some stored =>
      obtain ⟨member, same⟩ := Table.find?_eq_some.mp found
      have kept : stored.template.annotations.omitEmpty = stored.template.annotations :=
        congrArg (fun workload => workload.template.annotations) (Table.stamp_of_mem member)
      have nil : (stamp 0 stored).template.annotations = stored.template.annotations := kept
      by_cases made : stored.template.annotations = .nil
      · simp [getWorkload, found, Contents.paint, made, nil, GoMap.assign?]
      · obtain ⟨answer, table, update, updating⟩ :=
          Table.update_of_current (stored.carrying ("ccm-" ++ object.name) version) member rfl rfl
        have written : (cluster.workloads workload).update { stored with
            template := { stored.template with
              annotations := stored.template.annotations.put ("ccm-" ++ object.name) version } } =
              .ok (answer, table) := update
        have assigned := GoMap.assign?_eq_some made ("ccm-" ++ object.name) version
        have painted : table.content = modify (cluster.workloads workload).content (object.ns, called)
            (fun stored => stored.carrying ("ccm-" ++ object.name) version) := by
          have sameKey : key (stored.carrying ("ccm-" ++ object.name) version) = (object.ns, called) := same
          have holds : (cluster.workloads workload).content (object.ns, called) = some (stamp 0 stored) := by
            rw [Table.content, found, Option.map_some]
          rw [updating.content, sameKey, modify, holds, Option.map_some, Workload.stamp_carrying version member]
        simp [getWorkload, updateWorkload, found, Kind.tag, assigned, written, Contents.paint, made, nil, painted,
          Cluster.contents_workloads]

theorem View.roll_of_ended {workload : WorkloadKind} (ended : (view.roll workload).2 ≠ .returned ()) :
    (view.roll workload).1 = none := by
  unfold View.roll at ended ⊢
  split_ifs at ended ⊢
  · rfl
  · split
    · rfl
    · split
      · rfl
      · rfl
      · rename_i _ called listed _ standing
        simp [listed, standing] at ended
    · rfl

theorem rollOuts_perform
    (registered : ∀ workload, object.registered workload = view.object.registered workload)
    (method : object.annotations.index "updateMethod" = "ignoreWhenShared")
    (stands : ∀ workload called,
      cluster.contents.standing object.ns workload called = view.standing workload called) :
    ((rollOuts object version).run Cluster.serve cluster).1.contents =
      (cluster.contents.paint object.ns ("ccm-" ++ object.name) version .deployment
        (view.rolls.1 .deployment)).paint object.ns ("ccm-" ++ object.name) version .statefulSet
          (view.rolls.1 .statefulSet) ∧
      ((rollOuts object version).run Cluster.serve cluster).2 = view.rolls.2 := by
  obtain ⟨painted, ends⟩ := rollOut_performs version (registered .deployment) method (stands .deployment)
  rw [rollOuts, Program.run_bind]
  generalize (rollOut .deployment object version).run Cluster.serve cluster = first at painted ends
  obtain ⟨after, outcome⟩ := first
  dsimp only at painted ends
  have unrolled : outcome ≠ .returned () → (view.roll .deployment).1 = none :=
    fun ended => view.roll_of_ended (ends ▸ ended)
  unfold View.rolls
  generalize view.roll .deployment = rolled at painted ends unrolled
  obtain ⟨called, itsEnd⟩ := rolled
  dsimp only at painted ends unrolled
  subst ends
  cases outcome with
  | failed error =>
    have unnamed : called = none := unrolled (by simp)
    simpa [unnamed, Contents.paint] using painted
  | panicked =>
    have unnamed : called = none := unrolled (by simp)
    simpa [unnamed, Contents.paint] using painted
  | returned =>
    have still : ∀ name, after.contents.standing object.ns .statefulSet name = view.standing .statefulSet name := by
      intro name
      rw [← stands, painted]
      cases called <;> simp [Contents.standing, Contents.paint]
    obtain ⟨again, last⟩ := rollOut_performs version (registered .statefulSet) method still
    rw [painted] at again
    exact ⟨again, last⟩

end Rolls

/-- The revision is stored and it alone carries the label. -/
def Contents.Carries (contents : Contents) (ns name label : String) (revision : Revision .configMap) : Prop :=
  contents.revisions .configMap (key revision) = some revision ∧ marked ns name label revision = true ∧
    ∀ wanted other, contents.revisions .configMap wanted = some other →
      marked ns name label other = true → other = revision

/-- The contents are those that a reconcile sees like this. -/
structure Contents.Shows (contents : Contents) (ns name : String) (view : View) : Prop where
  object : contents.objects .configMap (ns, name) = some view.object
  unmarked : view.marks = none → ∀ wanted revision, contents.revisions .configMap wanted = some revision →
    marked ns name "current" revision = false
  isCurrent : ∀ current latest, view.marks = some (current, latest) → contents.Carries ns name "current" current
  isLatest : ∀ current latest, view.marks = some (current, latest) → contents.Carries ns name "latest" latest
  target : contents.revisions .configMap (ns, name ++ "-" ++ view.object.currentVersion) = view.target
  standing : ∀ workload called, contents.standing ns workload called = view.standing workload called

section Performs

variable {kind : Kind} {cluster : Cluster} {ns name label : String} {object : Object .configMap}
  {current latest : Revision .configMap}

theorem Object.stamp_of_mem {table : Table (Object kind)} {object : Object kind} (member : object ∈ table)
    (written : Nat) : stamp written object = { object with resourceVersion := written } := by
  have annotations : object.annotations.omitEmpty = object.annotations := Object.stored_annotations member
  have content : object.content.stored = object.content := Object.stored_content member
  simp only [stamp, annotations, content]

theorem Revision.stamp_of_mem {table : Table (Revision kind)} {revision : Revision kind}
    (member : revision ∈ table) (written : Nat) :
    stamp written revision = { revision with resourceVersion := written } := by
  have labels : revision.labels.omitEmpty = revision.labels := Revision.stored_labels member
  have annotations : revision.annotations.omitEmpty = revision.annotations := Revision.stored_annotations member
  have spec : revision.spec.stored = revision.spec := Revision.stored_spec member
  simp only [stamp, labels, annotations, spec]

theorem Cluster.sole_of_carries {revision : Revision .configMap}
    (carries : cluster.contents.Carries ns name label revision) :
    ∃ stored, (cluster.revisions .configMap).Sole (marked ns name label) stored ∧ stamp 0 stored = revision := by
  obtain ⟨found, selected, sole⟩ := carries
  obtain ⟨stored, member, _, rfl⟩ := Table.content_eq_some.mp found
  rw [marked_stamp] at selected
  refine ⟨stored, ⟨member, selected, fun other present marks => ?_⟩, rfl⟩
  have same := sole (key other) (stamp 0 other) (Table.content_of_mem present) (by rwa [marked_stamp])
  have keys : key other = key stored := by
    simpa using congrArg key same
  exact Table.unique present member keys

theorem Cluster.unmarked_of_contents
    (unmarked : ∀ wanted revision, cluster.contents.revisions .configMap wanted = some revision →
      marked ns name label revision = false) :
    ∀ revision ∈ cluster.revisions .configMap, marked ns name label revision = false := by
  intro revision member
  rw [← marked_stamp ns name label 0]
  exact unmarked (key revision) (stamp 0 revision) (Table.content_of_mem member)

theorem Commit.performs (commit : Commit cluster object current) (held : object ∈ cluster.objects .configMap)
    (isCurrent : current ∈ cluster.revisions .configMap) (isLatest : latest ∈ cluster.revisions .configMap)
    (which : latest = current ∧ commit.latest = commit.stripped ∨
      key latest ≠ key current ∧ commit.latest = latest) {view : View} (sees : view.object = stamp 0 object)
    (stands : ∀ workload called,
      cluster.contents.standing object.ns workload called = view.standing workload called) :
    ((rollOuts commit.updated cluster.nextVersion).run Cluster.serve commit.published).1.contents =
        (view.renewal cluster.nextVersion (stamp 0 current) (stamp 0 latest)).apply object.ns object.name
          cluster.nextVersion cluster.contents ∧
      ((rollOuts commit.updated cluster.nextVersion).run Cluster.serve commit.published).2 =
        (view.renewal cluster.nextVersion (stamp 0 current) (stamp 0 latest)).outcome := by
  have sameKey : key commit.updated = key object := commit.updating.key_eq
  have sameNs : commit.updated.ns = object.ns := congrArg Prod.fst sameKey
  have sameName : commit.updated.name = object.name := congrArg Prod.snd sameKey
  have registered : ∀ workload, commit.updated.registered workload = view.object.registered workload := by
    intro workload
    rw [commit.updating.answered, Object.registered_stamp, Object.registered_annotate, sees, Object.registered_stamp]
  have method : commit.updated.annotations.index "updateMethod" = "ignoreWhenShared" := by
    rw [commit.updating.answered]
    simp [stamp, Object.annotate, GoMap.index]
  have written : commit.published.contents =
      (view.renewal cluster.nextVersion (stamp 0 current) (stamp 0 latest)).write cluster.contents := by
    have createdName : commit.created.name = (newRevision object cluster.nextVersion).name :=
      congrArg Prod.snd commit.creating.key_eq
    rw [Object.stamp_of_mem held] at sees
    simp only [Commit.published, Cluster.contents_withObjects, Cluster.contents_withRevisions,
      Cluster.contents_reseeded]
    refine Contents.ext (congrArg (Function.update _ _) ?_) (congrArg (Function.update _ _) ?_) rfl rfl rfl
    · rw [commit.updating.content, createdName, View.renewal, sees]
      rfl
    · rw [commit.creating.content, commit.retiring.content, commit.stripping.content, View.renewal, sees,
        Revision.stamp_of_mem isCurrent, Revision.stamp_of_mem isLatest]
      rcases which with ⟨rfl, same⟩ | ⟨apart, same⟩
      · rw [same, commit.stripping.answered, bareLatest, if_pos rfl]
        rfl
      · have different : ¬ key { latest with resourceVersion := 0 } = key { current with resourceVersion := 0 } :=
          apart
        rw [same, bareLatest, if_neg different]
        rfl
  obtain ⟨contents, ends⟩ := @rollOuts_perform commit.published view commit.updated cluster.nextVersion
    registered method (by rw [sameNs]; exact stands)
  rw [sameNs, sameName, written] at contents
  exact ⟨contents, ends⟩

theorem performs_first (held : object ∈ cluster.objects .configMap) (unversioned : object.currentVersion = "")
    (none : ∀ revision ∈ cluster.revisions .configMap,
      marked object.ns object.name "current" revision = false)
    (unused : cluster.Unused .configMap object.ns object.name cluster.nextVersion) {view : View}
    (sees : view.object = stamp 0 object) (unmarked : view.marks = Option.none) :
    (cluster.reconcile .configMap object.ns object.name).1.contents =
        (view.effect cluster.nextVersion).apply object.ns object.name cluster.nextVersion cluster.contents ∧
      (cluster.reconcile .configMap object.ns object.name).2 = (view.effect cluster.nextVersion).outcome := by
  obtain ⟨created, withNew, create, creating⟩ :=
    @Table.create_of_free _ _ _ _ (cluster.revisions .configMap) (newRevision object cluster.nextVersion) unused
  obtain ⟨updated, objects, update, updating⟩ :=
    Table.update_of_current (object.annotate cluster.nextVersion created.name) held rfl rfl
  have createdName : created.name = (newRevision object cluster.nextVersion).name :=
    congrArg Prod.snd creating.key_eq
  have versionless : (stamp 0 object).currentVersion = "" := by rw [Object.currentVersion_stamp, unversioned]
  rw [Cluster.reconcile_first held unversioned none create update]
  simp only [View.effect, unmarked, sees, if_pos versionless]
  refine ⟨?_, trivial⟩
  rw [Object.stamp_of_mem held, Cluster.contents_withObjects, Cluster.contents_withRevisions,
    Cluster.contents_reseeded, updating.content, creating.content, createdName]
  rfl

/-- Taking over the version of the current revision. -/
theorem performs_adopt (held : object ∈ cluster.objects .configMap) (unversioned : object.currentVersion = "")
    (isCurrent : (cluster.revisions .configMap).Sole (marked object.ns object.name "current") current)
    (agrees : differs object current = false) :
    (cluster.reconcile .configMap object.ns object.name).1.contents =
        Effect.write { objects := [stamp 0 (object.annotate current.customVersion current.name)] }
          cluster.contents ∧
      (cluster.reconcile .configMap object.ns object.name).2 = .returned () := by
  obtain ⟨updated, objects, update, updating⟩ :=
    Table.update_of_current (object.annotate current.customVersion current.name) held rfl rfl
  rw [Cluster.reconcile_adopt held unversioned isCurrent agrees update]
  refine ⟨?_, rfl⟩
  rw [Cluster.contents_withObjects, updating.content]
  simp [Effect.write]
  rfl

theorem performs_move (held : object ∈ cluster.objects .configMap) (versioned : object.currentVersion ≠ "")
    (isCurrent : (cluster.revisions .configMap).Sole (marked object.ns object.name "current") current)
    (other : current.customVersion ≠ object.currentVersion) {view : View} (sees : view.object = stamp 0 object)
    (target : cluster.contents.revisions .configMap (object.ns, object.name ++ "-" ++ object.currentVersion) =
      view.target) :
    (cluster.reconcile .configMap object.ns object.name).1.contents =
        (view.move (stamp 0 current)).write cluster.contents ∧
      (cluster.reconcile .configMap object.ns object.name).2 = (view.move (stamp 0 current)).outcome := by
  have list := Table.select_eq_singleton.mpr isCurrent
  rw [Cluster.contents_revisions] at target
  rw [View.move, ← target, sees, Object.currentVersion_stamp, Object.stamp_of_mem held]
  cases found : (cluster.revisions .configMap).find? (object.ns, object.name ++ "-" ++ object.currentVersion) with
  | none =>
    have runs : cluster.reconcile .configMap object.ns object.name =
        (cluster, .failed (.notFound Kind.configMap.customPlural (object.name ++ "-" ++ object.currentVersion))) := by
      simp [Cluster.reconcile_versioned held versioned, synchronize, listRevisions, list, other, copyRevision,
        getRevision, found]
    rw [runs, Table.content, found]
    simp [Effect.write]
  | some revision =>
    obtain ⟨member, _⟩ := Table.find?_eq_some.mp found
    rw [Table.content, found, Option.map_some, Revision.stamp_of_mem member, Revision.stamp_of_mem isCurrent.1]
    obtain ⟨updated, objects, update, updating⟩ := @Table.update_of_current _ _ _ _ _ (cluster.objects .configMap)
      object { object with
        content := ({ data := revision.spec.data, binaryData := revision.spec.binaryData } : ConfigMapContent) }
      held rfl rfl
    by_cases nil : revision.labels = .nil
    · have runs : cluster.reconcile .configMap object.ns object.name =
          (cluster.withObjects .configMap objects, .panicked) := by
        simp [Cluster.reconcile_versioned held versioned, synchronize, listRevisions, list, other, copyRevision,
          getRevision, found, restore?, updateObject, update, relabel?, Revision.label?, nil, GoMap.assign?]
      rw [runs]
      simp only [nil, if_true]
      refine ⟨?_, trivial⟩
      rw [Cluster.contents_withObjects, updating.content]
      simp [Effect.write]
      rfl
    · obtain ⟨promoted, withTwo, promote, promoting⟩ := @Table.update_of_current _ _ _ _ _
        (cluster.revisions .configMap) revision
        { revision with labels := revision.labels.put "current" "true" } member rfl rfl
      have stripped : ∃ stripped withOne, withTwo.update (current.unlabel "current") = .ok (stripped, withOne) ∧
          withTwo.Written (current.unlabel "current") stripped withOne := by
        have stays : current ∈ withTwo := by
          by_cases same : key current = key revision
          · -- the revision is the current one, and giving it its label again writes nothing
            obtain rfl := Table.unique isCurrent.1 member same
            have carries : current.labels.lookup "current" = some "true" := (marked_iff.mp isCurrent.2.1).2.2
            have unchanged : { current with labels := current.labels.put "current" "true" } = current := by
              rw [GoMap.put_of_lookup carries]
            rw [unchanged, Table.update_self member, Except.ok.injEq, Prod.mk.injEq] at promote
            exact promote.2 ▸ member
          · exact promoting.mem_of_ne isCurrent.1 same
        exact Table.update_of_current _ stays rfl rfl
      obtain ⟨stripped, withOne, strip, stripping⟩ := stripped
      have runs : cluster.reconcile .configMap object.ns object.name =
          ((cluster.withObjects .configMap objects).withRevisions .configMap withOne, .returned ()) := by
        have assigned := GoMap.assign?_eq_some nil "current" "true"
        simp [Cluster.reconcile_versioned held versioned, synchronize, listRevisions, list, other, copyRevision,
          getRevision, found, restore?, updateObject, update, relabel?, Revision.label?, assigned, updateRevision,
          promote, strip]
      rw [runs]
      simp only [nil, if_false]
      refine ⟨?_, trivial⟩
      rw [Cluster.contents_withRevisions, Cluster.contents_withObjects, updating.content, stripping.content,
        promoting.content]
      rfl

theorem Effect.apply_of_unpainted {effect : Effect} (unpainted : ∀ workload, effect.painted workload = none)
    (version : String) (contents : Contents) : effect.apply ns name version contents = effect.write contents := by
  simp [Effect.apply, unpainted, Contents.paint]

theorem View.unpainted_move (view : View) (current : Revision .configMap) (workload : WorkloadKind) :
    (view.move current).painted workload = none := by
  unfold View.move
  split
  · rfl
  · dsimp only
    split <;> rfl

/-- A ConfigMap and its revision, the versions at which they are stored aside. -/
theorem differs_stamp (held : object ∈ cluster.objects .configMap) (member : current ∈ cluster.revisions .configMap) :
    differs (stamp 0 object) (stamp 0 current) = differs object current := by
  rw [Object.stamp_of_mem held, Revision.stamp_of_mem member]
  rfl

/-- A reconcile does what its view of the contents says. -/
theorem reconcile_performs {view : View} (shows : cluster.contents.Shows ns name view)
    (made : view.object.annotations ≠ .nil) (unused : cluster.Unused .configMap ns name cluster.nextVersion) :
    (cluster.reconcile .configMap ns name).1.contents =
        (view.effect cluster.nextVersion).apply ns name cluster.nextVersion cluster.contents ∧
      (cluster.reconcile .configMap ns name).2 = (view.effect cluster.nextVersion).outcome := by
  obtain ⟨object, held, same, sees⟩ := Table.content_eq_some.mp shows.object
  obtain rfl : object.ns = ns := congrArg Prod.fst same
  obtain rfl : object.name = name := congrArg Prod.snd same
  have itsVersion : view.object.currentVersion = object.currentVersion := by
    rw [← sees, Object.currentVersion_stamp]
  have filled : object.annotations ≠ .nil := by
    intro nil
    rw [← sees, Object.stamp_of_mem held] at made
    exact made nil
  cases marks : view.marks with
  | none =>
    have unmarked := Cluster.unmarked_of_contents (shows.unmarked marks)
    by_cases unversioned : object.currentVersion = ""
    · exact performs_first held unversioned unmarked unused sees.symm marks
    · have stuck : ∀ current,
          ¬ (cluster.revisions .configMap).Sole (marked object.ns object.name "current") current := by
        intro current sole
        simpa [unmarked current sole.1] using sole.2.1
      rw [Cluster.reconcile_stuck held unversioned stuck, View.effect, marks]
      simp only [itsVersion, if_neg unversioned]
      rw [Effect.apply_of_unpainted fun _ => rfl]
      simp [Effect.write]
  | some both =>
    obtain ⟨seenCurrent, seenLatest⟩ := both
    obtain ⟨current, isCurrent, rfl⟩ := Cluster.sole_of_carries (shows.isCurrent _ _ marks)
    obtain ⟨latest, isLatest, rfl⟩ := Cluster.sole_of_carries (shows.isLatest _ _ marks)
    have edited : differs view.object (stamp 0 current) = differs object current := by
      rw [← sees, differs_stamp held isCurrent.1]
    have renewal := fun commit which => @Commit.performs cluster object current latest commit held isCurrent.1
      isLatest.1 which view sees.symm shows.standing
    rw [View.effect, marks]
    simp only [itsVersion, edited, Revision.customVersion_stamp]
    by_cases unversioned : object.currentVersion = ""
    · rw [if_pos unversioned]
      cases edits : differs object current with
      | true =>
        obtain ⟨commit, _, which⟩ := Commit.exists_of_sole held isCurrent isLatest filled unused
        rw [Cluster.reconcile_recommit held unversioned isCurrent edits commit]
        exact renewal commit which
      | false =>
        obtain ⟨contents, ends⟩ := performs_adopt held unversioned isCurrent edits
        rw [contents, ends, ← sees, Object.stamp_of_mem held, Revision.stamp_of_mem isCurrent.1]
        rw [if_neg (by decide), Effect.apply_of_unpainted fun _ => rfl]
        exact ⟨rfl, rfl⟩
    · rw [if_neg unversioned]
      by_cases version : current.customVersion = object.currentVersion
      · rw [if_neg (not_not.mpr version)]
        cases edits : differs object current with
        | true =>
          obtain ⟨commit, _, which⟩ := Commit.exists_of_sole held isCurrent isLatest filled unused
          rw [Cluster.reconcile_commit held unversioned isCurrent version.symm edits commit]
          exact renewal commit which
        | false =>
          rw [Cluster.reconcile_synced held unversioned isCurrent version.symm edits, if_neg (by decide),
            Effect.apply_of_unpainted fun _ => rfl]
          simp [Effect.write]
      · obtain ⟨contents, ends⟩ := performs_move held unversioned isCurrent version sees.symm
          (itsVersion ▸ shows.target)
        rw [if_pos version, contents, ends, Effect.apply_of_unpainted (view.unpainted_move _)]
        exact ⟨rfl, rfl⟩

end Performs

end Configurator
