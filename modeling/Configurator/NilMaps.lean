import Configurator.Calm
import Configurator.Idempotence
import Configurator.Rollback
import Configurator.Sharing

/-! Assignments into maps that were never made. The API server returns an empty map as none,
and the sources look for that in some places and not in others. -/
namespace Configurator

open Resource

variable {kind : Kind} {cluster world : Cluster} {object : Object kind} {workload : WorkloadKind} {α : Type}

section Roll

variable {version : String}

/-- The only workload of a kind that the object lists has a template without annotations. -/
def NilTemplate (cluster : Cluster) (object : Object kind) (workload : WorkloadKind) : Prop :=
  ∃ stored ∈ cluster.workloads workload, object.listed workload = [stored.name] ∧
    stored.ns = object.ns ∧ stored.template.annotations = .nil

/-- The roll-out to the workloads of a kind comes to its end: there is none, or one with annotations. -/
def RollsOut (cluster : Cluster) (object : Object kind) (workload : WorkloadKind) : Prop :=
  object.listed workload = [] ∨
    ∃ stored ∈ cluster.workloads workload, object.listed workload = [stored.name] ∧
      stored.ns = object.ns ∧ stored.template.annotations ≠ .nil

/-- A roll-out reaches a template without annotations. -/
def RollsIntoNil (cluster : Cluster) (object : Object kind) : Prop :=
  NilTemplate cluster object .deployment ∨
    RollsOut cluster object .deployment ∧ NilTemplate cluster object .statefulSet

theorem NilTemplate.run (bare : NilTemplate cluster object workload)
    (method : object.annotations.index "updateMethod" = "ignoreWhenShared") :
    (rollOut workload object version).run Cluster.serve cluster = (cluster, .panicked) := by
  obtain ⟨stored, member, listed, inNs, bare⟩ := bare
  exact run_rollOut_nil method listed member (Prod.ext inNs rfl) bare

theorem calm_rollOut (method : object.annotations.index "updateMethod" = "ignoreWhenShared")
    (made : ¬ NilTemplate cluster object workload) :
    Calm (fun after _ => RollsOut cluster object workload ∧
      ∀ other, other ≠ workload → after.workloads other = cluster.workloads other)
      (rollOut workload object version) cluster := by
  rw [rollOut_listed method]
  cases listed : object.listed workload with
  | nil => exact calm_ret ⟨Or.inl listed, fun _ _ => rfl⟩
  | cons name others =>
    cases others with
    | cons second others => exact calm_fail
    | nil =>
      refine calm_getWorkload fun stored member own => ?_
      obtain ⟨inNs, rfl⟩ := Prod.mk.inj own
      have filled : stored.template.annotations ≠ .nil :=
        fun bare => made ⟨stored, member, listed, inNs, bare⟩
      rw [GoMap.assign?_eq_some filled, Program.orPanic_some, Program.ret_bind]
      refine calm_updateWorkload fun updated workloads => calm_ret ?_
      refine ⟨Or.inr ⟨stored, member, listed, inNs, filled⟩, fun other apart => ?_⟩
      simp [Cluster.withWorkloads, apart]

end Roll

section Creation

variable {current latest : Revision kind} {updated : Object kind}

/-- The new revision is accepted, and then one of three maps is none: the annotations of the
object, or those of a template that a roll-out reaches. -/
def NilCreation (cluster : Cluster) (object : Object kind) : Prop :=
  cluster.Unused kind object.ns object.name cluster.nextVersion ∧
    (object.annotations = .nil ∨ RollsIntoNil cluster object)

/-- What a creation has left alone before its new revision is stored. -/
structure BeforeNew (kind : Kind) (cluster world : Cluster) : Prop where
  workloads : world.workloads = cluster.workloads
  entropy : world.entropy = cluster.entropy
  keeps : (cluster.revisions kind).Keeps (world.revisions kind)

def OwnFirst (name : String) (items : List (Revision kind)) : Prop :=
  ∃ first others, items = first :: others ∧ first.Labelled "name" name

/-- The loop ends with an own revision in hand whose label is to be put back if need be. -/
theorem calm_stripLatest (beforehand : BeforeNew kind cluster world)
    (owned : current.Labelled "name" object.name)
    (isLatest : (world.revisions kind).Sole (marked object.ns object.name "latest") latest) (rounds : Nat)
    (before : List (Revision kind))
    (ready : rounds = 0 → OwnFirst object.name before) :
    Calm (fun after result => ∀ items, result = some items →
      BeforeNew kind cluster after ∧ OwnFirst object.name items)
      (stripLatest object current rounds before) world := by
  have own : latest.Labelled "name" object.name := (marked_iff.mp isLatest.2.1).2.1
  have kept : (latest.unlabel "latest").Labelled "name" object.name := by
    rw [Revision.labelled_unlabel]
    exact ⟨by decide, own⟩
  induction rounds generalizing before with
  | zero =>
    apply calm_ret
    rintro items ⟨⟩
    exact ⟨beforehand, ready rfl⟩
  | succ rounds ih =>
    have restores : ∀ error : ApiError, Calm (fun after result => ∀ items, result = some items →
        BeforeNew kind cluster after ∧ OwnFirst object.name items)
        (if contains error.text retryText then stripLatest object current rounds [latest.unlabel "latest"]
          else do
            let labelled ← Program.orPanic (current.label? "current")
            let _ ← updateRevision labelled
            pure none) world := by
      intro error
      split
      · exact ih _ fun _ => ⟨_, [], rfl, kept⟩
      · rw [Revision.label?_of_labelled owned]
        exact calm_updateRevision fun _ _ _ => calm_ret nofun
    apply calm_listLatest (by simp)
    rw [Table.select_eq_singleton.mpr isLatest]
    refine calm_call (fun error answer failed => ?_) fun after answer served => ?_
    · cases failed
      exact restores error
    · rcases Cluster.updateRevision_cases served with
        ⟨rfl, refusal, _, rfl⟩ | ⟨stored, revisions, updated, rfl, rfl⟩
      · exact restores _
      · have written := (Table.written_of_update updated).2
        apply calm_ret
        rintro items ⟨⟩
        refine ⟨⟨beforehand.workloads, beforehand.entropy, ?_⟩, stored, [], rfl, ?_⟩
        · rw [Cluster.withRevisions_revisions]
          have relabelled := written.relabelled_unlabel isLatest.1 (Or.inr rfl)
          exact beforehand.keeps.trans (written.keeps isLatest.1 relabelled)
        · rw [written.labelled_unlabel]
          exact ⟨by decide, own⟩

theorem calm_revert {latests : List (Revision kind)} {error : ApiError} {ends : Cluster → Unit → Prop}
    (owned : current.Labelled "name" object.name)
    (ready : OwnFirst object.name latests) : Calm ends (revert current latests error) world := by
  obtain ⟨first, others, rfl, own⟩ := ready
  rw [revert, Revision.label?_of_labelled owned]
  refine calm_updateRevision fun _ _ _ => ?_
  rw [Revision.label?_of_labelled own]
  exact calm_updateRevision fun _ _ _ => calm_fail

theorem Renewed.nilTemplate (renewed : Renewed object updated)
    (same : world.workloads workload = cluster.workloads workload) :
    NilTemplate world updated workload ↔ NilTemplate cluster object workload := by
  have inNs : updated.ns = object.ns := congrArg Prod.fst renewed.key_eq
  rw [NilTemplate, NilTemplate, same, renewed.listed, inNs]

theorem Renewed.rollsOut (renewed : Renewed object updated)
    (same : world.workloads workload = cluster.workloads workload) :
    RollsOut world updated workload ↔ RollsOut cluster object workload := by
  have inNs : updated.ns = object.ns := congrArg Prod.fst renewed.key_eq
  rw [RollsOut, RollsOut, same, renewed.listed, inNs]

theorem calm_rollOuts {version : String} (renewed : Renewed object updated)
    (same : world.workloads = cluster.workloads) (made : ¬ RollsIntoNil cluster object) :
    Calm (fun _ _ => True) (rollOuts updated version) world := by
  have deployment : ¬ NilTemplate world updated .deployment := by
    rw [renewed.nilTemplate (congrFun same .deployment)]
    exact fun bare => made (Or.inl bare)
  refine (calm_rollOut renewed.method deployment).bind fun _ after first => ?_
  have statefulSet : ¬ NilTemplate after updated .statefulSet := by
    rw [renewed.nilTemplate ((first.2 .statefulSet (by decide)).trans (congrFun same .statefulSet))]
    rw [renewed.rollsOut (congrFun same .deployment)] at first
    exact fun bare => made (Or.inr ⟨first.1, bare⟩)
  exact (calm_rollOut renewed.method statefulSet).mono fun _ _ _ => trivial

theorem calm_createNew
    (isCurrent : (cluster.revisions kind).Sole (marked object.ns object.name "current") current)
    (isLatest : (cluster.revisions kind).Sole (marked object.ns object.name "latest") latest)
    (made : ¬ NilCreation cluster object) : Calm (fun _ _ => True) (createNew object current) cluster := by
  have own : current.Labelled "name" object.name := (marked_iff.mp isCurrent.2.1).2.1
  refine calm_updateRevision fun stripped noCurrent stripping => ?_
  have owned : stripped.Labelled "name" object.name := by
    rw [stripping.labelled_unlabel]
    exact ⟨by decide, own⟩
  obtain ⟨still, isStill, _⟩ := isLatest.unlabel_other stripping isCurrent.1 (Or.inl rfl) (by decide)
  have beforehand : BeforeNew kind cluster (cluster.withRevisions kind noCurrent) :=
    ⟨rfl, rfl, by
      simpa using stripping.keeps isCurrent.1 (stripping.relabelled_unlabel isCurrent.1 (Or.inl rfl))⟩
  have strips := calm_stripLatest beforehand owned (by simpa using isStill) 6 [] nofun
  refine strips.bind fun result after stripped => ?_
  cases result with
  | none => exact calm_ret trivial
  | some items =>
    obtain ⟨beforehand, ready⟩ := stripped items rfl
    refine calm_call (fun error answer failed => nomatch failed) fun seeded draws served => ?_
    obtain ⟨rfl, rfl⟩ := Prod.mk.inj served
    refine calm_call (fun error answer failed => ?_) fun created answer served => ?_
    · cases failed
      exact calm_revert owned ready
    rcases Cluster.createRevision_cases served with
      ⟨rfl, _, _, rfl⟩ | ⟨revision, withNew, create, rfl, rfl⟩
    · exact calm_revert owned ready
    have version : randomSequence (after.entropy 0) 5 = cluster.nextVersion := by
      rw [beforehand.entropy]
      rfl
    have free := Table.free_of_create create
    rw [version] at free ⊢
    have unused : cluster.Unused kind object.ns object.name cluster.nextVersion := by
      intro entry member
      obtain ⟨kept, present, relabelled⟩ := beforehand.keeps entry member
      exact relabelled.key_eq ▸ free kept present
    have filled : object.annotations ≠ .nil := fun bare => made ⟨unused, Or.inl bare⟩
    change Calm _ (publish object revision cluster.nextVersion) _
    rw [publish, Object.annotate?_of_ne_nil filled]
    refine calm_updateObject fun updated objects updating => ?_
    exact calm_rollOuts (.of_written updating) beforehand.workloads fun rolls => made ⟨unused, Or.inr rolls⟩

theorem run_rollOut_made {version : String}
    (method : object.annotations.index "updateMethod" = "ignoreWhenShared")
    (rolls : RollsOut cluster object workload) :
    ∃ after, (rollOut workload object version).run Cluster.serve cluster = (after, .returned ()) ∧
      ∀ other, other ≠ workload → after.workloads other = cluster.workloads other := by
  rcases rolls with none | ⟨stored, member, listed, inNs, made⟩
  · rw [rollOut_of_unlisted none]
    exact ⟨cluster, rfl, fun _ _ => rfl⟩
  · obtain ⟨filled, sole⟩ := Object.listed_eq_singleton.mp listed
    obtain ⟨_, workloads, ran, _⟩ := run_rollOut version filled method sole member (Prod.ext inNs rfl) made
    refine ⟨cluster.withWorkloads workload workloads, ran, fun other apart => ?_⟩
    simp [Cluster.withWorkloads, apart]

theorem panics_rollOuts {version : String} (renewed : Renewed object updated)
    (same : world.workloads = cluster.workloads) (rolls : RollsIntoNil cluster object) :
    ((rollOuts updated version).run Cluster.serve world).2 = .panicked := by
  rw [rollOuts, Program.run_bind]
  rcases rolls with bare | ⟨first, bare⟩
  · rw [((renewed.nilTemplate (congrFun same .deployment)).mpr bare).run renewed.method]
  · obtain ⟨after, ran, others⟩ :=
      @run_rollOut_made _ _ _ _ version renewed.method
        ((renewed.rollsOut (congrFun same .deployment)).mpr first)
    have statefulSet := (others .statefulSet (by decide)).trans (congrFun same .statefulSet)
    rw [ran]
    exact congrArg Prod.snd (((renewed.nilTemplate statefulSet).mpr bare).run renewed.method)

/-- A creation that meets such a map panics, by then without the old labels, and with the new revision. -/
theorem panics_createNew (held : object ∈ cluster.objects kind)
    (isCurrent : (cluster.revisions kind).Sole (marked object.ns object.name "current") current)
    (meets : NilCreation cluster object) :
    ((createNew object current).run Cluster.serve cluster).2 = .panicked := by
  obtain ⟨unused, reached⟩ := meets
  rcases createNew_ran held isCurrent unused with ⟨_, _, _, _, ran⟩ |
    ⟨created, noLatest, withNew, _, _, _, _, ⟨_, ran⟩ | ⟨made, updated, objects, updating, ran⟩⟩
  · exact congrArg Prod.snd ran
  · exact congrArg Prod.snd ran
  · rw [ran]
    rcases reached with bare | rolls
    · exact absurd bare made
    · exact panics_rollOuts (.of_written updating) rfl rolls

end Creation

section Whole

variable {current latest : Revision kind}

/-- The revision that the object names is copied back into a map that is none: a Secret takes
its annotations from the revision, and the label is put on the revision's own. -/
def NilCopy (cluster : Cluster) (object : Object kind) : Prop :=
  ∃ target ∈ cluster.revisions kind,
    key target = (object.ns, object.name ++ "-" ++ object.currentVersion) ∧
      (¬ Restorable target ∨ target.labels = .nil)

/-- The branch of `Reconcile` that the object takes meets a map that is none. -/
def NilWrite (cluster : Cluster) (object : Object kind) (current : Revision kind) : Prop :=
  if object.currentVersion = "" ∨ object.currentVersion = current.customVersion then
    differs object current = true ∧ NilCreation cluster object
  else NilCopy cluster object

theorem relabel?_of_ne_nil {target : Revision kind} (made : target.labels ≠ .nil) :
    relabel? target = some { target with
      labels := target.labels.put "current" "true", spec := target.spec.untracked } := by
  rw [relabel?, Revision.label?, GoMap.assign?_eq_some made]
  rfl

theorem calm_copyRevision (made : ¬ NilCopy cluster object) :
    Calm (fun _ _ => True) (copyRevision object) cluster := by
  refine calm_getRevision fun target member named => ?_
  have restorable : Restorable target := by
    by_contra unrestorable
    exact made ⟨target, member, named, Or.inl unrestorable⟩
  obtain ⟨restored, restore⟩ := exists_restored object restorable
  rw [restore]
  refine calm_updateObject fun _ _ _ => ?_
  rw [relabel?_of_ne_nil fun bare => made ⟨target, member, named, Or.inr bare⟩]
  exact calm_updateRevision fun _ _ _ => calm_ret trivial

theorem panics_copyRevision (held : object ∈ cluster.objects kind) (meets : NilCopy cluster object) :
    ((copyRevision object).run Cluster.serve cluster).2 = .panicked := by
  obtain ⟨target, member, named, bare⟩ := meets
  have found := Table.find?_eq_some.mpr ⟨member, named⟩
  by_cases restorable : Restorable target
  · have unlabelled : target.labels = .nil := by
      rcases bare with unrestorable | none
      · exact absurd restorable unrestorable
      · exact none
    obtain ⟨restored, restore⟩ := exists_restored object restorable
    have kept := restored_of_restore? restore
    obtain ⟨updated, objects, accepted, _⟩ :=
      Table.update_of_current restored held kept.key.symm kept.version.symm
    simp [copyRevision, getRevision, updateObject, found, restore, accepted, relabel?, Revision.label?,
      unlabelled, GoMap.assign?]
  · simp [copyRevision, getRevision, found, restore?_eq_none.mpr restorable]

theorem run_reconcile (held : object ∈ cluster.objects kind)
    (isCurrent : (cluster.revisions kind).Sole (marked object.ns object.name "current") current)
    (meets : NilWrite cluster object current) :
    (cluster.reconcile kind object.ns object.name).2 = .panicked := by
  have list := Table.select_eq_singleton.mpr isCurrent
  unfold NilWrite at meets
  split at meets
  · rename_i commits
    obtain ⟨edited, creation⟩ := meets
    have panics := panics_createNew held isCurrent creation
    by_cases unversioned : object.currentVersion = ""
    · rw [Cluster.reconcile_unversioned held unversioned]
      simpa [adoptOrCreate, listRevisions, list, edited] using panics
    · have same := commits.resolve_left unversioned
      rw [Cluster.reconcile_versioned held unversioned]
      simpa [synchronize, listRevisions, list, ← same, edited] using panics
  · rename_i moves
    obtain ⟨versioned, other⟩ := not_or.mp moves
    have ran : (synchronize object).run Cluster.serve cluster =
        (copyRevision object >>= fun _ => updateRevision (current.unlabel "current") >>= fun _ => pure ()).run
          Cluster.serve cluster := by
      simp [synchronize, listRevisions, list, Ne.symm other]
    rw [Cluster.reconcile_versioned held versioned, ran]
    exact Program.run_bind_panicked _ (panics_copyRevision held meets)

theorem calm_reconcile
    (isCurrent : (cluster.revisions kind).Sole (marked object.ns object.name "current") current)
    (isLatest : (cluster.revisions kind).Sole (marked object.ns object.name "latest") latest)
    (held : object ∈ cluster.objects kind) (made : ¬ NilWrite cluster object current) :
    Calm (fun _ _ => True) (reconcile kind object.ns object.name) cluster := by
  have list := Table.select_eq_singleton.mpr isCurrent
  have creates : object.currentVersion = "" ∨ object.currentVersion = current.customVersion →
      differs object current = true → Calm (fun _ _ => True) (createNew object current) cluster := by
    intro commits edited
    refine calm_createNew isCurrent isLatest fun creation => made ?_
    rw [NilWrite, if_pos commits]
    exact ⟨edited, creation⟩
  refine calm_call (fun error answer failed => ?_) fun after answer served => ?_
  · cases failed
    exact calm_ret trivial
  rw [Cluster.serve_getObject, Cluster.find_object held] at served
  obtain ⟨rfl, rfl⟩ := Prod.mk.inj served
  change Calm _ (if object.currentVersion = "" then adoptOrCreate object else synchronize object) cluster
  split
  · rename_i unversioned
    apply calm_listRevisions
    rw [list]
    change Calm _ (if differs object current = true then createNew object current else _) cluster
    split
    · exact creates (Or.inl unversioned) ‹_›
    · exact calm_updateObject fun _ _ _ => calm_ret trivial
  · rename_i versioned
    apply calm_listRevisions
    rw [list]
    change Calm _ (if current.customVersion ≠ object.currentVersion then _ else
      if differs object current = true then createNew object current else _) cluster
    by_cases same : object.currentVersion = current.customVersion
    · rw [if_neg (not_not_intro same.symm)]
      split
      · exact creates (Or.inr same) ‹_›
      · exact calm_ret trivial
    · rw [if_pos (Ne.symm same)]
      have copies : ¬ NilCopy cluster object := by
        rw [NilWrite, if_neg (not_or.mpr ⟨versioned, same⟩)] at made
        exact made
      refine (calm_copyRevision copies).bind fun _ _ _ => ?_
      exact calm_updateRevision fun _ _ _ => calm_ret trivial

end Whole

/-! The body of `ConfigValidation`, with its copies left open. -/

section Validation

variable (copy : (kind : Kind) → Object kind → Client Unit) (pod : Pod)

/-- `matchVersion`, with another copy. -/
def matchVersionWith (name : String) (object : Object kind) : Client Unit := do
  let pinned := pod.annotations.index (kind.tag ++ name)
  if pinned = object.currentVersion then pure ()
  else
    let annotations ← Program.orPanic (object.annotations.assign? kind.versionKey pinned)
    copy kind { object with annotations := annotations }

def checkReferenceWith (name : String) (object : Object kind) : Client (Option String) := do
  match ← (matchVersionWith copy pod name object).attempt with
  | .ok () => pure none
  | .error error => pure (if pod.tolerated then none else some error.text)

def validateReferenceWith (kind : Kind) (name : String) : Client (Option String) := do
  match ← ask (.getObject kind pod.ns name) with
  | .ok object => checkReferenceWith copy pod name object
  | .error error =>
    if pod.tolerated then checkReferenceWith copy pod name (Object.empty kind)
    else pure (some error.text)

def validateReferencesWith : List (Kind × String) → Client AdmissionResponse
  | [] => pure (.allowed [])
  | (kind, name) :: rest => do
    match ← validateReferenceWith copy pod kind name with
    | some message => pure (.refused message)
    | none => validateReferencesWith rest

def configValidationWith : Client AdmissionResponse :=
  if pod.annotations.index "config-sync-controller" = "configurator" then
    validateReferencesWith copy pod pod.spec.references
  else pure (.allowed [])

/-- With the copies of the webhook it is `configValidation`. -/
theorem configValidationWith_copyRevision :
    configValidationWith (fun _ => PodWebhook.copyRevision) pod = configValidation pod := by
  have same : ∀ references, validateReferencesWith (fun _ => PodWebhook.copyRevision) pod references =
      validateReferences pod references := by
    intro references
    induction references with
    | nil => rfl
    | cons reference rest ih =>
      rw [validateReferencesWith, validateReferences, ih]
      rfl
  rw [configValidationWith, configValidation, same]

end Validation

/-- Every object was stored before, and if it has no annotations it had none. -/
def Cluster.Within (cluster after : Cluster) : Prop :=
  ∀ (kind : Kind), ∀ object ∈ after.objects kind, ∃ before ∈ cluster.objects kind,
    key before = key object ∧ (object.annotations = .nil → before.annotations = .nil)

theorem Cluster.Within.refl (cluster : Cluster) : cluster.Within cluster :=
  fun _ object member => ⟨object, member, rfl, id⟩

theorem Cluster.Within.trans {first second third : Cluster} (earlier : first.Within second)
    (later : second.Within third) : first.Within third := by
  intro kind object member
  obtain ⟨middle, present, same, bare⟩ := later kind object member
  obtain ⟨before, was, equal, bare'⟩ := earlier kind middle present
  exact ⟨before, was, equal.trans same, bare' ∘ bare⟩

/-- The copies end without a panic, and they leave no object without annotations that had some. -/
def SoundCopy (copy : (kind : Kind) → Object kind → Client Unit) : Prop :=
  ∀ (kind : Kind) (object : Object kind) (cluster : Cluster), object.annotations.isEmpty = false →
    (copy kind object).Safe failingRules
      (fun after outcome => outcome ≠ .panicked ∧ cluster.Within after) cluster

section Copies

/-- The call leaves no object without annotations. -/
def Call.Annotates : Call → Prop
  | .updateObject _ sent => sent.annotations.isEmpty = false
  | _ => True

theorem Call.Annotates.within {request : Call} {after : Cluster} {answer : Answer request}
    (annotates : request.Annotates) (reacts : cluster.Reacts request after answer) : cluster.Within after := by
  rcases reacts with served | ⟨rfl, _⟩
  · by_cases updates : ∃ kind sent, request = .updateObject kind sent
    · obtain ⟨kind, sent, rfl⟩ := updates
      rcases Cluster.updateObject_cases served with ⟨rfl, _⟩ | ⟨stored, objects, accepted, rfl, _⟩
      · exact .refl _
      · obtain ⟨⟨old, was, same⟩, written⟩ := Table.written_of_update accepted
        intro other object member
        by_cases equal : other = kind
        · subst equal
          rw [Cluster.withObjects_objects] at member
          rcases (written.members object).mp member with rfl | ⟨present, _⟩
          · refine ⟨old, was, same.1.trans written.key_eq.symm, fun bare => ?_⟩
            rw [written.answered] at bare
            exact absurd bare (GoMap.omitEmpty_ne_nil.mpr annotates)
          · exact ⟨object, present, rfl, id⟩
        · have still : (cluster.withObjects kind objects).objects other = cluster.objects other :=
            Function.update_of_ne equal _ _
          exact ⟨object, still ▸ member, rfl, id⟩
    · have objects : (cluster.serve request).1.objects = cluster.objects :=
        Cluster.serve_objects request fun kind sent same => updates ⟨kind, sent, same⟩
      rw [served] at objects
      intro kind object member
      exact ⟨object, objects ▸ member, rfl, id⟩
  · exact .refl _

theorem PodWebhook.restored_annotates {sent restored : Object kind} {revision : Revision kind}
    (copied : PodWebhook.restore? sent revision = some restored) : restored.annotations.isEmpty = false := by
  have named : ∃ name, restored.annotations.lookup "customConfigMap-name" = some name := by
    cases kind with
    | configMap =>
      by_cases bare : sent.annotations = .nil
      · simp [PodWebhook.restore?, bare, GoMap.assign?] at copied
      · rw [PodWebhook.restore?_configMap bare, Option.some.injEq] at copied
        subst copied
        exact ⟨revision.name, by simp⟩
    | secret =>
      by_cases bare : revision.spec.secretAnnotations = .nil
      · simp [PodWebhook.restore?_secret_nil bare] at copied
      · rw [PodWebhook.restore?_secret bare, Option.some.injEq] at copied
        subst copied
        exact ⟨revision.name, by simp [PodWebhook.secretAnnotations]⟩
  rw [← Bool.not_eq_true, GoMap.isEmpty_iff]
  intro empty
  obtain ⟨name, named⟩ := named
  rw [empty] at named
  cases named

/-- The webhook's own copies, with an error in place of their panics. -/
def ownCopy (raised : ApiError) (kind : Kind) (object : Object kind) : Client Unit :=
  (PodWebhook.copyRevision object).caught raised

theorem soundCopy_ownCopy (raised : ApiError) : SoundCopy (ownCopy raised) := by
  intro kind object cluster _
  have emits : (PodWebhook.copyRevision object).Emits Call.Annotates := by
    refine emits_podCopy (fun call relabels => ?_) fun _ _ => PodWebhook.restored_annotates
    cases call <;> first | exact relabels.elim | trivial
  have copies : (PodWebhook.copyRevision object).Safe failingRules
      (fun after _ => cluster.Within after) cluster := by
    refine .of_emits emits ?_ (Cluster.Within.refl cluster) ?_ fun _ _ => id
    · rintro _ _ rfl within
      exact within
    · exact fun _ _ _ _ annotates within reacts => ⟨trivial, within.trans (annotates.within reacts.1)⟩
  exact copies.caught

end Copies

section Pins

variable {copy : (kind : Kind) → Object kind → Client Unit} {pod : Pod} {name : String}

/-- The version that a pod pins of an object. -/
def Pod.pinned (pod : Pod) (reference : Kind × String) : String :=
  pod.annotations.index (reference.1.tag ++ reference.2)

/-- The object that a pod refers to is stored, and meets a condition. -/
def Pod.Refers (pod : Pod) (cluster : Cluster) (reference : Kind × String)
    (condition : GoMap String → Prop) : Prop :=
  ∃ object ∈ cluster.objects reference.1,
    key object = (pod.ns, reference.2) ∧ condition object.annotations

/-- `ConfigValidation` writes the version that the pod pins into annotations that are none. The
pods of the webhook itself go on with an empty object where they cannot read one; the others
stop there. -/
def PinsNil (cluster : Cluster) (pod : Pod) : Prop :=
  pod.annotations.index "config-sync-controller" = "configurator" ∧
    if pod.tolerated then ∃ reference ∈ pod.spec.references, pod.pinned reference ≠ ""
    else ∃ before reference after, pod.spec.references = before ++ reference :: after ∧
      (∀ earlier ∈ before, pod.Refers cluster earlier fun _ => True) ∧
      pod.Refers cluster reference (· = .nil) ∧ pod.pinned reference ≠ ""

theorem calm_checkReference (sound : SoundCopy copy)
    (made : object.annotations = .nil → pod.pinned (kind, name) = "") :
    Calm (fun after _ => cluster.Within after) (checkReferenceWith copy pod name object) cluster := by
  have matching : (matchVersionWith copy pod name object).Safe failingRules
      (fun after outcome => outcome ≠ .panicked ∧ cluster.Within after) cluster := by
    unfold matchVersionWith
    dsimp only
    split
    · rintro _ rfl
      exact ⟨nofun, .refl _⟩
    · rename_i other
      have filled : object.annotations ≠ .nil := by
        intro bare
        apply other
        rw [Object.currentVersion, bare]
        exact made bare
      rw [GoMap.assign?_eq_some filled]
      refine sound kind _ cluster ?_
      rw [← Bool.not_eq_true, GoMap.isEmpty_iff]
      intro empty
      simpa using empty kind.versionKey
  have attempted : Calm (fun after _ => cluster.Within after)
      (matchVersionWith copy pod name object).attempt cluster :=
    matching.attempt_calm.mono fun after outcome post => ⟨post.1, fun _ _ => post.2⟩
  refine attempted.bind fun answer after within => ?_
  cases answer <;> exact calm_ret within

/-- The references of an ordinary pod, one after the other. -/
theorem calm_validateReferences (sound : SoundCopy copy) (strict : pod.tolerated = false)
    {references : List (Kind × String)} (within : cluster.Within world)
    (made : ∀ before reference after, references = before ++ reference :: after →
      (∀ earlier ∈ before, pod.Refers cluster earlier fun _ => True) →
        pod.Refers cluster reference (· = .nil) → pod.pinned reference = "") :
    Calm (fun _ _ => True) (validateReferencesWith copy pod references) world := by
  induction references generalizing world with
  | nil => exact calm_ret trivial
  | cons reference rest ih =>
    obtain ⟨kind, name⟩ := reference
    have first : Calm (fun after message => world.Within after ∧ (message = none →
        pod.Refers cluster (kind, name) fun _ => True)) (validateReferenceWith copy pod kind name) world := by
      have refused : ∀ error : ApiError, Calm (fun after message => world.Within after ∧ (message = none →
          pod.Refers cluster (kind, name) fun _ => True))
          (if pod.tolerated then checkReferenceWith copy pod name (Object.empty kind)
            else pure (some error.text)) world := by
        intro error
        rw [if_neg (by simp [strict])]
        exact calm_ret ⟨.refl _, nofun⟩
      refine calm_call (fun error answer failed => ?_) fun after answer served => ?_
      · cases failed
        exact refused error
      · rcases Cluster.getObject_cases served with ⟨rfl, ⟨error, rfl⟩ | ⟨object, member, own, rfl⟩⟩
        · exact refused error
        · obtain ⟨before, was, same, bare⟩ := within kind object member
          have refers : pod.Refers cluster (kind, name) fun _ => True :=
            ⟨before, was, same.trans own, trivial⟩
          refine (calm_checkReference sound fun none => ?_).mono fun _ _ inside => ⟨inside, fun _ => refers⟩
          exact made [] (kind, name) rest rfl nofun ⟨before, was, same.trans own, bare none⟩
    refine first.bind fun message after checked => ?_
    cases message with
    | some message => exact calm_ret trivial
    | none =>
      refine ih (within.trans checked.1) fun before reference others split earlier => ?_
      refine made ((kind, name) :: before) reference others (by rw [split]; rfl) ?_
      rw [List.forall_mem_cons]
      exact ⟨checked.2 rfl, earlier⟩

/-- The references of a pod of the webhook, none of which it pins. -/
theorem calm_validateTolerated (sound : SoundCopy copy) (tolerated : pod.tolerated = true)
    {references : List (Kind × String)} (unpinned : ∀ reference ∈ references, pod.pinned reference = "") :
    Calm (fun _ _ => True) (validateReferencesWith copy pod references) cluster := by
  induction references generalizing cluster with
  | nil => exact calm_ret trivial
  | cons reference rest ih =>
    obtain ⟨kind, name⟩ := reference
    rw [List.forall_mem_cons] at unpinned
    have checks : ∀ (object : Object kind),
        Calm (fun _ _ => True) (checkReferenceWith copy pod name object) cluster := fun object =>
      (calm_checkReference sound fun _ => unpinned.1).mono fun _ _ _ => trivial
    have first : Calm (fun _ _ => True) (validateReferenceWith copy pod kind name) cluster := by
      have goesOn : ∀ error : ApiError, Calm (fun _ _ => True)
          (if pod.tolerated then checkReferenceWith copy pod name (Object.empty kind)
            else pure (some error.text)) cluster := by
        intro error
        rw [if_pos tolerated]
        exact checks _
      refine calm_call (fun error answer failed => ?_) fun after answer served => ?_
      · cases failed
        exact goesOn error
      · rcases Cluster.getObject_cases served with ⟨rfl, ⟨error, rfl⟩ | ⟨object, _, _, rfl⟩⟩
        · exact goesOn error
        · exact checks object
    refine first.bind fun message after _ => ?_
    cases message with
    | some message => exact calm_ret trivial
    | none => exact ih unpinned.2

def noCopy : (kind : Kind) → Object kind → Client Unit := fun _ _ => Program.ret ()

theorem soundCopy_noCopy : SoundCopy noCopy := by
  rintro kind object cluster _ _ rfl
  exact ⟨nofun, .refl _⟩

theorem Object.annotations_empty (kind : Kind) : (Object.empty kind).annotations = .nil := by
  cases kind <;> rfl

theorem checkReference_nil (bare : object.annotations = .nil) (pins : pod.pinned (kind, name) ≠ "") :
    checkReferenceWith copy pod name object = .panic := by
  have other : pod.annotations.index (kind.tag ++ name) ≠ object.currentVersion := by
    rw [Object.currentVersion, bare]
    exact pins
  rw [checkReferenceWith, matchVersionWith, if_neg other, bare]
  rfl

theorem checkReferenceWith_same (same : pod.pinned (kind, name) = object.currentVersion) :
    checkReferenceWith copy pod name object = .ret none := by
  rw [checkReferenceWith, matchVersionWith, if_pos (show pod.annotations.index (kind.tag ++ name) = _ from same)]
  rfl

theorem checkReference_made (made : object.annotations = .nil → pod.pinned (kind, name) = "") :
    checkReferenceWith noCopy pod name object = .ret none := by
  by_cases same : pod.annotations.index (kind.tag ++ name) = object.currentVersion
  · exact checkReferenceWith_same same
  · have filled : object.annotations ≠ .nil := by
      intro bare
      apply same
      rw [Object.currentVersion, bare]
      exact made bare
    rw [checkReferenceWith, matchVersionWith, if_neg same, GoMap.assign?_eq_some filled]
    rfl

/-- An ordinary pod goes on to the reference whose object has no annotations. -/
theorem run_validateReferences {before after : List (Kind × String)} {reference : Kind × String}
    (earlier : ∀ earlier ∈ before, pod.Refers cluster earlier fun _ => True)
    (bare : pod.Refers cluster reference (· = .nil)) (pins : pod.pinned reference ≠ "") :
    ((validateReferencesWith noCopy pod (before ++ reference :: after)).run Cluster.serve cluster).2 =
      .panicked := by
  induction before with
  | nil =>
    obtain ⟨kind, name⟩ := reference
    obtain ⟨object, member, own, bare⟩ := bare
    have found := Table.find?_eq_some.mpr ⟨member, own⟩
    simp [validateReferencesWith, validateReferenceWith, found, checkReference_nil bare pins]
  | cons first rest ih =>
    rw [List.forall_mem_cons] at earlier
    obtain ⟨kind, name⟩ := first
    obtain ⟨object, member, own, _⟩ := earlier.1
    have found := Table.find?_eq_some.mpr ⟨member, own⟩
    by_cases stops : object.annotations = .nil ∧ pod.pinned (kind, name) ≠ ""
    · simp [validateReferencesWith, validateReferenceWith, found, checkReference_nil stops.1 stops.2]
    · have made : object.annotations = .nil → pod.pinned (kind, name) = "" := by
        intro none
        by_contra pins
        exact stops ⟨none, pins⟩
      simpa [validateReferencesWith, validateReferenceWith, found, checkReference_made made] using ih earlier.2

/-- A pod of the webhook cannot read its objects, and goes on to the first one that it pins. -/
theorem panics_validateReferences (tolerated : pod.tolerated = true) {references : List (Kind × String)}
    (pins : ∃ reference ∈ references, pod.pinned reference ≠ "") :
    Panics (validateReferencesWith copy pod references) cluster := by
  induction references with
  | nil =>
    obtain ⟨_, listed, _⟩ := pins
    cases listed
  | cons reference rest ih =>
    obtain ⟨kind, name⟩ := reference
    have fails : failingRules.react cluster (.getObject kind pod.ns name) cluster (.error (.other "")) :=
      ⟨Or.inr ⟨rfl, .other "", rfl⟩, fun latest => absurd nofun latest⟩
    by_cases pinned : pod.pinned (kind, name) = ""
    · obtain ⟨reference, listed, pins⟩ := pins
      have others : reference ∈ rest := by
        refine (List.mem_cons.mp listed).resolve_left ?_
        rintro rfl
        exact pins pinned
      obtain ⟨after, ends⟩ := ih ⟨reference, others, pins⟩
      refine ⟨after, .call fails ?_⟩
      change ((if pod.tolerated then checkReferenceWith copy pod name (Object.empty kind) else _) >>= _ :
        Client AdmissionResponse).Ends _ _ _ _
      have same : pod.pinned (kind, name) = (Object.empty kind).currentVersion := by
        rw [pinned, Object.currentVersion, Object.annotations_empty]
        rfl
      rw [if_pos tolerated, checkReferenceWith_same same]
      exact ends
    · refine ⟨cluster, .call fails ?_⟩
      change ((if pod.tolerated then checkReferenceWith copy pod name (Object.empty kind) else _) >>= _ :
        Client AdmissionResponse).Ends _ _ _ _
      rw [if_pos tolerated, checkReference_nil (Object.annotations_empty kind) pinned]
      exact .panic

theorem configValidation_calm_iff (cluster : Cluster) (pod : Pod) :
    (∀ copy, SoundCopy copy → ¬ Panics (configValidationWith copy pod) cluster) ↔
      ¬ PinsNil cluster pod := by
  unfold PinsNil configValidationWith
  by_cases controlled : pod.annotations.index "config-sync-controller" = "configurator"
  · simp only [controlled, if_true, true_and]
    cases tolerated : pod.tolerated with
    | true =>
      rw [if_pos rfl]
      constructor
      · intro calm pins
        exact calm noCopy soundCopy_noCopy (panics_validateReferences tolerated pins)
      · intro unpinned copy sound
        refine (calm_validateTolerated sound tolerated fun reference listed => ?_).not_panics
        by_contra pins
        exact unpinned ⟨reference, listed, pins⟩
    | false =>
      rw [if_neg (by decide)]
      constructor
      · rintro calm ⟨before, reference, after, split, earlier, bare, pins⟩
        refine calm noCopy soundCopy_noCopy (panics_of_run ?_)
        rw [split]
        exact run_validateReferences earlier bare pins
      · intro made copy sound
        refine (calm_validateReferences sound tolerated (.refl cluster) ?_).not_panics
        intro before reference after split earlier bare
        by_contra pins
        exact made ⟨before, reference, after, split, earlier, bare, pins⟩
  · simp only [controlled, if_false, false_and, not_false_eq_true, iff_true]
    intro copy sound
    exact (calm_ret trivial : Calm (fun _ _ => True) _ cluster).not_panics

end Pins

/-! The body of `ConfigValidation` with the webhook's own copies, their panics apart. -/

section Own

variable {pod : Pod} {name : String} {raised : ApiError}

/-- A call that fails ends the program. -/
def Heedful : Client α → Prop
  | .call request next => (∀ answer, Heedful (next answer)) ∧
      ∀ error answer, request.failure error = some answer →
        (∃ error, next answer = .fail error) ∨ next answer = .panic
  | _ => True

theorem Heedful.bind {β : Type} {program : Client α} {next : α → Client β} (heedful : Heedful program)
    (continues : ∀ value, Heedful (next value)) : Heedful (program >>= next) := by
  induction program with
  | ret value => exact continues value
  | fail | panic => trivial
  | call request rest ih =>
    refine ⟨fun answer => ih answer (heedful.1 answer), fun error answer failed => ?_⟩
    rcases heedful.2 error answer failed with ⟨error, ends⟩ | ends
    · exact Or.inl ⟨error, congrArg (Program.bind · next) ends⟩
    · exact Or.inr (congrArg (Program.bind · next) ends)

/-- Where such a program returns although calls may fail, it does so on a server that serves all of them. -/
theorem Heedful.calm_attempt {program : Client α} (heedful : Heedful program) :
    Calm (fun after answer => ∀ value, answer = .ok value →
      program.run Cluster.serve cluster = (after, .returned value)) (program.caught raised).attempt cluster := by
  induction program generalizing cluster with
  | ret value =>
    apply calm_ret
    rintro _ ⟨⟩
    rfl
  | fail error => exact calm_ret nofun
  | panic => exact calm_ret nofun
  | call request next ih =>
    refine calm_call (fun error answer failed => ?_) fun after answer served => ?_
    · show Calm _ ((next answer).caught raised).attempt cluster
      rcases heedful.2 error answer failed with ⟨error, ends⟩ | ends
      · rw [ends]
        exact calm_ret nofun
      · rw [ends]
        exact calm_ret nofun
    · rw [Program.run_call, served]
      exact ih answer (heedful.1 answer)

theorem heedful_orPanic (entry : Option α) : Heedful (Program.orPanic entry : Client α) := by
  cases entry <;> trivial

theorem heedful_raise {β : Type} (request : Call) (read : Answer request → Except ApiError β)
    (failed : ∀ error answer, request.failure error = some answer → read answer = .error error) :
    Heedful (Program.call request fun answer => Program.ofExcept (read answer)) := by
  refine ⟨fun answer => ?_, fun error answer fails => Or.inl ⟨error, ?_⟩⟩
  · show Heedful (Program.ofExcept (read answer))
    cases read answer <;> trivial
  · show Program.ofExcept (read answer) = _
    rw [failed error answer fails]
    rfl

/-- The copies of the webhook return only where all their calls are served. -/
theorem heedful_copyRevision (object : Object kind) : Heedful (PodWebhook.copyRevision object) := by
  have gets : ∀ ns name, Heedful (getRevision kind ns name) := fun ns name =>
    heedful_raise (.getRevision kind ns name) id fun _ _ failed => (Option.some.inj failed).symm
  have writes : ∀ sent : Object kind, Heedful (updateObject sent) := fun sent =>
    heedful_raise (.updateObject kind sent) id fun _ _ failed => (Option.some.inj failed).symm
  have labels : ∀ sent : Revision kind, Heedful (updateRevision sent) := fun sent =>
    heedful_raise (.updateRevision kind sent) id fun _ _ failed => (Option.some.inj failed).symm
  refine (gets _ _).bind fun revision => (heedful_orPanic _).bind fun restored =>
    (writes restored).bind fun _ => ⟨fun answer => ?_, fun error answer failed => Or.inr ?_⟩
  · rcases answer with error | _ | ⟨current, others⟩
    · trivial
    · trivial
    · exact (labels _).bind fun _ => (heedful_orPanic _).bind fun labelled => (labels labelled).bind fun _ => trivial
  · cases failed
    rfl

/-- The pod comes to an object without annotations of which it pins a version: those before it
are in the version that it pins, or can be rolled back to it. -/
def ReachesNil (pod : Pod) : Cluster → List (Kind × String) → Prop
  | _, [] => False
  | cluster, (kind, name) :: rest => ∃ object ∈ cluster.objects kind, key object = (pod.ns, name) ∧
      if pod.pinned (kind, name) = object.currentVersion then ReachesNil pod cluster rest
      else object.annotations = .nil ∨ ∃ after,
        (PodWebhook.copyRevision (object.naming (pod.pinned (kind, name)))).run Cluster.serve cluster =
          (after, .returned ()) ∧ ReachesNil pod after rest

theorem matchVersionWith_made {copy : (kind : Kind) → Object kind → Client Unit}
    (other : pod.pinned (kind, name) ≠ object.currentVersion) (made : object.annotations ≠ .nil) :
    matchVersionWith copy pod name object = copy kind (object.naming (pod.pinned (kind, name))) := by
  rw [matchVersionWith, if_neg (show ¬ pod.annotations.index (kind.tag ++ name) = _ from other),
    GoMap.assign?_eq_some made]
  rfl

theorem calm_validateOwn (strict : pod.tolerated = false) {references : List (Kind × String)}
    (made : ¬ ReachesNil pod world references) :
    Calm (fun _ _ => True) (validateReferencesWith (ownCopy raised) pod references) world := by
  induction references generalizing world with
  | nil => exact calm_ret trivial
  | cons reference rest ih =>
    obtain ⟨kind, name⟩ := reference
    have first : Calm (fun after message => message = none → ¬ ReachesNil pod after rest)
        (validateReferenceWith (ownCopy raised) pod kind name) world := by
      have refused : ∀ error : ApiError, Calm (fun after message => message = none → ¬ ReachesNil pod after rest)
          (if pod.tolerated then checkReferenceWith (ownCopy raised) pod name (Object.empty kind)
            else pure (some error.text)) world := by
        intro error
        rw [if_neg (by simp [strict])]
        exact calm_ret nofun
      refine calm_call (fun error answer failed => ?_) fun after answer served => ?_
      · cases failed
        exact refused error
      rcases Cluster.getObject_cases served with ⟨rfl, ⟨error, rfl⟩ | ⟨object, member, own, rfl⟩⟩
      · exact refused error
      have stays := fun reaches => made ⟨object, member, own, reaches⟩
      by_cases same : pod.pinned (kind, name) = object.currentVersion
      · rw [if_pos same] at stays
        show Calm _ (checkReferenceWith (ownCopy raised) pod name object) after
        rw [checkReferenceWith_same same]
        exact calm_ret fun _ => stays
      · rw [if_neg same] at stays
        show Calm _ (checkReferenceWith (ownCopy raised) pod name object) after
        rw [checkReferenceWith, matchVersionWith_made same fun bare => stays (Or.inl bare)]
        refine (heedful_copyRevision _).calm_attempt.bind fun answer final copied => ?_
        cases answer with
        | error error =>
          refine calm_ret ?_
          rw [if_neg (by simp [strict])]
          exact nofun
        | ok value => exact calm_ret fun _ reaches => stays (Or.inr ⟨final, copied value rfl, reaches⟩)
    refine first.bind fun message after checked => ?_
    cases message with
    | some message => exact calm_ret trivial
    | none => exact ih (checked rfl)

theorem run_validateOwn {references : List (Kind × String)} (reaches : ReachesNil pod cluster references) :
    ((validateReferencesWith (ownCopy raised) pod references).run Cluster.serve cluster).2 = .panicked := by
  induction references generalizing cluster with
  | nil => exact reaches.elim
  | cons reference rest ih =>
    obtain ⟨kind, name⟩ := reference
    obtain ⟨object, member, own, reaches⟩ := reaches
    have found := Table.find?_eq_some.mpr ⟨member, own⟩
    by_cases same : pod.pinned (kind, name) = object.currentVersion
    · rw [if_pos same] at reaches
      simpa [validateReferencesWith, validateReferenceWith, found, checkReferenceWith_same same] using ih reaches
    · rw [if_neg same] at reaches
      by_cases bare : object.annotations = .nil
      · have pins : pod.pinned (kind, name) ≠ "" := by
          rw [Object.currentVersion, bare] at same
          exact same
        simp [validateReferencesWith, validateReferenceWith, found, checkReference_nil bare pins]
      · obtain ⟨after, copied, reaches⟩ := reaches.resolve_left bare
        have returned : (ownCopy raised kind (object.naming (pod.pinned (kind, name)))).attempt.run Cluster.serve
            cluster = (after, .returned (.ok ())) := by
          rw [Program.run_attempt, ownCopy, Program.run_caught, copied]
        simpa [validateReferencesWith, validateReferenceWith, found, checkReferenceWith,
          matchVersionWith_made same bare, Program.run_bind, returned] using ih reaches

/-- With the webhook's own copies a pod may panic exactly where it comes to such an object; a pod of
which a copy refuses an earlier reference does not. -/
theorem ownCopies_nilMaps_iff (raised : ApiError) (cluster : Cluster) (pod : Pod) :
    Panics (configValidationWith (ownCopy raised) pod) cluster ↔
      pod.annotations.index "config-sync-controller" = "configurator" ∧
        if pod.tolerated then ∃ reference ∈ pod.spec.references, pod.pinned reference ≠ ""
        else ReachesNil pod cluster pod.spec.references := by
  unfold configValidationWith
  by_cases controlled : pod.annotations.index "config-sync-controller" = "configurator"
  · simp only [controlled, if_true, true_and]
    cases tolerated : pod.tolerated with
    | true =>
      rw [if_pos rfl]
      refine ⟨fun panics => ?_, panics_validateReferences tolerated⟩
      by_contra unpinned
      refine (calm_validateTolerated (soundCopy_ownCopy raised) tolerated fun reference listed => ?_).not_panics
        panics
      by_contra pins
      exact unpinned ⟨reference, listed, pins⟩
    | false =>
      rw [if_neg (by decide)]
      refine ⟨fun panics => ?_, fun reaches => panics_of_run (run_validateOwn reaches)⟩
      by_contra made
      exact (calm_validateOwn tolerated made).not_panics panics
  · simp only [controlled, if_false, false_and, iff_false]
    exact (calm_ret trivial : Calm (fun _ _ => True) _ cluster).not_panics

end Own

/-- Where an object has one current and one latest revision, its reconcile may panic exactly
where it writes into a map that was never made; and so may the body of `ConfigValidation`,
whatever its copies do. -/
theorem nilMaps_iff {current latest : Revision kind} (held : object ∈ cluster.objects kind)
    (isCurrent : (cluster.revisions kind).Sole (marked object.ns object.name "current") current)
    (isLatest : (cluster.revisions kind).Sole (marked object.ns object.name "latest") latest) (pod : Pod) :
    (¬ Panics (reconcile kind object.ns object.name) cluster ↔ ¬ NilWrite cluster object current) ∧
      ((∀ copy, SoundCopy copy → ¬ Panics (configValidationWith copy pod) cluster) ↔
        ¬ PinsNil cluster pod) := by
  refine ⟨⟨fun calm meets => ?_, fun made => ?_⟩, configValidation_calm_iff cluster pod⟩
  · exact calm (panics_of_run (run_reconcile held isCurrent meets))
  · exact (calm_reconcile isCurrent isLatest held made).not_panics

namespace Sample

/-- A pod that takes its environment from `settings` at the version `aaaaa`. -/
def pinningPod : Pod where
  ns := "shop"
  name := "api-0"
  annotations := ((GoMap.make ∅).put "config-sync-controller" "configurator").put "ccm-settings" "aaaaa"
  spec := ⟨[], [⟨[⟨some "settings", none⟩]⟩], []⟩

/-- The edited `settings` and the template of its Deployment have annotations: neither the
reconcile with its roll-out nor the pod makes anybody panic. -/
theorem rolledOutBlue_calm : ¬ Panics (Configurator.reconcile .configMap "shop" "settings") rolledOutBlue ∧
    ∀ copy, SoundCopy copy → ¬ Panics (configValidationWith copy pinningPod) rolledOutBlue := by
  have strict : pinningPod.tolerated = false := by
    simp [pinningPod, Pod.tolerated, contains, List.infix_cons_iff]
  obtain ⟨reconciles, validates⟩ := @nilMaps_iff .configMap rolledOutBlue (enrolled "blue" "aaaaa" 2)
    (settingsCCM "red" "aaaaa" ["current", "latest"] 1) (settingsCCM "red" "aaaaa" ["current", "latest"] 1)
    (List.mem_singleton_self _) (Table.select_eq_singleton.mp (by decide))
    (Table.select_eq_singleton.mp (by decide)) pinningPod
  have rolls : ¬ RollsIntoNil rolledOutBlue (enrolled "blue" "aaaaa" 2) := by
    rintro (⟨stored, member, _, _, bare⟩ | ⟨_, stored, member, _⟩)
    · obtain rfl : stored = apiAt "aaaaa" 1 := List.mem_singleton.mp member
      cases bare
    · exact absurd member List.not_mem_nil
  refine ⟨reconciles.mpr fun meets => ?_, validates.mpr fun pins => ?_⟩
  · rw [NilWrite, if_pos (Or.inr (by decide))] at meets
    obtain ⟨_, _, bare | rollsIntoNil⟩ := meets
    · cases bare
    · exact rolls rollsIntoNil
  · rw [PinsNil, strict] at pins
    obtain ⟨_, before, reference, after, _, _, ⟨object, member, own, bare⟩, _⟩ := pins
    obtain ⟨kind, name⟩ := reference
    cases kind with
    | configMap =>
      obtain rfl : object = enrolled "blue" "aaaaa" 2 := List.mem_singleton.mp member
      cases bare
    | secret => cases member

/-- `settings` has been painted blue by someone who left no annotations. -/
def unannotated : Object .configMap := { settings "blue" "" 2 with annotations := .nil }

def forgotten : Cluster :=
  synced.withObjects .configMap ⟨[unannotated], 2, by decide, by decide, by decide⟩

/-- The reconcile has taken both labels away and made a second revision by the time it panics;
and the pod is not even answered. -/
theorem forgotten_panics : unannotated ∈ forgotten.objects .configMap ∧
    (∃ current, (forgotten.revisions .configMap).Sole (marked "shop" "settings" "current") current) ∧
    (∃ latest, (forgotten.revisions .configMap).Sole (marked "shop" "settings" "latest") latest) ∧
    (forgotten.reconcile .configMap "shop" "settings").2 = .panicked ∧
    (((forgotten.reconcile .configMap "shop" "settings").1.revisions .configMap).entries.map fun revision =>
      (revision.name, revision.labels.lookup "current", revision.labels.lookup "latest")) =
        [("settings-aaaaa", none, none), ("settings-bbbbb", some "true", some "true")] ∧
    ((configValidation pinningPod).run Cluster.serve forgotten).2 = .panicked := by
  refine ⟨List.mem_singleton_self _, ⟨settingsCCM "red" "aaaaa" ["current", "latest"] 1, ?_⟩,
    ⟨settingsCCM "red" "aaaaa" ["current", "latest"] 1, ?_⟩, rfl, ?_, rfl⟩
  · exact Table.select_eq_singleton.mp (by decide)
  · exact Table.select_eq_singleton.mp (by decide)
  · decide

end Sample

end Configurator
