import Configurator.Conduct
import Configurator.Immutability
import Configurator.Library.Trace

namespace Configurator

open Resource

variable {kind : Kind} {cluster before after : Cluster} {object : Object kind}

/-- The annotations name a revision of the object by its version and by its name. -/
def NamesRevision (table : Table (Revision kind)) (object : Object kind) : Prop :=
  ∃ revision ∈ table, revision.ns = object.ns ∧ revision.Labelled "name" object.name ∧
    revision.customVersion = object.currentVersion ∧ object.annotations.lookup kind.nameKey = some revision.name

/-- No annotation of a ConfigMap's revision. -/
def Unmixed (annotations : GoMap String) : Prop :=
  annotations.lookup Kind.configMap.nameKey = none

instance (annotations : GoMap String) : Decidable (Unmixed annotations) := inferInstanceAs (Decidable (_ = _))

/-- A Secret does not get the annotation of a ConfigMap. -/
def StaysUnmixed : {kind : Kind} → Cluster → Object kind → Prop
  | .configMap, _, _ => True
  | .secret, cluster, secret => ∀ old ∈ cluster.objects .secret, key old = key secret →
      Unmixed old.annotations → Unmixed secret.annotations

/-- A write of an object that is completed leaves its annotations in accord. -/
def Concordant (before : Cluster) (request : Call) (after : Cluster) : Prop :=
  match request with
  | .updateObject kind sent => ∀ stored objects, (before.objects kind).update sent = .ok (stored, objects) →
      NamesRevision (after.revisions kind) stored ∧ StaysUnmixed before stored
  | _ => True

section Writes

theorem concordant_of_spares {request : Call} (spares : request.SparesObjects) : Concordant before request after := by
  cases request with
  | updateObject kind sent => exact absurd rfl (spares kind sent)
  | _ => trivial

theorem namesRevision_congr {table : Table (Revision kind)} {sent : Object kind} (same : key sent = key object)
    (version : sent.currentVersion = object.currentVersion)
    (name : sent.annotations.lookup kind.nameKey = object.annotations.lookup kind.nameKey) :
    NamesRevision table sent ↔ NamesRevision table object := by
  have spaces : sent.ns = object.ns := congrArg Prod.fst same
  have names : sent.name = object.name := congrArg Prod.snd same
  simp only [NamesRevision, spaces, names, version, name]

/-- A write that the server accepts: whether it is in accord can be told from what is sent. -/
theorem concordant_update (sent : Object kind) (held : object ∈ cluster.objects kind) (same : key sent = key object)
    (current : version sent = version object) :
    Concordant cluster (.updateObject kind sent) (cluster.serve (.updateObject kind sent)).1 ↔
      NamesRevision (cluster.revisions kind) sent ∧ StaysUnmixed cluster sent := by
  obtain ⟨stored, objects, update, written⟩ := Table.update_of_current sent held same.symm current.symm
  have revisions : (cluster.serve (.updateObject kind sent)).1.revisions = cluster.revisions :=
    Cluster.serve_revisions (.updateObject kind sent) trivial
  have names : NamesRevision (cluster.revisions kind) stored ↔ NamesRevision (cluster.revisions kind) sent := by
    apply namesRevision_congr
    · exact written.key_eq
    · rw [written.answered, Object.currentVersion_stamp]
    · rw [written.answered]
      simp [stamp]
  have unmixed : StaysUnmixed cluster stored ↔ StaysUnmixed cluster sent := by
    cases kind with
    | configMap => exact Iff.rfl
    | secret =>
      have lookups : Unmixed stored.annotations ↔ Unmixed sent.annotations := by
        rw [written.answered]
        simp [Unmixed, stamp]
      simp only [StaysUnmixed, written.key_eq, lookups]
  rw [Concordant, revisions, ← names, ← unmixed]
  constructor
  · intro every
    exact every stored objects update
  · intro accord other table accepted
    rw [update] at accepted
    cases accepted
    exact accord

theorem concordant_annotate {revision : Revision kind} (held : object ∈ cluster.objects kind)
    (member : revision ∈ cluster.revisions kind) (inNs : revision.ns = object.ns)
    (owned : revision.Labelled "name" object.name) :
    Concordant cluster (.updateObject kind (object.annotate revision.customVersion revision.name))
      (cluster.serve (.updateObject kind (object.annotate revision.customVersion revision.name))).1 := by
  have accepted := concordant_update (object.annotate revision.customVersion revision.name) held rfl rfl
  refine accepted.mpr ⟨⟨revision, member, inNs, owned, ?_, ?_⟩, ?_⟩
  · rw [Object.currentVersion_annotate]
  · simp [Object.annotate, kind.nameKey_ne_updateMethod]
  · cases kind with
    | configMap => trivial
    | secret =>
      intro old present same unmixed
      obtain rfl := Table.unique present held same
      simpa [Unmixed, Object.annotate, Kind.nameKey, Kind.versionKey] using unmixed

theorem throughout_of_spares {α : Type} {program : Client α} (emits : program.Emits Call.SparesObjects) :
    program.Throughout Cluster.serve Concordant cluster :=
  emits.throughout fun _ _ spares => concordant_of_spares spares

theorem objects_of_spares {α : Type} {program : Client α} (emits : program.Emits Call.SparesObjects)
    (cluster : Cluster) : (program.run Cluster.serve cluster).1.objects = cluster.objects := by
  induction program generalizing cluster with
  | ret | fail | panic => rfl
  | call request next ih =>
    rw [Program.run_call, ih _ (emits.2 _)]
    exact Cluster.serve_objects request emits.1

theorem sparesObjects_of_relabels (call : Call) (relabels : call.Relabels) : call.SparesObjects := by
  rintro _ _ rfl
  exact relabels

end Writes

/-! `Reconcile`. Only the branch for another version than the one in force may leave an object whose annotations
disagree. -/

section Reconcile

variable {current created : Revision kind}

theorem throughout_updateObject_iff {sent : Object kind} :
    (updateObject sent).Throughout Cluster.serve Concordant cluster ↔
      Concordant cluster (.updateObject kind sent) (cluster.serve (.updateObject kind sent)).1 := by
  constructor
  · intro throughout
    exact (Program.throughout_bind.mp throughout).1.1
  · intro accord
    refine Program.throughout_bind.mpr ⟨⟨accord, trivial⟩, fun after answer _ => ?_⟩
    cases answer <;> trivial

theorem throughout_publish (held : object ∈ cluster.objects kind) (member : created ∈ cluster.revisions kind)
    (inNs : created.ns = object.ns) (owned : created.Labelled "name" object.name) :
    (publish object created created.customVersion).Throughout Cluster.serve Concordant cluster := by
  unfold publish
  cases assigned : object.annotate? created.customVersion created.name with
  | none => trivial
  | some annotated =>
    obtain ⟨_, rfl⟩ := Object.annotate?_eq_some assigned
    change (updateObject (object.annotate created.customVersion created.name) >>= fun updated =>
      rollOuts updated created.customVersion).Throughout Cluster.serve Concordant cluster
    refine Program.throughout_bind.mpr ⟨?_, fun after updated _ => ?_⟩
    · exact throughout_updateObject_iff.mpr (concordant_annotate held member inNs owned)
    · refine throughout_of_spares ((emits_rollOuts updated created.customVersion).mono fun call rolls => ?_)
      rintro _ _ rfl
      exact rolls

theorem created_of_serve {version : String} {after : Cluster}
    (served : cluster.serve (.createRevision kind (newRevision object version)) = (after, .ok created)) :
    created ∈ after.revisions kind ∧ created.ns = object.ns ∧ created.Labelled "name" object.name ∧
      created.customVersion = version ∧ after.objects = cluster.objects := by
  rcases Cluster.createRevision_cases served with ⟨_, _, _, refused⟩ | ⟨stored, revisions, accepted, rfl, same⟩
  · cases refused
  · cases same
    have written := Table.written_of_create accepted
    refine ⟨by simpa using written.mem, ?_, ?_, written.customVersion_new, by simp⟩
    · exact congrArg Prod.fst written.key_eq
    · rw [written.answered, Revision.labelled_stamp, Table.labelled_newRevision]
      simp

theorem throughout_addNew {latest : List (Revision kind)} (held : object ∈ cluster.objects kind) :
    (addNew object current latest).Throughout Cluster.serve Concordant cluster := by
  let version := cluster.nextVersion
  show (Program.call .seedRandom _).Throughout Cluster.serve Concordant cluster
  refine ⟨trivial, ?_⟩
  show (Program.call (.createRevision kind (newRevision object version)) _).Throughout Cluster.serve Concordant
    cluster.reseeded
  refine ⟨trivial, ?_⟩
  cases served : cluster.reseeded.serve (.createRevision kind (newRevision object version)) with
  | mk after answer =>
    cases answer with
    | error error => exact throughout_of_spares (emits_revert sparesObjects_of_relabels _ _ _)
    | ok created =>
      obtain ⟨member, inNs, owned, same, objects⟩ := created_of_serve served
      have stays : object ∈ after.objects kind := by
        rw [objects]
        exact held
      have published := throughout_publish stays member inNs owned
      rw [same] at published
      exact published

theorem throughout_createNew (held : object ∈ cluster.objects kind) :
    (createNew object current).Throughout Cluster.serve Concordant cluster := by
  have strips := emits_updateRevision sparesObjects_of_relabels (current.unlabel "current")
  refine Program.throughout_bind.mpr ⟨throughout_of_spares strips, fun after stripped ran => ?_⟩
  have first : after.objects = cluster.objects := by
    have kept := objects_of_spares strips cluster
    rwa [ran] at kept
  have retires := emits_stripLatest sparesObjects_of_relabels object stripped 6 []
  refine Program.throughout_bind.mpr ⟨throughout_of_spares retires, fun later latest ran => ?_⟩
  have second : later.objects = after.objects := by
    have kept := objects_of_spares retires after
    rwa [ran] at kept
  cases latest with
  | none => trivial
  | some latest => exact throughout_addNew (by rw [second, first]; exact held)

theorem throughout_listRevisions {ns name : String} {next : List (Revision kind) → Client Unit} :
    (listRevisions kind ns [("name", name), ("current", "true")] >>= next).Throughout Cluster.serve
        Concordant cluster ↔
      (next ((cluster.revisions kind).select (marked ns name "current"))).Throughout Cluster.serve
        Concordant cluster := by
  simp [listRevisions, Concordant]

theorem throughout_adoptOrCreate (held : object ∈ cluster.objects kind) :
    (adoptOrCreate object).Throughout Cluster.serve Concordant cluster := by
  rw [adoptOrCreate, throughout_listRevisions]
  cases list : (cluster.revisions kind).select (marked object.ns object.name "current") with
  | nil =>
    let version := cluster.nextVersion
    show (Program.call .seedRandom _).Throughout Cluster.serve Concordant cluster
    refine ⟨trivial, ?_⟩
    show (Program.call (.createRevision kind (newRevision object version)) _).Throughout Cluster.serve Concordant
      cluster.reseeded
    refine ⟨trivial, ?_⟩
    cases served : cluster.reseeded.serve (.createRevision kind (newRevision object version)) with
    | mk after answer =>
      cases answer with
      | error error => trivial
      | ok created =>
        obtain ⟨member, inNs, owned, same, objects⟩ := created_of_serve served
        have stays : object ∈ after.objects kind := by
          rw [objects]
          exact held
        have accord := concordant_annotate stays member inNs owned
        rw [same] at accord
        show (updateObject (object.annotate version created.name) >>= fun _ => Program.ret ()).Throughout Cluster.serve
          Concordant after
        exact Program.throughout_bind.mpr ⟨throughout_updateObject_iff.mpr accord, fun _ _ _ => trivial⟩
  | cons current others =>
    cases others with
    | cons second others => trivial
    | nil =>
      have isCurrent := Table.select_eq_singleton.mp list
      obtain ⟨inNs, owned, _⟩ := marked_iff.mp isCurrent.2.1
      dsimp only
      split
      · exact throughout_createNew held
      · have accord := concordant_annotate held isCurrent.1 inNs owned
        exact Program.throughout_bind.mpr ⟨throughout_updateObject_iff.mpr accord, fun _ _ _ => trivial⟩

/-- What a roll-back of the reconcilers needs to leave the annotations in accord. A ConfigMap
keeps those that it has. -/
def CopyAgrees : {kind : Kind} → Cluster → Object kind → Revision kind → Prop
  | .configMap, cluster, configMap, _ => NamesRevision (cluster.revisions .configMap) configMap
  | .secret, _, secret, cs => cs.Labelled "name" secret.name ∧ cs.customVersion = secret.currentVersion ∧
      (Unmixed secret.annotations → Unmixed cs.spec.secretAnnotations)

/-- The roll-back of an object to a revision that is stored under its name. -/
theorem concordant_restored {target : Revision kind} {restored : Object kind} (held : object ∈ cluster.objects kind)
    (found : (cluster.revisions kind).find? (object.ns, object.name ++ "-" ++ object.currentVersion) = some target)
    (copied : restore? object target = some restored) :
    Concordant cluster (.updateObject kind restored) (cluster.serve (.updateObject kind restored)).1 ↔
      CopyAgrees cluster object target := by
  have kept := restored_of_restore? copied
  have accepted := concordant_update restored held kept.key kept.version
  rw [accepted]
  cases kind with
  | configMap =>
    simp only [restore?, Option.some.injEq] at copied
    subst copied
    exact and_iff_left trivial
  | secret =>
    obtain ⟨member, named⟩ := Table.find?_eq_some.mp found
    have made : target.spec.secretAnnotations ≠ .nil := by
      intro nil
      rw [restore?_secret_nil nil] at copied
      cases copied
    rw [restore?_secret made, Option.some.injEq] at copied
    have version : restored.currentVersion = object.currentVersion := kept.current
    have name : restored.annotations.lookup Kind.secret.nameKey = some target.name := by
      rw [← copied]
      simp [secretAnnotations, Kind.nameKey]
    have mixed : Unmixed restored.annotations ↔ Unmixed target.spec.secretAnnotations := by
      rw [← copied]
      simp [Unmixed, secretAnnotations, Kind.nameKey]
    have spaces : restored.ns = object.ns := congrArg Prod.fst kept.key
    have names : restored.name = object.name := congrArg Prod.snd kept.key
    constructor
    · rintro ⟨⟨revision, present, inNs, owned, its, called⟩, stays⟩
      rw [name, Option.some.injEq] at called
      have sameNs : revision.ns = target.ns := inNs.trans (spaces.trans (congrArg Prod.fst named).symm)
      obtain rfl := Table.unique present member (Prod.ext sameNs called.symm)
      exact ⟨names ▸ owned, its.trans version, fun unmixed => mixed.mp (stays object held kept.key.symm unmixed)⟩
    · rintro ⟨owned, its, stays⟩
      refine ⟨⟨target, member, (congrArg Prod.fst named).trans spaces.symm, names.symm ▸ owned,
        its.trans version.symm, name⟩, ?_⟩
      intro old present same unmixed
      obtain rfl := Table.unique present held (same.trans kept.key)
      exact mixed.mpr (stays unmixed)

theorem throughout_getRevision {α : Type} {ns name : String} {next : Revision kind → Client α} :
    (getRevision kind ns name >>= next).Throughout Cluster.serve Concordant cluster ↔
      ∀ target, (cluster.revisions kind).find? (ns, name) = some target →
        (next target).Throughout Cluster.serve Concordant cluster := by
  cases found : (cluster.revisions kind).find? (ns, name) <;> simp [getRevision, Concordant, found]

theorem throughout_copyRevision (held : object ∈ cluster.objects kind) :
    (copyRevision object).Throughout Cluster.serve Concordant cluster ↔ ∀ target,
      (cluster.revisions kind).find? (object.ns, object.name ++ "-" ++ object.currentVersion) = some target →
        Restorable target → CopyAgrees cluster object target := by
  rw [copyRevision, throughout_getRevision]
  refine forall_congr' fun target => forall_congr' fun found => ?_
  cases copied : restore? object target with
  | none =>
    have unrestorable := restore?_eq_none.mp copied
    refine iff_of_true ?_ fun restorable => absurd restorable unrestorable
    trivial
  | some restored =>
    have restorable : Restorable target := by
      by_contra unrestorable
      rw [restore?_eq_none.mpr unrestorable] at copied
      cases copied
    rw [← concordant_restored held found copied, ← throughout_updateObject_iff]
    have relabels : (do
        let labelled ← Program.orPanic (relabel? target)
        let _ ← updateRevision labelled : Client Unit).Emits Call.SparesObjects :=
      emits_relabel sparesObjects_of_relabels (relabel? target)
    show (updateObject restored >>= fun _ => _).Throughout Cluster.serve Concordant cluster ↔ _
    rw [Program.throughout_bind]
    constructor
    · rintro ⟨writes, _⟩ _
      exact writes
    · intro writes
      exact ⟨writes restorable, fun _ _ _ => throughout_of_spares relabels⟩

/-- What `Reconcile` needs to leave the annotations of an object in accord: nothing, unless it rolls the object back. -/
def ReconcileAgrees (cluster : Cluster) (object : Object kind) : Prop :=
  object.currentVersion ≠ "" → ∀ current target,
    (cluster.revisions kind).select (marked object.ns object.name "current") = [current] →
    current.customVersion ≠ object.currentVersion →
    (cluster.revisions kind).find? (object.ns, object.name ++ "-" ++ object.currentVersion) = some target →
    Restorable target → CopyAgrees cluster object target

theorem throughout_synchronize (held : object ∈ cluster.objects kind) (versioned : object.currentVersion ≠ "") :
    (synchronize object).Throughout Cluster.serve Concordant cluster ↔ ReconcileAgrees cluster object := by
  rw [synchronize, throughout_listRevisions]
  cases list : (cluster.revisions kind).select (marked object.ns object.name "current") with
  | nil => exact iff_of_true trivial (by simp [ReconcileAgrees, list])
  | cons current others =>
    cases others with
    | cons second others => exact iff_of_true trivial (by simp [ReconcileAgrees, list])
    | nil =>
      dsimp only
      split
      · rename_i other
        rw [Program.throughout_bind, throughout_copyRevision held]
        constructor
        · rintro ⟨copies, _⟩ _ current' target same _ found restorable
          exact copies target found restorable
        · intro agrees
          refine ⟨fun target found restorable => agrees versioned current target list other found restorable, ?_⟩
          intro after _ _
          exact throughout_of_spares
            ((emits_updateRevision sparesObjects_of_relabels (current.unlabel "current")).bind fun _ => trivial)
      · rename_i same
        have agrees : ReconcileAgrees cluster object := by
          intro _ current' target listed other
          rw [list, List.cons.injEq] at listed
          exact absurd (listed.1 ▸ other) same
        refine iff_of_true ?_ agrees
        split
        · exact throughout_createNew held
        · trivial

/-- `Reconcile` leaves what it writes in accord exactly if its roll-back does. -/
theorem throughout_reconcile (ns name : String) :
    (reconcile kind ns name).Throughout Cluster.serve Concordant cluster ↔
      ∀ object ∈ cluster.objects kind, key object = (ns, name) → ReconcileAgrees cluster object := by
  cases found : (cluster.objects kind).find? (ns, name) with
  | none =>
    refine iff_of_true ?_ fun object held own => absurd own (Table.find?_eq_none.mp found object held)
    simp [reconcile, found, Concordant]
  | some object =>
    obtain ⟨held, own⟩ := Table.find?_eq_some.mp found
    have reads : (reconcile kind ns name).Throughout Cluster.serve Concordant cluster ↔
        (if object.currentVersion = "" then adoptOrCreate object else synchronize object).Throughout Cluster.serve
          Concordant cluster := by
      simp [reconcile, found, Concordant]
    have only : (∀ other ∈ cluster.objects kind, key other = (ns, name) → ReconcileAgrees cluster other) ↔
        ReconcileAgrees cluster object := by
      constructor
      · intro every
        exact every object held own
      · intro agrees other member same
        exact Table.unique held member (own.trans same.symm) ▸ agrees
    rw [reads, only]
    split
    · rename_i unversioned
      exact iff_of_true (throughout_adoptOrCreate held) fun versioned => absurd unversioned versioned
    · rename_i versioned
      exact throughout_synchronize held versioned

end Reconcile

/-! The roll-backs of the pod webhook, which overwrites the version of the stored object first. -/

section Pod

variable {target : Revision kind} {restored : Object kind} {pinned : String}

/-- What such a roll-back needs. A ConfigMap gets the name of the revision, and a Secret the annotations of its
snapshot, with the name of the revision under the key of a ConfigMap. -/
def PodCopyAgrees : {kind : Kind} → Cluster → Object kind → Revision kind → Prop
  | .configMap, _, configMap, ccm => ccm.Labelled "name" configMap.name ∧ ccm.customVersion = configMap.currentVersion
  | .secret, cluster, secret, cs =>
    (∃ revision ∈ cluster.revisions .secret, revision.ns = secret.ns ∧ revision.Labelled "name" secret.name ∧
      revision.customVersion = secret.currentVersion ∧
      cs.spec.secretAnnotations.lookup "customSecret-name" = some revision.name) ∧ ¬ Unmixed secret.annotations

theorem concordant_podRestored (held : object ∈ cluster.objects kind)
    (found : (cluster.revisions kind).find? (object.ns, object.name ++ "-" ++ pinned) = some target)
    (copied : PodWebhook.restore? (object.naming pinned) target = some restored) :
    Concordant cluster (.updateObject kind restored) (cluster.serve (.updateObject kind restored)).1 ↔
      PodCopyAgrees cluster (object.naming pinned) target := by
  have kept := PodWebhook.restored_of_restore? copied
  obtain ⟨member, named⟩ := Table.find?_eq_some.mp found
  have accepted := concordant_update restored held (kept.key.trans rfl) (kept.version.trans rfl)
  have spaces : restored.ns = object.ns := congrArg Prod.fst kept.key
  have names : restored.name = object.name := congrArg Prod.snd kept.key
  have version : restored.currentVersion = (object.naming pinned).currentVersion := kept.current
  rw [accepted]
  cases kind with
  | configMap =>
    have made : (object.naming pinned).annotations ≠ .nil := GoMap.put_ne_nil _ _ _
    rw [PodWebhook.restore?_configMap made, Option.some.injEq] at copied
    have name : restored.annotations.lookup Kind.configMap.nameKey = some target.name := by
      rw [← copied]
      simp [Kind.nameKey]
    constructor
    · rintro ⟨⟨revision, present, inNs, owned, its, called⟩, _⟩
      rw [name, Option.some.injEq] at called
      have same : key revision = key target :=
        Prod.ext (inNs.trans (spaces.trans (congrArg Prod.fst named).symm)) called.symm
      obtain rfl := Table.unique present member same
      exact ⟨names ▸ owned, its.trans version⟩
    · rintro ⟨owned, its⟩
      have inNs : target.ns = restored.ns := (congrArg Prod.fst named).trans spaces.symm
      exact ⟨⟨target, member, inNs, names.symm ▸ owned, its.trans version.symm, name⟩, trivial⟩
  | secret =>
    have made : target.spec.secretAnnotations ≠ .nil := by
      intro nil
      rw [PodWebhook.restore?_secret_nil nil] at copied
      cases copied
    rw [PodWebhook.restore?_secret made, Option.some.injEq] at copied
    have name : restored.annotations.lookup Kind.secret.nameKey =
        target.spec.secretAnnotations.lookup "customSecret-name" := by
      rw [← copied]
      simp [PodWebhook.secretAnnotations, Kind.nameKey]
    have mixed : ¬ Unmixed restored.annotations := by
      rw [← copied]
      simp [Unmixed, PodWebhook.secretAnnotations, Kind.nameKey]
    have was : Unmixed (object.naming pinned).annotations ↔ Unmixed object.annotations := by
      simp [Unmixed, Object.naming, Kind.nameKey, Kind.versionKey]
    have stays : StaysUnmixed cluster restored ↔ ¬ Unmixed (object.naming pinned).annotations := by
      rw [was]
      constructor
      · intro unmixed bare
        exact mixed (unmixed object held kept.key.symm bare)
      · intro bare old present same unmixed
        obtain rfl := Table.unique present held (same.trans kept.key)
        exact absurd unmixed bare
    have naming : NamesRevision (cluster.revisions .secret) restored ↔ ∃ revision ∈ cluster.revisions .secret,
        revision.ns = (object.naming pinned).ns ∧ revision.Labelled "name" (object.naming pinned).name ∧
          revision.customVersion = (object.naming pinned).currentVersion ∧
          target.spec.secretAnnotations.lookup "customSecret-name" = some revision.name := by
      simp only [NamesRevision, name, version, spaces, names]
      exact Iff.rfl
    rw [naming, stays]
    exact Iff.rfl

theorem throughout_podCopy (held : object ∈ cluster.objects kind) :
    (PodWebhook.copyRevision (object.naming pinned)).Throughout Cluster.serve Concordant cluster ↔ ∀ target,
      (cluster.revisions kind).find? (object.ns, object.name ++ "-" ++ pinned) = some target →
        Restorable target → PodCopyAgrees cluster (object.naming pinned) target := by
  have made : (object.naming pinned).annotations ≠ .nil := GoMap.put_ne_nil _ _ _
  rw [PodWebhook.copyRevision, Object.currentVersion_naming, throughout_getRevision]
  refine forall_congr' fun target => forall_congr' fun found => ?_
  rw [← PodWebhook.exists_restored made]
  cases copied : PodWebhook.restore? (object.naming pinned) target with
  | none =>
    refine iff_of_true ?_ (by rintro ⟨restored, same⟩; cases same)
    trivial
  | some restored =>
    rw [← concordant_podRestored held found copied, ← throughout_updateObject_iff]
    show (updateObject restored >>= fun _ => _).Throughout Cluster.serve Concordant cluster ↔ _
    rw [Program.throughout_bind]
    constructor
    · rintro ⟨writes, _⟩ _
      exact writes
    · intro writes
      refine ⟨writes ⟨restored, rfl⟩, fun after _ _ => throughout_of_spares ?_⟩
      refine Program.Emits.bind ⟨sparesObjects_of_relabels _ trivial, fun _ => trivial⟩ fun listed => ?_
      split
      · refine (emits_updateRevision sparesObjects_of_relabels _).bind fun _ => ?_
        exact emits_relabel sparesObjects_of_relabels _
      · trivial

end Pod

def UnmixedObject : {kind : Kind} → Object kind → Prop
  | .configMap, _ => True
  | .secret, secret => Unmixed secret.annotations

def UnmixedRevision : {kind : Kind} → Revision kind → Prop
  | .configMap, _ => True
  | .secret, cs => Unmixed cs.spec.secretAnnotations

/-- No Secret and no snapshot of one has the annotation. -/
structure AllUnmixed (cluster : Cluster) : Prop where
  objects : ∀ kind, ∀ object ∈ cluster.objects kind, UnmixedObject object
  revisions : ∀ kind, ∀ revision ∈ cluster.revisions kind, UnmixedRevision revision

/-- Every call is served, and nobody interferes. -/
def servedRules : Rules Cluster Call Answer where
  react before request after answer := before.serve request = (after, answer)
  rely before after := before = after
  guarantee _ _ _ := True

section Unmixed

variable {revision : Revision kind}

theorem AllUnmixed.of_same (all : AllUnmixed before) (objects : after.objects = before.objects)
    (revisions : after.revisions = before.revisions) : AllUnmixed after :=
  ⟨objects ▸ all.objects, revisions ▸ all.revisions⟩

theorem AllUnmixed.withObjects {sent answer : Object kind} {table : Table (Object kind)} (all : AllUnmixed cluster)
    (unmixed : UnmixedObject sent) (written : (cluster.objects kind).Written sent answer table) :
    AllUnmixed (cluster.withObjects kind table) := by
  refine ⟨fun other object member => ?_, all.revisions⟩
  by_cases same : other = kind
  · subst same
    rw [Cluster.withObjects_objects] at member
    rcases (written.members object).mp member with rfl | ⟨was, _⟩
    · rw [written.answered]
      cases other with
      | configMap => trivial
      | secret => simpa [UnmixedObject, Unmixed, stamp] using unmixed
    · exact all.objects other object was
  · simp only [Cluster.withObjects, Function.update_of_ne same] at member
    exact all.objects other object member

theorem AllUnmixed.withRevisions {sent answer : Revision kind} {table : Table (Revision kind)}
    (all : AllUnmixed cluster) (unmixed : UnmixedRevision sent)
    (written : (cluster.revisions kind).Written sent answer table) : AllUnmixed (cluster.withRevisions kind table) := by
  refine ⟨all.objects, fun other revision member => ?_⟩
  by_cases same : other = kind
  · subst same
    rw [Cluster.withRevisions_revisions] at member
    rcases (written.members revision).mp member with rfl | ⟨was, _⟩
    · rw [written.answered]
      cases other with
      | configMap => trivial
      | secret => simpa [UnmixedRevision, Unmixed, stamp, Spec.stored] using unmixed
    · exact all.revisions other revision was
  · simp only [Cluster.withRevisions, Function.update_of_ne same] at member
    exact all.revisions other revision member

theorem unmixed_untracked {annotations : GoMap String} : Unmixed (untracked annotations) ↔ Unmixed annotations := by
  rw [Unmixed, lookup_untracked, if_neg (by decide)]
  exact Iff.rfl

theorem unmixed_newRevision (unmixed : UnmixedObject object) (version : String) :
    UnmixedRevision (newRevision object version) := by
  cases kind with
  | configMap => trivial
  | secret => exact unmixed_untracked.mpr unmixed

theorem unmixed_annotate (unmixed : UnmixedObject object) (version name : String) :
    UnmixedObject (object.annotate version name) := by
  cases kind with
  | configMap => trivial
  | secret => simpa [UnmixedObject, Unmixed, Object.annotate, Kind.nameKey, Kind.versionKey] using unmixed

theorem unmixed_restored {restored : Object kind} (unmixed : UnmixedRevision revision)
    (copied : restore? object revision = some restored) : UnmixedObject restored := by
  cases kind with
  | configMap => trivial
  | secret =>
    have made : revision.spec.secretAnnotations ≠ .nil := by
      intro nil
      rw [restore?_secret_nil nil] at copied
      cases copied
    rw [restore?_secret made, Option.some.injEq] at copied
    rw [← copied]
    simpa [UnmixedObject, UnmixedRevision, Unmixed, secretAnnotations, Kind.nameKey] using unmixed

theorem conduct_unmixed : Conduct kind servedRules AllUnmixed UnmixedRevision where
  reflexive _ := rfl
  stable same all := same ▸ all
  seeds all served := by
    cases served
    exact ⟨trivial, all.of_same rfl rfl⟩
  gets all served := by
    obtain ⟨rfl, ⟨error, rfl⟩ | ⟨revision, member, _, rfl⟩⟩ := Cluster.getRevision_cases served
    · exact ⟨trivial, all, nofun⟩
    · refine ⟨trivial, all, fun other same => ?_⟩
      cases same
      exact all.revisions _ revision member
  lists all served := by
    obtain ⟨rfl, rfl⟩ := Cluster.listRevisions_cases served
    refine ⟨trivial, all, fun revisions same revision member => ?_⟩
    cases same
    exact all.revisions _ revision (Table.mem_select.mp member).1
  writes unmixed all served := by
    rcases Cluster.updateRevision_cases served with ⟨rfl, _, _, rfl⟩ | ⟨stored, revisions, accepted, rfl, rfl⟩
    · exact ⟨trivial, all, nofun⟩
    · have written := (Table.written_of_update accepted).2
      have still := all.withRevisions unmixed written
      refine ⟨trivial, still, fun other same => ?_⟩
      cases same
      exact still.revisions _ stored (by simpa using written.mem)
  unlabels _ unmixed := by
    cases kind with
    | configMap => trivial
    | secret => exact unmixed
  labels _ put unmixed := by
    rw [Revision.label?_eq_some put]
    cases kind with
    | configMap => trivial
    | secret => exact unmixed
  untracks unmixed := by
    cases kind with
    | configMap => trivial
    | secret => exact unmixed_untracked.mpr unmixed

/-- The end of a run in which the annotation does not appear. -/
abbrev SafeUnmixed {α : Type} (program : Client α) (cluster : Cluster) : Prop :=
  program.Safe servedRules (fun after _ => AllUnmixed after) cluster

theorem safe_updateObject_unmixed {α : Type} {sent : Object kind} {next : Object kind → Client α}
    (all : AllUnmixed cluster) (unmixed : UnmixedObject sent)
    (continues : ∀ stored after, AllUnmixed after → SafeUnmixed (next stored) after) :
    SafeUnmixed (updateObject sent >>= next) cluster := by
  refine Program.Safe.call AllUnmixed (fun same all => same ▸ all) all ?_
  intro before after answer all served
  refine ⟨trivial, ?_⟩
  rcases Cluster.updateObject_cases served with ⟨rfl, _, _, rfl⟩ | ⟨stored, objects, accepted, rfl, rfl⟩
  · exact fun later same => same ▸ all
  · exact continues stored _ (all.withObjects unmixed (Table.written_of_update accepted).2)

theorem safe_publish_unmixed {created : Revision kind} {version : String} (all : AllUnmixed cluster)
    (unmixed : UnmixedObject object) : SafeUnmixed (publish object created version) cluster := by
  unfold publish
  cases assigned : object.annotate? version created.name with
  | none => exact fun later same => same ▸ all
  | some annotated =>
    obtain ⟨_, rfl⟩ := Object.annotate?_eq_some assigned
    refine safe_updateObject_unmixed all (unmixed_annotate unmixed _ _) fun updated after all => ?_
    refine Program.Safe.of_emits (emits_rollOuts updated version) (fun same all => same ▸ all) all ?_ fun _ _ all => all
    intro before request after answer rolls all served
    have same := rolls.serve before
    rw [show before.serve request = (after, answer) from served] at same
    exact ⟨trivial, all.of_same same.objects same.revisions⟩

theorem safeCreation_unmixed (unmixed : UnmixedObject object) :
    SafeCreation servedRules AllUnmixed AllUnmixed object := by
  intro before after draws answer all served
  refine ⟨trivial, ?_⟩
  rcases Cluster.createRevision_cases served with ⟨rfl, _, _, rfl⟩ | ⟨stored, revisions, accepted, rfl, rfl⟩
  · exact ⟨fun _ _ => all, nofun⟩
  · have written := Table.written_of_create accepted
    have still := all.withRevisions (unmixed_newRevision unmixed _) written
    refine ⟨nofun, fun created same => ?_⟩
    cases same
    exact safe_publish_unmixed still unmixed

theorem safeCopy_unmixed : SafeCopy servedRules AllUnmixed UnmixedRevision object := by
  intro before after revision restored answer unmixed copied all served
  refine ⟨trivial, ?_⟩
  rcases Cluster.updateObject_cases served with ⟨rfl, _⟩ | ⟨stored, objects, accepted, rfl, _⟩
  · exact all
  · exact all.withObjects (unmixed_restored unmixed copied) (Table.written_of_update accepted).2

theorem safe_adoptOrCreate_unmixed (all : AllUnmixed cluster) (unmixed : UnmixedObject object) :
    SafeUnmixed (adoptOrCreate object) cluster := by
  have still : ∀ {before after : Cluster}, before = after → AllUnmixed before → AllUnmixed after :=
    fun same all => same ▸ all
  have ends : ∀ after, AllUnmixed after → SafeUnmixed (Program.ret () : Client Unit) after :=
    fun _ all later same => still same all
  refine Program.Safe.call AllUnmixed still all ?_
  intro before after answer all served
  obtain ⟨rfl, rfl⟩ := Cluster.listRevisions_cases served
  refine ⟨trivial, ?_⟩
  have listed : ∀ current ∈ (after.revisions kind).select fun revision =>
      revision.matches object.ns [("name", object.name), ("current", "true")], UnmixedRevision current :=
    fun current found => all.revisions kind current (Table.mem_select.mp found).1
  revert listed
  generalize ((after.revisions kind).select fun revision =>
    revision.matches object.ns [("name", object.name), ("current", "true")]) = items
  intro listed
  rcases items with _ | ⟨current, _ | ⟨second, others⟩⟩
  · refine Program.Safe.call AllUnmixed still all ?_
    intro before seeded draws all served
    obtain ⟨_, all⟩ := (@conduct_unmixed kind).seeds all served
    refine ⟨trivial, Program.Safe.call AllUnmixed still all ?_⟩
    intro before after answer all served
    refine ⟨trivial, ?_⟩
    rcases Cluster.createRevision_cases served with ⟨rfl, _, _, rfl⟩ | ⟨created, revisions, accepted, rfl, rfl⟩
    · exact fun later same => still same all
    · have written := Table.written_of_create accepted
      have all := all.withRevisions (unmixed_newRevision unmixed _) written
      exact safe_updateObject_unmixed all (unmixed_annotate unmixed _ _) fun _ => ends
  · show SafeUnmixed (if differs object current = true then _ else _) after
    split
    · exact conduct_unmixed.safe_createNew (fun _ all => all) (safeCreation_unmixed unmixed) all
        (listed current (List.mem_singleton_self _))
    · exact safe_updateObject_unmixed all (unmixed_annotate unmixed _ _) fun _ => ends
  · exact ends after all

theorem safe_reconcile_unmixed (all : AllUnmixed cluster) (ns name : String) :
    SafeUnmixed (reconcile kind ns name) cluster := by
  refine Program.Safe.call AllUnmixed (fun same all => same ▸ all) all ?_
  intro before after answer all served
  refine ⟨trivial, ?_⟩
  obtain ⟨rfl, ⟨error, rfl⟩ | ⟨object, member, _, rfl⟩⟩ := Cluster.getObject_cases served
  · exact fun later same => same ▸ all
  · have unmixed := all.objects kind object member
    show SafeUnmixed (if object.currentVersion = "" then _ else _) after
    split
    · exact safe_adoptOrCreate_unmixed all unmixed
    · exact conduct_unmixed.safe_synchronize (fun _ all => all) safeCopy_unmixed (safeCreation_unmixed unmixed) all

theorem AllUnmixed.reconcile (all : AllUnmixed cluster) (kind : Kind) (ns name : String) :
    AllUnmixed ((reconcile kind ns name).run Cluster.serve cluster).1 :=
  (safe_reconcile_unmixed all ns name).run (fun _ => rfl) fun _ _ => rfl

/-- A roll-back of a ConfigMap through the pod webhook touches no Secret. -/
theorem AllUnmixed.podCopy_configMap {configMap : Object .configMap} (all : AllUnmixed cluster) :
    AllUnmixed ((PodWebhook.copyRevision configMap).run Cluster.serve cluster).1 := by
  have safe : SafeUnmixed (PodWebhook.copyRevision configMap) cluster := by
    have conduct : Conduct .configMap servedRules AllUnmixed UnmixedRevision := conduct_unmixed
    have aborts : ∀ world (outcome : Outcome ApiError Unit), outcome.Aborts → AllUnmixed world → AllUnmixed world :=
      fun _ _ _ all => all
    refine Program.Safe.call AllUnmixed conduct.stable all ?_
    intro before after answer all served
    obtain ⟨_, all, _⟩ := conduct.gets all served
    refine ⟨trivial, ?_⟩
    cases answer with
    | error error => exact conduct.safe_fail aborts all
    | ok target =>
      show SafeUnmixed (Program.orPanic (PodWebhook.restore? configMap target) >>= _) after
      cases PodWebhook.restore? configMap target with
      | none => exact conduct.safe_panic aborts all
      | some restored =>
        refine safe_updateObject_unmixed all trivial fun stored after all => ?_
        refine Program.Safe.call AllUnmixed conduct.stable all ?_
        intro before after answer all served
        obtain ⟨_, all, _⟩ := conduct.lists all served
        refine ⟨trivial, ?_⟩
        dsimp only [Program.bind]
        split
        · refine conduct.safe_write aborts all trivial fun _ world _ all => ?_
          cases PodWebhook.relabel? target with
          | none => exact conduct.safe_panic aborts all
          | some labelled =>
            refine conduct.safe_write aborts all trivial fun _ world _ all => ?_
            exact fun later same => conduct.stable same all
        · exact conduct.safe_panic aborts all
  exact safe.run (fun _ => rfl) fun _ _ => rfl

end Unmixed

/-- A reconcile, or the roll-back of a stored object to the version that a pod pins. -/
inductive Rewrite where
  | reconcile (kind : Kind) (ns name : String)
  | copy (kind : Kind) (object : Object kind) (pinned : String)

namespace Rewrite

def program : Rewrite → Client Unit
  | .reconcile kind ns name => Configurator.reconcile kind ns name
  | .copy _ object pinned => PodWebhook.copyRevision (object.naming pinned)

/-- The webhook has read the object that it writes. -/
def Possible (cluster : Cluster) : Rewrite → Prop
  | .reconcile _ _ _ => True
  | .copy kind object _ => object ∈ cluster.objects kind

/-- Every completed write leaves the annotations in accord. -/
def Accords (cluster : Cluster) (rewrite : Rewrite) : Prop :=
  rewrite.program.Throughout Cluster.serve Concordant cluster

/-- It rolls no ConfigMap back that a user has given another version, and no Secret through the pod webhook; what it
rolls back to is a revision of the object. -/
def Careful (cluster : Cluster) : Rewrite → Prop
  | .reconcile kind ns name => ∀ object ∈ cluster.objects kind, key object = (ns, name) → ReconcileAgrees cluster object
  | .copy kind object pinned => ∀ target,
    (cluster.revisions kind).find? (object.ns, object.name ++ "-" ++ pinned) = some target → Restorable target →
      PodCopyAgrees cluster (object.naming pinned) target

theorem accords_iff {rewrite : Rewrite} (possible : rewrite.Possible cluster) :
    rewrite.Accords cluster ↔ rewrite.Careful cluster := by
  cases rewrite with
  | reconcile kind ns name => exact throughout_reconcile ns name
  | copy kind object pinned => exact throughout_podCopy possible

end Rewrite

/-- The states that careful writes come to, while users edit objects and give no Secret the
annotation of a ConfigMap. -/
inductive Course : Cluster → Prop where
  | start {cluster : Cluster} (all : AllUnmixed cluster) : Course cluster
  | edit {before after : Cluster} (earlier : Course before) (revisions : after.revisions = before.revisions)
      (unmixed : ∀ secret ∈ after.objects .secret, Unmixed secret.annotations) : Course after
  | rewrite {before : Cluster} {rewrite : Rewrite} (earlier : Course before) (possible : rewrite.Possible before)
      (careful : rewrite.Careful before) : Course (rewrite.program.run Cluster.serve before).1

/-- A careful roll-back of a Secret through the pod webhook is none. -/
theorem run_podCopy_careful {secret : Object .secret} {pinned : String} (all : AllUnmixed cluster)
    (held : secret ∈ cluster.objects .secret) (careful : (Rewrite.copy .secret secret pinned).Careful cluster) :
    ((PodWebhook.copyRevision (secret.naming pinned)).run Cluster.serve cluster).1 = cluster := by
  have spaces : (secret.naming pinned).ns = secret.ns := rfl
  have names : (secret.naming pinned).name = secret.name := rfl
  cases found : (cluster.revisions .secret).find? (secret.ns, secret.name ++ "-" ++ pinned) with
  | none => simp [PodWebhook.copyRevision, getRevision, spaces, names, found]
  | some target =>
    have unrestorable : ¬ Restorable target := by
      intro restorable
      have unmixed : Unmixed secret.annotations := all.objects .secret secret held
      apply (careful target found restorable).2
      simpa [Unmixed, Object.naming, Kind.nameKey, Kind.versionKey] using unmixed
    have nil : PodWebhook.restore? (secret.naming pinned) target = none :=
      PodWebhook.restore?_secret_nil (not_not.mp unrestorable)
    simp [PodWebhook.copyRevision, getRevision, spaces, names, found, nil]

theorem Course.unmixed (course : Course cluster) : AllUnmixed cluster := by
  induction course with
  | start all => exact all
  | edit _ revisions unmixed all =>
    refine ⟨fun kind object member => ?_, revisions ▸ all.revisions⟩
    cases kind with
    | configMap => trivial
    | secret => exact unmixed object member
  | @rewrite before rewrite _ possible careful all =>
    cases rewrite with
    | reconcile kind ns name => exact all.reconcile kind ns name
    | copy kind object pinned =>
      cases kind with
      | configMap => exact all.podCopy_configMap
      | secret => exact (run_podCopy_careful all possible careful).symm ▸ all

/-- A completed write leaves the two annotations in accord exactly if it is no roll-back of a ConfigMap by a reconcile,
unless its name has been changed with its version, and no roll-back of a Secret through the pod webhook. Along every
run of such writes no Secret gets the annotation of a ConfigMap. -/
theorem annotations_accord_iff (cluster : Cluster) :
    (∀ {rewrite : Rewrite}, rewrite.Possible cluster →
      (rewrite.Accords cluster ↔ rewrite.Careful cluster)) ∧
    (Course cluster → (∀ secret ∈ cluster.objects .secret, Unmixed secret.annotations) ∧
      ∀ {rewrite : Rewrite}, rewrite.Possible cluster → rewrite.Careful cluster → rewrite.Accords cluster) := by
  refine ⟨Rewrite.accords_iff, fun course => ⟨fun secret member => ?_, fun possible careful => ?_⟩⟩
  · exact course.unmixed.objects .secret secret member
  · exact (Rewrite.accords_iff possible).mpr careful

namespace Sample

/-- `settings` with an older CustomConfigMap and the one in force. -/
def paintedBlue : Cluster :=
  shop ⟨[settings "blue" "bbbbb" 2], 2, by decide, by decide, by decide⟩ (twoVersions.revisions .configMap)

theorem course_of_noSecrets {cluster : Cluster} (objects : cluster.objects .secret = .empty)
    (revisions : cluster.revisions .secret = .empty) : Course cluster := by
  apply Course.start
  constructor
  · intro kind object member
    cases kind with
    | configMap => trivial
    | secret => exact absurd (objects ▸ member) (Table.not_mem_empty object)
  · intro kind revision member
    cases kind with
    | configMap => trivial
    | secret => exact absurd (revisions ▸ member) (Table.not_mem_empty revision)

/-- A pod pins the older version of the ConfigMap whose name stands in the selector. -/
def pinRed : Rewrite := .copy .configMap (configMap "config-multi-env-files" "blue" "bbbbb" 1) "aaaaa"

theorem pinRed_accords : (pinRed.program.run Cluster.serve selectedVersions).2 = .returned () ∧
    pinRed.Accords selectedVersions ∧
    ∀ secret ∈ (pinRed.program.run Cluster.serve selectedVersions).1.objects .secret, Unmixed secret.annotations := by
  have possible : pinRed.Possible selectedVersions := List.mem_singleton_self _
  have careful : pinRed.Careful selectedVersions := by
    intro target found _
    have red : (selectedVersions.revisions .configMap).find?
        ("shop", "config-multi-env-files" ++ "-" ++ "aaaaa") =
          some (ccm "config-multi-env-files" "red" "aaaaa" [] 1) := by decide
    obtain rfl := Option.some.inj (red.symm.trans found)
    exact ⟨by decide, by decide⟩
  exact ⟨rfl, ((annotations_accord_iff _).1 possible).mpr careful,
    ((annotations_accord_iff _).2 ((course_of_noSecrets rfl rfl).rewrite possible careful)).1⟩

/-- A user asks for the older one by the version. -/
def askingRed : Object .configMap := (settings "blue" "bbbbb" 3).naming "aaaaa"

def askedRed : Cluster :=
  paintedBlue.withObjects .configMap ⟨[askingRed], 3, by decide, by decide, by decide⟩

/-- The reconcile leaves the name of the newer one, and the pod webhook gives a Secret that of a
ConfigMap's revision. -/
theorem askedRed_discord :
    (Course askedRed ∧ ¬ (Rewrite.reconcile .configMap "shop" "settings").Accords askedRed) ∧
      AllUnmixed multiEnvSecrets ∧
      ¬ (Rewrite.copy .secret multiEnvSecret "aaaaa").Accords multiEnvSecrets := by
  have held : askingRed ∈ askedRed.objects .configMap := List.mem_singleton_self _
  have names : ¬ NamesRevision (askedRed.revisions .configMap) askingRed := by
    rintro ⟨revision, member, _, _, version, called⟩
    rcases List.mem_pair.mp member with rfl | rfl
    · exact absurd called (by decide)
    · exact absurd version (by decide)
  have listed : (askedRed.revisions .configMap).select (marked "shop" "settings" "current") =
      [settingsCCM "blue" "bbbbb" ["current", "latest"] 2] := by decide
  have found : (askedRed.revisions .configMap).find? ("shop", "settings" ++ "-" ++ "aaaaa") =
      some (settingsCCM "red" "aaaaa" [] 1) := by decide
  have stored : (multiEnvSecrets.revisions .secret).find? ("shop", "config-multi-env-files" ++ "-" ++ "aaaaa") =
      some (multiEnvCS "aaaaa" 1 [] 1) := by decide
  refine ⟨⟨?_, fun accords => ?_⟩, ?_, fun accords => ?_⟩
  · have painted : Course paintedBlue := course_of_noSecrets rfl rfl
    exact .edit painted rfl fun secret member => absurd member (Table.not_mem_empty secret)
  · have careful := (Rewrite.accords_iff (by trivial)).mp accords
    exact names (careful askingRed held rfl (by decide) _ _ listed (by decide) found trivial)
  · constructor
    · intro kind object member
      cases kind with
      | configMap => trivial
      | secret =>
        obtain rfl := List.mem_singleton.mp member
        exact (by decide : Unmixed multiEnvSecret.annotations)
    · intro kind revision member
      cases kind with
      | configMap => trivial
      | secret =>
        rcases List.mem_pair.mp member with rfl | rfl
        · exact (by decide : Unmixed (multiEnvCS "aaaaa" 1 [] 1).spec.secretAnnotations)
        · exact (by decide : Unmixed (multiEnvCS "bbbbb" 2 ["current", "latest"] 2).spec.secretAnnotations)
  · have held : multiEnvSecret ∈ multiEnvSecrets.objects .secret := List.mem_singleton_self _
    have careful := (@Rewrite.accords_iff _ (.copy .secret multiEnvSecret "aaaaa") held).mp accords
    exact (careful _ stored (by decide)).2 (by decide)

end Sample

end Configurator
