import Configurator.Library.Interference
import Configurator.Reactions
import Configurator.Reconciliation
import Configurator.Rollback

/-! A roll-back of the pod webhook against running reconciles of the same ConfigMap. Both
move the label `current` from the old revision to the pinned one, in opposite orders. -/
namespace Configurator

open Resource

/-- The two parties that move the label. -/
inductive Mover where
  | webhook
  | reconciler
  deriving DecidableEq

/-- One ConfigMap, rolled back by the webhook and reconciled, call by call. The calls of
the webhook meet a condition. -/
def contending (configMap : Object .configMap) (target : Revision .configMap)
    (meets : Cluster → Call → Prop) : System Cluster Call Answer ApiError Unit Mover where
  react mover cluster request after answer :=
    cluster.serve request = (after, answer) ∧ (mover = .webhook → meets cluster request)
  environment _ _ := False
  starts
    | .webhook, program =>
      program = PodWebhook.copyCCMToCM (configMap.naming target.customVersion)
    | .reconciler, program =>
      program = ConfigMapReconciler.reconcile configMap.ns configMap.name

/-- A list of current revisions does not begin with the pinned one. -/
def ListsOther (target : Revision .configMap) (cluster : Cluster) : Call → Prop
  | .listRevisions kind ns labels =>
    ∀ first ∈ ((cluster.revisions kind).select fun revision => revision.matches ns labels).head?,
      key first ≠ key target
  | _ => True

/-- The ConfigMap whose name stands in the selector agrees with its old revision, and the
pinned one is another. -/
structure Pinning (configMap : Object .configMap) (target old : Revision .configMap) : Prop where
  selected : configMap.name = PodWebhook.selectedName
  version : configMap.currentVersion = old.customVersion
  agrees : differs configMap old = false
  filled : old.customVersion ≠ "" ∧ target.customVersion ≠ ""
  different : target.customVersion ≠ old.customVersion
  targetNs : target.ns = configMap.ns
  targetOwned : target.Labelled "name" configMap.name
  targetName : target.name = configMap.name ++ "-" ++ target.customVersion
  targetPlain : ¬ target.Labelled "current" "true"
  oldNs : old.ns = configMap.ns
  oldOwned : old.Labelled "name" configMap.name
  oldMarked : old.Labelled "current" "true"

/-- The ConfigMap as the roll-back leaves it. -/
def RolledBack (configMap : Object .configMap) (target : Revision .configMap)
    (stored : Object .configMap) : Prop :=
  key stored = key configMap ∧ stored.currentVersion = target.customVersion ∧
    stored.content.data = target.spec.data ∧ stored.content.binaryData = target.spec.binaryData

/-- What both parties keep: the ConfigMap is untouched or rolled back, the pinned revision
is untouched or labelled, the old one is untouched or stripped, no other revision is
labelled, and the labels do not move before the ConfigMap. -/
structure Turning (configMap : Object .configMap) (target old : Revision .configMap)
    (cluster : Cluster) : Prop where
  seen : (cluster.objects .configMap).Seen configMap
  seenTarget : (cluster.revisions .configMap).Seen target
  seenOld : (cluster.revisions .configMap).Seen old
  config : ∃ stored ∈ cluster.objects .configMap,
    stored = configMap ∨ RolledBack configMap target stored
  pinned : ∃ ccm ∈ cluster.revisions .configMap, target.Relabelled ccm ∧
    (ccm = target ∨ ccm.Labelled "current" "true")
  former : ∃ ccm ∈ cluster.revisions .configMap, old.Relabelled ccm ∧
    (ccm = old ∨ ¬ ccm.Labelled "current" "true")
  marks : ∀ ccm ∈ cluster.revisions .configMap,
    marked configMap.ns configMap.name "current" ccm = true →
      key ccm = key target ∨ key ccm = key old
  early : configMap ∈ cluster.objects .configMap →
    target ∈ cluster.revisions .configMap ∧ old ∈ cluster.revisions .configMap

namespace Turning

variable {configMap : Object .configMap} {target old : Revision .configMap} {cluster : Cluster}

theorem at_config (turning : Turning configMap target old cluster) {stored : Object .configMap}
    (member : stored ∈ cluster.objects .configMap) (same : key stored = key configMap) :
    stored = configMap ∨ RolledBack configMap target stored := by
  obtain ⟨found, present, which⟩ := turning.config
  have keys : key found = key configMap := by
    rcases which with rfl | rolled
    · rfl
    · exact rolled.1
  rw [Table.unique member present (same.trans keys.symm)]
  exact which

theorem at_target (turning : Turning configMap target old cluster) {ccm : Revision .configMap}
    (member : ccm ∈ cluster.revisions .configMap) (same : key ccm = key target) :
    target.Relabelled ccm ∧ (ccm = target ∨ ccm.Labelled "current" "true") := by
  obtain ⟨found, present, relabelled, which⟩ := turning.pinned
  rw [Table.unique member present (same.trans relabelled.key_eq.symm)]
  exact ⟨relabelled, which⟩

theorem at_old (turning : Turning configMap target old cluster) {ccm : Revision .configMap}
    (member : ccm ∈ cluster.revisions .configMap) (same : key ccm = key old) :
    old.Relabelled ccm ∧ (ccm = old ∨ ¬ ccm.Labelled "current" "true") := by
  obtain ⟨found, present, relabelled, which⟩ := turning.former
  rw [Table.unique member present (same.trans relabelled.key_eq.symm)]
  exact ⟨relabelled, which⟩

theorem apart (turning : Turning configMap target old cluster)
    (different : target.customVersion ≠ old.customVersion) : key target ≠ key old := by
  obtain ⟨found, present, relabelled, _⟩ := turning.pinned
  intro same
  have other := (turning.at_old present (relabelled.key_eq.trans same)).1
  exact different (relabelled.customVersion_eq.symm.trans other.customVersion_eq)

theorem rolledBack (turning : Turning configMap target old cluster)
    (moved : configMap ∉ cluster.objects .configMap) {stored : Object .configMap}
    (member : stored ∈ cluster.objects .configMap) (same : key stored = key configMap) :
    RolledBack configMap target stored := by
  rcases turning.at_config member same with rfl | rolled
  · exact absurd member moved
  · exact rolled

theorem label (turning : Turning configMap target old cluster)
    (moved : configMap ∉ cluster.objects .configMap) (apart : key target ≠ key old)
    (plain : ¬ target.Labelled "current" "true")
    {ccm answer : Revision .configMap} {next : Table (Revision .configMap)}
    (read : (cluster.revisions .configMap).Seen ccm) (same : key ccm = key target)
    (accepted : (cluster.revisions .configMap).update
      { ccm with labels := ccm.labels.put "current" "true" } = .ok (answer, next)) :
    Turning configMap target old (cluster.withRevisions .configMap next) ∧ target ∉ next ∧
      (old ∈ cluster.revisions .configMap → old ∈ next) := by
  obtain ⟨⟨entry, present, sameKey, sameVersion⟩, written⟩ := Table.written_of_update accepted
  have member : ccm ∈ cluster.revisions .configMap := read.same present sameKey sameVersion ▸ present
  obtain ⟨relabelled, _⟩ := turning.at_target member same
  have sentKey : key { ccm with labels := ccm.labels.put "current" "true" } = key target := same
  have answerKey : key answer = key target := written.key_eq.trans sentKey
  have labelled : ∀ label value, answer.Labelled label value ↔
      if label = "current" then "true" = value else ccm.Labelled label value := by
    intro label value
    rw [written.answered, Revision.labelled_put _ _ rfl]
  have again := written.relabelled_label member (Or.inl rfl)
  have carries : answer.Labelled "current" "true" := (labelled _ _).mpr (by simp)
  have keepsOld : ∀ ccm ∈ cluster.revisions .configMap, key ccm = key old → ccm ∈ next :=
    fun ccm present its => written.mem_of_ne present (by rw [sentKey, its]; exact Ne.symm apart)
  refine ⟨⟨turning.seen, by simpa using turning.seenTarget.later written.later,
    by simpa using turning.seenOld.later written.later, turning.config, ?_, ?_, ?_, ?_⟩, ?_, ?_⟩
  · exact ⟨answer, by simpa using written.mem, relabelled.trans again, Or.inr carries⟩
  · obtain ⟨found, present, its, which⟩ := turning.former
    exact ⟨found, by simpa using keepsOld found present its.key_eq, its, which⟩
  · intro other present marks
    rw [Cluster.withRevisions_revisions] at present
    rcases (written.members other).mp present with rfl | ⟨was, _⟩
    · exact Or.inl answerKey
    · exact turning.marks other was marks
  · exact fun untouched => absurd untouched moved
  · intro still
    have equal : answer = target := Table.unique written.mem still answerKey
    exact plain (equal ▸ carries)
  · exact fun present => keepsOld old present rfl

theorem strip (turning : Turning configMap target old cluster)
    (moved : configMap ∉ cluster.objects .configMap) (apart : key target ≠ key old)
    (marked : old.Labelled "current" "true")
    {answer : Revision .configMap} {next : Table (Revision .configMap)}
    (accepted : (cluster.revisions .configMap).update (old.unlabel "current") = .ok (answer, next)) :
    Turning configMap target old (cluster.withRevisions .configMap next) ∧ old ∉ next := by
  obtain ⟨⟨entry, present, sameKey, sameVersion⟩, written⟩ := Table.written_of_update accepted
  have member : old ∈ cluster.revisions .configMap :=
    turning.seenOld.same present sameKey sameVersion ▸ present
  have relabelled := written.relabelled_unlabel member (Or.inl rfl)
  have plain : ¬ answer.Labelled "current" "true" :=
    fun carries => (written.labelled_unlabel.mp carries).1 rfl
  have keepsTarget : ∀ ccm ∈ cluster.revisions .configMap, key ccm = key target → ccm ∈ next :=
    fun ccm present its => written.mem_of_ne present (by rw [its]; exact apart)
  refine ⟨⟨turning.seen, by simpa using turning.seenTarget.later written.later,
    by simpa using turning.seenOld.later written.later, turning.config, ?_, ?_, ?_, ?_⟩, ?_⟩
  · obtain ⟨found, present, its, which⟩ := turning.pinned
    exact ⟨found, by simpa using keepsTarget found present its.key_eq, its, which⟩
  · exact ⟨answer, by simpa using written.mem, relabelled, Or.inr plain⟩
  · intro other present marks
    rw [Cluster.withRevisions_revisions] at present
    rcases (written.members other).mp present with rfl | ⟨was, _⟩
    · exact Or.inr written.key_eq
    · exact turning.marks other was marks
  · exact fun untouched => absurd untouched moved
  · intro still
    have equal : answer = old := Table.unique written.mem still written.key_eq
    exact plain (equal ▸ marked)

theorem rollBack (turning : Turning configMap target old cluster)
    {ccm : Revision .configMap} (relabelled : target.Relabelled ccm)
    (stored : ccm.spec.stored = ccm.spec)
    (different : target.customVersion ≠ configMap.currentVersion)
    {restored answer : Object .configMap} {next : Table (Object .configMap)}
    (copied : PodWebhook.restore? (configMap.naming target.customVersion) ccm = some restored)
    (accepted : (cluster.objects .configMap).update restored = .ok (answer, next)) :
    configMap ∈ cluster.objects .configMap ∧
      Turning configMap target old (cluster.withObjects .configMap next) ∧ configMap ∉ next := by
  have kept := PodWebhook.restored_of_restore? copied
  obtain ⟨⟨entry, present, sameKey, sameVersion⟩, written⟩ := Table.written_of_update accepted
  have restoredKey : key restored = key configMap := kept.key
  have member : configMap ∈ cluster.objects .configMap := by
    have equal : entry = configMap :=
      turning.seen.same present (sameKey.trans restoredKey) (sameVersion.trans kept.version)
    exact equal ▸ present
  have rolled : RolledBack configMap target answer := by
    have made : (configMap.naming target.customVersion).annotations ≠ .nil := by
      simp [Object.naming]
    rw [PodWebhook.restore?_configMap made, Option.some.injEq] at copied
    have data : ccm.spec.data.omitEmpty = ccm.spec.data := congrArg CustomConfigMapSpec.data stored
    have binaryData : ccm.spec.binaryData.omitEmpty = ccm.spec.binaryData :=
      congrArg CustomConfigMapSpec.binaryData stored
    refine ⟨written.key_eq.trans restoredKey, ?_, ?_, ?_⟩
    · rw [written.answered, Object.currentVersion_stamp, kept.current, Object.currentVersion_naming]
    · rw [written.answered, ← copied, ← relabelled.spec]
      exact data
    · rw [written.answered, ← copied, ← relabelled.spec]
      exact binaryData
  have moved : configMap ∉ next := by
    intro still
    have equal : answer = configMap := Table.unique written.mem still rolled.1
    exact different (equal ▸ rolled.2.1).symm
  refine ⟨member, ⟨by simpa using turning.seen.later written.later, turning.seenTarget,
    turning.seenOld, ⟨answer, by simpa using written.mem, Or.inr rolled⟩, turning.pinned,
    turning.former, turning.marks, fun untouched => absurd (by simpa using untouched) moved⟩, moved⟩

end Turning

section Rules

variable (configMap : Object .configMap) (target old : Revision .configMap)

/-- What the reconciler relies on and the webhook guarantees. -/
structure TurnedByWebhook (before after : Cluster) : Prop where
  objects : (before.objects .configMap).Later (after.objects .configMap)
  revisions : (before.revisions .configMap).Later (after.revisions .configMap)
  turning : Turning configMap target old before → Turning configMap target old after

/-- What the webhook relies on and the reconciler guarantees: the ConfigMap stays, and the
old revision is stripped only once the pinned one is labelled. -/
structure TurnedByReconciler (before after : Cluster) : Prop where
  objects : after.objects .configMap = before.objects .configMap
  revisions : (before.revisions .configMap).Later (after.revisions .configMap)
  turning : Turning configMap target old before → Turning configMap target old after
  order : Turning configMap target old before → old ∈ before.revisions .configMap →
    old ∉ after.revisions .configMap → target ∉ after.revisions .configMap

/-- The webhook has nothing in flight: the ConfigMap is untouched, or both labels have moved. -/
structure Rested (cluster : Cluster) : Prop extends Turning configMap target old cluster where
  rest : configMap ∈ cluster.objects .configMap ∨
    target ∉ cluster.revisions .configMap ∧ old ∉ cluster.revisions .configMap

variable {configMap target old}

theorem TurnedByWebhook.refl (cluster : Cluster) : TurnedByWebhook configMap target old cluster cluster :=
  ⟨.refl _, .refl _, id⟩

theorem TurnedByWebhook.trans {first second third : Cluster}
    (earlier : TurnedByWebhook configMap target old first second)
    (later : TurnedByWebhook configMap target old second third) :
    TurnedByWebhook configMap target old first third :=
  ⟨earlier.objects.trans later.objects, earlier.revisions.trans later.revisions,
    fun turning => later.turning (earlier.turning turning)⟩

theorem TurnedByReconciler.refl (cluster : Cluster) :
    TurnedByReconciler configMap target old cluster cluster :=
  ⟨rfl, .refl _, id, fun _ member gone => absurd member gone⟩

theorem TurnedByReconciler.trans {first second third : Cluster}
    (earlier : TurnedByReconciler configMap target old first second)
    (later : TurnedByReconciler configMap target old second third) :
    TurnedByReconciler configMap target old first third where
  objects := later.objects.trans earlier.objects
  revisions := earlier.revisions.trans later.revisions
  turning := fun turning => later.turning (earlier.turning turning)
  order := by
    intro turning member gone
    have middle := earlier.turning turning
    by_cases still : old ∈ second.revisions .configMap
    · exact later.order middle still gone
    · exact middle.seenTarget.gone later.revisions (earlier.order turning member still)

theorem Rested.later {before after : Cluster}
    (moves : TurnedByReconciler configMap target old before after)
    (rested : Rested configMap target old before) : Rested configMap target old after where
  toTurning := moves.turning rested.toTurning
  rest := by
    rcases rested.rest with untouched | ⟨noTarget, noOld⟩
    · exact Or.inl (moves.objects ▸ untouched)
    · exact Or.inr ⟨rested.seenTarget.gone moves.revisions noTarget,
        rested.seenOld.gone moves.revisions noOld⟩

end Rules

section Reconciler

variable {configMap object : Object .configMap} {target old : Revision .configMap}
  {meets : Cluster → Call → Prop} {cluster : Cluster} {α : Type}

/-- The rules of the reconciler. -/
def moverRules (configMap : Object .configMap) (target old : Revision .configMap)
    (meets : Cluster → Call → Prop) : Rules Cluster Call Answer where
  react := (contending configMap target meets).react .reconciler
  rely := TurnedByWebhook configMap target old
  guarantee before _ after := TurnedByReconciler configMap target old before after

/-- A part of a reconcile that keeps to the rules. -/
abbrev SafeMove (configMap : Object .configMap) (target old : Revision .configMap)
    (meets : Cluster → Call → Prop) (program : Client α) (cluster : Cluster) : Prop :=
  program.Safe (moverRules configMap target old meets)
    (fun after _ => Turning configMap target old after) cluster

theorem safeMove_end {program : Client α} (finished : program.Finished)
    (turning : Turning configMap target old cluster) :
    SafeMove configMap target old meets program cluster := by
  cases program with
  | ret | fail | panic => exact fun later moves => moves.turning turning
  | call request next => exact finished.elim

/-- The ConfigMap as a reconcile holds it once it has moved. -/
structure HeldMoved (configMap object : Object .configMap) (target old : Revision .configMap)
    (cluster : Cluster) : Prop extends Turning configMap target old cluster where
  held : (cluster.objects .configMap).Seen object
  which : object = configMap ∨ RolledBack configMap target object
  moved : configMap ∉ cluster.objects .configMap

theorem HeldMoved.later {before after : Cluster} (moves : TurnedByWebhook configMap target old before after)
    (held : HeldMoved configMap object target old before) :
    HeldMoved configMap object target old after :=
  ⟨moves.turning held.toTurning, held.held.later moves.objects, held.which,
    held.seen.gone moves.objects held.moved⟩

theorem safeMove_call {request : Call} {next : Answer request → Client α}
    (held : HeldMoved configMap object target old cluster)
    (step : ∀ before after answer, HeldMoved configMap object target old before →
      before.serve request = (after, answer) →
        TurnedByReconciler configMap target old before after ∧
          SafeMove configMap target old meets (next answer) after) :
    SafeMove configMap target old meets (.call request next) cluster :=
  Program.Safe.call (HeldMoved configMap object target old) HeldMoved.later held
    fun before after answer held reacts => step before after answer held reacts.1

theorem safe_relabel (pinning : Pinning configMap target old) {ccm : Revision .configMap}
    (read : (cluster.revisions .configMap).Seen ccm) (same : key ccm = key target)
    (held : HeldMoved configMap object target old cluster) :
    SafeMove configMap target old meets (do
      let labelled ← Program.orPanic (relabel? ccm)
      let _ ← updateRevision labelled
      let _ ← updateRevision (old.unlabel "current")) cluster := by
  have apart := held.apart pinning.different
  cases relabel : relabel? ccm with
  | none => exact safeMove_end trivial held.toTurning
  | some labelled =>
    obtain rfl := relabel?_eq_some relabel
    refine Program.Safe.call
      (fun cluster => HeldMoved configMap object target old cluster ∧
        (cluster.revisions .configMap).Seen ccm)
      (fun moves held => ⟨held.1.later moves, held.2.later moves.revisions⟩) ⟨held, read⟩ ?_
    rintro before after answer ⟨held, read⟩ ⟨served, _⟩
    rcases Cluster.updateRevision_cases served with
      ⟨rfl, refusal, _, rfl⟩ | ⟨stored, revisions, accepted, rfl, rfl⟩
    · exact ⟨.refl _, safeMove_end trivial held.toTurning⟩
    · obtain ⟨turning, promoted, keeps⟩ :=
        held.label held.moved apart pinning.targetPlain read same accepted
      have later := (Table.written_of_update accepted).2.later
      refine ⟨⟨rfl, by simpa using later, fun _ => turning, fun _ present gone => ?_⟩, ?_⟩
      · exact absurd (keeps present) (by simpa using gone)
      · refine Program.Safe.call
          (fun cluster => HeldMoved configMap object target old cluster ∧
            target ∉ cluster.revisions .configMap)
          (fun moves held => ⟨held.1.later moves, held.1.seenTarget.gone moves.revisions held.2⟩)
          ⟨⟨turning, held.held, held.which, held.moved⟩, by simpa using promoted⟩ ?_
        rintro middle after answer ⟨held, promoted⟩ ⟨served, _⟩
        rcases Cluster.updateRevision_cases served with
          ⟨rfl, refusal, _, rfl⟩ | ⟨stored, revisions, accepted, rfl, rfl⟩
        · exact ⟨.refl _, safeMove_end trivial held.toTurning⟩
        · obtain ⟨turning, _⟩ := held.strip held.moved apart pinning.oldMarked accepted
          have later := (Table.written_of_update accepted).2.later
          refine ⟨⟨rfl, by simpa using later, fun _ => turning, fun _ _ _ => ?_⟩,
            safeMove_end trivial turning⟩
          simpa using held.seenTarget.gone later promoted

/-- A rolled back ConfigMap has nothing to copy from its revision. -/
theorem RolledBack.restore?_eq (rolled : RolledBack configMap target object) {ccm : Revision .configMap}
    (relabelled : target.Relabelled ccm) : restore? object ccm = some object := by
  obtain ⟨_, _, data, binaryData⟩ := rolled
  simp only [restore?, relabelled.spec, ← data, ← binaryData]
  rfl

/-- Once the ConfigMap has moved a copy of a revision changes nothing but labels. -/
theorem safe_copyRevision (pinning : Pinning configMap target old) {current : Revision .configMap}
    (isOld : RolledBack configMap target object → current = old)
    (held : HeldMoved configMap object target old cluster) :
    SafeMove configMap target old meets (do
      copyRevision object
      let _ ← updateRevision (current.unlabel "current")) cluster := by
  simp only [copyRevision, getRevision, updateObject, bind_assoc, Program.request_bind,
    Program.call_bind]
  refine safeMove_call held fun before after answer held served => ?_
  obtain ⟨rfl, ⟨error, rfl⟩ | ⟨ccm, member, named, rfl⟩⟩ := Cluster.getRevision_cases served
  · exact ⟨.refl _, safeMove_end trivial held.toTurning⟩
  refine ⟨.refl _, ?_⟩
  have earlier := held.toTurning
  simp only [Program.ofExcept_ok, Program.ret_bind]
  cases copied : restore? object ccm with
  | none => exact safeMove_end trivial held.toTurning
  | some restored =>
    have kept := restored_of_restore? copied
    refine Program.Safe.call
      (fun cluster => HeldMoved configMap object target old cluster ∧
        (cluster.revisions .configMap).Seen ccm)
      (fun moves held => ⟨held.1.later moves, held.2.later moves.revisions⟩)
      ⟨held, .of_mem member⟩ ?_
    rintro before after answer ⟨held, read⟩ ⟨served, _⟩
    rcases Cluster.updateObject_cases served with
      ⟨rfl, refusal, _, rfl⟩ | ⟨stored, objects, accepted, rfl, rfl⟩
    · exact ⟨.refl _, safeMove_end trivial held.toTurning⟩
    -- The update was made from the stored ConfigMap, which is rolled back.
    obtain ⟨⟨entry, present, sameKey, sameVersion⟩, _⟩ := Table.written_of_update accepted
    have current : object ∈ before.objects .configMap :=
      held.held.same present (sameKey.trans kept.key) (sameVersion.trans kept.version) ▸ present
    have rolled : RolledBack configMap target object := by
      rcases held.which with rfl | rolled
      · exact absurd current held.moved
      · exact rolled
    have sameTarget : key ccm = key target := by
      rw [named, rolled.2.1]
      exact Prod.ext ((congrArg Prod.fst rolled.1).trans pinning.targetNs.symm)
        ((congrArg (· ++ "-" ++ target.customVersion) (congrArg Prod.snd rolled.1)).trans
          pinning.targetName.symm)
    have relabelled := (earlier.at_target member sameTarget).1
    rw [rolled.restore?_eq relabelled, Option.some.injEq] at copied
    subst copied
    rw [Table.update_self current, Except.ok.injEq, Prod.mk.injEq] at accepted
    obtain ⟨rfl, rfl⟩ := accepted
    have unchanged : (before.withObjects .configMap (before.objects .configMap)) = before := by
      simp [Cluster.withObjects]
    rw [unchanged, isOld rolled]
    exact ⟨.refl _, safe_relabel pinning read sameTarget held⟩

theorem RolledBack.agrees (rolled : RolledBack configMap target object) {ccm : Revision .configMap}
    (relabelled : target.Relabelled ccm) : differs object ccm = false := by
  obtain ⟨_, _, data, binaryData⟩ := rolled
  simp [differs, relabelled.spec, data, binaryData]

theorem safe_synchronized (pinning : Pinning configMap target old)
    (turning : Turning configMap target old cluster) (read : (cluster.objects .configMap).Seen object)
    (own : key object = key configMap)
    (which : object = configMap ∨
      RolledBack configMap target object ∧ configMap ∉ cluster.objects .configMap) :
    SafeMove configMap target old meets (synchronize object) cluster := by
  simp only [synchronize, listRevisions, Program.request_bind, Program.call_bind]
  refine Program.Safe.call
    (fun cluster => Turning configMap target old cluster ∧ (cluster.objects .configMap).Seen object ∧
      (object = configMap ∨
        RolledBack configMap target object ∧ configMap ∉ cluster.objects .configMap))
    (fun moves held => ⟨moves.turning held.1, held.2.1.later moves.objects,
      held.2.2.imp_right fun rolled => ⟨rolled.1, held.1.seen.gone moves.objects rolled.2⟩⟩)
    ⟨turning, read, which⟩ ?_
  rintro before after answer ⟨turning, read, which⟩ ⟨served, _⟩
  obtain ⟨rfl, rfl⟩ := Cluster.listRevisions_cases served
  refine ⟨.refl _, ?_⟩
  simp only [Program.ofExcept_ok, Program.ret_bind]
  cases list : (after.revisions .configMap).select
      (fun revision => revision.matches object.ns [("name", object.name), ("current", "true")]) with
  | nil => exact safeMove_end trivial turning
  | cons current others =>
    cases others with
    | cons second others => exact safeMove_end trivial turning
    | nil =>
      obtain ⟨member, carries, _⟩ := Table.select_eq_singleton.mp list
      have labelled := (marked_iff.mp carries).2.2
      have same : object.ns = configMap.ns ∧ object.name = configMap.name :=
        ⟨congrArg Prod.fst own, congrArg Prod.snd own⟩
      rw [same.1, same.2] at carries
      rcases turning.marks current member carries with isTarget | isOld
      · obtain ⟨relabelled, _⟩ := turning.at_target member isTarget
        have version := relabelled.customVersion_eq
        rcases which with rfl | ⟨rolled, _⟩
        · have moved : object ∉ after.objects .configMap := by
            intro untouched
            have plain := Table.unique member (turning.early untouched).1 isTarget
            exact pinning.targetPlain (plain ▸ labelled)
          have other : current.customVersion ≠ object.currentVersion := by
            rw [version, pinning.version]
            exact pinning.different
          simp only [other, ne_eq, not_false_eq_true, if_true]
          refine safe_copyRevision pinning (fun rolled => ?_) ⟨turning, read, Or.inl rfl, moved⟩
          exact absurd (version.trans rolled.2.1.symm) other
        · simp only [version, rolled.2.1, rolled.agrees relabelled, ne_eq, not_true_eq_false, if_false,
            Bool.false_eq_true]
          exact safeMove_end trivial turning
      · obtain ⟨_, rfl | plain⟩ := turning.at_old member isOld
        · rcases which with rfl | ⟨rolled, moved⟩
          · simp only [pinning.version, pinning.agrees, ne_eq, not_true_eq_false, if_false,
              Bool.false_eq_true]
            exact safeMove_end trivial turning
          · have other : current.customVersion ≠ object.currentVersion := by
              rw [rolled.2.1]
              exact Ne.symm pinning.different
            simp only [other, ne_eq, not_false_eq_true, if_true]
            exact safe_copyRevision pinning (fun _ => rfl) ⟨turning, read, Or.inr rolled, moved⟩
        · exact absurd labelled plain

theorem safe_contender (pinning : Pinning configMap target old)
    (turning : Turning configMap target old cluster) :
    SafeMove configMap target old meets
      (ConfigMapReconciler.reconcile configMap.ns configMap.name) cluster := by
  refine Program.Safe.call (Turning configMap target old) (fun moves => moves.turning) turning ?_
  rintro before after answer turning ⟨served, _⟩
  obtain ⟨rfl, ⟨error, rfl⟩ | ⟨object, member, own, rfl⟩⟩ := Cluster.getObject_cases served
  · exact ⟨.refl _, safeMove_end trivial turning⟩
  refine ⟨.refl _, ?_⟩
  have which := turning.at_config member own
  have versioned : object.currentVersion ≠ "" := by
    rcases which with rfl | rolled
    · exact pinning.version ▸ pinning.filled.1
    · exact rolled.2.1 ▸ pinning.filled.2
  show SafeMove configMap target old meets
    (if object.currentVersion = "" then adoptOrCreate object else synchronize object) after
  rw [if_neg versioned]
  refine safe_synchronized pinning turning (.of_mem member) own (which.imp_right fun rolled =>
    ⟨rolled, fun untouched => ?_⟩)
  have equal : object = configMap := Table.unique member untouched own
  exact pinning.different (rolled.2.1.symm.trans (equal ▸ pinning.version))

end Reconciler

section Webhook

variable {configMap : Object .configMap} {target old ccm : Revision .configMap} {cluster : Cluster}
  {α : Type}

/-- The rules of the webhook, which lists another revision than the pinned one first. -/
def rollerRules (configMap : Object .configMap) (target old : Revision .configMap) :
    Rules Cluster Call Answer where
  react := (contending configMap target (ListsOther target)).react .webhook
  rely := TurnedByReconciler configMap target old
  guarantee before _ after := TurnedByWebhook configMap target old before after

/-- A part of a roll-back that keeps to the rules. -/
abbrev SafeRoll (configMap : Object .configMap) (target old : Revision .configMap)
    (program : Client α) (cluster : Cluster) : Prop :=
  program.Safe (rollerRules configMap target old) (fun after _ => Rested configMap target old after)
    cluster

theorem safeRoll_end {program : Client α} (finished : program.Finished)
    (rested : Rested configMap target old cluster) : SafeRoll configMap target old program cluster := by
  cases program with
  | ret | fail | panic => exact fun later moves => rested.later moves
  | call request next => exact finished.elim

/-- The roll-back has read the pinned revision: if that copy is labelled, so is the revision. -/
structure HeldTarget (configMap : Object .configMap) (target old ccm : Revision .configMap)
    (cluster : Cluster) : Prop extends Turning configMap target old cluster where
  read : (cluster.revisions .configMap).Seen ccm
  copy : target.Relabelled ccm
  fresh : ccm = target ∨ target ∉ cluster.revisions .configMap

theorem HeldTarget.later {before after : Cluster}
    (moves : TurnedByReconciler configMap target old before after)
    (held : HeldTarget configMap target old ccm before) :
    HeldTarget configMap target old ccm after :=
  ⟨moves.turning held.toTurning, held.read.later moves.revisions, held.copy,
    held.fresh.imp_right (held.seenTarget.gone moves.revisions)⟩

/-- Without the old label the roll-back gives the pinned revision its own, unless a
reconcile has done so. -/
theorem safe_promote (pinning : Pinning configMap target old)
    (held : HeldTarget configMap target old ccm cluster)
    (moved : configMap ∉ cluster.objects .configMap) (stripped : old ∉ cluster.revisions .configMap) :
    SafeRoll configMap target old (do
      let labelled ← Program.orPanic (PodWebhook.relabel? ccm)
      let _ ← updateRevision labelled) cluster := by
  have owned : ccm.Labelled "name" configMap.name := (held.copy.owned _).mpr pinning.targetOwned
  simp only [PodWebhook.relabel?_of_labelled owned, Program.orPanic_some, Program.ret_bind]
  refine Program.Safe.call
    (fun cluster => HeldTarget configMap target old ccm cluster ∧
      configMap ∉ cluster.objects .configMap ∧ old ∉ cluster.revisions .configMap)
    (fun moves held => ⟨held.1.later moves, moves.objects ▸ held.2.1,
      held.1.seenOld.gone moves.revisions held.2.2⟩) ⟨held, moved, stripped⟩ ?_
  rintro before after answer ⟨held, moved, stripped⟩ ⟨served, _⟩
  rcases Cluster.updateRevision_cases served with
    ⟨rfl, refusal, refused, rfl⟩ | ⟨stored, revisions, accepted, rfl, rfl⟩
  · refine ⟨.refl _, safeRoll_end trivial ⟨held.toTurning, Or.inr ⟨?_, stripped⟩⟩⟩
    rcases held.fresh with rfl | promoted
    · intro untouched
      obtain ⟨_, _, ok, _⟩ := Table.update_of_current
        { ccm with labels := ccm.labels.put "current" "true" } untouched rfl rfl
      cases ok.symm.trans refused
    · exact promoted
  · obtain ⟨turning, promoted, _⟩ := held.label moved (held.apart pinning.different)
      pinning.targetPlain held.read held.copy.key_eq accepted
    have later := (Table.written_of_update accepted).2.later
    refine ⟨⟨.refl _, by simpa using later, fun _ => turning⟩,
      safeRoll_end trivial ⟨turning, Or.inr ⟨by simpa using promoted, ?_⟩⟩⟩
    simpa using held.seenOld.gone later stripped

/-- The roll-back has moved the ConfigMap, and the labels are changed in their order. -/
structure Demoting (configMap : Object .configMap) (target old ccm : Revision .configMap)
    (cluster : Cluster) : Prop extends HeldTarget configMap target old ccm cluster where
  moved : configMap ∉ cluster.objects .configMap
  order : old ∈ cluster.revisions .configMap ∨ target ∉ cluster.revisions .configMap

theorem Demoting.later {before after : Cluster} (moves : TurnedByReconciler configMap target old before after)
    (demoting : Demoting configMap target old ccm before) : Demoting configMap target old ccm after := by
  refine ⟨demoting.toHeldTarget.later moves, moves.objects ▸ demoting.moved, ?_⟩
  by_cases still : old ∈ after.revisions .configMap
  · exact Or.inl still
  · rcases demoting.order with member | promoted
    · exact Or.inr (moves.order demoting.toTurning member still)
    · exact Or.inr (demoting.seenTarget.gone moves.revisions promoted)

/-- One of the two revisions is labelled. -/
theorem Demoting.exists_marked (pinning : Pinning configMap target old)
    (demoting : Demoting configMap target old ccm cluster) :
    ∃ revision ∈ cluster.revisions .configMap, marked configMap.ns configMap.name "current" revision = true := by
  rcases demoting.order with member | promoted
  · exact ⟨old, member, marked_iff.mpr ⟨pinning.oldNs, pinning.oldOwned, pinning.oldMarked⟩⟩
  · obtain ⟨found, present, relabelled, rfl | labelled⟩ := demoting.pinned
    · exact absurd present promoted
    · exact ⟨found, present, marked_iff.mpr ⟨relabelled.ns.trans pinning.targetNs,
        (relabelled.owned _).mpr pinning.targetOwned, labelled⟩⟩

/-- The old revision loses its label before the pinned one gets it. -/
theorem safe_strip (pinning : Pinning configMap target old)
    (demoting : Demoting configMap target old ccm cluster) :
    SafeRoll configMap target old (do
      let _ ← updateRevision (old.unlabel "current")
      let labelled ← Program.orPanic (PodWebhook.relabel? ccm)
      let _ ← updateRevision labelled) cluster := by
  refine Program.Safe.call _ Demoting.later demoting ?_
  rintro before after answer demoting ⟨served, _⟩
  rcases Cluster.updateRevision_cases served with
    ⟨rfl, refusal, refused, rfl⟩ | ⟨stored, revisions, accepted, rfl, rfl⟩
  · have stripped : old ∉ after.revisions .configMap := by
      intro untouched
      obtain ⟨_, _, ok, _⟩ := Table.update_of_current (old.unlabel "current") untouched rfl rfl
      cases ok.symm.trans refused
    exact ⟨.refl _, safeRoll_end trivial
      ⟨demoting.toTurning, Or.inr ⟨demoting.order.resolve_left stripped, stripped⟩⟩⟩
  · obtain ⟨turning, stripped⟩ :=
      demoting.strip demoting.moved (demoting.apart pinning.different) pinning.oldMarked accepted
    have later := (Table.written_of_update accepted).2.later
    refine ⟨⟨.refl _, by simpa using later, fun _ => turning⟩, safe_promote pinning
      ⟨turning, by simpa using demoting.read.later later, demoting.copy, ?_⟩ demoting.moved
      (by simpa using stripped)⟩
    exact demoting.fresh.imp_right fun promoted => by simpa using demoting.seenTarget.gone later promoted

/-- The list begins with the old revision, which is stripped. -/
theorem safe_demote (pinning : Pinning configMap target old)
    (held : HeldTarget configMap target old ccm cluster)
    (moved : configMap ∉ cluster.objects .configMap)
    (order : old ∈ cluster.revisions .configMap ∨ target ∉ cluster.revisions .configMap)
    {next : Except ApiError (List (Revision .configMap)) → Client Unit}
    (continues : ∀ current others, next (.ok (current :: others)) = (do
      let _ ← updateRevision (current.unlabel "current")
      let labelled ← Program.orPanic (PodWebhook.relabel? ccm)
      let _ ← updateRevision labelled)) :
    SafeRoll configMap target old (.call (.listRevisions .configMap configMap.ns
      [("name", PodWebhook.selectedName), ("current", "true")]) next) cluster := by
  refine Program.Safe.call _ Demoting.later ⟨held, moved, order⟩ ?_
  rintro before after answer demoting ⟨served, condition⟩
  obtain ⟨rfl, rfl⟩ := Cluster.listRevisions_cases served
  refine ⟨.refl _, ?_⟩
  have first := condition rfl
  dsimp only [ListsOther] at first
  rw [← pinning.selected] at first ⊢
  cases list : (after.revisions .configMap).select
      (fun ccm => ccm.matches configMap.ns [("name", configMap.name), ("current", "true")]) with
  | nil =>
    have none := Table.select_eq_nil.mp list
    obtain ⟨found, present, marks⟩ := demoting.exists_marked pinning
    simp [none found present] at marks
  | cons current others =>
    rw [list] at first
    have listed : current ∈ (after.revisions .configMap).select
        (marked configMap.ns configMap.name "current") := list ▸ List.mem_cons_self
    obtain ⟨member, marks⟩ := Table.mem_select.mp listed
    have isOld : current = old := by
      rcases demoting.marks current member marks with isTarget | isOld
      · exact absurd isTarget (first current rfl)
      · exact (demoting.at_old member isOld).2.resolve_right
          (not_not_intro (marked_iff.mp marks).2.2)
    subst isOld
    rw [continues]
    exact safe_strip pinning demoting

theorem safe_roll (pinning : Pinning configMap target old) (rested : Rested configMap target old cluster) :
    SafeRoll configMap target old (PodWebhook.copyCCMToCM (configMap.naming target.customVersion))
      cluster := by
  simp only [PodWebhook.copyCCMToCM, PodWebhook.copyRevision, getRevision, updateObject,
    Program.request_bind, Program.call_bind]
  refine Program.Safe.call (Rested configMap target old) Rested.later rested ?_
  rintro before after answer rested ⟨served, _⟩
  obtain ⟨rfl, ⟨error, rfl⟩ | ⟨ccm, member, named, rfl⟩⟩ := Cluster.getRevision_cases served
  · exact ⟨.refl _, safeRoll_end trivial rested⟩
  refine ⟨.refl _, ?_⟩
  have isTarget : key ccm = key target := by
    rw [named, Object.currentVersion_naming]
    exact Prod.ext pinning.targetNs.symm pinning.targetName.symm
  obtain ⟨copy, which⟩ := rested.at_target member isTarget
  have held : HeldTarget configMap target old ccm after := by
    refine ⟨rested.toTurning, .of_mem member, copy, which.imp_right fun labelled untouched => ?_⟩
    exact pinning.targetPlain (Table.unique member untouched isTarget ▸ labelled)
  simp only [Program.ofExcept_ok, Program.ret_bind]
  cases copied : PodWebhook.restore? (configMap.naming target.customVersion) ccm with
  | none => exact safeRoll_end trivial rested
  | some restored =>
    refine Program.Safe.call
      (fun cluster => HeldTarget configMap target old ccm cluster ∧ Rested configMap target old cluster)
      (fun moves held => ⟨held.1.later moves, held.2.later moves⟩) ⟨held, rested⟩ ?_
    rintro middle after answer ⟨held, rested⟩ ⟨served, _⟩
    rcases Cluster.updateObject_cases served with
      ⟨rfl, refusal, refused, rfl⟩ | ⟨stored, objects, accepted, rfl, rfl⟩
    · exact ⟨.refl _, safeRoll_end trivial rested⟩
    · obtain ⟨untouched, turning, moved⟩ := held.rollBack copy (Revision.stored_spec member)
        (pinning.version ▸ pinning.different) copied accepted
      have later := (Table.written_of_update accepted).2.later
      refine ⟨⟨by simpa using later, .refl _, fun _ => turning⟩, ?_⟩
      exact safe_demote pinning ⟨turning, held.read, copy, held.fresh⟩ (by simpa using moved)
        (Or.inl (held.early untouched).2) fun _ _ => rfl

end Webhook

section Settling

variable {configMap : Object .configMap} {target old : Revision .configMap} {cluster : Cluster}

/-- The parties keep to their rules, and nothing in flight means rest. -/
def contendingOutline (pinning : Pinning configMap target old) :
    (contending configMap target (ListsOther target)).Outline where
  rely
    | .webhook => TurnedByReconciler configMap target old
    | .reconciler => TurnedByWebhook configMap target old
  guarantee
    | .webhook, before, _, after => TurnedByWebhook configMap target old before after
    | .reconciler, before, _, after => TurnedByReconciler configMap target old before after
  ready
    | .webhook => Rested configMap target old
    | .reconciler => Turning configMap target old
  post
    | .webhook, cluster, _ => Rested configMap target old cluster
    | .reconciler, cluster, _ => Turning configMap target old cluster
  reflexive
    | .webhook => TurnedByReconciler.refl
    | .reconciler => TurnedByWebhook.refl
  transitive
    | .webhook => TurnedByReconciler.trans
    | .reconciler => TurnedByWebhook.trans
  environment _ := False.elim
  others := by
    rintro (_ | _) (_ | _) different world request after kept
    · exact absurd rfl different
    · exact kept
    · exact kept
    · exact absurd rfl different
  stable
    | .webhook => Rested.later
    | .reconciler => fun moves turning => moves.turning turning
  safe := by
    rintro (_ | _) program begins world ready
    · exact begins ▸ safe_roll pinning ready
    · exact begins ▸ safe_contender pinning ready
  settles := by
    rintro (_ | _) world outcome ended
    · exact ended
    · exact ended

/-- Exactly one revision of the object is current, and it has the version the object names. -/
def OneCurrent (kind : Kind) (ns name : String) (cluster : Cluster) : Prop :=
  ∃ object ∈ cluster.objects kind, ∃ current : Revision kind, key object = (ns, name) ∧
    (cluster.revisions kind).Sole (marked ns name "current") current ∧
      current.customVersion = object.currentVersion

/-- At rest a reconcile finds the ConfigMap synced. -/
theorem Rested.oneCurrent (pinning : Pinning configMap target old)
    (rested : Rested configMap target old cluster) : OneCurrent .configMap configMap.ns configMap.name
      (cluster.reconcile .configMap configMap.ns configMap.name).1 := by
  have synced : ∃ stored ∈ cluster.objects .configMap, ∃ current, key stored = key configMap ∧
      stored.currentVersion ≠ "" ∧
      (cluster.revisions .configMap).Sole (marked configMap.ns configMap.name "current") current ∧
      stored.currentVersion = current.customVersion ∧ differs stored current = false := by
    rcases rested.rest with untouched | ⟨promoted, stripped⟩
    · obtain ⟨targetIn, oldIn⟩ := rested.early untouched
      refine ⟨configMap, untouched, old, rfl, pinning.version ▸ pinning.filled.1, ⟨oldIn,
        marked_iff.mpr ⟨pinning.oldNs, pinning.oldOwned, pinning.oldMarked⟩, ?_⟩, pinning.version,
        pinning.agrees⟩
      intro other member marks
      rcases rested.marks other member marks with isTarget | isOld
      · have plain := Table.unique member targetIn isTarget
        exact absurd (plain ▸ (marked_iff.mp marks).2.2) pinning.targetPlain
      · exact Table.unique member oldIn isOld
    · have moved : configMap ∉ cluster.objects .configMap :=
        fun untouched => promoted (rested.early untouched).1
      obtain ⟨stored, member, rfl | rolled⟩ := rested.config
      · exact absurd member moved
      obtain ⟨current, present, relabelled, rfl | labelled⟩ := rested.pinned
      · exact absurd present promoted
      refine ⟨stored, member, current, rolled.1, rolled.2.1 ▸ pinning.filled.2, ⟨present,
        marked_iff.mpr ⟨relabelled.ns.trans pinning.targetNs,
          (relabelled.owned _).mpr pinning.targetOwned, labelled⟩, ?_⟩,
        rolled.2.1.trans relabelled.customVersion_eq.symm, rolled.agrees relabelled⟩
      intro other isIn marks
      rcases rested.marks other isIn marks with isTarget | isOld
      · exact Table.unique isIn present (isTarget.trans relabelled.key_eq.symm)
      · rcases (rested.at_old isIn isOld).2 with rfl | plain
        · exact absurd isIn stripped
        · exact absurd (marked_iff.mp marks).2.2 plain
  obtain ⟨stored, member, current, own, versioned, sole, same, agrees⟩ := synced
  have sameNs : stored.ns = configMap.ns := congrArg Prod.fst own
  have sameName : stored.name = configMap.name := congrArg Prod.snd own
  rw [← sameNs, ← sameName] at sole ⊢
  rw [Cluster.reconcile_synced member versioned sole same agrees]
  exact ⟨stored, member, current, rfl, sole, same.symm⟩

/-- However the calls of a roll-back and of reconciles interleave: where the list of the
roll-back does not begin with the pinned revision, exactly one revision is current after
it has returned and one more reconcile has run, and the ConfigMap names its version. -/
theorem label_settles (pinning : Pinning configMap target old)
    (held : configMap ∈ cluster.objects .configMap) (stored : target ∈ cluster.revisions .configMap)
    (isCurrent :
      (cluster.revisions .configMap).Sole (marked configMap.ns configMap.name "current") old)
    {pool : Pool Cluster Call Answer ApiError Unit Mover}
    (run : (contending configMap target (ListsOther target)).Reaches (System.idle cluster) pool)
    (returned : pool.threads .webhook = none) :
    OneCurrent .configMap configMap.ns configMap.name
      (pool.world.reconcile .configMap configMap.ns configMap.name).1 := by
  have turning : Turning configMap target old cluster :=
    ⟨.of_mem held, .of_mem stored, .of_mem isCurrent.1, ⟨configMap, held, Or.inl rfl⟩,
      ⟨target, stored, .refl target, Or.inl rfl⟩, ⟨old, isCurrent.1, .refl old, Or.inl rfl⟩,
      fun ccm member marks => Or.inr (congrArg key (isCurrent.2.2 ccm member marks)),
      fun _ => ⟨stored, isCurrent.1⟩⟩
  have start : (contendingOutline pinning).Holds (System.idle cluster) := by
    rintro (_ | _)
    · exact ⟨turning, Or.inl held⟩
    · exact turning
  have rested := System.Outline.reaches start run .webhook
  rw [returned] at rested
  exact Rested.oneCurrent pinning rested

end Settling

namespace Sample

def multiEnv : Object .configMap := configMap "config-multi-env-files" "blue" "bbbbb" 1

def multiEnvRed : Revision .configMap := ccm "config-multi-env-files" "red" "aaaaa" [] 1

def multiEnvBlue : Revision .configMap :=
  ccm "config-multi-env-files" "blue" "bbbbb" ["current", "latest"] 2

theorem pinning_multiEnv : Pinning multiEnv multiEnvRed multiEnvBlue := by
  constructor <;> decide

/-- The roll-back up to its list of the current revisions. -/
def halfRolled : Cluster × Client Unit :=
  (PodWebhook.copyCCMToCM (multiEnv.naming "aaaaa")).after Cluster.serve 2 selectedVersions

/-- A reconcile has listed the current revisions by then, too. -/
def halfReconciled : Cluster × Client Unit :=
  (ConfigMapReconciler.reconcile "shop" "config-multi-env-files").after Cluster.serve 2 halfRolled.1

/-- The roll-back goes on first, and the reconcile finds the labels moved. -/
def wholeRolled : Cluster × Client Unit := halfRolled.2.after Cluster.serve 3 halfReconciled.1

def wholeReconciled : Cluster × Client Unit := halfReconciled.2.after Cluster.serve 4 wholeRolled.1

theorem interleaved_settles : OneCurrent .configMap "shop" "config-multi-env-files"
    (wholeReconciled.1.reconcile .configMap "shop" "config-multi-env-files").1 := by
  have lists : (PodWebhook.copyCCMToCM (multiEnv.naming "aaaaa")).Meets Cluster.serve
      (ListsOther multiEnvRed) 2 selectedVersions := ⟨trivial, trivial, trivial⟩
  have listsOther : halfRolled.2.Meets Cluster.serve (ListsOther multiEnvRed) 3 halfReconciled.1 := by
    refine ⟨?_, trivial, trivial, trivial⟩
    rintro first ⟨⟩
    decide
  have serves : ∀ world request, ListsOther multiEnvRed world request →
      (contending multiEnv multiEnvRed (ListsOther multiEnvRed)).react .webhook world request
        (world.serve request).1 (world.serve request).2 := fun _ _ met => ⟨rfl, fun _ => met⟩
  have reconciles : ∀ world request,
      (contending multiEnv multiEnvRed (ListsOther multiEnvRed)).react .reconciler world request
        (world.serve request).1 (world.serve request).2 := fun _ _ => ⟨rfl, fun other => by cases other⟩
  have begun := System.Reaches.started (.refl : (contending multiEnv multiEnvRed
    (ListsOther multiEnvRed)).Reaches (System.idle selectedVersions) _) .webhook
    (PodWebhook.copyCCMToCM (multiEnv.naming "aaaaa")) rfl rfl
  have rolled := begun.after .webhook serves 2 rfl lists
  have reconciling := rolled.started .reconciler
    (ConfigMapReconciler.reconcile "shop" "config-multi-env-files") rfl rfl
  have listed := reconciling.calls .reconciler reconciles 2 rfl
  have moved := listed.after .webhook serves 3 rfl listsOther
  have returned := moved.finished .webhook rfl trivial
  have reconciled := returned.calls .reconciler reconciles 4 rfl
  exact label_settles pinning_multiEnv (List.mem_singleton_self _) List.mem_cons_self
    current_selectedVersions reconciled rfl

/-- A reconcile labels the pinned revision before the roll-back lists: it strips that one,
fails to label it again, and the reconcile strips the other. No revision is current. -/
theorem reconcile_between_loses_label :
    ∃ pool : Pool Cluster Call Answer ApiError Unit Mover,
      (contending multiEnv multiEnvRed fun _ _ => True).Reaches (System.idle selectedVersions) pool ∧
        pool.threads .webhook = none ∧
        ¬ OneCurrent .configMap "shop" "config-multi-env-files"
          (pool.world.reconcile .configMap "shop" "config-multi-env-files").1 := by
  have serves : ∀ mover world request, (contending multiEnv multiEnvRed fun _ _ => True).react mover
      world request (world.serve request).1 (world.serve request).2 := fun _ _ _ => ⟨rfl, fun _ => trivial⟩
  have begun := System.Reaches.started (.refl : (contending multiEnv multiEnvRed fun _ _ => True).Reaches
    (System.idle selectedVersions) _) .webhook
    (PodWebhook.copyCCMToCM (multiEnv.naming "aaaaa")) rfl rfl
  have rolled := begun.calls .webhook (serves .webhook) 2 rfl
  have reconciling := rolled.started .reconciler
    (ConfigMapReconciler.reconcile "shop" "config-multi-env-files") rfl rfl
  have labelled := reconciling.calls .reconciler (serves .reconciler) 5 rfl
  have failed := labelled.calls .webhook (serves .webhook) 3 rfl
  have returned := failed.finished .webhook rfl trivial
  have stripped := returned.calls .reconciler (serves .reconciler) 1 rfl
  refine ⟨_, stripped, rfl, ?_⟩
  rintro ⟨_, _, current, _, sole, _⟩
  have listed := Table.mem_select.mpr ⟨sole.1, sole.2.1⟩
  exact List.not_mem_nil (show current ∈ ([] : List (Revision .configMap)) from listed)

end Sample

end Configurator
