import Configurator.Conduct
import Configurator.Reactions
import Configurator.Rollback
import Configurator.Rollout

namespace Configurator

open Resource

variable {kind : Kind} {workload : WorkloadKind} {ns name : String}

/-- No revision is found under the name that goes with the version. -/
def NoRevision (cluster : Cluster) (kind : Kind) (ns name version : String) : Prop :=
  ∀ revision ∈ cluster.revisions kind, key revision ≠ (ns, name ++ "-" ++ version)

/-- A template with this version rolls nothing back: the version is in force, or there is
no revision to go back to. -/
def Suits (cluster : Cluster) (object : Object kind) (pinned : String) : Prop :=
  pinned = object.currentVersion ∧ pinned ≠ "" ∨ NoRevision cluster kind object.ns object.name pinned

/-- The template of every workload that is registered on the object suits it. -/
structure Steady (kind : Kind) (ns name : String) (cluster : Cluster) : Prop where
  undashed : NoRevision cluster kind ns name ""
  suits : ∀ object ∈ cluster.objects kind, key object = (ns, name) →
    ∀ workload, ∀ stored ∈ cluster.workloads workload, stored.ns = ns →
      Registered object workload stored.name → Suits cluster object (stored.pinned kind name)

/-- The object keeps its version and its workloads, no revision gets a new name and no
template is written. -/
structure Follows (kind : Kind) (ns name : String) (before after : Cluster) : Prop where
  objects : ∀ next ∈ after.objects kind, key next = (ns, name) →
    ∃ old ∈ before.objects kind, key old = (ns, name) ∧ next.currentVersion = old.currentVersion ∧
      ∀ workload, next.registered workload = old.registered workload
  revisions : ∀ next ∈ after.revisions kind, ∃ old ∈ before.revisions kind, key old = key next
  workloads : after.workloads = before.workloads

namespace Follows

theorem refl (cluster : Cluster) : Follows kind ns name cluster cluster :=
  ⟨fun object member own => ⟨object, member, own, rfl, fun _ => rfl⟩,
    fun revision member => ⟨revision, member, rfl⟩, rfl⟩

theorem trans {first second third : Cluster} (earlier : Follows kind ns name first second)
    (later : Follows kind ns name second third) : Follows kind ns name first third where
  objects := by
    intro next member own
    obtain ⟨middle, present, its, version, registered⟩ := later.objects next member own
    obtain ⟨old, was, first, sameVersion, sameRegistered⟩ := earlier.objects middle present its
    exact ⟨old, was, first, version.trans sameVersion, fun workload =>
      (registered workload).trans (sameRegistered workload)⟩
  revisions := by
    intro next member
    obtain ⟨middle, present, same⟩ := later.revisions next member
    obtain ⟨old, was, again⟩ := earlier.revisions middle present
    exact ⟨old, was, again.trans same⟩
  workloads := later.workloads.trans earlier.workloads

theorem noRevision {before after : Cluster} (follows : Follows kind ns name before after)
    {version : String} (none : NoRevision before kind ns name version) :
    NoRevision after kind ns name version := by
  intro next member same
  obtain ⟨old, was, keys⟩ := follows.revisions next member
  exact none old was (keys.trans same)

theorem of_revision {before : Cluster} {other : Kind} {entry sent answer : Revision other}
    {table : Table (Revision other)} (present : entry ∈ before.revisions other)
    (same : key entry = key sent) (written : (before.revisions other).Written sent answer table) :
    Follows kind ns name before (before.withRevisions other table) where
  objects object member own := ⟨object, member, own, rfl, fun _ => rfl⟩
  revisions := by
    intro next member
    by_cases kinds : kind = other
    · subst kinds
      rw [Cluster.withRevisions_revisions] at member
      rcases (written.members next).mp member with rfl | ⟨was, _⟩
      · exact ⟨entry, present, same.trans written.key_eq.symm⟩
      · exact ⟨next, was, rfl⟩
    · simp only [Cluster.withRevisions, Function.update_of_ne kinds] at member
      exact ⟨next, member, rfl⟩
  workloads := rfl

/-- The object is written with the version and the workloads that it had. -/
theorem of_object {before : Cluster} {held sent answer : Object kind} {table : Table (Object kind)}
    (present : held ∈ before.objects kind) (own : key held = (ns, name))
    (version : sent.currentVersion = held.currentVersion)
    (registered : ∀ workload, sent.registered workload = held.registered workload)
    (written : (before.objects kind).Written sent answer table) :
    Follows kind ns name before (before.withObjects kind table) where
  objects := by
    intro next member its
    rw [Cluster.withObjects_objects] at member
    rcases (written.members next).mp member with rfl | ⟨was, _⟩
    · refine ⟨held, present, own, ?_, fun workload => ?_⟩
      · rw [written.answered, Object.currentVersion_stamp, version]
      · rw [written.answered, Object.registered_stamp, registered]
    · exact ⟨next, was, its, rfl, fun _ => rfl⟩
  revisions next member := ⟨next, member, rfl⟩
  workloads := rfl

theorem steady {before after : Cluster} (follows : Follows kind ns name before after)
    (steady : Steady kind ns name before) : Steady kind ns name after where
  undashed := follows.noRevision steady.undashed
  suits := by
    intro object member own workload stored present inNs registered
    obtain ⟨old, was, its, version, same⟩ := follows.objects object member own
    have keys := own.trans its.symm
    have names : object.name = old.name := congrArg Prod.snd keys
    have spaces : object.ns = old.ns := congrArg Prod.fst keys
    rw [follows.workloads] at present
    rw [Registered, same] at registered
    obtain ⟨rfl, rfl⟩ := Prod.mk.inj its
    rcases steady.suits old was rfl workload stored present inNs registered with equal | none
    · exact Or.inl (version ▸ equal)
    · right
      rw [names, spaces]
      exact follows.noRevision none

end Follows

/-- The rules of a program that nobody disturbs. -/
def soloRules : Rules Cluster Call Answer where
  react cluster request after answer := cluster.serve request = (after, answer)
  rely before after := before = after
  guarantee _ _ _ := True

theorem run_of_safe {α : Type} {program : Client α} {cluster : Cluster}
    {post : Cluster → Outcome ApiError α → Prop} (safe : program.Safe soloRules post cluster) :
    post (program.run Cluster.serve cluster).1 (program.run Cluster.serve cluster).2 :=
  Program.Safe.run (fun _ => rfl) (fun _ _ => rfl) safe

section PodAdmission

structure ObjectKept (kind : Kind) (ns name : String) (before after : Cluster) : Prop where
  objects : ∀ object, key object = (ns, name) → (object ∈ after.objects kind ↔ object ∈ before.objects kind)
  revisions : ∀ next ∈ after.revisions kind, ∃ old ∈ before.revisions kind, key old = key next
  workloads : after.workloads = before.workloads

theorem ObjectKept.refl (cluster : Cluster) : ObjectKept kind ns name cluster cluster :=
  ⟨fun _ _ => Iff.rfl, fun revision member => ⟨revision, member, rfl⟩, rfl⟩

theorem ObjectKept.follows {before after : Cluster} (untouched : ObjectKept kind ns name before after) :
    Follows kind ns name before after :=
  ⟨fun object member own => ⟨object, (untouched.objects object own).mp member, own, rfl, fun _ => rfl⟩,
    untouched.revisions, untouched.workloads⟩

theorem ObjectKept.trans {first second third : Cluster} (earlier : ObjectKept kind ns name first second)
    (later : ObjectKept kind ns name second third) : ObjectKept kind ns name first third :=
  ⟨fun object own => (later.objects object own).trans (earlier.objects object own),
    (earlier.follows.trans later.follows).revisions, later.workloads.trans earlier.workloads⟩

/-- What the pod webhook sends while it works on another object. -/
def SparesObject (kind : Kind) (ns name : String) : Call → Prop
  | .updateObject other sent => other = kind → key sent ≠ (ns, name)
  | call => call.Relabels

theorem untouched_of_spares {before after : Cluster} {request : Call} {answer : Answer request}
    (spares : SparesObject kind ns name request) (served : before.serve request = (after, answer)) :
    ObjectKept kind ns name before after := by
  cases request <;> try exact spares.elim
  case seedRandom =>
    obtain ⟨rfl, _⟩ := Prod.mk.inj served
    exact ⟨fun _ _ => Iff.rfl, fun revision member => ⟨revision, member, rfl⟩, rfl⟩
  case getRevision other _ _ =>
    obtain ⟨rfl, _⟩ := Cluster.getRevision_cases served
    exact .refl after
  case listRevisions other _ _ =>
    obtain ⟨rfl, _⟩ := Cluster.listRevisions_cases served
    exact .refl after
  case updateRevision other sent =>
    rcases Cluster.updateRevision_cases served with ⟨rfl, _⟩ | ⟨stored, revisions, accepted, rfl, _⟩
    · exact .refl after
    · obtain ⟨⟨entry, present, same, _⟩, written⟩ := Table.written_of_update accepted
      have follows : Follows kind ns name before _ := Follows.of_revision present same written
      exact ⟨fun _ _ => Iff.rfl, follows.revisions, rfl⟩
  case updateObject other sent =>
    rcases Cluster.updateObject_cases served with ⟨rfl, _⟩ | ⟨stored, objects, accepted, rfl, _⟩
    · exact .refl after
    · have written := (Table.written_of_update accepted).2
      refine ⟨fun object own => ?_, fun revision member => ⟨revision, member, rfl⟩, rfl⟩
      by_cases kinds : kind = other
      · subst kinds
        rw [Cluster.withObjects_objects, written.members]
        constructor
        · rintro (rfl | ⟨was, _⟩)
          · exact absurd (written.key_eq.symm.trans own) (spares rfl)
          · exact was
        · exact fun was => Or.inr ⟨was, fun same => spares rfl (same.symm.trans own)⟩
      · simp only [Cluster.withObjects, Function.update_of_ne kinds]

/-- Nothing has been written to the object, and the version that the pod carries suits it. -/
structure PodSuits (kind : Kind) (ns name : String) (pod : Pod) (start cluster : Cluster) : Prop where
  untouched : ObjectKept kind ns name start cluster
  suits : pod.ns = ns → ∀ object ∈ start.objects kind, key object = (ns, name) →
    Suits start object (pod.annotations.index (kind.tag ++ name))

variable {pod : Pod} {start cluster : Cluster} {α : Type}

theorem PodSuits.step {before after : Cluster} {request : Call} {answer : Answer request}
    (suits : PodSuits kind ns name pod start before) (spares : SparesObject kind ns name request)
    (served : before.serve request = (after, answer)) : PodSuits kind ns name pod start after :=
  ⟨suits.untouched.trans (untouched_of_spares spares served), suits.suits⟩

abbrev SafePod (kind : Kind) (ns name : String) (pod : Pod) (start : Cluster) (program : Client α)
    (cluster : Cluster) : Prop :=
  program.Safe soloRules (fun after _ => PodSuits kind ns name pod start after) cluster

theorem safe_pod_of_spares {program : Client α} (suits : PodSuits kind ns name pod start cluster)
    (emits : program.Emits (SparesObject kind ns name)) : SafePod kind ns name pod start program cluster :=
  Program.Safe.of_emits emits (fun same holds => same ▸ holds) suits
    (fun _ _ _ _ spares holds served => ⟨trivial, holds.step spares served⟩) fun _ _ => id

/-- With a version that suits the object the pod webhook finds nothing to copy. -/
theorem safe_matchVersion {object : Object kind} (suits : PodSuits kind ns name pod start cluster)
    (inNs : pod.ns = ns) (member : object ∈ cluster.objects kind) (own : key object = (ns, name)) :
    SafePod kind ns name pod start (matchVersion pod name object) cluster := by
  have ends : ∀ {program : Client Unit}, program.Finished →
      SafePod kind ns name pod start program cluster := by
    intro program finished
    refine safe_pod_of_spares suits ?_
    cases program <;> trivial
  have was := (suits.untouched.objects object own).mp member
  obtain ⟨rfl, rfl⟩ := Prod.mk.inj own
  unfold matchVersion
  dsimp only
  split
  · exact ends trivial
  · rename_i different
    rcases suits.suits inNs object was rfl with ⟨same, _⟩ | none
    · exact absurd same different
    · cases assigned : object.annotations.assign? kind.versionKey
          (pod.annotations.index (kind.tag ++ object.name)) with
      | none => exact ends trivial
      | some annotations =>
        have version : Object.currentVersion { object with annotations := annotations } =
            pod.annotations.index (kind.tag ++ object.name) := by
          simp [Object.currentVersion, GoMap.eq_put_of_assign? assigned]
        have missing : ∀ revision ∈ cluster.revisions kind, key revision ≠ (object.ns, object.name ++ "-" ++
            pod.annotations.index (kind.tag ++ object.name)) := suits.untouched.follows.noRevision none
        rintro _ rfl after answer served
        refine ⟨trivial, ?_⟩
        obtain ⟨rfl, ⟨error, rfl⟩ | ⟨revision, present, found, rfl⟩⟩ := Cluster.getRevision_cases served
        · exact ends trivial
        · rw [version] at found
          exact absurd found (missing revision present)

theorem safe_pod_validateReference (suits : PodSuits kind ns name pod start cluster) (other : Kind)
    (reference : String) :
    SafePod kind ns name pod start (validateReference pod other reference) cluster := by
  rintro _ rfl after answer served
  refine ⟨trivial, ?_⟩
  obtain ⟨rfl, ⟨error, rfl⟩ | ⟨object, member, own, rfl⟩⟩ := Cluster.getObject_cases served
  · refine safe_pod_of_spares suits ?_
    show Program.Emits _ (if pod.tolerated then _ else _)
    split
    · exact emits_checkReference_empty pod reference
    · trivial
  · show SafePod kind ns name pod start (checkReference pod reference object) after
    by_cases same : other = kind ∧ (pod.ns, reference) = (ns, name)
    · obtain ⟨rfl, keys⟩ := same
      obtain ⟨inNs, rfl⟩ := Prod.mk.inj keys
      have matching := (safe_matchVersion suits inNs member (own.trans keys)).attempt
      refine matching.bind (fun answer world holds => ?_) (fun _ _ => id) (fun _ => id) fun _ => rfl
      cases answer <;> exact safe_pod_of_spares holds trivial
    · refine safe_pod_of_spares suits (emits_checkReference ?_ pod reference ?_)
      · intro call relabels
        cases call <;> first | exact relabels.elim | trivial
      · intro annotations revision restored _ copied kinds keys
        have kept := (PodWebhook.restored_of_restore? copied).key
        exact same ⟨kinds, own.symm.trans (kept.symm.trans keys)⟩

theorem safe_pod_validateReferences (suits : PodSuits kind ns name pod start cluster)
    (references : List (Kind × String)) :
    SafePod kind ns name pod start (validateReferences pod references) cluster := by
  induction references generalizing cluster with
  | nil => exact safe_pod_of_spares suits trivial
  | cons reference rest ih =>
    refine (safe_pod_validateReference suits reference.1 reference.2).bind (fun answer world holds => ?_)
      (fun _ _ => id) (fun _ => id) fun _ => rfl
    cases answer with
    | some message => exact safe_pod_of_spares holds trivial
    | none => exact ih holds

/-- A pod whose version suits the object leaves it alone. -/
theorem untouched_configValidation (suits : pod.ns = ns → ∀ object ∈ cluster.objects kind,
      key object = (ns, name) → Suits cluster object (pod.annotations.index (kind.tag ++ name))) :
    ObjectKept kind ns name cluster ((configValidation pod).run Cluster.serve cluster).1 := by
  have start : PodSuits kind ns name pod cluster cluster := ⟨.refl cluster, suits⟩
  have safe : SafePod kind ns name pod cluster (configValidation pod) cluster := by
    unfold configValidation
    split
    · exact safe_pod_validateReferences start pod.spec.references
    · exact safe_pod_of_spares start trivial
  exact (run_of_safe safe).untouched

end PodAdmission

end Configurator
