import Configurator.Checkout
import Configurator.Conduct
import Configurator.Reactions
import Configurator.Reconciliation
import Configurator.Sends

namespace Configurator

open Resource

variable {kind : Kind} {workload : WorkloadKind} {ns name owner : String}

/-- The annotation of the kind names exactly one workload, and the other one is empty. -/
structure Enrolled (workload : WorkloadKind) (owner : String) (object : Object kind) : Prop where
  filled : object.registered workload ≠ ""
  sole : split (object.registered workload) ',' = [owner]
  others : ∀ other, other ≠ workload → object.registered other = ""

theorem Enrolled.congr {object next : Object kind}
    (same : ∀ workload, next.registered workload = object.registered workload)
    (enrolled : Enrolled workload owner object) : Enrolled workload owner next :=
  ⟨same workload ▸ enrolled.filled, same workload ▸ enrolled.sole,
    fun other different => (same other).trans (enrolled.others other different)⟩

def Carries (workload : WorkloadKind) (ns owner label version : String) (cluster : Cluster) : Prop :=
  ∃ stored ∈ cluster.workloads workload, key stored = (ns, owner) ∧
    stored.template.annotations.lookup label = some version

/-- A user writes the object and leaves its workloads alone. A version that it gives the
object meets a condition. -/
inductive UserWrite (kind : Kind) (ns name : String) (names : Cluster → String → Prop) :
    Cluster → Cluster → Prop where
  | mk {cluster : Cluster} {stored sent answer : Object kind} {objects : Table (Object kind)}
      (held : stored ∈ cluster.objects kind) (own : key stored = (ns, name))
      (same : key sent = key stored)
      (registered : ∀ workload, sent.registered workload = stored.registered workload)
      (version : sent.currentVersion = stored.currentVersion ∨ names cluster sent.currentVersion)
      (accepted : (cluster.objects kind).update sent = .ok (answer, objects)) :
      UserWrite kind ns name names cluster (cluster.withObjects kind objects)

/-- The call gives a stored object another version. -/
def Cluster.Promotes (cluster : Cluster) : Call → Prop
  | .updateObject kind sent =>
    ∃ stored ∈ cluster.objects kind, key stored = key sent ∧ sent.currentVersion ≠ stored.currentVersion
  | _ => False

/-- How a call can be answered while no roll-out is lost. A workload is read and its update is
carried out, and an update that gives an object another version is answered where it is
carried out. Any other call may fail or lose its answer. -/
structure Cluster.Heeds (cluster : Cluster) (request : Call) (after : Cluster) (answer : Answer request) :
    Prop where
  delivers : cluster.Delivers request after answer
  reads : ∀ workload ns name, request = .getWorkload workload ns name → cluster.serve request = (after, answer)
  writes : ∀ workload sent, request = .updateWorkload workload sent → after = (cluster.serve request).1
  records : cluster.Promotes request → cluster.Reacts request after answer

/-- A user writes the object, or a reconcile of it ends, however its calls are answered. -/
inductive RolloutStep (kind : Kind) (ns name : String)
    (react : Cluster → (request : Call) → Cluster → Answer request → Prop)
    (names : Cluster → String → Prop) : Cluster → Cluster → Prop where
  | write {cluster after : Cluster} (writes : UserWrite kind ns name names cluster after) :
    RolloutStep kind ns name react names cluster after
  | reconcile {cluster after : Cluster} {outcome : Outcome ApiError Unit}
      (ends : (reconcile kind ns name).Ends react cluster after outcome) :
    RolloutStep kind ns name react names cluster after

/-- The object names a version that the template of its only workload carries. -/
structure CarriedAt (kind : Kind) (workload : WorkloadKind) (ns name owner version : String)
    (cluster : Cluster) : Prop where
  filled : version ≠ ""
  names : ∀ object ∈ cluster.objects kind, key object = (ns, name) →
    object.currentVersion = version ∧ Enrolled workload owner object
  carries : Carries workload ns owner (kind.tag ++ name) version cluster

def RolledOut (kind : Kind) (workload : WorkloadKind) (ns name owner : String) (cluster : Cluster) :
    Prop :=
  ∃ version, CarriedAt kind workload ns name owner version cluster

theorem Carries.unique {label first second : String} {cluster : Cluster}
    (left : Carries workload ns owner label first cluster)
    (right : Carries workload ns owner label second cluster) : first = second := by
  obtain ⟨stored, member, own, found⟩ := left
  obtain ⟨other, present, same, again⟩ := right
  obtain rfl := Table.unique present member (same.trans own.symm)
  exact Option.some.inj (found.symm.trans again)

/-- A user gives the object no version but the one that the template carries. -/
theorem CarriedAt.write {cluster after : Cluster} {version : String}
    (carried : CarriedAt kind workload ns name owner version cluster)
    (writes : UserWrite kind ns name
      (fun cluster version => Carries workload ns owner (kind.tag ++ name) version cluster)
      cluster after) : CarriedAt kind workload ns name owner version after := by
  cases writes with
  | @mk stored sent answer objects held own same registered version' accepted =>
    have written := (Table.written_of_update accepted).2
    refine ⟨carried.filled, fun object member its => ?_, carried.carries⟩
    rw [Cluster.withObjects_objects] at member
    rcases (written.members object).mp member with rfl | ⟨present, _⟩
    · obtain ⟨named, enrolled⟩ := carried.names stored held own
      rw [written.answered, Object.currentVersion_stamp]
      refine ⟨?_, enrolled.congr fun workload => ?_⟩
      · rcases version' with kept | found
        · exact kept.trans named
        · exact found.unique carried.carries
      · rw [Object.registered_stamp, registered]
    · exact carried.names object present its

/-- The rules by which a reconcile is safe: nobody disturbs it, and no roll-out is lost. -/
def rolloutRules : Rules Cluster Call Answer where
  react := Cluster.Heeds
  rely before after := before = after
  guarantee _ _ _ := True

/-- A reconcile has read the object. -/
structure CarriedWith (workload : WorkloadKind) (owner version : String) (object : Object kind)
    (cluster : Cluster) : Prop
    extends CarriedAt kind workload object.ns object.name owner version cluster where
  named : object.currentVersion = version
  enrolled : Enrolled workload owner object
  seen : (cluster.objects kind).Seen object

section Reconcile

variable {cluster : Cluster} {object : Object kind} {version : String}

theorem CarriedWith.onRevisions {before after : Cluster} {request : Call} {answer : Answer request}
    (carried : CarriedWith workload owner version object before) (on : request.OnRevisions)
    (reacts : rolloutRules.react before request after answer) :
    CarriedWith workload owner version object after := by
  obtain ⟨objects, workloads⟩ := reacts.delivers.onRevisions on
  refine ⟨⟨carried.filled, ?_, ?_⟩, carried.named, carried.enrolled, ?_⟩
  · exact objects ▸ carried.names
  · simpa only [Carries, workloads] using carried.carries
  · exact objects ▸ carried.seen

/-- A rewrite of the object that leaves its version and its workloads alone. -/
theorem CarriedWith.rewrite {before after : Cluster} {sent : Object kind}
    {answer : Except ApiError (Object kind)} (carried : CarriedWith workload owner version object before)
    {revision : Revision kind} (kept : object.Restored revision sent)
    (reacts : rolloutRules.react before (.updateObject kind sent) after answer) :
    CarriedWith workload owner version object after := by
  rcases reacts.delivers.updateObject with ⟨rfl, _⟩ | ⟨stored, objects, accepted, rfl, _⟩
  · exact carried
  · have written := (Table.written_of_update accepted).2
    refine ⟨⟨carried.filled, fun other member its => ?_, carried.carries⟩, carried.named,
      carried.enrolled, by simpa using carried.seen.later written.later⟩
    rw [Cluster.withObjects_objects] at member
    rcases (written.members other).mp member with rfl | ⟨present, _⟩
    · rw [written.answered, Object.currentVersion_stamp, kept.current]
      refine ⟨carried.named, carried.enrolled.congr fun workload => ?_⟩
      rw [Object.registered_stamp, kept.registered]
    · exact carried.names other present its

theorem conduct_rollout :
    Conduct kind rolloutRules (CarriedWith workload owner version object) fun _ => True :=
  .of_relabels (fun _ => rfl) (fun same holds => same ▸ holds)
    fun _ _ _ _ relabels holds reacts => ⟨trivial, holds.onRevisions relabels.onRevisions reacts⟩

/-- The new version has been recorded, and the template still carries another one. -/
structure Published (workload : WorkloadKind) (owner version : String) (object : Object kind)
    (cluster : Cluster) : Prop where
  filled : version ≠ ""
  names : ∀ stored ∈ cluster.objects kind, key stored = key object →
    stored.currentVersion = version ∧ Enrolled workload owner stored
  enrolled : Enrolled workload owner object
  method : object.annotations.index "updateMethod" = "ignoreWhenShared"
  carries : ∃ old, Carries workload object.ns owner (kind.tag ++ object.name) old cluster

theorem rollOut_unregistered (none : object.registered workload = "") :
    rollOut workload object version = .ret () := by
  unfold rollOut
  rw [if_neg (not_not.mpr none)]
  rfl

/-- What the API server answers to the two calls of a roll-out. -/
theorem serve_rollOut {stored : Workload} (label version : String) (member : stored ∈ cluster.workloads workload)
    (own : key stored = (ns, owner)) : ∃ updated workloads,
      cluster.serve (.getWorkload workload ns owner) = (cluster, .ok stored) ∧
      cluster.serve (.updateWorkload workload (stored.carrying label version)) =
        (cluster.withWorkloads workload workloads, .ok updated) ∧
      (cluster.workloads workload).Written (stored.carrying label version) updated workloads := by
  obtain ⟨updated, workloads, accepted, written⟩ :=
    Table.update_of_current (stored.carrying label version) member rfl rfl
  refine ⟨updated, workloads, ?_, ?_, written⟩
  · simp [Table.find?_eq_some.mpr ⟨member, own⟩]
  · simp [accepted]

theorem run_rollOut {stored : Workload} (version : String) (filled : object.registered workload ≠ "")
    (method : object.annotations.index "updateMethod" = "ignoreWhenShared")
    (sole : split (object.registered workload) ',' = [owner])
    (member : stored ∈ cluster.workloads workload) (own : key stored = (object.ns, owner))
    (made : stored.template.annotations ≠ .nil) :
    ∃ updated workloads, (rollOut workload object version).run Cluster.serve cluster =
        (cluster.withWorkloads workload workloads, .returned ()) ∧
      (cluster.workloads workload).Written (stored.carrying (kind.tag ++ object.name) version) updated
        workloads := by
  obtain ⟨updated, workloads, got, put, written⟩ :=
    serve_rollOut (kind.tag ++ object.name) version member own
  refine ⟨updated, workloads, ?_, written⟩
  unfold rollOut
  rw [if_pos filled, if_pos method, sole]
  simp only [getWorkload, updateWorkload, Program.request_bind, Program.call_bind, Program.run_call, got,
    Program.ofExcept_ok, Program.ret_bind, GoMap.assign?_eq_some made, Program.orPanic_some]
  simp only [Workload.carrying] at put
  simp only [put, Program.ofExcept_ok, Program.ret_bind, Program.pure_eq, Program.run_ret]

theorem safe_rollOut (published : Published workload owner version object cluster) :
    (rollOut workload object version).Safe rolloutRules
      (fun after _ => CarriedAt kind workload object.ns object.name owner version after) cluster := by
  obtain ⟨old, stored, member, own, found⟩ := published.carries
  obtain ⟨updated, workloads, got, put, written⟩ :=
    serve_rollOut (kind.tag ++ object.name) version member own
  have carried : CarriedAt kind workload object.ns object.name owner version
      (cluster.withWorkloads workload workloads) := by
    refine ⟨published.filled, published.names, updated, by simpa using written.mem,
      written.key_eq.trans own, ?_⟩
    rw [written.answered]
    simp [stamp, Workload.carrying]
  unfold rollOut
  rw [if_pos published.enrolled.filled, if_pos published.method, published.enrolled.sole]
  rintro _ rfl after answer read
  obtain ⟨rfl, rfl⟩ := Prod.mk.inj ((read.reads _ _ _ rfl).symm.trans got)
  refine ⟨trivial, ?_⟩
  show Program.Safe _ _ (Program.orPanic (stored.template.annotations.assign? _ _) >>= _) after
  rw [GoMap.assign?_eq_some (GoMap.ne_nil_of_lookup found)]
  -- The template is written by now, also where the answer is lost.
  rintro _ rfl last answer wrote
  obtain rfl := (wrote.writes _ _ rfl).trans (congrArg Prod.fst put)
  refine ⟨trivial, ?_⟩
  cases answer with
  | ok => exact fun later same => same ▸ carried
  | error => exact fun later same => same ▸ carried

/-- An update that records a version is answered, or that version was in force already. -/
theorem CarriedWith.record {before after : Cluster} {made label : String}
    {answer : Except ApiError (Object kind)} (carried : CarriedWith workload owner version object before)
    (reacts : rolloutRules.react before (.updateObject kind (object.annotate made label)) after answer) :
    (after = before ∧ ∃ error, answer = .error error) ∨
    ∃ updated objects, (before.objects kind).update (object.annotate made label) = .ok (updated, objects) ∧
      after = before.withObjects kind objects ∧
        (answer = .ok updated ∨ made = version ∧ ∃ error, answer = .error error) := by
  rcases reacts.delivers.updateObject with refused | ⟨updated, objects, accepted, rfl, answered⟩
  · exact Or.inl refused
  · by_cases same : made = version
    · exact Or.inr ⟨updated, objects, accepted, rfl, answered.imp_right fun lost => ⟨same, lost⟩⟩
    · obtain ⟨⟨stored, member, own, _⟩, _⟩ := Table.written_of_update accepted
      have promotes : before.Promotes (.updateObject kind (object.annotate made label)) := by
        refine ⟨stored, member, own, ?_⟩
        rw [Object.currentVersion_annotate, (carried.names stored member own).1]
        exact same
      rcases (reacts.records promotes).updateObject with refused | ⟨_, _, again, written, rfl⟩
      · exact Or.inl refused
      · cases accepted.symm.trans again
        exact Or.inr ⟨updated, objects, accepted, written, Or.inl rfl⟩

/-- Recording a new version leads to the template that carries it. -/
theorem safe_publish_rollout (carried : CarriedWith workload owner version object cluster)
    {created : Revision kind} {made : String} (filled : made ≠ "") :
    (publish object created made).Safe rolloutRules
      (fun after _ => RolledOut kind workload object.ns object.name owner after) cluster := by
  unfold publish
  cases assigned : object.annotate? made created.name with
  | none => exact fun later same => same ▸ ⟨version, carried.toCarriedAt⟩
  | some annotated =>
    obtain ⟨_, rfl⟩ := Object.annotate?_eq_some assigned
    rintro _ rfl after answer reacts
    refine ⟨trivial, ?_⟩
    rcases carried.record reacts with ⟨rfl, error, rfl⟩ | ⟨updated, objects, accepted, rfl, answered⟩
    · exact fun later same => same ▸ ⟨version, carried.toCarriedAt⟩
    · have written := (Table.written_of_update accepted).2
      have registered : ∀ workload, updated.registered workload = object.registered workload := by
        intro workload
        rw [written.answered, Object.registered_stamp, Object.registered_annotate]
      have named : updated.currentVersion = made := by
        rw [written.answered, Object.currentVersion_stamp, Object.currentVersion_annotate]
      have keys : key updated = key object := written.key_eq
      have enrolled := carried.enrolled.congr registered
      have names : ∀ stored ∈ (cluster.withObjects kind objects).objects kind, key stored = key updated →
          stored.currentVersion = made ∧ Enrolled workload owner stored := by
        intro stored member own
        rw [Cluster.withObjects_objects] at member
        obtain rfl := Table.unique member written.mem own
        exact ⟨named, enrolled⟩
      rcases answered with rfl | ⟨rfl, error, rfl⟩
      swap
      · intro later same
        exact same ▸ ⟨made, filled, fun stored member own => names stored member (own.trans keys.symm), carried.carries⟩
      have published : Published workload owner made updated (cluster.withObjects kind objects) := by
        refine ⟨filled, names, enrolled, ?_, version, ?_⟩
        · rw [written.answered]
          simp [stamp, Object.annotate]
        · rw [show updated.ns = object.ns from congrArg Prod.fst keys,
            show updated.name = object.name from congrArg Prod.snd keys]
          exact carried.carries
      have rolls : (rollOut workload updated made).Safe rolloutRules
          (fun after _ => RolledOut kind workload updated.ns updated.name owner after)
          (cluster.withObjects kind objects) :=
        (safe_rollOut published).mono fun _ _ carried => ⟨made, carried⟩
      rw [show updated.ns = object.ns from congrArg Prod.fst keys,
        show updated.name = object.name from congrArg Prod.snd keys] at rolls
      show (rollOut .deployment updated made >>= fun _ => rollOut .statefulSet updated made).Safe _ _ _
      cases workload with
      | deployment =>
        simp only [rollOut_unregistered (enrolled.others .statefulSet (by decide))]
        exact rolls.bind (fun _ _ holds _ same => same ▸ holds) (fun _ _ => id) (fun _ => id) fun _ => rfl
      | statefulSet =>
        simpa only [rollOut_unregistered (enrolled.others .deployment (by decide)), Program.ret_bind] using rolls

/-- A reconcile of an object whose template carries its version keeps it so. -/
theorem safe_reconcile_rollout (rolledOut : RolledOut kind workload ns name owner cluster) :
    (reconcile kind ns name).Safe rolloutRules
      (fun after _ => RolledOut kind workload ns name owner after) cluster := by
  obtain ⟨version, carried⟩ := rolledOut
  rintro _ rfl after answer reacts
  refine ⟨trivial, ?_⟩
  obtain ⟨rfl, ⟨error, rfl⟩ | ⟨object, member, own, rfl⟩⟩ := reacts.delivers.getObject
  · exact fun later same => same ▸ ⟨version, carried⟩
  obtain ⟨rfl, rfl⟩ := Prod.mk.inj own
  obtain ⟨named, enrolled⟩ := carried.names object member rfl
  have holds : CarriedWith workload owner version object after := ⟨carried, named, enrolled, .of_mem member⟩
  show Program.Safe _ _ (if object.currentVersion = "" then _ else _) after
  rw [if_neg (named ▸ carried.filled)]
  refine conduct_rollout.safe_synchronize (fun _ holds => ⟨version, holds.toCarriedAt⟩) ?_ ?_ holds
  · intro before after revision restored answer _ copied holds reacts
    exact ⟨trivial, holds.rewrite (restored_of_restore? copied) reacts⟩
  · intro before after draws answer holds reacts
    have on : Call.OnRevisions (.createRevision kind (newRevision object (randomSequence draws 5))) := trivial
    have still := holds.onRevisions on reacts
    exact ⟨trivial, fun _ _ => still, fun created _ => safe_publish_rollout still (randomSequence_ne_empty draws 4)⟩

end Reconcile

/-- Along every sequence of writes of a user and of reconciles whose calls may fail or lose
their answers, as long as no roll-out is lost and the user gives the object no version but
the one that the template carries, the template of the only workload carries the version of
the object. -/
theorem rollout_kept {cluster after : Cluster} (start : RolledOut kind workload ns name owner cluster)
    (run : Relation.ReflTransGen (RolloutStep kind ns name Cluster.Heeds
      fun cluster version => Carries workload ns owner (kind.tag ++ name) version cluster) cluster after)
    {object : Object kind} (member : object ∈ after.objects kind) (own : key object = (ns, name)) :
    Carries workload ns owner (kind.tag ++ name) object.currentVersion after := by
  have rolledOut : RolledOut kind workload ns name owner after := by
    clear member own
    induction run with
    | refl => exact start
    | tail _ step ih =>
      cases step with
      | write writes =>
        obtain ⟨version, carried⟩ := ih
        exact ⟨version, carried.write writes⟩
      | reconcile ends => exact (safe_reconcile_rollout ih).ends (fun _ => rfl) ends
  obtain ⟨version, carried⟩ := rolledOut
  rw [(carried.names object member own).1]
  exact carried.carries

namespace Sample

/-- The ConfigMap `settings` with the Deployment `api`. -/
def enrolled (text version : String) (written : Nat) : Object .configMap :=
  { settings text version written with
    annotations := (settings text version written).annotations.put "deployments" "api" }

/-- The Deployment `api` with a template that carries a version. -/
def apiAt (version : String) (written : Nat) : Workload :=
  { api with
    template := { api.template with annotations := (GoMap.make ∅).put "ccm-settings" version }
    resourceVersion := written }

def rolledOut : Cluster :=
  (shop ⟨[enrolled "red" "aaaaa" 1], 1, by decide, by decide, by decide⟩
    (synced.revisions .configMap)).withWorkloads
      .deployment ⟨[apiAt "aaaaa" 1], 1, by decide, by decide, by decide⟩

theorem rolledOut_rolledOut : RolledOut .configMap .deployment "shop" "settings" "api" rolledOut := by
  refine ⟨"aaaaa", by decide, fun object member _ => ?_, apiAt "aaaaa" 1, List.mem_singleton_self _, rfl,
    by decide⟩
  obtain rfl : object = enrolled "red" "aaaaa" 1 := List.mem_singleton.mp member
  refine ⟨by decide, by decide, by decide, fun other different => ?_⟩
  cases other with
  | deployment => exact absurd rfl different
  | statefulSet => decide

def rolledOutBlue : Cluster :=
  rolledOut.withObjects .configMap ⟨[enrolled "blue" "aaaaa" 2], 2, by decide, by decide, by decide⟩

theorem repaints (react : Cluster → (request : Call) → Cluster → Answer request → Prop)
    (names : Cluster → String → Prop) :
    RolloutStep .configMap "shop" "settings" react names rolledOut rolledOutBlue :=
  have accepted : (rolledOut.objects .configMap).update (enrolled "blue" "aaaaa" 1) =
      .ok (enrolled "blue" "aaaaa" 2, rolledOutBlue.objects .configMap) := by rfl
  have same : key (enrolled "blue" "aaaaa" 1) = key (enrolled "red" "aaaaa" 1) := rfl
  .write (.mk (List.mem_singleton_self _) rfl same (fun workload => by cases workload <;> decide)
    (Or.inl (by decide)) accepted)

/-- The reconcile of the edit up to the update of the Deployment. -/
def unrolled : Cluster × Client Unit :=
  (reconcile .configMap "shop" "settings").after Cluster.serve 9 rolledOutBlue

/-- The ConfigMap as that reconcile leaves it. -/
def enrolledAgain : Object .configMap :=
  stamp 3 ((enrolled "blue" "aaaaa" 2).annotate "bbbbb" "settings-bbbbb")

/-- The edit and its reconcile, which is not told that the Deployment has been updated. -/
theorem rolls_out : RolloutStep .configMap "shop" "settings" Cluster.Heeds
    (fun cluster version => Carries .deployment "shop" "api" "ccm-settings" version cluster) rolledOutBlue
    (rolledOutBlue.reconcile .configMap "shop" "settings").1 := by
  have serves : ∀ (world : Cluster) request,
      world.Heeds request (Cluster.serve world request).1 (Cluster.serve world request).2 :=
    fun world request => ⟨Or.inl (Or.inl rfl), fun _ _ _ _ => rfl, fun _ _ _ => rfl, fun _ => Or.inl rfl⟩
  have lost : unrolled.1.Heeds (.updateWorkload .deployment (apiAt "bbbbb" 1))
      (unrolled.1.serve (.updateWorkload .deployment (apiAt "bbbbb" 1))).1 (.error (.other "timeout")) :=
    ⟨Or.inr ⟨rfl, .other "timeout", rfl⟩, by rintro _ _ _ ⟨⟩, fun _ _ _ => rfl, False.elim⟩
  have ends : unrolled.2.Ends Cluster.Heeds unrolled.1
      (rolledOutBlue.reconcile .configMap "shop" "settings").1 (.failed (.other "timeout")) := .call lost .fail
  exact .reconcile (.of_after serves 9 ends)

theorem rolledOut_again : Carries .deployment "shop" "api" "ccm-settings" "bbbbb"
    (rolledOutBlue.reconcile .configMap "shop" "settings").1 :=
  rollout_kept rolledOut_rolledOut (.tail (.single (repaints _ _)) rolls_out)
    (show enrolledAgain ∈ _ from List.mem_singleton_self _) rfl

/-- An update of the Deployment that fails is not made up for: the next reconcile has nothing
to do, and the template carries the old version. -/
theorem failed_rollout_forgotten : ∃ after,
    RolledOut .configMap .deployment "shop" "settings" "api" rolledOut ∧
      Relation.ReflTransGen (RolloutStep .configMap "shop" "settings" Cluster.Delivers fun _ _ => True)
        rolledOut after ∧
      ((reconcile .configMap "shop" "settings").run Cluster.serve after).1 = after ∧
      ∃ object ∈ after.objects .configMap, key object = ("shop", "settings") ∧
        ¬ Carries .deployment "shop" "api" "ccm-settings" object.currentVersion after := by
  have fails : unrolled.2.Ends Cluster.Delivers unrolled.1 unrolled.1 (.failed (.other "timeout")) :=
    .call (Or.inl (Or.inr ⟨rfl, .other "timeout", rfl⟩)) .fail
  have serves : ∀ (world : Cluster) request,
      world.Delivers request (Cluster.serve world request).1 (Cluster.serve world request).2 :=
    fun _ _ => Or.inl (Or.inl rfl)
  have run := (Relation.ReflTransGen.single (repaints Cluster.Delivers fun _ _ => True)).tail
    (.reconcile (.of_after serves 9 fails))
  refine ⟨unrolled.1, rolledOut_rolledOut, run, rfl, enrolledAgain, List.mem_singleton_self _, rfl, ?_⟩
  rintro ⟨stored, member, _, found⟩
  obtain rfl : stored = apiAt "aaaaa" 1 := List.mem_singleton.mp member
  exact absurd found (by decide)

end Sample

end Configurator
