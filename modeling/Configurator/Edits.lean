import Configurator.Library.Interference
import Configurator.Reactions
import Configurator.Reconciliation

namespace Configurator

open Resource

variable {kind : Kind} {ns name : String}

/-- Another client writes the object and leaves the version that it names, or something
changes that is neither an object nor a revision of the kind. -/
inductive OtherWrite (kind : Kind) (ns name : String) : Cluster → Cluster → Prop where
  | object {cluster : Cluster} {stored answer : Object kind} {objects : Table (Object kind)}
      (sent : Object kind) (held : stored ∈ cluster.objects kind) (own : key stored = (ns, name))
      (same : key sent = key stored) (kept : sent.currentVersion = stored.currentVersion)
      (accepted : (cluster.objects kind).update sent = .ok (answer, objects)) :
      OtherWrite kind ns name cluster (cluster.withObjects kind objects)
  | elsewhere {cluster after : Cluster} (objects : after.objects kind = cluster.objects kind)
      (revisions : after.revisions kind = cluster.revisions kind) :
      OtherWrite kind ns name cluster after

/-- Reconciles of one object, one after the other, among the writes of other clients.
Only calls that meet a condition are made. -/
def reconciling (kind : Kind) (ns name : String) (meets : Cluster → Call → Prop) :
    System Cluster Call Answer ApiError Unit Unit where
  react _ cluster request after answer := cluster.serve request = (after, answer) ∧ meets cluster request
  environment := OtherWrite kind ns name
  starts _ program := program = reconcile kind ns name

/-- An update that gives an object another version is made from the stored object. -/
def Timely (cluster : Cluster) : Call → Prop
  | .updateObject kind sent => ∀ stored ∈ cluster.objects kind, key stored = key sent →
      sent.currentVersion ≠ stored.currentVersion → version stored = version sent
  | _ => True

def KeepsContent (kind : Kind) (ns name : String) (before after : Cluster) : Prop :=
  ∀ edited ∈ after.objects kind, key edited = (ns, name) →
    ∃ object ∈ before.objects kind, key object = (ns, name) ∧ edited.content = object.content

theorem KeepsContent.of_objects {before after : Cluster}
    (same : after.objects kind = before.objects kind) : KeepsContent kind ns name before after :=
  fun object member own => ⟨object, same ▸ member, own, rfl⟩

/-- The object names a version, and what holds of the revisions. -/
structure NamesWith (ns name version : String) (holds : Table (Revision kind) → Prop)
    (cluster : Cluster) : Prop where
  filled : version ≠ ""
  names : ∀ object ∈ cluster.objects kind, key object = (ns, name) → object.currentVersion = version
  revisions : holds (cluster.revisions kind)

/-- Every current revision of the object has the version. -/
def CurrentAt (ns name version : String) (table : Table (Revision kind)) : Prop :=
  ∀ revision ∈ table, marked ns name "current" revision = true → revision.customVersion = version

def NoneCurrent (ns name : String) (table : Table (Revision kind)) : Prop :=
  ∀ revision ∈ table, marked ns name "current" revision = false

theorem NoneCurrent.currentAt {table : Table (Revision kind)} (none : NoneCurrent ns name table)
    (version : String) : CurrentAt ns name version table := by
  intro revision member carries
  simp [none revision member] at carries

section Written

variable {table next : Table (Revision kind)} {sent answer : Revision kind} {version : String}

theorem CurrentAt.write (at_ : CurrentAt ns name version table)
    (written : table.Written sent answer next)
    (sound : marked ns name "current" sent = true → sent.customVersion = version) :
    CurrentAt ns name version next := by
  intro revision member carries
  rcases (written.members revision).mp member with rfl | ⟨present, _⟩
  · rw [written.answered, marked_stamp] at carries
    rw [written.answered, Revision.customVersion_stamp]
    exact sound carries
  · exact at_ revision present carries

theorem NoneCurrent.write (none : NoneCurrent ns name table) (written : table.Written sent answer next)
    (unmarked : marked ns name "current" sent = false) : NoneCurrent ns name next := by
  intro revision member
  rcases (written.members revision).mp member with rfl | ⟨present, _⟩
  · rw [written.answered, marked_stamp]
    exact unmarked
  · exact none revision present

end Written

/-- Between reconciles the object names the version of its current revisions. -/
def Aligned (kind : Kind) (ns name : String) (cluster : Cluster) : Prop :=
  ∃ version, NamesWith ns name version (CurrentAt ns name version : Table (Revision kind) → Prop) cluster

/-- What a reconcile relies on: no one else touches revisions or the named version. -/
structure Undisturbed (kind : Kind) (ns name : String) (before after : Cluster) : Prop where
  later : (before.objects kind).Later (after.objects kind)
  names : ∀ edited ∈ after.objects kind, key edited = (ns, name) →
    ∃ object ∈ before.objects kind, key object = (ns, name) ∧
      edited.currentVersion = object.currentVersion
  revisions : after.revisions kind = before.revisions kind

theorem Undisturbed.refl (cluster : Cluster) : Undisturbed kind ns name cluster cluster :=
  ⟨Table.Later.refl _, fun object member own => ⟨object, member, own, rfl⟩, rfl⟩

theorem Undisturbed.trans {first second third : Cluster}
    (earlier : Undisturbed kind ns name first second) (later : Undisturbed kind ns name second third) :
    Undisturbed kind ns name first third where
  later := earlier.later.trans later.later
  names := by
    intro edited member own
    obtain ⟨middle, present, its, same⟩ := later.names edited member own
    obtain ⟨object, was, same', again⟩ := earlier.names middle present its
    exact ⟨object, was, same', same.trans again⟩
  revisions := later.revisions.trans earlier.revisions

theorem OtherWrite.undisturbed {before after : Cluster} (write : OtherWrite kind ns name before after) :
    Undisturbed kind ns name before after := by
  cases write with
  | @object stored answer objects sent held own same kept accepted =>
    have written := (Table.written_of_update accepted).2
    refine ⟨by simpa using written.later, fun edited member its => ?_, rfl⟩
    rw [Cluster.withObjects_objects] at member
    rcases (written.members edited).mp member with rfl | ⟨present, _⟩
    · exact ⟨stored, held, own, by rw [written.answered, Object.currentVersion_stamp, kept]⟩
    · exact ⟨edited, present, its, rfl⟩
  | elsewhere objects revisions =>
    exact ⟨objects ▸ Table.Later.refl _, fun edited member own => ⟨edited, objects ▸ member, own, rfl⟩,
      revisions⟩

theorem NamesWith.later {before after : Cluster} {version : String}
    {holds : Table (Revision kind) → Prop} (moves : Undisturbed kind ns name before after)
    (names : NamesWith ns name version holds before) : NamesWith ns name version holds after where
  filled := names.filled
  names := by
    intro edited member own
    obtain ⟨object, was, its, same⟩ := moves.names edited member own
    exact same.trans (names.names object was its)
  revisions := moves.revisions ▸ names.revisions

theorem Aligned.later {before after : Cluster} (moves : Undisturbed kind ns name before after)
    (aligned : Aligned kind ns name before) : Aligned kind ns name after := by
  obtain ⟨version, names⟩ := aligned
  exact ⟨version, names.later moves⟩

/-- The rules by which a reconcile is safe. -/
def reconcileRules (kind : Kind) (ns name : String) : Rules Cluster Call Answer where
  react cluster request after answer := cluster.serve request = (after, answer) ∧ Timely cluster request
  rely := Undisturbed kind ns name
  guarantee before _ after := KeepsContent kind ns name before after

/-- A part of a reconcile that keeps the content and leaves the object aligned. -/
abbrev SafeReconcile (kind : Kind) (ns name : String) {α : Type} (program : Client α)
    (cluster : Cluster) : Prop :=
  program.Safe (reconcileRules kind ns name) (fun after _ => Aligned kind ns name after) cluster

/-- The object names a version while a reconcile holds it as it has read it. -/
structure HoldsWith (ns name version : String) (holds : Table (Revision kind) → Prop)
    (object : Object kind) (cluster : Cluster) : Prop
    extends NamesWith ns name version holds cluster where
  own : key object = (ns, name)
  versioned : object.currentVersion = version
  seen : (cluster.objects kind).Seen object

theorem HoldsWith.later {before after : Cluster} {version : String}
    {holds : Table (Revision kind) → Prop} {object : Object kind}
    (moves : Undisturbed kind ns name before after)
    (held : HoldsWith ns name version holds object before) :
    HoldsWith ns name version holds object after :=
  ⟨held.toNamesWith.later moves, held.own, held.versioned, held.seen.later moves.later⟩

theorem HoldsWith.withRevisions {version : String} {holds becomes : Table (Revision kind) → Prop}
    {object : Object kind} {cluster : Cluster} {table : Table (Revision kind)}
    (held : HoldsWith ns name version holds object cluster) (written : becomes table) :
    HoldsWith ns name version becomes object (cluster.withRevisions kind table) where
  filled := held.filled
  names := held.names
  revisions := by simpa using written
  own := held.own
  versioned := held.versioned
  seen := held.seen

theorem HoldsWith.aligned {version : String} {object : Object kind} {cluster : Cluster}
    {holds : Table (Revision kind) → Prop} (held : HoldsWith ns name version holds object cluster)
    (implies : holds (cluster.revisions kind) → CurrentAt ns name version (cluster.revisions kind)) :
    Aligned kind ns name cluster :=
  ⟨version, held.filled, held.names, implies held.revisions⟩

section Safety

variable {object : Object kind} {current : Revision kind} {version : String} {cluster : Cluster}
  {holds : Table (Revision kind) → Prop} {α : Type}

theorem safe_ret {value : α} (aligned : Aligned kind ns name cluster) :
    SafeReconcile kind ns name (.ret value : Client α) cluster :=
  fun _ moves => aligned.later moves

theorem safe_fail {error : ApiError} (aligned : Aligned kind ns name cluster) :
    SafeReconcile kind ns name (.fail error : Client α) cluster :=
  fun _ moves => aligned.later moves

theorem safe_panic (aligned : Aligned kind ns name cluster) :
    SafeReconcile kind ns name (.panic : Client α) cluster :=
  fun _ moves => aligned.later moves

theorem safe_call {request : Call} {next : Answer request → Client α}
    (held : HoldsWith ns name version holds object cluster)
    (step : ∀ before after answer, HoldsWith ns name version holds object before →
      before.serve request = (after, answer) → Timely before request →
        KeepsContent kind ns name before after ∧ SafeReconcile kind ns name (next answer) after) :
    SafeReconcile kind ns name (.call request next) cluster :=
  Program.Safe.call (HoldsWith ns name version holds object) HoldsWith.later held
    fun before after answer held reacts => step before after answer held reacts.1 reacts.2

theorem safe_rollOuts {made : String} (aligned : Aligned kind ns name cluster) :
    SafeReconcile kind ns name (rollOuts object made) cluster := by
  refine Program.Safe.of_emits (emits_rollOuts object made)
    (fun moves aligned => Aligned.later moves aligned) aligned ?_ fun _ _ aligned => aligned
  intro before request after answer rolls aligned reacts
  have records := rolls.serve before
  rw [reacts.1] at records
  refine ⟨.of_objects (congrFun records.objects kind), ?_⟩
  exact aligned.later
    ⟨records.objects ▸ Table.Later.refl _,
      fun edited member own => ⟨edited, congrFun records.objects kind ▸ member, own, rfl⟩,
      congrFun records.revisions kind⟩

/-- The update that records a new revision in the object. Where it is made from the
stored object it carries that object's content; where it is refused there is no such
object, or the version was the object's before. -/
theorem safe_publish {created : Revision kind} {made : String} (filled : made ≠ "")
    (held : HoldsWith ns name version (CurrentAt ns name made) object cluster) :
    SafeReconcile kind ns name (publish object created made) cluster := by
  have annotate := Object.annotate?_of_ne_nil
    (Object.ne_nil_of_versioned (held.versioned ▸ held.filled)) made created.name
  simp only [publish, annotate, Program.orPanic_some, Program.ret_bind, updateObject,
    Program.request_bind, Program.call_bind]
  refine safe_call held ?_
  intro before after answer held served timely
  have sameKey : key (object.annotate made created.name) = (ns, name) := held.own
  rcases Cluster.updateObject_cases served with
    ⟨rfl, refusal, refused, rfl⟩ | ⟨stored, objects, accepted, rfl, rfl⟩
  · refine ⟨.of_objects rfl, safe_fail ⟨made, filled, fun edited member own => ?_, held.revisions⟩⟩
    -- A stored object under the key has another version than the one sent.
    by_contra different
    have current := timely edited member (own.trans sameKey.symm)
      (by simpa using Ne.symm different)
    obtain ⟨_, _, ok, _⟩ := Table.update_of_current (object.annotate made created.name) member
      (own.trans sameKey.symm) current
    simp [ok] at refused
  · obtain ⟨⟨entry, member, its, current⟩, written⟩ := Table.written_of_update accepted
    have same : entry = object := held.seen.same member its current
    subst same
    have content : stored.content = entry.content := by
      have kept : entry.content.stored = entry.content := Object.stored_content member
      rw [written.answered]
      exact kept
    refine ⟨fun edited present own => ?_, safe_rollOuts ⟨made, filled, fun edited present own => ?_,
      held.revisions⟩⟩
    · rw [Cluster.withObjects_objects] at present
      rcases (written.members edited).mp present with rfl | ⟨_, other⟩
      · exact ⟨entry, member, held.own, content⟩
      · exact absurd (own.trans sameKey.symm) other
    · rw [Cluster.withObjects_objects] at present
      rcases (written.members edited).mp present with rfl | ⟨_, other⟩
      · rw [written.answered, Object.currentVersion_stamp, Object.currentVersion_annotate]
      · exact absurd (own.trans sameKey.symm) other

/-- Putting the labels back leaves no current revision but the old one. -/
theorem safe_revert {latest : List (Revision kind)} {error : ApiError}
    (held : HoldsWith ns name version (NoneCurrent ns name) object cluster)
    (old : current.customVersion = version)
    (unmarked : ∀ revision ∈ latest, marked ns name "current" revision = false) :
    SafeReconcile kind ns name (revert current latest error) cluster := by
  have idle : ∀ {after : Cluster}, HoldsWith ns name version (NoneCurrent ns name) object after →
      Aligned kind ns name after := fun held => held.aligned fun none => none.currentAt version
  cases label : current.label? "current" with
  | none => simpa [revert, label] using safe_panic (idle held)
  | some labelled =>
    simp only [revert, label, updateRevision, Program.orPanic_some, Program.ret_bind,
      Program.request_bind, Program.call_bind]
    refine safe_call held fun before after answer held served _ => ?_
    rcases Cluster.updateRevision_cases served with
      ⟨rfl, refusal, _, rfl⟩ | ⟨stored, revisions, accepted, rfl, rfl⟩
    · exact ⟨.of_objects rfl, safe_fail (idle held)⟩
    · have written := (Table.written_of_update accepted).2
      have version_labelled : labelled.customVersion = version := by
        rw [Revision.label?_eq_some label]
        exact old
      have put := held.withRevisions
        ((held.revisions.currentAt version).write written fun _ => version_labelled)
      refine ⟨.of_objects rfl, ?_⟩
      cases latest with
      | nil => exact safe_panic (put.aligned id)
      | cons first others =>
        cases again : first.label? "latest" with
        | none => simpa [again] using safe_panic (put.aligned id)
        | some relabelled =>
          simp only [again, Program.ofExcept_ok, Program.orPanic_some, Program.ret_bind]
          refine safe_call put fun before after answer held served _ => ?_
          rcases Cluster.updateRevision_cases served with
            ⟨rfl, refusal, _, rfl⟩ | ⟨stored, revisions, accepted, rfl, rfl⟩
          · exact ⟨.of_objects rfl, safe_fail (held.aligned id)⟩
          · have written := (Table.written_of_update accepted).2
            refine ⟨.of_objects rfl, safe_fail ((held.withRevisions
              (held.revisions.write written fun carries => ?_)).aligned id)⟩
            rw [Revision.label?_eq_some again, marked_put_latest,
              unmarked first List.mem_cons_self] at carries
            cases carries

theorem safe_addNew {latest : List (Revision kind)}
    (held : HoldsWith ns name version (NoneCurrent ns name) object cluster)
    (old : current.customVersion = version)
    (unmarked : ∀ revision ∈ latest, marked ns name "current" revision = false) :
    SafeReconcile kind ns name (addNew object current latest) cluster := by
  simp only [addNew, newCustomResource, Program.request_bind, Program.call_bind, Program.pure_eq,
    Program.ret_bind]
  refine safe_call held fun before after draws held served _ => ?_
  rw [Cluster.serve_seedRandom, Prod.mk.injEq] at served
  obtain ⟨rfl, rfl⟩ := served
  refine ⟨.of_objects rfl, ?_⟩
  have seeded : HoldsWith ns name version (NoneCurrent ns name) object before.reseeded :=
    ⟨⟨held.filled, held.names, held.revisions⟩, held.own, held.versioned, held.seen⟩
  refine safe_call seeded fun middle after answer held served _ => ?_
  rcases Cluster.createRevision_cases served with
    ⟨rfl, refusal, _, rfl⟩ | ⟨created, revisions, accepted, rfl, rfl⟩
  · exact ⟨.of_objects rfl, safe_revert held old unmarked⟩
  · have written := Table.written_of_create accepted
    refine ⟨.of_objects rfl, safe_publish (randomSequence_ne_empty _ _) (held.withRevisions ?_)⟩
    exact (held.revisions.currentAt _).write written fun _ => customVersion_newRevision object _

/-- What `createNew` does with the revisions that were labelled latest. -/
def afterStrip (object : Object kind) (current : Revision kind) :
    Option (List (Revision kind)) → Client Unit
  | none => pure ()
  | some latest => addNew object current latest

/-- Every round of the loop leaves no current revision, or puts the old one back. -/
theorem safe_stripLatest (rounds : Nat) {before : List (Revision kind)}
    (held : HoldsWith ns name version (NoneCurrent ns name) object cluster)
    (old : current.customVersion = version)
    (unmarked : ∀ revision ∈ before, marked ns name "current" revision = false) :
    SafeReconcile kind ns name (stripLatest object current rounds before >>= afterStrip object current)
      cluster := by
  have idle : ∀ {after : Cluster}, HoldsWith ns name version (NoneCurrent ns name) object after →
      Aligned kind ns name after := fun held => held.aligned fun none => none.currentAt version
  induction rounds generalizing before cluster with
  | zero => exact safe_addNew held old unmarked
  | succ rounds ih =>
    simp only [stripLatest, Program.request_bind, Program.call_bind]
    refine safe_call held fun middle after answer held served _ => ?_
    obtain ⟨rfl, rfl⟩ := Cluster.listRevisions_cases served
    refine ⟨.of_objects rfl, ?_⟩
    have listed : ∀ revision ∈ (after.revisions kind).select
        (fun revision => revision.matches object.ns [("name", object.name), ("latest", "true")]),
        marked ns name "current" revision = false :=
      fun revision member => held.revisions revision (Table.mem_select.mp member).1
    simp only [itemsAfter_ok]
    generalize (after.revisions kind).select _ = items at listed
    cases items with
    | nil => exact safe_panic (idle held)
    | cons first others =>
      refine safe_call held fun before after answer held served _ => ?_
      have unmarkedSent : marked ns name "current" (first.unlabel "latest") = false :=
        (marked_unlabel_latest ns name first).trans (listed first List.mem_cons_self)
      have unmarkedOthers : ∀ revision ∈ others, marked ns name "current" revision = false :=
        fun revision member => listed revision (List.mem_cons_of_mem first member)
      rcases Cluster.updateRevision_cases served with
        ⟨rfl, refusal, _, rfl⟩ | ⟨stored, revisions, accepted, rfl, rfl⟩
      · refine ⟨.of_objects rfl, ?_⟩
        simp only []
        split
        · exact ih held (List.forall_mem_cons.mpr ⟨unmarkedSent, unmarkedOthers⟩)
        · cases label : current.label? "current" with
          | none => exact safe_panic (idle held)
          | some labelled =>
            refine safe_call held fun before after answer held served _ => ?_
            rcases Cluster.updateRevision_cases served with
              ⟨rfl, refusal, _, rfl⟩ | ⟨stored, revisions, accepted, rfl, rfl⟩
            · exact ⟨.of_objects rfl, safe_fail (idle held)⟩
            · have version_labelled : labelled.customVersion = version := by
                rw [Revision.label?_eq_some label]
                exact old
              have put := (held.revisions.currentAt version).write
                (Table.written_of_update accepted).2 fun _ => version_labelled
              exact ⟨.of_objects rfl, safe_ret ((held.withRevisions put).aligned id)⟩
      · have written := (Table.written_of_update accepted).2
        have gone := held.revisions.write written unmarkedSent
        refine ⟨.of_objects rfl, safe_addNew (held.withRevisions gone) old ?_⟩
        exact List.forall_mem_cons.mpr ⟨gone stored written.mem, unmarkedOthers⟩

/-- The making of a new revision starts from the only current one. -/
theorem safe_createNew (old : current.customVersion = version)
    (held : HoldsWith ns name version
      (fun table => table.Sole (marked ns name "current") current) object cluster) :
    SafeReconcile kind ns name (createNew object current) cluster := by
  have shape : createNew object current =
      .call (.updateRevision kind (current.unlabel "current")) fun answer =>
        Program.ofExcept answer >>= fun stored =>
          stripLatest object stored 6 [] >>= afterStrip object stored := by
    refine congrArg (Program.call _) (funext fun answer => ?_)
    cases answer with
    | error error => rfl
    | ok stored => exact congrArg _ (funext fun stripped => by cases stripped with | _ => rfl)
  rw [shape]
  refine safe_call held fun before after answer held served _ => ?_
  rcases Cluster.updateRevision_cases served with
    ⟨rfl, refusal, _, rfl⟩ | ⟨stored, revisions, accepted, rfl, rfl⟩
  · refine ⟨.of_objects rfl, safe_fail (held.aligned fun sole revision member carries => ?_)⟩
    rw [sole.2.2 revision member carries, old]
  · have written := (Table.written_of_update accepted).2
    refine ⟨.of_objects rfl, safe_stripLatest 6
      (held.withRevisions (held.revisions.unlabelled written)) ?_ (by simp)⟩
    rw [written.answered, Revision.customVersion_stamp]
    exact old

/-- The list of current revisions decides, and it never decides to copy one back. -/
theorem safe_synchronize (held : HoldsWith ns name version (CurrentAt ns name version) object cluster) :
    SafeReconcile kind ns name (synchronize object) cluster := by
  have sameNs : object.ns = ns := congrArg Prod.fst held.own
  have sameName : object.name = name := congrArg Prod.snd held.own
  simp only [synchronize, listRevisions, Program.request_bind, Program.call_bind]
  refine safe_call held fun before after answer held served _ => ?_
  obtain ⟨rfl, rfl⟩ := Cluster.listRevisions_cases served
  refine ⟨.of_objects rfl, ?_⟩
  simp only [Program.ofExcept_ok, Program.ret_bind]
  cases list : (after.revisions kind).select
      (fun revision => revision.matches object.ns [("name", object.name), ("current", "true")]) with
  | nil => exact safe_ret (held.aligned id)
  | cons current others =>
    cases others with
    | cons second others => exact safe_ret (held.aligned id)
    | nil =>
      have sole := Table.select_eq_singleton.mp list
      rw [sameNs, sameName] at sole
      have same := held.revisions current sole.1 sole.2.1
      simp only [same, held.versioned, ne_eq, not_true_eq_false, if_false]
      split
      · exact safe_createNew same
          { filled := held.filled, names := held.names, revisions := sole, own := held.own,
            versioned := held.versioned, seen := held.seen }
      · exact safe_ret (held.aligned id)

/-- A reconcile keeps the content of its object. -/
theorem safe_reconcile (aligned : Aligned kind ns name cluster) :
    SafeReconcile kind ns name (reconcile kind ns name) cluster := by
  refine Program.Safe.call (Aligned kind ns name) Aligned.later aligned ?_
  rintro before after answer ⟨version, names⟩ ⟨served, _⟩
  obtain ⟨rfl, ⟨error, rfl⟩ | ⟨object, member, own, rfl⟩⟩ := Cluster.getObject_cases served
  · exact ⟨.of_objects rfl, safe_ret ⟨version, names⟩⟩
  · have versioned := names.names object member own
    refine ⟨.of_objects rfl, ?_⟩
    show SafeReconcile kind ns name
      (if object.currentVersion = "" then adoptOrCreate object else synchronize object) after
    rw [if_neg (versioned ▸ names.filled)]
    exact safe_synchronize
      { toNamesWith := names, own := own, versioned := versioned, seen := .of_mem member }

end Safety

/-- Reconciles whose updates are timely keep the content of their object. -/
def reconcilingOutline (kind : Kind) (ns name : String) : (reconciling kind ns name Timely).Outline where
  rely _ := Undisturbed kind ns name
  guarantee _ before _ after := KeepsContent kind ns name before after
  ready _ := Aligned kind ns name
  post _ cluster _ := Aligned kind ns name cluster
  reflexive _ := Undisturbed.refl
  transitive _ := Undisturbed.trans
  environment _ := OtherWrite.undisturbed
  others different := absurd (Subsingleton.elim _ _) different
  stable _ := Aligned.later
  safe begins _ aligned := begins ▸ safe_reconcile aligned
  settles := fun _ {_ _} aligned => aligned

/-- A synced object: it names the version of its only current revision and agrees with it. -/
structure Synced (cluster : Cluster) (ns name : String) (object : Object kind)
    (current : Revision kind) : Prop where
  held : object ∈ cluster.objects kind
  own : key object = (ns, name)
  versioned : object.currentVersion ≠ ""
  isCurrent : (cluster.revisions kind).Sole (marked ns name "current") current
  same : object.currentVersion = current.customVersion
  agrees : differs object current = false

theorem Synced.aligned {cluster : Cluster} {object : Object kind} {current : Revision kind}
    (synced : Synced cluster ns name object current) : Aligned kind ns name cluster := by
  refine ⟨object.currentVersion, synced.versioned, fun other member own => ?_,
    fun revision member carries => ?_⟩
  · rw [Table.unique member synced.held (own.trans synced.own.symm)]
  · rw [synced.isCurrent.2.2 revision member carries, synced.same]

/-- From a synced object on, along every interleaving with the writes of other clients in
which no update that gives the object a new version is outdated when it is sent, no call
of a reconcile changes the content of the object. -/
theorem edits_kept {cluster : Cluster} {object : Object kind} {current : Revision kind}
    {pool : Pool Cluster Call Answer ApiError Unit Unit} {request : Call}
    {next : Answer request → Client Unit} {after : Cluster} {answer : Answer request}
    (synced : Synced cluster ns name object current)
    (run : (reconciling kind ns name Timely).Reaches (System.idle cluster) pool)
    (flight : pool.threads () = some (.call request next))
    (served : pool.world.serve request = (after, answer)) (timely : Timely pool.world request) :
    KeepsContent kind ns name pool.world after := by
  have start : (reconcilingOutline kind ns name).Holds (System.idle cluster) := fun _ => synced.aligned
  exact System.Outline.guaranteed (System.Outline.reaches start run) flight ⟨served, timely⟩

namespace Sample

theorem synced_synced : Synced synced "shop" "settings" (settings "red" "aaaaa" 1)
    (settingsCCM "red" "aaaaa" ["current", "latest"] 1) :=
  ⟨List.mem_singleton_self _, rfl, by decide, Table.select_eq_singleton.mp (by decide), by decide,
    by decide⟩

def recoloured : Table (Object .configMap) :=
  ⟨[settings "green" "aaaaa" 3], 3, by decide, by decide, by decide⟩

theorem first_edit : OtherWrite .configMap "shop" "settings" synced
    (synced.withObjects .configMap edited) :=
  .object (settings "blue" "aaaaa" 1) (List.mem_singleton_self _) rfl rfl (by decide) (by rfl)

theorem edit_begins (meets : Cluster → Call → Prop) :
    (reconciling .configMap "shop" "settings" meets).Reaches (System.idle synced)
      ⟨synced.withObjects .configMap edited,
        Function.update (fun _ => none) () (some (reconcile .configMap "shop" "settings"))⟩ :=
  (System.Reaches.moved .refl first_edit).started () _ rfl rfl

/-- The reconcile of the first edit before it records the version `bbbbb`. -/
def overtaken : Cluster × Client Unit :=
  (reconcile .configMap "shop" "settings").after Cluster.serve 7 (synced.withObjects .configMap edited)

def recordsBlue : Call :=
  .updateObject .configMap ((settings "blue" "aaaaa" 2).annotate "bbbbb" "settings-bbbbb")

theorem recordsBlue_timely : Timely overtaken.1 recordsBlue := by
  intro stored member _ _
  obtain rfl : stored = settings "blue" "aaaaa" 2 := List.mem_singleton.mp member
  rfl

/-- The update that records `bbbbb` is made from the edited ConfigMap and keeps the edit. -/
theorem recordsBlue_keeps_edit : KeepsContent .configMap "shop" "settings" overtaken.1
    (overtaken.1.serve recordsBlue).1 := by
  have met : (reconcile .configMap "shop" "settings").Meets Cluster.serve Timely 7
      (synced.withObjects .configMap edited) := by
    refine ⟨?_, ?_, ?_, ?_, ?_, ?_, ?_, ?_⟩
    all_goals trivial
  have serves : ∀ world request, Timely world request → (reconciling .configMap "shop" "settings" Timely).react ()
      world request (world.serve request).1 (world.serve request).2 := fun _ _ timely => ⟨rfl, timely⟩
  have run := (edit_begins Timely).after () serves 7 rfl met
  obtain ⟨next, records⟩ : ∃ next, overtaken.2 = .call recordsBlue next := ⟨_, rfl⟩
  exact edits_kept synced_synced run (congrArg some records) rfl recordsBlue_timely

theorem second_edit : OtherWrite .configMap "shop" "settings" overtaken.1
    (overtaken.1.withObjects .configMap recoloured) :=
  have held : settings "blue" "aaaaa" 2 ∈ overtaken.1.objects .configMap := List.mem_singleton_self _
  .object (settings "green" "aaaaa" 2) held rfl rfl (by decide) (by rfl)

/-- A second edit between Create and the update of the ConfigMap is lost: the update is
refused, and the next reconcile takes the first version for a requested one. -/
theorem second_edit_lost : ∃ pool : Pool Cluster Call Answer ApiError Unit Unit,
    Synced synced "shop" "settings" (settings "red" "aaaaa" 1)
        (settingsCCM "red" "aaaaa" ["current", "latest"] 1) ∧
      (reconciling .configMap "shop" "settings" fun _ _ => True).Reaches (System.idle synced) pool ∧
      ∃ request next, pool.threads () = some (.call request next) ∧
        ¬ KeepsContent .configMap "shop" "settings" pool.world (pool.world.serve request).1 := by
  have serves : ∀ world request, (reconciling .configMap "shop" "settings" fun _ _ => True).react ()
      world request (world.serve request).1 (world.serve request).2 := fun _ _ => ⟨rfl, trivial⟩
  have first := (edit_begins fun _ _ => True).calls () serves 7 rfl
  have second := (first.moved second_edit).calls () serves 1 rfl
  have third := (second.finished () rfl trivial).started ()
    (reconcile .configMap "shop" "settings") rfl rfl
  refine ⟨_, synced_synced, third.calls () serves 3 rfl, _, _, rfl,
    fun keeps => ?_⟩
  obtain ⟨object, member, _, same⟩ := keeps (settings "red" "aaaaa" 4) (List.mem_singleton_self _) rfl
  obtain rfl : object = settings "green" "aaaaa" 3 := List.mem_singleton.mp member
  exact absurd same (by decide)

end Sample

end Configurator
