import Configurator.Library.Faults
import Configurator.Reactions
import Configurator.Recovery

namespace Configurator

open Resource

variable {kind : Kind} {ns name : String} {α : Type}

/-- The API server with a pattern of faults. -/
abbrev Flaky.server : Flaky Cluster ApiError → (call : Call) → Flaky Cluster ApiError × Answer call :=
  Flaky.serve Cluster.serve Call.failure

def Flaky.reconcile (flaky : Flaky Cluster ApiError) (kind : Kind) (ns name : String) :
    Flaky Cluster ApiError × Outcome ApiError Unit :=
  (Configurator.reconcile kind ns name).run Flaky.server flaky

/-- The version of the object is that of a revision that alone is current and alone is latest,
and that holds the content of the object. -/
def InSync (cluster : Cluster) (kind : Kind) (ns name : String) : Prop :=
  ∃ (object : Object kind) (revision : Revision kind), SettledBy cluster ns name object revision revision

def Conflicts (faults : Nat → Option ApiError) (call : Nat) : Prop :=
  ∃ error, faults call = some error ∧ contains error.text retryText = true

theorem contains_text_conflict (resource name : String) :
    contains (ApiError.conflict resource name).text retryText = true := by
  have text : (ApiError.conflict resource name).text =
      "Operation cannot be fulfilled on " ++ resource ++ " \"" ++ name ++
        "\": the object has been modified; please apply your " ++ retryText := rfl
  rw [contains_iff, text, String.toList_append]
  exact (List.suffix_append _ _).isInfix

/-- Of so many attempts to take the `latest` label away, each a list and an update, the first
that meets no conflict succeeds. -/
def StripsWithin (rounds : Nat) (faults : Nat → Option ApiError) : Prop :=
  ∃ round < rounds, (∀ earlier < round, Conflicts faults (2 * earlier + 1)) ∧ faults (2 * round + 1) = none

def Chooses (object : Object kind) (current : Revision kind) : Prop :=
  object.currentVersion ≠ "" ∧ current.customVersion ≠ object.currentVersion

/-- When a reconcile that reports no error has synced the object. -/
structure SyncCondition (object : Object kind) (current latest : Revision kind)
    (faults : Nat → Option ApiError) : Prop where
  unread : faults 0 ≠ none →
    latest = current ∧ object.currentVersion = current.customVersion ∧ differs object current = false
  chosen : faults 0 = none → Chooses object current →
    latest.name = object.name ++ "-" ++ object.currentVersion ∧
      latest.customVersion = object.currentVersion ∧ SameType object latest
  edited : faults 0 = none → ¬ Chooses object current → differs object current = true →
    StripsWithin 6 fun call => faults (call + 3)
  same : faults 0 = none → ¬ Chooses object current → differs object current = false → latest = current

/-- The same objects, revisions and generators, whatever the coming calls meet. -/
def Flaky.SameRecords (before after : Flaky Cluster ApiError) : Prop :=
  before.world.SameRecords after.world

theorem Flaky.server_cases (flaky : Flaky Cluster ApiError) (call : Call) :
    flaky.server call = (⟨(flaky.world.serve call).1, flaky.rest⟩, (flaky.world.serve call).2) ∨
      ∃ error answer, call.failure error = some answer ∧ flaky.server call = (⟨flaky.world, flaky.rest⟩, answer) :=
  flaky.serve_cases call

section Returned

variable {flaky after : Flaky Cluster ApiError} {value : α} {object : Object kind} {sent : Revision kind}

/-- Where a failure would end the function with an error, the call has been served. -/
theorem returned_call {request : Call} {next : Answer request → Client α}
    (raises : ∀ error answer, request.failure error = some answer → ∃ raised, next answer = .fail raised)
    (ran : (Program.call request next).run Flaky.server flaky = (after, .returned value)) :
    (next (flaky.world.serve request).2).run Flaky.server ⟨(flaky.world.serve request).1, flaky.rest⟩ =
      (after, .returned value) := by
  rw [Program.run_call] at ran
  rcases flaky.server_cases request with same | ⟨error, answer, fails, same⟩
  · rwa [same] at ran
  · obtain ⟨raised, ends⟩ := raises error answer fails
    rw [same, ends] at ran
    cases ran

theorem returned_updateRevision {next : Revision kind → Client α}
    (ran : (updateRevision sent >>= next).run Flaky.server flaky = (after, .returned value)) :
    ∃ stored table, (flaky.world.revisions kind).update sent = .ok (stored, table) ∧
      (next stored).run Flaky.server ⟨flaky.world.withRevisions kind table, flaky.rest⟩ =
        (after, .returned value) := by
  have served := returned_call (fun error answer fails => ⟨error, by cases fails; rfl⟩) ran
  cases accepted : (flaky.world.revisions kind).update sent with
  | error refusal => simp [accepted, Program.bind, Program.ofExcept] at served
  | ok result =>
    simp [accepted, Program.bind, Program.ofExcept] at served
    exact ⟨_, _, rfl, served⟩

theorem returned_updateObject {sent : Object kind} {next : Object kind → Client α}
    (ran : (updateObject sent >>= next).run Flaky.server flaky = (after, .returned value)) :
    ∃ stored table, (flaky.world.objects kind).update sent = .ok (stored, table) ∧
      (next stored).run Flaky.server ⟨flaky.world.withObjects kind table, flaky.rest⟩ =
        (after, .returned value) := by
  have served := returned_call (fun error answer fails => ⟨error, by cases fails; rfl⟩) ran
  cases accepted : (flaky.world.objects kind).update sent with
  | error refusal => simp [accepted, Program.bind, Program.ofExcept] at served
  | ok result =>
    simp [accepted, Program.bind, Program.ofExcept] at served
    exact ⟨_, _, rfl, served⟩

theorem returned_getRevision {next : Revision kind → Client α}
    (ran : (getRevision kind ns name >>= next).run Flaky.server flaky = (after, .returned value)) :
    ∃ revision, (flaky.world.revisions kind).find? (ns, name) = some revision ∧
      (next revision).run Flaky.server ⟨flaky.world, flaky.rest⟩ = (after, .returned value) := by
  have served := returned_call (fun error answer fails => ⟨error, by cases fails; rfl⟩) ran
  cases found : (flaky.world.revisions kind).find? (ns, name) with
  | none => simp [found, Program.bind, Program.ofExcept] at served
  | some revision =>
    simp [found, Program.bind, Program.ofExcept] at served
    exact ⟨_, rfl, served⟩

theorem returned_listRevisions {labels : List (String × String)} {next : List (Revision kind) → Client α}
    (ran : (listRevisions kind ns labels >>= next).run Flaky.server flaky = (after, .returned value)) :
    (next ((flaky.world.revisions kind).select fun revision => revision.matches ns labels)).run Flaky.server
      ⟨flaky.world, flaky.rest⟩ = (after, .returned value) :=
  returned_call (fun error answer fails => ⟨error, by cases fails; rfl⟩) ran

theorem flaky_rollOuts (updated : Object kind) (version : String) (flaky : Flaky Cluster ApiError) :
    flaky.SameRecords ((rollOuts updated version).run Flaky.server flaky).1 := by
  have transitive : ∀ {first second third : Flaky Cluster ApiError},
      first.SameRecords second → second.SameRecords third → first.SameRecords third :=
    fun earlier later => Cluster.SameRecords.trans earlier later
  have step : ∀ (flaky : Flaky Cluster ApiError) call, call.Rolls → flaky.SameRecords (flaky.server call).1 := by
    intro flaky call rolls
    rcases flaky.server_cases call with same | ⟨_, _, _, same⟩
    · rw [same]
      exact rolls.serve flaky.world
    · rw [same]
      exact Cluster.SameRecords.refl flaky.world
  exact @Program.Emits.run _ _ _ _ _ _ _ Flaky.server Flaky.SameRecords (emits_rollOuts updated version)
    (fun flaky => Cluster.SameRecords.refl flaky.world) transitive step flaky

/-- Putting the labels back ends with an error. -/
theorem revert_not_returned {current : Revision kind} {latest : List (Revision kind)} {error : ApiError} :
    (revert current latest error).run Flaky.server flaky ≠ (after, .returned ()) := by
  intro ran
  have panics : ∀ {flaky : Flaky Cluster ApiError},
      (Program.panic : Client Unit).run Flaky.server flaky ≠ (after, .returned ()) := nofun
  unfold revert at ran
  cases put : current.label? "current" with
  | none => simp [put] at ran
  | some labelled =>
    rw [put] at ran
    obtain ⟨_, _, _, rest⟩ := returned_updateRevision ran
    cases latest with
    | nil => exact panics rest
    | cons first others =>
      dsimp only at rest
      cases again : first.label? "latest" with
      | none => simp [again] at rest
      | some labelled =>
        rw [again] at rest
        obtain ⟨_, _, _, fails⟩ := returned_updateRevision rest
        cases fails

end Returned

section Loop

variable {flaky after : Flaky Cluster ApiError} {object : Object kind} {current found : Revision kind}
  {result : Option (List (Revision kind))}

theorem stripsWithin_succ {rounds : Nat} {faults : Nat → Option ApiError} (conflict : Conflicts faults 1) :
    StripsWithin (rounds + 1) faults ↔ StripsWithin rounds fun call => faults (call + 2) := by
  constructor
  · rintro ⟨round, early, earlier, none⟩
    cases round with
    | zero =>
      obtain ⟨error, fault, _⟩ := conflict
      rw [none] at fault
      cases fault
    | succ round =>
      refine ⟨round, Nat.lt_of_succ_lt_succ early, fun before lower => ?_, ?_⟩
      · exact earlier (before + 1) (Nat.succ_lt_succ lower)
      · exact none
  · rintro ⟨round, early, earlier, none⟩
    refine ⟨round + 1, Nat.succ_lt_succ early, fun before lower => ?_, none⟩
    cases before with
    | zero => exact conflict
    | succ before => exact earlier before (Nat.lt_of_succ_lt_succ lower)

theorem Revision.unlabel_unlabel (revision : Revision kind) (label : String) :
    (revision.unlabel label).unlabel label = revision.unlabel label := by
  have same : (revision.labels.delete label).delete label = revision.labels.delete label :=
    GoMap.delete_of_lookup (by simp)
  simp [Revision.unlabel, same]

/-- What the label loop leaves behind when it ends without an error. -/
inductive LoopEnd (current found : Revision kind) (rounds : Nat) (flaky after : Flaky Cluster ApiError) :
    Option (List (Revision kind)) → Prop
  | strips {retired : Revision kind} {table : Table (Revision kind)} (within : StripsWithin rounds flaky.faults)
      (accepted : (flaky.world.revisions kind).update (found.unlabel "latest") = .ok (retired, table))
      (world : after.world = flaky.world.withRevisions kind table) :
      LoopEnd current found rounds flaky after (some [retired])
  | exhausted {latest : List (Revision kind)} (never : ¬ StripsWithin rounds flaky.faults)
      (world : after.world = flaky.world) : LoopEnd current found rounds flaky after (some latest)
  | gaveUp {labelled answer : Revision kind} {table : Table (Revision kind)}
      (never : ¬ StripsWithin rounds flaky.faults) (put : current.label? "current" = some labelled)
      (accepted : (flaky.world.revisions kind).update labelled = .ok (answer, table))
      (world : after.world = flaky.world.withRevisions kind table) :
      LoopEnd current found rounds flaky after none

theorem LoopEnd.succ {rounds : Nat} (conflict : Conflicts flaky.faults 1)
    (ended : LoopEnd current found rounds ⟨flaky.world, fun call => flaky.faults (call + 2)⟩ after result) :
    LoopEnd current found (rounds + 1) flaky after result := by
  have same : StripsWithin (rounds + 1) flaky.faults ↔ _ := stripsWithin_succ conflict
  cases ended with
  | strips within accepted world => exact .strips (same.mpr within) accepted world
  | exhausted never world => exact .exhausted (fun within => never (same.mp within)) world
  | gaveUp never put accepted world => exact .gaveUp (fun within => never (same.mp within)) put accepted world

/-- The update of one round of the loop, and what follows it. -/
def attemptStrip (object : Object kind) (current : Revision kind) (rounds : Nat) (stripped : Revision kind)
    (others : List (Revision kind)) : Client (Option (List (Revision kind))) := do
  match ← ask (.updateRevision kind stripped) with
  | .ok stored => pure (some (stored :: others))
  | .error error =>
    if contains error.text retryText then stripLatest object current rounds (stripped :: others)
    else do
      let labelled ← Program.orPanic (current.label? "current")
      let _ ← updateRevision labelled
      pure none

/-- One round of the loop once the revisions have been listed. -/
def stripFirst (object : Object kind) (current : Revision kind) (rounds : Nat) :
    List (Revision kind) → Client (Option (List (Revision kind)))
  | [] => Program.panic
  | first :: others => attemptStrip object current rounds (first.unlabel "latest") others

theorem stripLatest_succ (rounds : Nat) (before : List (Revision kind)) :
    stripLatest object current (rounds + 1) before =
      ask (.listRevisions kind object.ns [("name", object.name), ("latest", "true")]) >>= fun listed =>
        stripFirst object current rounds (itemsAfter before listed) := by
  refine congrArg (Program.call _) (funext fun listed => ?_)
  show (match itemsAfter before listed with | [] => _ | first :: others => _) = stripFirst _ _ _ _
  cases itemsAfter before listed with
  | nil => rfl
  | cons first others =>
    refine congrArg (Program.call _) (funext fun answer => ?_)
    cases answer <;> rfl

/-- A round that has found the revision, listed or left from the round before. -/
theorem loopEnd_of_stripFirst {rounds : Nat} {first : Revision kind}
    (same : first.unlabel "latest" = found.unlabel "latest") (member : found ∈ flaky.world.revisions kind)
    (continues : ∀ {next : Flaky Cluster ApiError}, next.world = flaky.world →
      (stripLatest object current rounds [found.unlabel "latest"]).run Flaky.server next =
        (after, .returned result) → LoopEnd current found rounds next after result)
    (ran : (stripFirst object current rounds [first]).run Flaky.server ⟨flaky.world, flaky.rest⟩ =
      (after, .returned result)) : LoopEnd current found (rounds + 1) flaky after result := by
  rw [stripFirst, same, attemptStrip, ask, Program.request_bind, Program.run_call] at ran
  cases fault : flaky.faults 1 with
  | none =>
    obtain ⟨retired, table, accepted, _⟩ :=
      Table.update_of_current (found.unlabel "latest") member rfl rfl
    have served : Flaky.server ⟨flaky.world, flaky.rest⟩ (.updateRevision kind (found.unlabel "latest")) =
        (⟨flaky.world.withRevisions kind table, fun call => flaky.faults (call + 2)⟩, .ok retired) := by
      rw [Flaky.server, Flaky.serve_of_none (by exact fault)]
      simp [accepted]
      rfl
    rw [served] at ran
    obtain ⟨rfl, returned⟩ := Prod.mk.inj ran
    cases returned
    exact .strips ⟨0, Nat.succ_pos rounds, nofun, fault⟩ accepted rfl
  | some error =>
    have served : Flaky.server ⟨flaky.world, flaky.rest⟩ (.updateRevision kind (found.unlabel "latest")) =
        (⟨flaky.world, fun call => flaky.faults (call + 2)⟩, .error error) :=
      Flaky.serve_of_fault fault rfl
    rw [served] at ran
    dsimp only at ran
    split at ran
    · rename_i conflict
      exact .succ ⟨error, fault, conflict⟩ (continues rfl ran)
    · rename_i other
      have never : ¬ StripsWithin (rounds + 1) flaky.faults := by
        rintro ⟨round, _, earlier, none⟩
        cases round with
        | zero => cases fault.symm.trans none
        | succ round =>
          obtain ⟨_, same, conflict⟩ := earlier 0 (Nat.succ_pos round)
          cases fault.symm.trans same
          exact other conflict
      cases put : current.label? "current" with
      | none => simp [put] at ran
      | some labelled =>
        rw [put] at ran
        obtain ⟨answer, table, accepted, rest⟩ := returned_updateRevision ran
        obtain ⟨rfl, returned⟩ := Prod.mk.inj rest
        cases returned
        exact .gaveUp never put accepted rfl

/-- How the loop ends from a cluster with one latest revision. -/
theorem loopEnd_of_run (isLatest : (flaky.world.revisions kind).Sole (marked object.ns object.name "latest") found)
    (rounds : Nat) {before : List (Revision kind)} (stale : before = [] ∨ before = [found.unlabel "latest"])
    (ran : (stripLatest object current rounds before).run Flaky.server flaky = (after, .returned result)) :
    LoopEnd current found rounds flaky after result := by
  induction rounds generalizing before flaky with
  | zero =>
    obtain ⟨rfl, same⟩ := Prod.mk.inj ran
    cases same
    refine .exhausted ?_ rfl
    rintro ⟨round, early, _⟩
    exact absurd early (Nat.not_lt_zero round)
  | succ rounds ih =>
    have continues : ∀ {next : Flaky Cluster ApiError}, next.world = flaky.world →
        (stripLatest object current rounds [found.unlabel "latest"]).run Flaky.server next =
          (after, .returned result) → LoopEnd current found rounds next after result := by
      intro next same
      exact ih (same ▸ isLatest) (Or.inr rfl)
    rw [stripLatest_succ, ask, Program.request_bind, Program.run_call] at ran
    rcases flaky.server_cases (.listRevisions kind object.ns [("name", object.name), ("latest", "true")])
      with same | ⟨error, answer, fails, same⟩
    · rw [same, Cluster.serve_listRevisions, Table.select_eq_singleton.mpr isLatest] at ran
      exact loopEnd_of_stripFirst rfl isLatest.1 continues ran
    · rw [same] at ran
      cases fails
      rcases stale with rfl | rfl
      · cases ran
      · exact loopEnd_of_stripFirst (Revision.unlabel_unlabel found "latest") isLatest.1 continues ran

end Loop

section Branches

variable {cluster world : Cluster} {flaky after : Flaky Cluster ApiError} {object : Object kind}
  {current latest : Revision kind}

theorem InSync.congr (objects : world.objects = cluster.objects) (revisions : world.revisions = cluster.revisions) :
    InSync world kind ns name ↔ InSync cluster kind ns name := by
  constructor
  · rintro ⟨object, revision, settled⟩
    exact ⟨object, revision, objects ▸ settled.held, settled.inNs, settled.owner,
      revisions ▸ settled.isCurrent, revisions ▸ settled.isLatest, settled.version, settled.agrees⟩
  · rintro ⟨object, revision, settled⟩
    exact ⟨object, revision, objects ▸ settled.held, settled.inNs, settled.owner,
      revisions ▸ settled.isCurrent, revisions ▸ settled.isLatest, settled.version, settled.agrees⟩

theorem inSync_iff (held : object ∈ cluster.objects kind)
    (isCurrent : (cluster.revisions kind).Sole (marked object.ns object.name "current") current)
    (isLatest : (cluster.revisions kind).Sole (marked object.ns object.name "latest") latest) :
    InSync cluster kind object.ns object.name ↔
      latest = current ∧ object.currentVersion = current.customVersion ∧ differs object current = false := by
  constructor
  · rintro ⟨other, revision, settled⟩
    obtain rfl : other = object := Table.unique settled.held held (Prod.ext settled.inNs settled.owner)
    obtain rfl := isCurrent.2.2 revision settled.isCurrent.1 settled.isCurrent.2.1
    exact ⟨settled.isLatest.2.2 latest isLatest.1 isLatest.2.1, settled.version, settled.agrees⟩
  · rintro ⟨rfl, version, agrees⟩
    exact ⟨object, latest, held, rfl, rfl, isCurrent, isLatest, version, agrees⟩

/-- The creation of a revision of this version, and what follows it. -/
def createWith (object : Object kind) (current : Revision kind) (found : List (Revision kind))
    (version : String) : Client Unit := do
  match ← ask (.createRevision kind (newRevision object version)) with
  | .error error => revert current found error
  | .ok created => publish object created version

theorem run_addNew (found : List (Revision kind)) :
    (addNew object current found).run Flaky.server flaky =
      (createWith object current found flaky.world.nextVersion).run Flaky.server
        ⟨flaky.world.reseeded, flaky.rest⟩ := by
  have parts : addNew object current found = ask .seedRandom >>= fun draws =>
      createWith object current found (randomSequence draws 5) := by
    refine congrArg (Program.call _) (funext fun draws => congrArg (Program.call _) (funext fun answer => ?_))
    cases answer <;> rfl
  have seeds : flaky.server .seedRandom = (⟨flaky.world.reseeded, flaky.rest⟩, flaky.world.entropy 0) :=
    Flaky.serve_of_infallible fun _ => rfl
  rw [parts, ask, Program.request_bind, Program.run_call, seeds]
  rfl

/-- What a creation that ends without an error has done. -/
theorem returned_createWith {found : List (Revision kind)} {version : String}
    (ran : (createWith object current found version).run Flaky.server flaky = (after, .returned ())) :
    ∃ created withNew updated objects,
      (flaky.world.revisions kind).create (newRevision object version) = .ok (created, withNew) ∧
        object.annotations ≠ .nil ∧
        (flaky.world.objects kind).update (object.annotate version created.name) = .ok (updated, objects) ∧
        ((flaky.world.withRevisions kind withNew).withObjects kind objects).SameRecords after.world := by
  unfold createWith at ran
  rw [ask, Program.request_bind, Program.run_call] at ran
  rcases flaky.server_cases (.createRevision kind (newRevision object version)) with
    same | ⟨error, answer, fails, same⟩
  · rw [same] at ran
    cases create : (flaky.world.revisions kind).create (newRevision object version) with
    | error refusal =>
      simp only [Cluster.serve_createRevision, create, Cluster.settle_error] at ran
      exact absurd ran revert_not_returned
    | ok result =>
      obtain ⟨created, withNew⟩ := result
      simp only [Cluster.serve_createRevision, create, Cluster.settle_ok, publish] at ran
      cases assigned : object.annotate? version created.name with
      | none => simp [assigned] at ran
      | some annotated =>
        obtain ⟨made, rfl⟩ := Object.annotate?_eq_some assigned
        rw [assigned] at ran
        obtain ⟨updated, objects, accepted, rest⟩ := returned_updateObject ran
        refine ⟨created, withNew, updated, objects, rfl, made, accepted, ?_⟩
        have rolled := flaky_rollOuts updated version
          ⟨(flaky.world.withRevisions kind withNew).withObjects kind objects,
            Flaky.rest ⟨flaky.world.withRevisions kind withNew, flaky.rest⟩⟩
        rw [rollOuts, rest] at rolled
        exact rolled
  · rw [same] at ran
    cases fails
    exact absurd ran revert_not_returned

/-- Where the rounds run out the old `latest` label stays beside the new one. -/
theorem not_inSync_of_kept {noCurrent : Table (Revision kind)} {version : String}
    {latest : List (Revision kind)} {faults : Nat → Option ApiError} {reached : Flaky Cluster ApiError}
    (soleFound : noCurrent.Sole (marked object.ns object.name "latest") found)
    (world : reached.world = flaky.world.withRevisions kind noCurrent)
    (ran : (createWith object current latest version).run Flaky.server ⟨reached.world.reseeded, faults⟩ =
      (after, .returned ())) : ¬ InSync after.world kind object.ns object.name := by
  obtain ⟨created, withNew, updated, objects, create, made, update, same⟩ := returned_createWith ran
  simp only [world, Cluster.reseeded_revisions, Cluster.withRevisions_revisions] at create
  have creating := Table.written_of_create create
  have free := Table.free_of_create create found soleFound.1
  rintro ⟨other, revision, settled⟩
  have sole : withNew.Sole (marked object.ns object.name "latest") revision := by
    have last := settled.isLatest
    rw [same.revisions] at last
    simpa using last
  have new := sole.2.2 created creating.mem (creating.marked_new (Or.inr rfl))
  have old := sole.2.2 found (creating.mem_of_ne soleFound.1 free) soleFound.2.1
  exact free ((congrArg key (old.trans new.symm)).trans creating.key_eq)

/-- Where the loop gives up the old revision is labelled `current` again, and the edit is not in it. -/
theorem not_inSync_of_relabelled {stripped labelled answer : Revision kind}
    {noCurrent table : Table (Revision kind)} {reached : Flaky Cluster ApiError}
    (held : object ∈ flaky.world.objects kind)
    (isCurrent : (flaky.world.revisions kind).Sole (marked object.ns object.name "current") current)
    (edited : differs object current = true)
    (stripping : (flaky.world.revisions kind).Written (current.unlabel "current") stripped noCurrent)
    (put : stripped.label? "current" = some labelled)
    (accepted : ((flaky.world.withRevisions kind noCurrent).revisions kind).update labelled = .ok (answer, table))
    (world : reached.world = (flaky.world.withRevisions kind noCurrent).withRevisions kind table) :
    ¬ InSync reached.world kind object.ns object.name := by
  simp only [Cluster.withRevisions_revisions] at accepted
  have writing := (Table.written_of_update accepted).2
  have labelling := Revision.label?_eq_some put
  subst labelling
  have relabelled := (stripping.relabelled_unlabel isCurrent.1 (Or.inl rfl)).trans
    (writing.relabelled_label stripping.mem (Or.inl rfl))
  obtain ⟨inNs, owned, _⟩ := marked_iff.mp isCurrent.2.1
  rintro ⟨other, revision, settled⟩
  have sole : table.Sole (marked object.ns object.name "current") revision := by
    have last := settled.isCurrent
    rw [world] at last
    simpa using last
  have carries : marked object.ns object.name "current" answer = true := by
    refine marked_iff.mpr ⟨relabelled.ns.trans inNs, (relabelled.owned object.name).mpr owned, ?_⟩
    rw [writing.answered, Revision.labelled_put _ _ rfl]
    simp
  have stays : object ∈ reached.world.objects kind := by
    rw [world]
    exact held
  obtain rfl : other = object := Table.unique settled.held stays (Prod.ext settled.inNs settled.owner)
  have agrees := settled.agrees
  rw [← sole.2.2 answer writing.mem carries, differs_of_spec other relabelled.spec, edited] at agrees
  cases agrees

/-- A run of `CreateNewCCM` or `CreateNewCS` that ends without an error has synced the object
exactly when the loop has taken the old `latest` label away. -/
theorem inSync_createNew (held : object ∈ flaky.world.objects kind)
    (isCurrent : (flaky.world.revisions kind).Sole (marked object.ns object.name "current") current)
    (isLatest : (flaky.world.revisions kind).Sole (marked object.ns object.name "latest") latest)
    (edited : differs object current = true)
    (ran : (createNew object current).run Flaky.server flaky = (after, .returned ())) :
    InSync after.world kind object.ns object.name ↔
      StripsWithin 6 fun call => flaky.faults (call + 1) := by
  obtain ⟨stripped, noCurrent, strip, ran⟩ := returned_updateRevision ran
  have stripping := (Table.written_of_update strip).2
  obtain ⟨found, soleFound, relabelled, _⟩ :=
    isLatest.unlabel_other stripping isCurrent.1 (Or.inl rfl) (by decide)
  have isFound : ((flaky.world.withRevisions kind noCurrent).revisions kind).Sole
      (marked object.ns object.name "latest") found := by
    simpa using soleFound
  obtain ⟨reached, result, looped, ran⟩ := Program.returned_bind ran
  cases loopEnd_of_run isFound 6 (Or.inl rfl) looped with
  | @strips retired noLatest within retire world =>
    dsimp only at ran
    rw [run_addNew] at ran
    obtain ⟨created, withNew, updated, objects, create, made, update, same⟩ := returned_createWith ran
    simp only [world, Cluster.reseeded_revisions, Cluster.withRevisions_revisions] at retire create
    simp only [world, Cluster.reseeded_objects, Cluster.withRevisions_objects] at update
    let commit : Commit flaky.world object current := {
      stripped, noCurrent, latest := found, retired, noLatest, created, withNew, updated, objects, strip,
      list := Table.select_eq_singleton.mpr soleFound, retire, create, made, update, stripping,
      retiring := (Table.written_of_update retire).2, creating := Table.written_of_create create,
      updating := (Table.written_of_update update).2 }
    have objectsSame : after.world.objects = commit.published.objects := by
      rw [same.objects, world]
      rfl
    have revisionsSame : after.world.revisions = commit.published.revisions := by
      rw [same.revisions, world]
      simp [Commit.published, commit]
    have sameKey := commit.updating.key_eq
    refine iff_of_true ((InSync.congr objectsSame revisionsSame).mpr ?_) within
    refine ⟨commit.updated, commit.created, ?_, congrArg Prod.fst sameKey, congrArg Prod.snd sameKey, ?_, ?_,
      commit.currentVersion_updated.trans commit.customVersion_created.symm, commit.differs_updated held⟩
    · simpa [Commit.published] using commit.updating.mem
    · simpa [Commit.published] using commit.sole_created isCurrent (Or.inl rfl)
    · simpa [Commit.published] using commit.sole_created isCurrent (Or.inr rfl)
  | exhausted never world =>
    dsimp only at ran
    rw [run_addNew] at ran
    exact iff_of_false (not_inSync_of_kept soleFound world ran) never
  | gaveUp never put accepted world =>
    obtain ⟨rfl, _⟩ := Prod.mk.inj ran
    exact iff_of_false (not_inSync_of_relabelled held isCurrent edited stripping put accepted world) never

/-- A run that ends without an error has moved the object to the revision that it names. -/
theorem exists_checkout
    (isCurrent : (flaky.world.revisions kind).Sole (marked object.ns object.name "current") current)
    (other : current.customVersion ≠ object.currentVersion)
    (ran : (synchronize object).run Flaky.server flaky = (after, .returned ())) :
    ∃ target, ∃ checkout : Checkout flaky.world object current target, after.world = checkout.moved := by
  have list := Table.select_eq_singleton.mpr isCurrent
  have served := returned_listRevisions ran
  simp only [list, if_pos other, copyRevision, bind_assoc] at served
  obtain ⟨target, find, served⟩ := returned_getRevision served
  cases restore : restore? object target with
  | none => simp [restore] at served
  | some restored =>
    rw [restore, Program.orPanic_some, Program.ret_bind] at served
    obtain ⟨updated, objects, update, served⟩ := returned_updateObject served
    cases relabel : relabel? target with
    | none => simp [relabel] at served
    | some labelled =>
      rw [relabel, Program.orPanic_some, Program.ret_bind] at served
      obtain ⟨promoted, withTwo, promote, served⟩ := returned_updateRevision served
      obtain ⟨stripped, withOne, strip, served⟩ := returned_updateRevision served
      obtain ⟨rfl, _⟩ := Prod.mk.inj served
      simp only [Cluster.withRevisions_revisions, Cluster.withObjects_revisions] at promote strip
      have checkout : ∃ checkout : Checkout flaky.world object current target,
          checkout.objects = objects ∧ checkout.withOne = withOne :=
        ⟨⟨restored, updated, objects, labelled, promoted, withTwo, stripped, withOne, list, other, find, restore,
          update, relabel, promote, strip, (Table.written_of_update update).2,
          (Table.written_of_update promote).2, (Table.written_of_update strip).2⟩, rfl, rfl⟩
      obtain ⟨checkout, rfl, rfl⟩ := checkout
      exact ⟨target, checkout, by simp [Checkout.moved]⟩

theorem sameType_of_agrees {target : Revision kind} (checkout : Checkout cluster object current target)
    (agrees : differs checkout.updated checkout.promoted = false) : SameType object target := by
  cases kind with
  | configMap => trivial
  | secret =>
    have copied : checkout.updated.content.type = object.content.type := by
      have made : target.spec.secretAnnotations ≠ .nil := by
        intro nil
        simpa [restore?_secret_nil nil] using checkout.restore
      have restored := checkout.restore
      rw [restore?_secret made, Option.some.injEq] at restored
      rw [checkout.updating.answered, ← restored]
      rfl
    have kept : checkout.promoted.spec.type = target.spec.type := by
      rw [checkout.spec_promoted]
      rfl
    have same : checkout.updated.content.type = checkout.promoted.spec.type := by
      simp only [differs] at agrees
      split at agrees
      · exact (by simpa using agrees : _ ∧ _).2
      · exact (by simpa using agrees : (_ ∧ _) ∧ _).1.2
    exact copied.symm.trans (same.trans kept)

/-- Moving to another revision syncs the object exactly when that revision is the latest one. -/
theorem Checkout.inSync_moved {target : Revision kind} (checkout : Checkout cluster object current target)
    (held : object ∈ cluster.objects kind)
    (isCurrent : (cluster.revisions kind).Sole (marked object.ns object.name "current") current)
    (isLatest : (cluster.revisions kind).Sole (marked object.ns object.name "latest") latest) :
    InSync checkout.moved kind object.ns object.name ↔
      latest.name = object.name ++ "-" ++ object.currentVersion ∧
        latest.customVersion = object.currentVersion ∧ SameType object latest := by
  obtain ⟨inLatest, ownedLatest, carriesLatest⟩ := marked_iff.mp isLatest.2.1
  have keyTarget := checkout.key_target
  have stored : checkout.updated ∈ checkout.moved.objects kind := by
    simpa [Checkout.moved] using checkout.updating.mem
  have sameKey := checkout.key_updated
  constructor
  · rintro ⟨other, revision, settled⟩
    obtain rfl : other = checkout.updated := Table.unique settled.held stored
      ((Prod.ext settled.inNs settled.owner).trans sameKey.symm)
    have isRevision : checkout.withOne.Sole (marked object.ns object.name "current") revision := by
      simpa [Checkout.moved] using settled.isCurrent
    have isNewest : checkout.withOne.Sole (marked object.ns object.name "latest") revision := by
      simpa [Checkout.moved] using settled.isLatest
    -- only the promoted revision can carry the label `current` now
    have promoted : revision = checkout.promoted := by
      rcases (checkout.stripping.members revision).mp isRevision.1 with rfl | ⟨stays, apart⟩
      · have carries := (marked_iff.mp isRevision.2.1).2.2
        exact absurd rfl (checkout.stripping.labelled_unlabel.mp carries).1
      · rcases (checkout.promoting.members revision).mp stays with same | ⟨old, _⟩
        · exact same
        · rw [isCurrent.2.2 revision old isRevision.2.1] at apart
          exact absurd rfl apart
    subst promoted
    obtain ⟨_, owned, newest⟩ := marked_iff.mp isNewest.2.1
    rw [checkout.labelled_promoted] at owned newest
    obtain rfl : target = latest := isLatest.2.2 target checkout.target_mem (marked_iff.mpr
      ⟨congrArg Prod.fst keyTarget, by simpa using owned, by simpa using newest⟩)
    refine ⟨congrArg Prod.snd keyTarget, ?_, sameType_of_agrees checkout settled.agrees⟩
    rw [← checkout.customVersion_promoted, ← settled.version, checkout.currentVersion_updated]
  · rintro ⟨named, version, sameType⟩
    obtain rfl : latest = target := Table.unique isLatest.1 checkout.target_mem
      ((Prod.ext inLatest named).trans keyTarget.symm)
    have apart := checkout.apart version
    have promoted := checkout.sole_promoted isCurrent ownedLatest apart
    obtain ⟨newest, sole, same⟩ := checkout.sole_latest isCurrent isLatest apart
    obtain rfl : newest = checkout.promoted :=
      Table.unique sole.1 promoted.1 (same.trans checkout.key_promoted.symm)
    refine ⟨checkout.updated, checkout.promoted, stored, congrArg Prod.fst sameKey, congrArg Prod.snd sameKey,
      by simpa [Checkout.moved] using promoted, by simpa [Checkout.moved] using sole, ?_, ?_⟩
    · rw [checkout.currentVersion_updated, checkout.customVersion_promoted, version]
    · exact checkout.agrees held sameType

/-- Taking the version of the current revision syncs the object exactly when that revision is the latest one. -/
theorem inSync_adopt (held : object ∈ flaky.world.objects kind)
    (isCurrent : (flaky.world.revisions kind).Sole (marked object.ns object.name "current") current)
    (isLatest : (flaky.world.revisions kind).Sole (marked object.ns object.name "latest") latest)
    (agrees : differs object current = false)
    (ran : (do let _ ← updateObject (object.annotate current.customVersion current.name) : Client Unit).run
      Flaky.server flaky = (after, .returned ())) :
    InSync after.world kind object.ns object.name ↔ latest = current := by
  obtain ⟨updated, objects, update, served⟩ := returned_updateObject ran
  obtain ⟨rfl, _⟩ := Prod.mk.inj served
  have updating := (Table.written_of_update update).2
  have sameKey : key updated = key object := updating.key_eq
  have sameNs : updated.ns = object.ns := congrArg Prod.fst sameKey
  have sameName : updated.name = object.name := congrArg Prod.snd sameKey
  have version : updated.currentVersion = current.customVersion := by
    rw [updating.answered, Object.currentVersion_stamp, Object.currentVersion_annotate]
  have still : differs updated current = false := (differs_adopted held updating current).trans agrees
  rw [← sameNs, ← sameName] at isCurrent isLatest ⊢
  rw [inSync_iff (by simpa using updating.mem) (by simpa using isCurrent) (by simpa using isLatest)]
  exact ⟨And.left, fun same => ⟨same, version, still⟩⟩

end Branches

variable {flaky after : Flaky Cluster ApiError} {object : Object kind} {current latest : Revision kind}

/-- Where the object does not name another version, an edit becomes a new revision and nothing else
is left to do but to take the version of the current one. -/
theorem inSync_unless_chooses (held : object ∈ flaky.world.objects kind)
    (isCurrent : (flaky.world.revisions kind).Sole (marked object.ns object.name "current") current)
    (isLatest : (flaky.world.revisions kind).Sole (marked object.ns object.name "latest") latest)
    (stays : ¬ Chooses object current)
    (ran : (if object.currentVersion = "" then adoptOrCreate object else synchronize object).run Flaky.server
      flaky = (after, .returned ())) :
    InSync after.world kind object.ns object.name ↔
      if differs object current = true then StripsWithin 6 fun call => flaky.faults (call + 2)
      else latest = current := by
  have list := Table.select_eq_singleton.mpr isCurrent
  have stillHeld : object ∈ (Flaky.mk flaky.world flaky.rest).world.objects kind := held
  split at ran
  · have served := returned_listRevisions ran
    simp only [list] at served
    split at served
    · rename_i edited
      rw [if_pos edited]
      exact inSync_createNew stillHeld isCurrent isLatest edited served
    · rename_i agrees
      rw [if_neg agrees]
      exact inSync_adopt stillHeld isCurrent isLatest (Bool.eq_false_iff.mpr agrees) served
  · rename_i versioned
    have same : current.customVersion = object.currentVersion := by
      by_contra other
      exact stays ⟨versioned, other⟩
    have served := returned_listRevisions ran
    simp only [list, same, ne_eq, not_true_eq_false, if_false] at served
    split at served
    · rename_i edited
      rw [if_pos edited]
      exact inSync_createNew stillHeld isCurrent isLatest edited served
    · rename_i agrees
      obtain ⟨rfl, _⟩ := Prod.mk.inj served
      rw [if_neg agrees, inSync_iff held isCurrent isLatest]
      exact ⟨And.left, fun latest => ⟨latest, same.symm, Bool.eq_false_iff.mpr agrees⟩⟩

/-- A reconcile that reports no error has synced an object with one current and one latest revision
exactly when the faults it met are none of those that it lets pass. -/
theorem reports_iff (held : object ∈ flaky.world.objects kind)
    (isCurrent : (flaky.world.revisions kind).Sole (marked object.ns object.name "current") current)
    (isLatest : (flaky.world.revisions kind).Sole (marked object.ns object.name "latest") latest)
    (ran : flaky.reconcile kind object.ns object.name = (after, .returned ())) :
    InSync after.world kind object.ns object.name ↔ SyncCondition object current latest flaky.faults := by
  unfold Flaky.reconcile Configurator.reconcile at ran
  rw [ask, Program.request_bind, Program.run_call] at ran
  cases fault : flaky.faults 0 with
  | some error =>
    have served : flaky.server (.getObject kind object.ns object.name) =
        (⟨flaky.world, flaky.rest⟩, .error error) := Flaky.serve_of_fault fault rfl
    rw [served] at ran
    obtain ⟨rfl, _⟩ := Prod.mk.inj ran
    rw [inSync_iff held isCurrent isLatest]
    have failed : flaky.faults 0 ≠ none := by simp [fault]
    constructor
    · intro settled
      exact ⟨fun _ => settled, fun none => absurd none failed, fun none => absurd none failed,
        fun none => absurd none failed⟩
    · intro condition
      exact condition.unread failed
  | none =>
    have served : flaky.server (.getObject kind object.ns object.name) =
        (⟨flaky.world, flaky.rest⟩, .ok object) := by
      rw [Flaky.server, Flaky.serve_of_none fault, Cluster.serve_getObject, Cluster.find_object held]
      rfl
    rw [served] at ran
    dsimp only at ran
    have stillHeld : object ∈ (Flaky.mk flaky.world flaky.rest).world.objects kind := held
    have stillCurrent : ((Flaky.mk flaky.world flaky.rest).world.revisions kind).Sole
        (marked object.ns object.name "current") current := isCurrent
    by_cases chooses : Chooses object current
    · rw [if_neg chooses.1] at ran
      obtain ⟨target, checkout, world⟩ := exists_checkout stillCurrent chooses.2 ran
      rw [world, checkout.inSync_moved held isCurrent isLatest]
      constructor
      · intro reached
        exact ⟨fun failed => absurd fault failed, fun _ _ => reached, fun _ stays => absurd chooses stays,
          fun _ stays => absurd chooses stays⟩
      · intro condition
        exact condition.chosen fault chooses
    · rw [inSync_unless_chooses stillHeld isCurrent isLatest chooses ran]
      cases edited : differs object current with
      | true =>
        rw [if_pos rfl]
        constructor
        · intro strips
          exact ⟨fun failed => absurd fault failed, fun _ chosen => absurd chosen chooses, fun _ _ _ => strips,
            fun _ _ agrees => Bool.noConfusion (edited.symm.trans agrees)⟩
        · intro condition
          exact condition.edited fault chooses edited
      | false =>
        rw [if_neg (by decide)]
        constructor
        · intro same
          exact ⟨fun failed => absurd fault failed, fun _ chosen => absurd chosen chooses,
            fun _ _ edits => Bool.noConfusion (edited.symm.trans edits), fun _ _ _ => same⟩
        · intro condition
          exact condition.same fault chooses edited

namespace Sample

def unseen : Cluster := synced.withObjects .configMap edited

def redCCM : Revision .configMap := settingsCCM "red" "aaaaa" ["current", "latest"] 1

theorem sole_redCCM (label : String) (moving : label = "current" ∨ label = "latest") :
    (unseen.revisions .configMap).Sole (marked "shop" "settings" label) redCCM := by
  refine ⟨List.mem_singleton_self _, ?_, fun other member _ => List.mem_singleton.mp member⟩
  rcases moving with rfl | rfl <;> decide

/-- The first update that takes the label `latest` away meets a conflict. -/
def conflictOnce : Flaky Cluster ApiError where
  world := unseen
  faults call := if call = 4 then some (.conflict "customconfigmaps" "settings-aaaaa") else none

def unread : Flaky Cluster ApiError where
  world := unseen
  faults call := if call = 0 then some (.other "etcdserver: request timed out") else none

set_option maxRecDepth 4000 in
/-- The second attempt meets no conflict, so that the reconcile syncs the edit. -/
theorem conflictOnce_inSync :
    InSync (conflictOnce.reconcile .configMap "shop" "settings").1.world .configMap "shop" "settings" := by
  have member : settings "blue" "aaaaa" 2 ∈ conflictOnce.world.objects .configMap := List.mem_singleton_self _
  have ran : conflictOnce.reconcile .configMap "shop" "settings" =
      ((conflictOnce.reconcile .configMap "shop" "settings").1, .returned ()) := Prod.ext rfl (by rfl)
  have condition : SyncCondition (settings "blue" "aaaaa" 2) redCCM redCCM conflictOnce.faults := by
    refine ⟨fun unread => absurd rfl unread, fun _ chooses => absurd rfl chooses.2, fun _ _ _ => ?_,
      fun _ _ agrees => absurd agrees (by decide)⟩
    refine ⟨1, by decide, fun round earlier => ?_, rfl⟩
    obtain rfl := Nat.lt_one_iff.mp earlier
    exact ⟨_, rfl, contains_text_conflict "customconfigmaps" "settings-aaaaa"⟩
  exact (reports_iff member (sole_redCCM "current" (Or.inl rfl)) (sole_redCCM "latest" (Or.inr rfl)) ran).mpr
    condition

/-- A reconcile that cannot read the ConfigMap reports no error, and the edit is not synced. -/
theorem unread_not_synced : ¬ ∀ (flaky after : Flaky Cluster ApiError) (object : Object .configMap)
    (current latest : Revision .configMap), object ∈ flaky.world.objects .configMap →
      (flaky.world.revisions .configMap).Sole (marked object.ns object.name "current") current →
      (flaky.world.revisions .configMap).Sole (marked object.ns object.name "latest") latest →
      flaky.reconcile .configMap object.ns object.name = (after, .returned ()) →
        InSync after.world .configMap object.ns object.name := by
  intro alwaysSyncs
  have member : settings "blue" "aaaaa" 2 ∈ unseen.objects .configMap := List.mem_singleton_self _
  have isCurrent := sole_redCCM "current" (Or.inl rfl)
  have isLatest := sole_redCCM "latest" (Or.inr rfl)
  have synced := alwaysSyncs unread ⟨unseen, unread.rest⟩ (settings "blue" "aaaaa" 2) redCCM redCCM member isCurrent
    isLatest (by rfl)
  have agrees := ((inSync_iff member isCurrent isLatest).mp synced).2.2
  exact absurd agrees (by decide)

end Sample

end Configurator
