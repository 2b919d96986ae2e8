import Configurator.Recovery

/-! Which cuts of a reconcile the following reconciles repair: the run of a user's
change may stop between any two calls, or any one of its calls may fail. -/
namespace Configurator

open Resource

variable {kind : Kind}

/-- A reconcile that is cut off. -/
def Cluster.cutOff (cluster : Cluster) (kind : Kind) (ns name : String) (cut : Cut ApiError) : Cluster :=
  (Configurator.reconcile kind ns name).cutOff Cluster.serve Call.failure cut cluster

section Edit

variable {cluster : Cluster} {object : Object kind} {current latest : Revision kind}

/-- Where a stop leaves the making of a new revision. -/
theorem Commit.stop_createNew (commit : Commit cluster object current) (calls : Nat) :
    (createNew object current).cutOff Cluster.serve Call.failure (.stop calls) cluster =
      match calls with
      | 0 => cluster
      | 1 | 2 => cluster.withRevisions kind commit.noCurrent
      | 3 => cluster.withRevisions kind commit.noLatest
      | 4 => cluster.reseeded.withRevisions kind commit.noLatest
      | 5 => cluster.reseeded.withRevisions kind commit.withNew
      | calls + 6 => (rollOuts commit.updated cluster.nextVersion).cutOff Cluster.serve Call.failure
          (.stop calls) commit.published := by
  have annotate := Object.annotate?_of_ne_nil commit.made cluster.nextVersion commit.created.name
  split <;>
    simp [createNew, updateRevision, updateObject, stripLatest, addNew, publish, newCustomResource,
      rollOuts, commit.strip, commit.list, commit.retire, commit.create, annotate, commit.update,
      published]

/-- Where a failed call leaves it, but for the two calls whose failure is reverted. -/
theorem Commit.fail_createNew (commit : Commit cluster object current) (error : ApiError)
    (calls : Nat) :
    (createNew object current).cutOff Cluster.serve Call.failure (.fail calls error) cluster =
      match calls with
      | 0 => cluster
      | 1 => cluster.withRevisions kind commit.noCurrent
      | 2 =>
        if contains error.text retryText then
          ((rollOuts commit.updated cluster.nextVersion).run Cluster.serve commit.published).1
        else
          ((do
            let labelled ← Program.orPanic (commit.stripped.label? "current")
            let _ ← updateRevision labelled : Client Unit).run Cluster.serve
              (cluster.withRevisions kind commit.noCurrent)).1
      | 3 => ((rollOuts commit.updated cluster.nextVersion).run Cluster.serve commit.published).1
      | 4 => ((revert commit.stripped [commit.retired] error).run Cluster.serve
          (cluster.reseeded.withRevisions kind commit.noLatest)).1
      | 5 => cluster.reseeded.withRevisions kind commit.withNew
      | calls + 6 => (rollOuts commit.updated cluster.nextVersion).cutOff Cluster.serve Call.failure
          (.fail calls error) commit.published := by
  have annotate := Object.annotate?_of_ne_nil commit.made cluster.nextVersion commit.created.name
  split
  case h_3 =>
    by_cases retried : contains error.text retryText = true <;>
      simp [createNew, updateRevision, updateObject, stripLatest, addNew, publish, newCustomResource,
        rollOuts, commit.strip, commit.list, commit.retire, commit.create, annotate, commit.update,
        published, Call.failure, retried]
  all_goals
    simp [createNew, updateRevision, updateObject, stripLatest, addNew, publish, newCustomResource,
      rollOuts, commit.strip, commit.list, commit.retire, commit.create, annotate, commit.update,
      published, Call.failure]

/-- Once a new revision is stored and the object does not name it yet, everything
hangs on the way back to the revision that it names. -/
theorem Commit.recovers_withNew (commit : Commit cluster object current)
    (held : object ∈ cluster.objects kind) (versioned : object.currentVersion ≠ "")
    (isCurrent : (cluster.revisions kind).Sole (marked object.ns object.name "current") current)
    (same : object.currentVersion = current.customVersion)
    (generated : (cluster.revisions kind).Generated)
    (fresh : cluster.Fresh kind object.ns object.name 2) (limit : Nat) :
    Recovers kind object.ns object.name (limit + 2)
        (cluster.reseeded.withRevisions kind commit.withNew) ↔ CanReturn cluster object := by
  obtain ⟨inNs, owned, _⟩ := marked_iff.mp isCurrent.2.1
  obtain ⟨kept, stays, relabelled⟩ := commit.keeps isCurrent.1 current isCurrent.1
  have ownedKept := (relabelled.owned object.name).mpr owned
  have inNsKept := relabelled.ns.trans inNs
  have versionKept := relabelled.customVersion_eq.trans same.symm
  have generatedNew : commit.withNew.Generated :=
    commit.creating.generated_new ((commit.stems isCurrent.1).generated generated)
      (randomSequence_ne_empty _ _)
  have keys : ∀ revision ∈ commit.withNew,
      key revision = (object.ns, nameValidation (object.name ++ "-" ++ cluster.nextVersion)) ∨
        ∃ old ∈ cluster.revisions kind, key old = key revision := by
    intro revision member
    rcases (commit.creating.members revision).mp member with rfl | ⟨present, _⟩
    · exact Or.inl commit.creating.key_eq
    · exact Or.inr ((commit.stems isCurrent.1).keys revision present)
  have other : commit.created.customVersion ≠ object.currentVersion := by
    rw [commit.customVersion_created]
    intro equal
    have named := (generated.named object.ns object.name current isCurrent.1 inNs owned).1
    rw [← same, ← equal] at named
    exact fresh.unused 0 (by decide) current isCurrent.1 (Prod.ext inNs named)
  have freshNew : (cluster.reseeded.withRevisions kind commit.withNew).Fresh kind object.ns
      object.name 1 := fresh.reseeded rfl (by simpa using keys)
  rw [recovers_iff_canReturn (by simpa using held) versioned
    (by simpa using commit.sole_created isCurrent (Or.inl rfl))
    (by simpa using commit.sole_created isCurrent (Or.inr rfl)) other (by simpa using generatedNew)
    freshNew (by simpa using stays) inNsKept ownedKept versionKept,
    canReturn_iff (by simpa using generatedNew) (by simpa using stays) inNsKept ownedKept versionKept,
    canReturn_iff generated isCurrent.1 inNs owned same.symm, relabelled.name,
    restorable_congr relabelled.spec]

/-- Putting the labels back fails when they were on one revision: the first write is
made from an outdated one. -/
theorem Commit.revert_of_one (commit : Commit cluster object current)
    (isCurrent : (cluster.revisions kind).Sole (marked object.ns object.name "current") current)
    (one : commit.latest = commit.stripped) (error : ApiError) :
    ((revert commit.stripped [commit.retired] error).run Cluster.serve
      (cluster.reseeded.withRevisions kind commit.noLatest)).1 =
        cluster.reseeded.withRevisions kind commit.noLatest := by
  have owned : commit.stripped.Labelled "name" object.name :=
    commit.stripping.labelled_unlabel.mpr ⟨by decide, (marked_iff.mp isCurrent.2.1).2.1⟩
  have sameKey : key commit.retired = key commit.stripped := by
    rw [commit.retiring.key_eq, one]
    rfl
  have carries := (marked_iff.mp (Table.select_eq_singleton.mp commit.list).2.1).2.2
  have later := commit.retiring.clock_lt_unlabel commit.latest_mem carries
  have stale : version commit.retired ≠ version commit.stripped :=
    Nat.ne_of_gt (Nat.lt_of_le_of_lt (Table.bound commit.stripping.mem) later)
  have refused := Table.update_of_stale
    { commit.stripped with labels := commit.stripped.labels.put "current" "true" }
    commit.retiring.mem sameKey stale
  simp [revert, updateRevision, Revision.label?_of_labelled owned, refused]

/-- Labels on two revisions are put back. -/
theorem Commit.recovers_revert (commit : Commit cluster object current)
    (held : object ∈ cluster.objects kind) (versioned : object.currentVersion ≠ "")
    (isCurrent : (cluster.revisions kind).Sole (marked object.ns object.name "current") current)
    (same : object.currentVersion = current.customVersion)
    (fresh : cluster.Fresh kind object.ns object.name 2)
    (two : key commit.latest ≠ key commit.stripped) (error : ApiError) (limit : Nat) :
    Recovers kind object.ns object.name (limit + 1)
      ((revert commit.stripped [commit.retired] error).run Cluster.serve
        (cluster.reseeded.withRevisions kind commit.noLatest)).1 := by
  obtain ⟨inNs, owned, _⟩ := marked_iff.mp isCurrent.2.1
  have stripping := commit.stripping.relabelled_unlabel isCurrent.1 (Or.inl rfl)
  have sole := Table.select_eq_singleton.mp commit.list
  obtain ⟨inNsLatest, ownedLatest, _⟩ := marked_iff.mp sole.2.1
  have retiring := commit.relabelled_retired
  obtain ⟨labelled, promoted, withCurrent, label, update, written, sameKey, isPromoted, relabelled,
    others⟩ := Table.exists_label (commit.retiring.mem_of_ne commit.stripping.mem (Ne.symm two))
      (stripping.ns.trans inNs) ((stripping.owned object.name).mpr owned) (Or.inl rfl)
      (commit.unlabelled isCurrent (Or.inl rfl))
  have stays : commit.retired ∈ withCurrent := by
    refine written.mem_of_ne commit.retiring.mem ?_
    rw [sameKey, commit.retiring.key_eq]
    exact two
  obtain ⟨again, last, withBoth, labelAgain, updateAgain, writtenAgain, _, isLast, relabelledAgain,
    othersAgain⟩ := Table.exists_label stays (retiring.ns.trans inNsLatest)
      ((retiring.owned object.name).mpr ownedLatest) (Or.inr rfl)
      ((others "latest" (by decide)).2 (commit.unlabelled isCurrent (Or.inr rfl)))
  obtain ⟨final, isFinal, relabelledFinal⟩ := (othersAgain "current" (by decide)).1 promoted isPromoted
  have ran : ((revert commit.stripped [commit.retired] error).run Cluster.serve
      (cluster.reseeded.withRevisions kind commit.noLatest)).1 =
        cluster.reseeded.withRevisions kind withBoth := by
    simp [revert, updateRevision, label, update, labelAgain, updateAgain]
  have stems : (cluster.revisions kind).Stems withBoth :=
    ((commit.stems isCurrent.1).trans (written.stems
      (commit.retiring.mem_of_ne commit.stripping.mem (Ne.symm two)) relabelled)).trans
        (writtenAgain.stems stays relabelledAgain)
  have freshAfter : (cluster.reseeded.withRevisions kind withBoth).Fresh kind object.ns object.name 1 :=
    fresh.reseeded rfl fun revision member => Or.inr (stems.keys revision (by simpa using member))
  rw [ran]
  refine recovers_of_aligned (by simpa using held) versioned (by simpa using isFinal)
    (by simpa using isLast) ?_ (freshAfter.unused 0 (by decide))
  rw [same, relabelledFinal.customVersion_eq, relabelled.customVersion_eq,
    stripping.customVersion_eq]

/-- A failure to take `latest` away puts `current` back. -/
theorem Commit.recovers_putBack (commit : Commit cluster object current)
    (held : object ∈ cluster.objects kind) (versioned : object.currentVersion ≠ "")
    (isCurrent : (cluster.revisions kind).Sole (marked object.ns object.name "current") current)
    (same : object.currentVersion = current.customVersion)
    (fresh : cluster.Fresh kind object.ns object.name 2) (limit : Nat) :
    Recovers kind object.ns object.name (limit + 1)
      ((do
        let labelled ← Program.orPanic (commit.stripped.label? "current")
        let _ ← updateRevision labelled : Client Unit).run Cluster.serve
          (cluster.withRevisions kind commit.noCurrent)).1 := by
  obtain ⟨inNs, owned, _⟩ := marked_iff.mp isCurrent.2.1
  have stripping := commit.stripping.relabelled_unlabel isCurrent.1 (Or.inl rfl)
  obtain ⟨labelled, promoted, withCurrent, label, update, written, _, isPromoted, relabelled,
    others⟩ := Table.exists_label commit.stripping.mem (stripping.ns.trans inNs)
      ((stripping.owned object.name).mpr owned) (Or.inl rfl) (isCurrent.unlabelled commit.stripping)
  obtain ⟨last, isLast, _⟩ :=
    (others "latest" (by decide)).1 commit.latest (Table.select_eq_singleton.mp commit.list)
  have stems : (cluster.revisions kind).Stems withCurrent :=
    (commit.stripping.stems isCurrent.1 stripping).trans
      (written.stems commit.stripping.mem relabelled)
  have freshAfter : (cluster.withRevisions kind withCurrent).Fresh kind object.ns object.name 2 :=
    fresh.of_keys rfl fun revision member => stems.keys revision (by simpa using member)
  have ran : ((do
      let labelled ← Program.orPanic (commit.stripped.label? "current")
      let _ ← updateRevision labelled : Client Unit).run Cluster.serve
        (cluster.withRevisions kind commit.noCurrent)).1 = cluster.withRevisions kind withCurrent := by
    simp [updateRevision, label, update]
  rw [ran]
  refine recovers_of_aligned (by simpa using held) versioned (by simpa using isPromoted)
    (by simpa using isLast) ?_ (freshAfter.unused 0 (by decide))
  rw [same, relabelled.customVersion_eq, stripping.customVersion_eq]

/-- The reconcile of an edit makes two calls before it starts on the new revision. -/
theorem Cluster.cutOff_edit (held : object ∈ cluster.objects kind)
    (versioned : object.currentVersion ≠ "")
    (isCurrent : (cluster.revisions kind).Sole (marked object.ns object.name "current") current)
    (same : object.currentVersion = current.customVersion) (edits : differs object current = true)
    (cut : Cut ApiError) :
    cluster.cutOff kind object.ns object.name cut =
      match cut with
      | .stop 0 | .stop 1 | .fail 0 _ | .fail 1 _ => cluster
      | .stop (calls + 2) =>
        (createNew object current).cutOff Cluster.serve Call.failure (.stop calls) cluster
      | .fail (calls + 2) error =>
        (createNew object current).cutOff Cluster.serve Call.failure (.fail calls error) cluster := by
  have list := Table.select_eq_singleton.mpr isCurrent
  split <;>
    simp [cutOff, Configurator.reconcile, synchronize, listRevisions, find_object held,
      same ▸ versioned, list, same, edits, Call.failure]

/-- Cutting off a roll-out leaves its object settled. -/
theorem Commit.recovers_rollOuts (commit : Commit cluster object current)
    (held : object ∈ cluster.objects kind)
    (isCurrent : (cluster.revisions kind).Sole (marked object.ns object.name "current") current)
    (cut : Cut ApiError) (limit : Nat) :
    Recovers kind object.ns object.name limit
      ((rollOuts commit.updated cluster.nextVersion).cutOff Cluster.serve Call.failure cut
        commit.published) := by
  refine .of_settled (commit.settled held isCurrent ?_) limit
  exact (emits_rollOuts commit.updated cluster.nextVersion).cutOff Cluster.SameRecords.refl
    (fun earlier later => earlier.trans later) (fun cluster _ rolls => rolls.serve cluster) cut _

/-- Where a cut leaves the reconcile of an edit so that it is repaired. The calls are
Get, List, the update that strips `current`, List, the update that strips `latest`,
the seeding, Create and the update of the object; roll-outs follow. -/
def EditSurvives (cluster : Cluster) (object : Object kind) (current latest : Revision kind) :
    Cut ApiError → Prop
  | .stop calls => calls ≤ 2 ∨ calls = 7 ∧ CanReturn cluster object ∨ 8 ≤ calls
  | .fail calls _ =>
    calls ≠ 3 ∧ (calls = 6 → current ≠ latest) ∧ (calls = 7 → CanReturn cluster object)

/-- An edit recovers from a cut exactly if it survives it. -/
theorem recovers_edit (held : object ∈ cluster.objects kind) (versioned : object.currentVersion ≠ "")
    (isCurrent : (cluster.revisions kind).Sole (marked object.ns object.name "current") current)
    (isLatest : (cluster.revisions kind).Sole (marked object.ns object.name "latest") latest)
    (same : object.currentVersion = current.customVersion) (edits : differs object current = true)
    (generated : (cluster.revisions kind).Generated)
    (fresh : cluster.Fresh kind object.ns object.name 2) (cut : Cut ApiError) (limit : Nat) :
    Recovers kind object.ns object.name (limit + 2)
        (cluster.cutOff kind object.ns object.name cut) ↔
      EditSurvives cluster object current latest cut := by
  obtain ⟨commit, relabelled, which⟩ := Commit.exists_of_sole held isCurrent isLatest
    (Object.ne_nil_of_versioned versioned) (fresh.unused 0 (by decide))
  have pending : Recovers kind object.ns object.name (limit + 2) cluster :=
    recovers_of_aligned held versioned isCurrent isLatest same (fresh.unused 0 (by decide))
  have lost : ∀ after : Cluster, after.objects = cluster.objects →
      (after.revisions kind = commit.noCurrent ∨ after.revisions kind = commit.noLatest) →
      ¬ Recovers kind object.ns object.name (limit + 2) after := by
    intro after objects revisions
    refine not_recovers_of_none (objects ▸ held) versioned ?_
    rcases revisions with stripped | retired
    · exact stripped ▸ isCurrent.unlabelled commit.stripping
    · exact retired ▸ commit.unlabelled isCurrent (Or.inl rfl)
  have halfway := commit.recovers_withNew held versioned isCurrent same generated fresh limit
  have rolling := commit.recovers_rollOuts held isCurrent
  have rolled : Recovers kind object.ns object.name (limit + 2)
      ((rollOuts commit.updated cluster.nextVersion).run Cluster.serve commit.published).1 :=
    .of_settled (commit.settled held isCurrent
      (run_rollOuts commit.updated cluster.nextVersion commit.published)) _
  rw [Cluster.cutOff_edit held versioned isCurrent same edits]
  cases cut with
  | stop calls =>
    match calls with
    | 0 | 1 => simpa [EditSurvives] using pending
    | calls + 2 =>
      dsimp only
      rw [commit.stop_createNew]
      match calls with
      | 0 => simpa [EditSurvives] using pending
      | 1 | 2 => simpa [EditSurvives] using lost (cluster.withRevisions kind _) rfl (by simp)
      | 3 => simpa [EditSurvives] using lost (cluster.withRevisions kind _) rfl (by simp)
      | 4 => simpa [EditSurvives] using lost (cluster.reseeded.withRevisions kind _) rfl (by simp)
      | 5 => simpa [EditSurvives] using halfway
      | calls + 6 => simpa [EditSurvives] using rolling (.stop calls) (limit + 2)
  | fail calls error =>
    match calls with
    | 0 | 1 => simpa [EditSurvives] using pending
    | calls + 2 =>
      dsimp only
      rw [commit.fail_createNew]
      match calls with
      | 0 => simpa [EditSurvives] using pending
      | 1 => simpa [EditSurvives] using lost (cluster.withRevisions kind _) rfl (by simp)
      | 2 =>
        dsimp only
        split
        · simpa [EditSurvives] using rolled
        · simpa [EditSurvives] using
            commit.recovers_putBack held versioned isCurrent same fresh (limit + 1)
      | 3 => simpa [EditSurvives] using rolled
      | 4 =>
        rcases which with ⟨one, strippedOne⟩ | ⟨apart, two⟩
        · rw [commit.revert_of_one isCurrent strippedOne]
          simpa [EditSurvives, one] using
            lost (cluster.reseeded.withRevisions kind _) rfl (by simp)
        · have different : current ≠ latest := fun equal => apart (congrArg key equal.symm)
          have keys : key commit.latest ≠ key commit.stripped := by
            rw [two, commit.stripping.key_eq]
            exact apart
          simpa [EditSurvives, different] using
            commit.recovers_revert held versioned isCurrent same fresh keys error (limit + 1)
      | 5 => simpa [EditSurvives] using halfway
      | calls + 6 => simpa [EditSurvives] using rolling (.fail calls error) (limit + 2)

end Edit

section Choice

variable {cluster : Cluster} {object : Object kind} {current latest target : Revision kind} {count : Nat}

theorem Checkout.cutOff (checkout : Checkout cluster object current target)
    (held : object ∈ cluster.objects kind) (versioned : object.currentVersion ≠ "")
    (cut : Cut ApiError) :
    cluster.cutOff kind object.ns object.name cut =
      match cut.calls with
      | 0 | 1 | 2 | 3 => cluster
      | 4 => cluster.withObjects kind checkout.objects
      | 5 => (cluster.withObjects kind checkout.objects).withRevisions kind checkout.withTwo
      | _ + 6 => checkout.moved := by
  cases cut with
  | stop calls | fail calls error =>
    dsimp only [Cut.calls]
    split <;>
      simp [Cluster.cutOff, Configurator.reconcile, synchronize, listRevisions, copyRevision,
        getRevision, updateObject, updateRevision, Cluster.find_object held, versioned, checkout.list,
        checkout.other, checkout.find, checkout.restore, checkout.update, checkout.relabel,
        checkout.promote, checkout.strip, Call.failure, Checkout.moved]

/-- Where the revision cannot be returned to, nothing is written. -/
theorem Cluster.cutOff_unreturnable (held : object ∈ cluster.objects kind)
    (versioned : object.currentVersion ≠ "")
    (isCurrent : (cluster.revisions kind).Sole (marked object.ns object.name "current") current)
    (other : current.customVersion ≠ object.currentVersion) (cannot : ¬ CanReturn cluster object)
    (cut : Cut ApiError) : cluster.cutOff kind object.ns object.name cut = cluster := by
  have list := Table.select_eq_singleton.mpr isCurrent
  cases lookup : (cluster.revisions kind).find?
      (object.ns, object.name ++ "-" ++ object.currentVersion) with
  | none =>
    rcases cut with (_ | _ | _ | calls) | ⟨_ | _ | _ | calls, error⟩ <;>
      simp [cutOff, Configurator.reconcile, synchronize, listRevisions, copyRevision, getRevision,
        find_object held, versioned, list, other, lookup, Call.failure]
  | some found =>
    have panics : restore? object found = none :=
      restore?_eq_none.mpr fun restorable => cannot ⟨found, lookup, restorable⟩
    rcases cut with (_ | _ | _ | calls) | ⟨_ | _ | _ | calls, error⟩ <;>
      simp [cutOff, Configurator.reconcile, synchronize, listRevisions, copyRevision, getRevision,
        find_object held, versioned, list, other, lookup, panics, Call.failure]

/-- A choice of another revision recovers from a cut exactly if that revision can be
returned to and the old label is not left behind. -/
theorem recovers_choice (held : object ∈ cluster.objects kind)
    (versioned : object.currentVersion ≠ "")
    (isCurrent : (cluster.revisions kind).Sole (marked object.ns object.name "current") current)
    (isLatest : (cluster.revisions kind).Sole (marked object.ns object.name "latest") latest)
    (other : current.customVersion ≠ object.currentVersion)
    (generated : (cluster.revisions kind).Generated) (fresh : cluster.Fresh kind object.ns object.name (count + 1))
    (member : target ∈ cluster.revisions kind) (inNs : target.ns = object.ns)
    (owned : target.Labelled "name" object.name)
    (version : target.customVersion = object.currentVersion) (cut : Cut ApiError) (limit : Nat) :
    Recovers kind object.ns object.name (limit + 2)
        (cluster.cutOff kind object.ns object.name cut) ↔
      CanReturn cluster object ∧ cut.calls ≠ 5 := by
  have pending : Recovers kind object.ns object.name (limit + 2) cluster ↔ CanReturn cluster object :=
    recovers_iff_canReturn held versioned isCurrent isLatest other generated fresh member inNs owned
      version
  by_cases returns : CanReturn cluster object
  swap
  · rw [Cluster.cutOff_unreturnable held versioned isCurrent other returns, pending]
    simp [returns]
  obtain ⟨named, restorable⟩ := (canReturn_iff generated member inNs owned version).mp returns
  obtain ⟨checkout⟩ := Checkout.exists_of_sole held isCurrent other member (Prod.ext inNs named)
    version owned restorable
  have apart := checkout.apart version
  have sameKey := checkout.key_updated
  have sameNs : checkout.updated.ns = object.ns := congrArg Prod.fst sameKey
  have sameName : checkout.updated.name = object.name := congrArg Prod.snd sameKey
  have sameVersion := checkout.currentVersion_updated
  have written : checkout.updated ∈ (cluster.withObjects kind checkout.objects).objects kind := by
    simpa using checkout.updating.mem
  have copied : Recovers kind object.ns object.name (limit + 2)
      (cluster.withObjects kind checkout.objects) := by
    rw [← sameNs, ← sameName] at isCurrent isLatest fresh ⊢
    refine (recovers_iff_canReturn written (sameVersion ▸ versioned)
      (by simpa using isCurrent) (by simpa using isLatest) (sameVersion ▸ other)
      (by simpa using generated) (fresh.of_keys rfl fun revision present => ⟨revision, present, rfl⟩)
      (by simpa using member) (inNs.trans sameNs.symm) (sameName.symm ▸ owned)
      (version.trans sameVersion.symm)).mpr ?_
    exact ⟨target, by simpa [sameNs, sameName, sameVersion] using checkout.find, restorable⟩
  have doubled : ¬ Recovers kind object.ns object.name (limit + 2)
      ((cluster.withObjects kind checkout.objects).withRevisions kind checkout.withTwo) := by
    have two := checkout.withTwo_iff isCurrent owned apart
    have stuck : ∀ one, ¬ checkout.withTwo.Sole (marked object.ns object.name "current") one := by
      intro one sole
      obtain ⟨promotedIn, promotedMarked⟩ := (two checkout.promoted).mpr (Or.inl rfl)
      obtain ⟨currentIn, currentMarked⟩ := (two current).mpr (Or.inr rfl)
      have equal : current = checkout.promoted :=
        (sole.2.2 current currentIn currentMarked).trans
          (sole.2.2 checkout.promoted promotedIn promotedMarked).symm
      exact apart (equal ▸ checkout.key_promoted)
    rw [← sameNs, ← sameName] at stuck ⊢
    exact not_recovers_of_stuck (by simpa using checkout.updating.mem) (sameVersion ▸ versioned)
      (by simpa using stuck)
  rw [checkout.cutOff held versioned]
  split <;> rename_i calls
  · simpa [calls] using pending
  · simpa [calls] using pending
  · simpa [calls] using pending
  · simpa [calls] using pending
  · simpa [calls, returns] using copied
  · simpa [calls, returns] using doubled
  · have moved : Recovers kind object.ns object.name (limit + 2) checkout.moved :=
      checkout.recovers_moved versioned isCurrent isLatest version owned fresh
    have beyond : cut.calls ≠ 5 := by omega
    simpa [beyond, returns] using moved

end Choice

theorem Cluster.cutOff_synced {cluster : Cluster} {object : Object kind} {current : Revision kind}
    (held : object ∈ cluster.objects kind) (versioned : object.currentVersion ≠ "")
    (isCurrent : (cluster.revisions kind).Sole (marked object.ns object.name "current") current)
    (same : object.currentVersion = current.customVersion) (agrees : differs object current = false)
    (cut : Cut ApiError) : cluster.cutOff kind object.ns object.name cut = cluster := by
  have list := Table.select_eq_singleton.mpr isCurrent
  rcases cut with (_ | _ | calls) | ⟨_ | _ | calls, error⟩ <;>
    simp [cutOff, Configurator.reconcile, synchronize, listRevisions, find_object held,
      same ▸ versioned, list, same, agrees, Call.failure]

/-- What a user does to an object: edit its content, or name another version. -/
inductive UserChange (kind : Kind) where
  | edit (content : Content kind)
  | choose (version : String)

namespace UserChange

def apply (object : Object kind) : UserChange kind → Object kind
  | .edit content => { object with content := content }
  | .choose version => object.naming version

/-- A version can be chosen if a revision of the object has it. -/
def Allowed (cluster : Cluster) (object : Object kind) : UserChange kind → Prop
  | .edit _ => True
  | .choose version => ∃ revision ∈ cluster.revisions kind, revision.ns = object.ns ∧
      revision.Labelled "name" object.name ∧ revision.customVersion = version

theorem key_apply (object : Object kind) (change : UserChange kind) :
    key (change.apply object) = key object := by
  cases change <;> rfl

/-- After a change an object names its own version or one of its revisions. -/
theorem Allowed.version {cluster : Cluster} {object : Object kind} {change : UserChange kind}
    (allowed : change.Allowed cluster object) :
    (change.apply object).currentVersion = object.currentVersion ∨
      ∃ revision ∈ cluster.revisions kind, revision.ns = object.ns ∧
        revision.Labelled "name" object.name ∧
          revision.customVersion = (change.apply object).currentVersion := by
  cases change with
  | edit content => exact Or.inl rfl
  | choose version =>
    obtain ⟨revision, member, inNs, owned, its⟩ := allowed
    exact Or.inr ⟨revision, member, inNs, owned, by simp [apply, its]⟩

end UserChange

/-- The cuts of a reconcile after a user's change from which the object recovers. The
calls of a choice are Get, List, Get, the update of the object and those of the two
revisions. -/
def Survives (cluster : Cluster) (object : Object kind) (current latest : Revision kind)
    (cut : Cut ApiError) : Prop :=
  if object.currentVersion = current.customVersion then
    differs object current = true → EditSurvives cluster object current latest cut
  else CanReturn cluster object ∧ cut.calls ≠ 5

/-- A settled object that a user changes recovers from a cut of the reconcile, within two
more of them, exactly if it survives the cut; otherwise no number of them helps. -/
theorem recovers_iff_survives {cluster : Cluster} {ns name : String} {object changed : Object kind}
    {current latest : Revision kind} {objects : Table (Object kind)}
    (settled : SettledBy cluster ns name object current latest)
    (generated : (cluster.revisions kind).Generated) (fresh : cluster.Fresh kind ns name 2)
    (change : UserChange kind) (allowed : change.Allowed cluster object)
    (accepted : (cluster.objects kind).update (change.apply object) = .ok (changed, objects))
    (cut : Cut ApiError) {limit : Nat} (enough : 2 ≤ limit) :
    Recovers kind ns name limit ((cluster.withObjects kind objects).cutOff kind ns name cut) ↔
      Survives (cluster.withObjects kind objects) changed current latest cut := by
  obtain ⟨limit, rfl⟩ := Nat.exists_eq_add_of_le' enough
  obtain ⟨held, rfl, rfl, isCurrent, isLatest, version, _⟩ := settled
  have written := (Table.written_of_update accepted).2
  have sameKey : key changed = key object := written.key_eq.trans (change.key_apply object)
  have sameNs : changed.ns = object.ns := congrArg Prod.fst sameKey
  have sameName : changed.name = object.name := congrArg Prod.snd sameKey
  have sameVersion : changed.currentVersion = (change.apply object).currentVersion := by
    rw [written.answered, Object.currentVersion_stamp]
  have filled : ∀ revision ∈ cluster.revisions kind, revision.customVersion ≠ "" := by
    intro revision member
    obtain ⟨_, _, _, filled⟩ := generated revision member
    exact filled
  have stored : changed ∈ (cluster.withObjects kind objects).objects kind := by
    simpa using written.mem
  have freshNow : (cluster.withObjects kind objects).Fresh kind object.ns object.name 2 :=
    fresh.of_keys rfl fun revision member => ⟨revision, member, rfl⟩
  rw [← sameNs, ← sameName] at isCurrent isLatest freshNow ⊢
  unfold Survives
  split_ifs with same
  · have versioned : changed.currentVersion ≠ "" := same ▸ filled current isCurrent.1
    cases edits : differs changed current with
    | false =>
      rw [Cluster.cutOff_synced stored versioned (by simpa using isCurrent) same edits]
      have nothing : Settled kind changed.ns changed.name (cluster.withObjects kind objects) :=
        ⟨changed, current, latest, stored, rfl, rfl, by simpa using isCurrent,
          by simpa using isLatest, same, edits⟩
      simpa [edits] using Recovers.of_settled nothing (limit + 2)
    | true =>
      simpa [edits] using
        recovers_edit stored versioned (by simpa using isCurrent) (by simpa using isLatest) same edits
          (by simpa using generated) freshNow cut limit
  · rcases allowed.version with kept | ⟨target, member, inNs, owned, its⟩
    · exact absurd (sameVersion.trans (kept.trans version)) same
    · have chosen := its.trans sameVersion.symm
      exact recovers_choice stored (chosen ▸ filled target member) (by simpa using isCurrent)
        (by simpa using isLatest) (Ne.symm same) (by simpa using generated) freshNow
        (by simpa using member) (inNs.trans sameNs.symm) (sameName.symm ▸ owned) chosen cut limit

namespace Sample

theorem settledBy_synced : SettledBy synced "shop" "settings" (settings "red" "aaaaa" 1)
    (settingsCCM "red" "aaaaa" ["current", "latest"] 1)
    (settingsCCM "red" "aaaaa" ["current", "latest"] 1) := by
  refine ⟨List.mem_singleton_self _, rfl, rfl, ?_, ?_, by decide, by decide⟩
  · exact Table.select_eq_singleton.mp (by decide)
  · exact Table.select_eq_singleton.mp (by decide)

theorem generated_synced : (synced.revisions .configMap).Generated := by
  intro ccm member
  obtain rfl := List.mem_singleton.mp member
  exact ⟨"settings", by decide, by decide, by decide⟩

theorem fresh_synced : synced.Fresh .configMap "shop" "settings" 2 := by
  refine ⟨fun next early ccm member => ?_, by decide⟩
  obtain rfl := List.mem_singleton.mp member
  revert next
  decide

theorem edit_accepted : (synced.objects .configMap).update
    (UserChange.apply (settings "red" "aaaaa" 1)
      (.edit (⟨(GoMap.make ∅).put "colour" "blue", .nil⟩ : ConfigMapContent))) =
    .ok (settings "blue" "aaaaa" 2, edited) := by
  rfl

/-- Stopped between Create and the update of the ConfigMap, the edit is repaired: the
next reconcile goes back to the first CustomConfigMap. -/
theorem stopped_edit_recovers : Recovers .configMap "shop" "settings" 2
    ((synced.withObjects .configMap edited).cutOff .configMap "shop" "settings" (.stop 7)) := by
  refine (recovers_iff_survives settledBy_synced generated_synced fresh_synced
    (.edit (⟨(GoMap.make ∅).put "colour" "blue", .nil⟩ : ConfigMapContent)) trivial edit_accepted
    (.stop 7) (Nat.le_refl 2)).mpr ?_
  refine (if_pos (by decide)).mpr fun _ => Or.inr (Or.inl ⟨rfl, ?_⟩)
  exact ⟨settingsCCM "red" "aaaaa" ["current", "latest"] 1, by rfl, trivial⟩

/-- A failed Create is not repaired while one CustomConfigMap carries both labels: the
label `current` is put back on an outdated object, and that write is refused. -/
theorem failed_create_not_recovered :
    SettledBy synced "shop" "settings" (settings "red" "aaaaa" 1)
        (settingsCCM "red" "aaaaa" ["current", "latest"] 1)
        (settingsCCM "red" "aaaaa" ["current", "latest"] 1) ∧
      (synced.objects .configMap).update (UserChange.apply (settings "red" "aaaaa" 1)
        (.edit (⟨(GoMap.make ∅).put "colour" "blue", .nil⟩ : ConfigMapContent))) =
          .ok (settings "blue" "aaaaa" 2, edited) ∧
      ∀ limit, ¬ Recovers .configMap "shop" "settings" limit
        ((synced.withObjects .configMap edited).cutOff .configMap "shop" "settings"
          (.fail 6 (.other "etcdserver: request timed out"))) := by
  refine ⟨settledBy_synced, edit_accepted, fun limit recovers => ?_⟩
  have held : settings "blue" "aaaaa" 2 ∈
      (synced.withObjects .configMap edited).objects .configMap :=
    List.mem_singleton_self _
  have fresh : (synced.withObjects .configMap edited).Fresh .configMap "shop" "settings" 2 :=
    fresh_synced.of_keys rfl fun ccm member => ⟨ccm, member, rfl⟩
  have survived := (recovers_edit held (by decide) settledBy_synced.isCurrent
    settledBy_synced.isLatest rfl (by decide) generated_synced fresh _ limit).mp
      (recovers.mono (Nat.le_add_right limit 2))
  exact survived.2.1 rfl rfl

end Sample

end Configurator
