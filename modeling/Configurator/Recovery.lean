import Configurator.Reconciliation
import Mathlib.Order.Iterate

namespace Configurator

open Resource

variable {kind : Kind}

/-- One current and one latest revision, and the object agrees with the current one. -/
structure SettledBy (cluster : Cluster) (ns name : String) (object : Object kind)
    (current latest : Revision kind) : Prop where
  held : object ∈ cluster.objects kind
  inNs : object.ns = ns
  owner : object.name = name
  isCurrent : (cluster.revisions kind).Sole (marked ns name "current") current
  isLatest : (cluster.revisions kind).Sole (marked ns name "latest") latest
  version : object.currentVersion = current.customVersion
  agrees : differs object current = false

def Settled (kind : Kind) (ns name : String) (cluster : Cluster) : Prop :=
  ∃ (object : Object kind) (current latest : Revision kind),
    SettledBy cluster ns name object current latest

/-- So many further reconciles without a failure, or fewer, settle the object. -/
def Recovers (kind : Kind) (ns name : String) (limit : Nat) (cluster : Cluster) : Prop :=
  ∃ rounds ≤ limit,
    Settled kind ns name ((fun cluster => (cluster.reconcile kind ns name).1)^[rounds] cluster)

/-- Every revision is one that the controller has made: it names an object and is
stored under the name made of the object and its version. -/
def Table.Generated (table : Table (Revision kind)) : Prop :=
  ∀ revision ∈ table, ∃ owner, revision.Labelled "name" owner ∧
    revision.name = nameValidation (owner ++ "-" ++ revision.customVersion) ∧
      revision.customVersion ≠ ""

/-- The next versions, so many of them, are new and different from each other. -/
structure Cluster.Fresh (cluster : Cluster) (kind : Kind) (ns name : String) (count : Nat) :
    Prop where
  unused : ∀ next < count, cluster.Unused kind ns name (randomSequence (cluster.entropy next) 5)
  apart : ∀ first < count, ∀ second < count,
    nameValidation (name ++ "-" ++ randomSequence (cluster.entropy first) 5) =
      nameValidation (name ++ "-" ++ randomSequence (cluster.entropy second) 5) → first = second

/-- The revision that the object names is found under that name and can be copied back. -/
def CanReturn (cluster : Cluster) (object : Object kind) : Prop :=
  ∃ revision, (cluster.revisions kind).find?
    (object.ns, object.name ++ "-" ++ object.currentVersion) = some revision ∧ Restorable revision

namespace Table

variable {table next : Table (Revision kind)}

theorem Generated.named (generated : table.Generated) (ns name : String) : table.Named ns name := by
  intro revision member _ owned
  obtain ⟨owner, carries, named, filled⟩ := generated revision member
  have same : owner = name := Option.some.inj (carries.symm.trans owned)
  exact ⟨same ▸ named, filled⟩

theorem Generated.plain (generated : table.Generated) {revision : Revision kind}
    (member : revision ∈ table) : Plain revision.name := by
  obtain ⟨owner, _, named, _⟩ := generated revision member
  rw [named]
  exact plain_nameValidation _

theorem Stems.generated (stems : table.Stems next) (generated : table.Generated) :
    next.Generated := by
  intro revision member
  obtain ⟨old, present, relabelled⟩ := stems revision member
  obtain ⟨owner, owned, named, filled⟩ := generated old present
  exact ⟨owner, (relabelled.owned owner).mpr owned,
    by rw [relabelled.name, relabelled.customVersion_eq, named],
    by rw [relabelled.customVersion_eq]; exact filled⟩

theorem Written.generated_new {object : Object kind} {version : String} {created : Revision kind}
    (written : table.Written (newRevision object version) created next) (generated : table.Generated)
    (filled : version ≠ "") : next.Generated := by
  intro revision member
  rcases (written.members revision).mp member with rfl | ⟨present, _⟩
  · refine ⟨object.name, ?_, ?_, ?_⟩
    · rw [written.answered, Revision.labelled_stamp, labelled_newRevision]
      simp
    · rw [written.customVersion_new, written.answered]
      rfl
    · rw [written.customVersion_new]
      exact filled
  · exact generated revision present

end Table

namespace Cluster.Fresh

variable {before after : Cluster} {ns name : String} {count : Nat}

theorem of_keys (fresh : before.Fresh kind ns name count) (entropy : after.entropy = before.entropy)
    (keys : ∀ revision ∈ after.revisions kind, ∃ old ∈ before.revisions kind, key old = key revision) :
    after.Fresh kind ns name count where
  unused := by
    intro next early revision member
    obtain ⟨old, present, same⟩ := keys revision member
    rw [entropy, ← same]
    exact fresh.unused next early old present
  apart := by
    rw [entropy]
    exact fresh.apart

/-- Once a version has been used the next ones are still new. -/
theorem reseeded (fresh : before.Fresh kind ns name (count + 1))
    (entropy : after.entropy = before.reseeded.entropy)
    (keys : ∀ revision ∈ after.revisions kind,
      key revision = (ns, nameValidation (name ++ "-" ++ before.nextVersion)) ∨
        ∃ old ∈ before.revisions kind, key old = key revision) : after.Fresh kind ns name count where
  unused := by
    intro next early revision member same
    rw [entropy] at same
    rcases keys revision member with new | ⟨old, present, its⟩
    · have clash := fresh.apart 0 (Nat.succ_pos count) (next + 1) (Nat.succ_lt_succ early)
        (congrArg Prod.snd (new.symm.trans same))
      omega
    · exact fresh.unused (next + 1) (Nat.succ_lt_succ early) old present (its.trans same)
  apart := by
    rw [entropy]
    intro first earlyFirst second earlySecond same
    have equal := fresh.apart (first + 1) (Nat.succ_lt_succ earlyFirst) (second + 1)
      (Nat.succ_lt_succ earlySecond) same
    omega

end Cluster.Fresh

section Recovers

variable {cluster : Cluster} {ns name : String} {limit : Nat}

theorem Recovers.of_settled (settled : Settled kind ns name cluster) (limit : Nat) :
    Recovers kind ns name limit cluster :=
  ⟨0, Nat.zero_le limit, settled⟩

theorem Recovers.mono {more : Nat} (within : limit ≤ more)
    (recovers : Recovers kind ns name limit cluster) : Recovers kind ns name more cluster := by
  obtain ⟨rounds, early, settled⟩ := recovers
  exact ⟨rounds, Nat.le_trans early within, settled⟩

theorem Recovers.of_reconcile
    (recovers : Recovers kind ns name limit (cluster.reconcile kind ns name).1) :
    Recovers kind ns name (limit + 1) cluster := by
  obtain ⟨rounds, within, settled⟩ := recovers
  exact ⟨rounds + 1, Nat.succ_le_succ within, settled⟩

/-- A state that a reconcile leaves alone recovers only if nothing is wrong with it. -/
theorem recovers_iff_of_fixed (fixed : (cluster.reconcile kind ns name).1 = cluster) :
    Recovers kind ns name limit cluster ↔ Settled kind ns name cluster := by
  refine ⟨?_, fun settled => .of_settled settled limit⟩
  rintro ⟨rounds, _, settled⟩
  rwa [Function.iterate_fixed fixed] at settled

end Recovers

section States

variable {cluster : Cluster} {object : Object kind} {current latest target : Revision kind}

/-- A new revision settles its object, roll-outs or not. -/
theorem Commit.settled (commit : Commit cluster object current)
    (held : object ∈ cluster.objects kind)
    (isCurrent : (cluster.revisions kind).Sole (marked object.ns object.name "current") current)
    {after : Cluster} (records : commit.published.SameRecords after) :
    Settled kind object.ns object.name after := by
  have sameKey := commit.updating.key_eq
  refine ⟨commit.updated, commit.created, commit.created, ?_, congrArg Prod.fst sameKey,
    congrArg Prod.snd sameKey, ?_, ?_, ?_, commit.differs_updated held⟩
  · rw [records.objects]
    simpa [Commit.published] using commit.updating.mem
  · rw [records.revisions]
    simpa [Commit.published] using commit.sole_created isCurrent (Or.inl rfl)
  · rw [records.revisions]
    simpa [Commit.published] using commit.sole_created isCurrent (Or.inr rfl)
  · rw [commit.currentVersion_updated, commit.customVersion_created]

variable {limit count : Nat}

/-- An object that names its only current revision is settled by the next reconcile. -/
theorem recovers_of_aligned (held : object ∈ cluster.objects kind)
    (versioned : object.currentVersion ≠ "")
    (isCurrent : (cluster.revisions kind).Sole (marked object.ns object.name "current") current)
    (isLatest : (cluster.revisions kind).Sole (marked object.ns object.name "latest") latest)
    (same : object.currentVersion = current.customVersion)
    (unused : cluster.Unused kind object.ns object.name cluster.nextVersion) :
    Recovers kind object.ns object.name (limit + 1) cluster := by
  cases edits : differs object current with
  | false =>
    exact .of_settled ⟨object, current, latest, held, rfl, rfl, isCurrent, isLatest, same, edits⟩ _
  | true =>
    obtain ⟨commit, _⟩ := Commit.exists_of_sole held isCurrent isLatest
      (Object.ne_nil_of_versioned versioned) unused
    refine .of_reconcile (.of_settled ?_ limit)
    rw [Cluster.reconcile_commit held versioned isCurrent same edits commit]
    exact commit.settled held isCurrent
      (run_rollOuts commit.updated cluster.nextVersion commit.published)

/-- The revision that the object names is found exactly if its name is plain. -/
theorem canReturn_iff (generated : (cluster.revisions kind).Generated)
    (member : target ∈ cluster.revisions kind) (inNs : target.ns = object.ns)
    (owned : target.Labelled "name" object.name)
    (version : target.customVersion = object.currentVersion) :
    CanReturn cluster object ↔
      target.name = object.name ++ "-" ++ object.currentVersion ∧ Restorable target := by
  have named := (generated.named object.ns object.name target member inNs owned).1
  rw [version] at named
  constructor
  · rintro ⟨found, lookup, restorable⟩
    obtain ⟨present, same⟩ := Table.find?_eq_some.mp lookup
    have plain : Plain (object.name ++ "-" ++ object.currentVersion) := by
      have itsName : found.name = object.name ++ "-" ++ object.currentVersion :=
        congrArg Prod.snd same
      exact itsName ▸ generated.plain present
    rw [nameValidation_of_plain plain] at named
    have equal : found = target :=
      Table.unique present member (same.trans (Prod.ext inNs named).symm)
    exact ⟨named, equal ▸ restorable⟩
  · rintro ⟨itsName, restorable⟩
    exact ⟨target, Table.find?_eq_some.mpr ⟨member, Prod.ext inNs itsName⟩, restorable⟩

/-- Moving to another revision settles its object, or the next reconcile does. -/
theorem Checkout.recovers_moved (checkout : Checkout cluster object current target)
    (versioned : object.currentVersion ≠ "")
    (isCurrent : (cluster.revisions kind).Sole (marked object.ns object.name "current") current)
    (isLatest : (cluster.revisions kind).Sole (marked object.ns object.name "latest") latest)
    (version : target.customVersion = object.currentVersion)
    (owned : target.Labelled "name" object.name) (fresh : cluster.Fresh kind object.ns object.name (count + 1)) :
    Recovers kind object.ns object.name (limit + 1) checkout.moved := by
  have apart := checkout.apart version
  obtain ⟨after, last, _⟩ := checkout.sole_latest isCurrent isLatest apart
  have sameKey := checkout.key_updated
  have sameNs : checkout.updated.ns = object.ns := congrArg Prod.fst sameKey
  have sameName : checkout.updated.name = object.name := congrArg Prod.snd sameKey
  have stored : checkout.updated ∈ checkout.moved.objects kind := by
    simpa [Checkout.moved] using checkout.updating.mem
  have versions := checkout.currentVersion_updated
  have promoted := checkout.sole_promoted isCurrent owned apart
  have aligned := checkout.customVersion_promoted.trans version
  have stillFresh : checkout.moved.Fresh kind object.ns object.name (count + 1) :=
    fresh.of_keys rfl (by simpa [Checkout.moved] using checkout.keys isCurrent.1)
  rw [← sameNs, ← sameName] at last promoted stillFresh ⊢
  exact recovers_of_aligned stored (versions ▸ versioned)
    (by simpa [Checkout.moved] using promoted) (by simpa [Checkout.moved] using last)
    (versions.trans aligned.symm) (stillFresh.unused 0 (Nat.succ_pos count))

/-- An object that names another revision than the current one recovers if and only
if that revision can be returned to. -/
theorem recovers_iff_canReturn (held : object ∈ cluster.objects kind)
    (versioned : object.currentVersion ≠ "")
    (isCurrent : (cluster.revisions kind).Sole (marked object.ns object.name "current") current)
    (isLatest : (cluster.revisions kind).Sole (marked object.ns object.name "latest") latest)
    (other : current.customVersion ≠ object.currentVersion)
    (generated : (cluster.revisions kind).Generated) (fresh : cluster.Fresh kind object.ns object.name (count + 1))
    (member : target ∈ cluster.revisions kind) (inNs : target.ns = object.ns)
    (owned : target.Labelled "name" object.name)
    (version : target.customVersion = object.currentVersion) :
    Recovers kind object.ns object.name (limit + 2) cluster ↔ CanReturn cluster object := by
  have unsettled : ¬ Settled kind object.ns object.name cluster := by
    rintro ⟨found, one, _, settled⟩
    have equal : found = object :=
      Table.unique settled.held held (Prod.ext settled.inNs settled.owner)
    have only : one = current := isCurrent.2.2 one settled.isCurrent.1 settled.isCurrent.2.1
    rw [equal, only] at settled
    exact other settled.version.symm
  constructor
  · intro recovers
    by_contra cannot
    refine unsettled ((recovers_iff_of_fixed ?_).mp recovers)
    cases lookup : (cluster.revisions kind).find?
        (object.ns, object.name ++ "-" ++ object.currentVersion) with
    | none => exact Cluster.reconcile_missing held versioned isCurrent other lookup
    | some found =>
      have unrestorable : ¬ Restorable found := fun restorable => cannot ⟨found, lookup, restorable⟩
      rw [Cluster.reconcile_unrestorable held versioned isCurrent other lookup unrestorable]
  · intro returns
    obtain ⟨named, restorable⟩ := (canReturn_iff generated member inNs owned version).mp returns
    obtain ⟨checkout⟩ := Checkout.exists_of_sole held isCurrent other member (Prod.ext inNs named)
      version owned restorable
    refine .of_reconcile ?_
    rw [Cluster.reconcile_checkout held versioned checkout]
    exact checkout.recovers_moved versioned isCurrent isLatest version owned fresh

/-- Unless exactly one revision is current, nothing repairs an object with a version. -/
theorem not_recovers_of_stuck (held : object ∈ cluster.objects kind)
    (versioned : object.currentVersion ≠ "")
    (stuck : ∀ current,
      ¬ (cluster.revisions kind).Sole (marked object.ns object.name "current") current) :
    ¬ Recovers kind object.ns object.name limit cluster := by
  rw [recovers_iff_of_fixed (by rw [Cluster.reconcile_stuck held versioned stuck])]
  rintro ⟨_, current, _, settled⟩
  exact stuck current settled.isCurrent

theorem not_recovers_of_none (held : object ∈ cluster.objects kind)
    (versioned : object.currentVersion ≠ "")
    (none : ∀ revision ∈ cluster.revisions kind,
      marked object.ns object.name "current" revision = false) :
    ¬ Recovers kind object.ns object.name limit cluster := by
  refine not_recovers_of_stuck held versioned fun current sole => ?_
  simpa [none current sole.1] using sole.2.1

theorem restorable_congr {first second : Revision kind} (same : first.spec = second.spec) :
    Restorable first ↔ Restorable second := by
  cases kind with
  | configMap => exact Iff.rfl
  | secret => simp [Restorable, same]

end States

end Configurator
