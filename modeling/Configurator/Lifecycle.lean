import Configurator.Admission
import Configurator.Recall
import Configurator.Settling
import Configurator.Startup
import Configurator.Sweep

namespace Configurator

open Resource

variable {kind : Kind} {ns name : String} {cluster before after : Cluster} {object updated : Object kind}
  {current latest : Revision kind}

/-- No revision is under this name, or one is current and one is latest. -/
def Table.Tidy (table : Table (Revision kind)) (ns name : String) : Prop :=
  (∀ revision ∈ table, ¬ revision.Owned ns name) ∨
    (∃ current, table.Sole (marked ns name "current") current) ∧
      ∃ latest, table.Sole (marked ns name "latest") latest

/-- The object names no version or one of its own. -/
def Object.Known (object : Object kind) (table : Table (Revision kind)) : Prop :=
  object.currentVersion = "" ∨ ∃ revision ∈ table,
    revision.Owned object.ns object.name ∧ revision.customVersion = object.currentVersion

/-- What holds between any two events. -/
structure Cluster.Steady (cluster : Cluster) : Prop where
  orderly : cluster.Orderly
  plain : ∀ kind, ∀ object ∈ cluster.objects kind, Plain object.name
  tidy : ∀ kind ns name, (cluster.revisions kind).Tidy ns name
  known : ∀ kind, ∀ object ∈ cluster.objects kind, object.Known (cluster.revisions kind)

section Frames

variable {table next : Table (Revision kind)}

theorem owned_of_marked {label : String} {revision : Revision kind} (marks : marked ns name label revision = true) :
    revision.Owned ns name := by
  obtain ⟨inNs, owned, _⟩ := marked_iff.mp marks
  exact ⟨inNs, owned⟩

/-- Only its own revisions count for a name. -/
theorem sole_congr {label : String} {revision : Revision kind}
    (same : ∀ revision : Revision kind, revision.Owned ns name → (revision ∈ next ↔ revision ∈ table))
    (sole : table.Sole (marked ns name label) revision) : next.Sole (marked ns name label) revision := by
  obtain ⟨member, marks, only⟩ := sole
  exact ⟨(same revision (owned_of_marked marks)).mpr member, marks, fun other present selected =>
    only other ((same other (owned_of_marked selected)).mp present) selected⟩

theorem Table.Tidy.congr (tidy : table.Tidy ns name)
    (same : ∀ revision : Revision kind, revision.Owned ns name → (revision ∈ next ↔ revision ∈ table)) :
    next.Tidy ns name := by
  rcases tidy with none | ⟨⟨current, isCurrent⟩, latest, isLatest⟩
  · exact Or.inl fun revision member owned => none revision ((same revision owned).mp member) owned
  · exact Or.inr ⟨⟨current, sole_congr same isCurrent⟩, latest, sole_congr same isLatest⟩

theorem Object.Known.congr (known : object.Known table)
    (same : ∀ revision : Revision kind, revision.Owned object.ns object.name → (revision ∈ next ↔ revision ∈ table)) :
    object.Known next := by
  rcases known with unversioned | ⟨revision, member, owned, version⟩
  · exact Or.inl unversioned
  · exact Or.inr ⟨revision, (same revision owned).mpr member, owned, version⟩

theorem Cluster.Rewritten.eq_updated (rewritten : before.Rewritten after object updated) {stored : Object kind}
    (member : stored ∈ after.objects kind) (same : key stored = key object) : stored = updated :=
  Table.unique member ((rewritten.members updated).mpr (Or.inl rfl)) (same.trans rewritten.same.symm)

theorem Cluster.Rewritten.spares (rewritten : before.Rewritten after object updated) {other : ObjectKey}
    (different : other ≠ key object) (revision : Revision kind) (owned : revision.Owned other.1 other.2) :
    revision ∈ after.revisions kind ↔ revision ∈ before.revisions kind := by
  refine rewritten.tended.spares revision fun again => different (Prod.ext ?_ ?_)
  · exact owned.1.symm.trans again.1
  · exact owned.unique again.2

/-- An event that has rewritten one object leaves a steady cluster, if it has left that object steady. -/
theorem Cluster.Rewritten.steady (rewritten : before.Rewritten after object updated) (steady : before.Steady)
    (held : object ∈ before.objects kind) (tidy : (after.revisions kind).Tidy object.ns object.name)
    (known : updated.Known (after.revisions kind)) : after.Steady := by
  refine ⟨rewritten.orderly steady.orderly, fun other entry member => ?_, fun other space called => ?_,
    fun other entry member => ?_⟩
  · by_cases own : other = kind
    · subst own
      rcases (rewritten.members entry).mp member with rfl | ⟨was, _⟩
      · have same : entry.name = object.name := congrArg Prod.snd rewritten.same
        rw [same]
        exact steady.plain other object held
      · exact steady.plain other entry was
    · rw [rewritten.objects other own] at member
      exact steady.plain other entry member
  · by_cases own : other = kind
    · subst own
      by_cases same : (space, called) = (object.ns, object.name)
      · obtain ⟨rfl, rfl⟩ := Prod.mk.inj same
        exact tidy
      · exact (steady.tidy other space called).congr (rewritten.spares same)
    · rw [rewritten.revisions other own]
      exact steady.tidy other space called
  · by_cases own : other = kind
    · subst own
      rcases (rewritten.members entry).mp member with rfl | ⟨was, different⟩
      · exact known
      · exact (steady.known other entry was).congr (rewritten.spares different)
    · rw [rewritten.objects other own] at member
      rw [rewritten.revisions other own]
      exact steady.known other entry member

theorem Cluster.Steady.congr (steady : before.Steady) (objects : after.objects = before.objects)
    (revisions : after.revisions = before.revisions) : after.Steady := by
  obtain ⟨⟨filed, pinned, types⟩, plain, tidy, known⟩ := steady
  rw [← objects] at pinned types plain known
  rw [← revisions] at filed types tidy known
  exact ⟨⟨filed, pinned, types⟩, plain, tidy, known⟩

end Frames

section Reconcile

/-- The object names the one current revision of its own, and agrees with it. -/
structure Object.Synchronised (object : Object kind) (cluster : Cluster) (current : Revision kind) : Prop where
  held : object ∈ cluster.objects kind
  isCurrent : (cluster.revisions kind).Sole (marked object.ns object.name "current") current
  version : object.currentVersion = current.customVersion
  agrees : differs object current = false

/-- The object names another version than the one that is current. -/
def Object.Moves (object : Object kind) (cluster : Cluster) : Prop :=
  object.currentVersion ≠ "" ∧ ∃ current, (cluster.revisions kind).Sole
    (marked object.ns object.name "current") current ∧ current.customVersion ≠ object.currentVersion

/-- What a reconcile owes the user: the content, or else the version that the object names. -/
structure Object.Served (object updated : Object kind) (before : Cluster) : Prop where
  edits : ¬ object.Moves before → updated.content = object.content
  choices : object.Moves before → updated.currentVersion = object.currentVersion

structure Cluster.Synchronises (before after : Cluster) (object : Object kind) : Prop where
  steady : after.Steady
  serves : ∃ (updated : Object kind) (current : Revision kind), key updated = key object ∧
    updated.Synchronised after current ∧ object.Served updated before

/-- A synchronised object with a latest revision is steady. -/
theorem Object.Synchronised.steady (synchronised : updated.Synchronised after current)
    (rewritten : before.Rewritten after object updated) (steady : before.Steady) (held : object ∈ before.objects kind)
    (isLatest : (after.revisions kind).Sole (marked object.ns object.name "latest") latest) : after.Steady := by
  have sameNs : updated.ns = object.ns := congrArg Prod.fst rewritten.same
  have sameName : updated.name = object.name := congrArg Prod.snd rewritten.same
  have isCurrent := synchronised.isCurrent
  have owned := owned_of_marked isCurrent.2.1
  refine rewritten.steady steady held (Or.inr ⟨⟨current, ?_⟩, latest, isLatest⟩)
    (Or.inr ⟨current, isCurrent.1, owned, synchronised.version.symm⟩)
  rw [← sameNs, ← sameName]
  exact isCurrent

/-- An object without revisions gets its first one. -/
theorem synchronises_first (steady : cluster.Steady) (held : object ∈ cluster.objects kind)
    (unversioned : object.currentVersion = "")
    (none : ∀ revision ∈ cluster.revisions kind, ¬ revision.Owned object.ns object.name)
    (unused : cluster.Unused kind object.ns object.name cluster.nextVersion) :
    cluster.Synchronises (cluster.reconcile kind object.ns object.name).1 object := by
  have unmarked : ∀ label, ∀ revision ∈ cluster.revisions kind,
      marked object.ns object.name label revision = false := by
    intro label revision member
    by_contra marks
    exact none revision member (owned_of_marked (by simpa using marks))
  obtain ⟨updated, rewritten, content⟩ := first_rewritten steady.orderly (steady.plain kind object held) held
    unversioned (unmarked "current") unused
  obtain ⟨created, withNew, create, creating⟩ :=
    @Table.create_of_free _ _ _ _ (cluster.revisions kind) (newRevision object cluster.nextVersion) unused
  obtain ⟨stored, objects, update, updating⟩ :=
    Table.update_of_current (object.annotate cluster.nextVersion created.name) held rfl rfl
  rw [Cluster.reconcile_first held unversioned (unmarked "current") create update] at rewritten ⊢
  have isLatest := creating.sole_new (Or.inr rfl) (unmarked "latest")
  have member : stored ∈ ((cluster.reseeded.withRevisions kind withNew).withObjects kind objects).objects kind := by
    simpa using updating.mem
  obtain rfl := rewritten.eq_updated member updating.key_eq
  have synchronised : stored.Synchronised
      ((cluster.reseeded.withRevisions kind withNew).withObjects kind objects) created := by
    have sameKey := updating.key_eq
    refine ⟨member, ?_, ?_, differs_annotated held updating creating⟩
    · rw [show stored.ns = object.ns from congrArg Prod.fst sameKey,
        show stored.name = object.name from congrArg Prod.snd sameKey]
      simpa using creating.sole_new (Or.inl rfl) (unmarked "current")
    · rw [creating.customVersion_new, updating.answered, Object.currentVersion_stamp,
        Object.currentVersion_annotate]
  refine ⟨synchronised.steady rewritten steady held (by simpa using isLatest),
    stored, created, rewritten.same, synchronised, fun _ => content, fun moves => absurd unversioned moves.1⟩

/-- An object that has dropped its version takes the one of its current revision. -/
theorem synchronises_adopt (steady : cluster.Steady) (held : object ∈ cluster.objects kind)
    (unversioned : object.currentVersion = "")
    (isCurrent : (cluster.revisions kind).Sole (marked object.ns object.name "current") current)
    (isLatest : (cluster.revisions kind).Sole (marked object.ns object.name "latest") latest)
    (agrees : differs object current = false) :
    cluster.Synchronises (cluster.reconcile kind object.ns object.name).1 object := by
  obtain ⟨updated, rewritten, content⟩ := adopt_rewritten steady.orderly held unversioned isCurrent agrees
  obtain ⟨stored, objects, update, updating⟩ :=
    Table.update_of_current (object.annotate current.customVersion current.name) held rfl rfl
  rw [Cluster.reconcile_adopt held unversioned isCurrent agrees update] at rewritten ⊢
  have member : stored ∈ (cluster.withObjects kind objects).objects kind := by simpa using updating.mem
  obtain rfl := rewritten.eq_updated member updating.key_eq
  have sameKey := updating.key_eq
  have synchronised : stored.Synchronised (cluster.withObjects kind objects) current := by
    refine ⟨member, ?_, ?_, (differs_adopted held updating current).trans agrees⟩
    · rw [show stored.ns = object.ns from congrArg Prod.fst sameKey,
        show stored.name = object.name from congrArg Prod.snd sameKey]
      exact isCurrent
    · rw [updating.answered, Object.currentVersion_stamp, Object.currentVersion_annotate]
  exact ⟨synchronised.steady rewritten steady held isLatest,
    stored, current, rewritten.same, synchronised, fun _ => content, fun moves => absurd unversioned moves.1⟩

/-- A calm making of a revision has an object with annotations. -/
theorem made_of_calm (held : object ∈ cluster.objects kind)
    (isCurrent : (cluster.revisions kind).Sole (marked object.ns object.name "current") current)
    (unused : cluster.Unused kind object.ns object.name cluster.nextVersion)
    (calm : ((createNew object current).run Cluster.serve cluster).2 ≠ .panicked) : object.annotations ≠ .nil := by
  rcases createNew_ran held isCurrent unused with ⟨_, _, _, _, ran⟩ | ⟨_, _, _, _, _, _, _, ⟨_, ran⟩ | ⟨made, _⟩⟩
  · exact absurd (congrArg Prod.snd ran) calm
  · exact absurd (congrArg Prod.snd ran) calm
  · exact made

/-- An edit becomes a new revision. -/
theorem synchronises_createNew (steady : cluster.Steady) (held : object ∈ cluster.objects kind)
    (isCurrent : (cluster.revisions kind).Sole (marked object.ns object.name "current") current)
    (isLatest : (cluster.revisions kind).Sole (marked object.ns object.name "latest") latest)
    (settled : ¬ object.Moves cluster) (unused : cluster.Unused kind object.ns object.name cluster.nextVersion)
    (calm : ((createNew object current).run Cluster.serve cluster).2 ≠ .panicked) :
    cluster.Synchronises ((createNew object current).run Cluster.serve cluster).1 object := by
  obtain ⟨updated, rewritten, content⟩ :=
    createNew_rewritten steady.orderly (steady.plain kind object held) held isCurrent unused calm
  obtain ⟨commit, _⟩ :=
    Commit.exists_of_sole held isCurrent isLatest (made_of_calm held isCurrent unused calm) unused
  have same := run_rollOuts commit.updated cluster.nextVersion commit.published
  rw [commit.run_createNew] at rewritten ⊢
  have objects := (congrFun same.objects kind).trans (show _ = commit.objects by simp [Commit.published])
  have revisions := (congrFun same.revisions kind).trans (show _ = commit.withNew by simp [Commit.published])
  have member : commit.updated ∈
      ((rollOuts commit.updated cluster.nextVersion).run Cluster.serve commit.published).1.objects kind := by
    rw [objects]
    exact commit.updating.mem
  obtain rfl := rewritten.eq_updated member commit.updating.key_eq
  have sameKey := commit.updating.key_eq
  have synchronised : commit.updated.Synchronised
      ((rollOuts commit.updated cluster.nextVersion).run Cluster.serve commit.published).1 commit.created := by
    refine ⟨member, ?_, ?_, commit.differs_updated held⟩
    · rw [revisions, show commit.updated.ns = object.ns from congrArg Prod.fst sameKey,
        show commit.updated.name = object.name from congrArg Prod.snd sameKey]
      exact commit.sole_created isCurrent (Or.inl rfl)
    · rw [commit.currentVersion_updated, commit.customVersion_created]
  refine ⟨synchronised.steady rewritten steady held (?_ : Table.Sole _ _ commit.created),
    commit.updated, commit.created, rewritten.same, synchronised, fun _ => content, fun moves => absurd moves settled⟩
  rw [revisions]
  exact commit.sole_created isCurrent (Or.inr rfl)

/-- An object that names another of its versions is brought to it. -/
theorem synchronises_move (steady : cluster.Steady) (held : object ∈ cluster.objects kind)
    (versioned : object.currentVersion ≠ "")
    (isCurrent : (cluster.revisions kind).Sole (marked object.ns object.name "current") current)
    (isLatest : (cluster.revisions kind).Sole (marked object.ns object.name "latest") latest)
    (other : current.customVersion ≠ object.currentVersion)
    (calm : (cluster.reconcile kind object.ns object.name).2 ≠ .panicked) :
    cluster.Synchronises (cluster.reconcile kind object.ns object.name).1 object := by
  obtain ⟨target, member, owned, version⟩ := (steady.known kind object held).resolve_left versioned
  obtain ⟨owner, filed⟩ := steady.orderly.filed kind target member
  obtain rfl := owned.unique filed.owned
  have named : key target = (object.ns, object.name ++ "-" ++ object.currentVersion) :=
    Prod.ext owned.1 (version ▸ filed.named)
  have restorable : Restorable target := by
    by_contra unrestorable
    have find := Table.find?_eq_some.mpr ⟨member, named⟩
    rw [Cluster.reconcile_unrestorable held versioned isCurrent other find unrestorable] at calm
    exact calm rfl
  obtain ⟨checkout⟩ := Checkout.exists_of_sole held isCurrent other member named version filed.owned restorable
  rw [Cluster.reconcile_checkout held versioned checkout]
  have rewritten := checkout_rewritten checkout steady.orderly held owned version
  have sameKey := checkout.key_updated
  have apart := checkout.apart version
  have synchronised : checkout.updated.Synchronised checkout.moved checkout.promoted := by
    refine ⟨by simpa [Checkout.moved] using checkout.updating.mem, ?_, ?_, checkout.agrees held
      (steady.orderly.types kind object held target member owned)⟩
    · rw [show checkout.updated.ns = object.ns from congrArg Prod.fst sameKey,
        show checkout.updated.name = object.name from congrArg Prod.snd sameKey]
      simpa [Checkout.moved] using checkout.sole_promoted isCurrent owned.2 apart
    · rw [checkout.currentVersion_updated, checkout.customVersion_promoted, version]
  obtain ⟨still, isStill, _⟩ := checkout.sole_latest isCurrent isLatest apart
  have moves : object.Moves cluster := ⟨versioned, current, isCurrent, other⟩
  exact ⟨synchronised.steady rewritten steady held (by simpa [Checkout.moved] using isStill), checkout.updated,
    checkout.promoted, rewritten.same, synchronised, fun settled => absurd moves settled,
    fun _ => checkout.currentVersion_updated⟩

/-- A reconcile that does not panic synchronises its object. -/
theorem Cluster.Steady.synchronises (steady : cluster.Steady) (held : object ∈ cluster.objects kind)
    (unused : cluster.Unused kind object.ns object.name cluster.nextVersion)
    (calm : (cluster.reconcile kind object.ns object.name).2 ≠ .panicked) :
    cluster.Synchronises (cluster.reconcile kind object.ns object.name).1 object := by
  rcases steady.tidy kind object.ns object.name with none | ⟨⟨current, isCurrent⟩, latest, isLatest⟩
  · have unversioned : object.currentVersion = "" := by
      rcases steady.known kind object held with unversioned | ⟨revision, member, owned, _⟩
      · exact unversioned
      · exact absurd owned (none revision member)
    exact synchronises_first steady held unversioned none unused
  by_cases unversioned : object.currentVersion = ""
  · cases edited : differs object current with
    | false => exact synchronises_adopt steady held unversioned isCurrent isLatest edited
    | true =>
      rw [Cluster.reconcile_edited held isCurrent (Or.inl unversioned) edited] at calm ⊢
      exact synchronises_createNew steady held isCurrent isLatest (fun moves => moves.1 unversioned) unused calm
  by_cases version : current.customVersion = object.currentVersion
  · have settled : ¬ object.Moves cluster := by
      rintro ⟨_, other, isOther, different⟩
      exact different (isCurrent.2.2 other isOther.1 isOther.2.1 ▸ version)
    cases edited : differs object current with
    | false =>
      rw [Cluster.reconcile_synced held unversioned isCurrent version.symm edited]
      exact ⟨steady, object, current, rfl, ⟨held, isCurrent, version.symm, edited⟩, fun _ => rfl, fun _ => rfl⟩
    | true =>
      rw [Cluster.reconcile_edited held isCurrent (Or.inr version) edited] at calm ⊢
      exact synchronises_createNew steady held isCurrent isLatest settled unused calm
  · exact synchronises_move steady held unversioned isCurrent isLatest version calm

end Reconcile

section Start

variable {workload : WorkloadKind} {owner : String}

def Cluster.Unbegun (cluster : Cluster) : Prop :=
  ∀ kind, ∀ object ∈ cluster.objects kind, object.currentVersion = "" →
    ∀ revision ∈ cluster.revisions kind, ¬ revision.Owned object.ns object.name

def Cluster.InStep (cluster : Cluster) : Prop :=
  ∀ kind, ∀ object ∈ cluster.objects kind, object.currentVersion ≠ "" →
    ∃ current, object.Synchronised cluster current

theorem lookup_introduce_of_own (version called : String) (secret : Object .secret) {key : String}
    (own : key ∉ trackingKeys) :
    (Init.introduce workload owner version called secret).annotations.lookup key = secret.annotations.lookup key := by
  have annotated := Object.lookup_annotate_of_own secret version called own
  have other : key ≠ workload.registry := by
    rintro rfl
    cases workload <;> exact own (by decide)
  dsimp only [Init.introduce, Init.enlist]
  split_ifs
  · rw [GoMap.lookup_put, if_neg other]
    exact annotated
  · exact annotated
  · rw [GoMap.lookup_put, if_neg other]
    exact annotated

theorem content_introduce (version called : String) (object : Object kind) :
    (Init.introduce workload owner version called object).content = object.content := by
  dsimp only [Init.introduce, Init.enlist]
  split_ifs <;> rfl

structure Cluster.Begins (before after : Cluster) (object updated : Object kind) (created : Revision kind) : Prop where
  held : object ∈ before.objects kind
  rewritten : before.Rewritten after object updated
  synchronised : updated.Synchronised after created
  versioned : updated.currentVersion ≠ ""
  isLatest : (after.revisions kind).Sole (marked object.ns object.name "latest") created

theorem begins_introduced (steady : cluster.Steady) (held : object ∈ cluster.objects kind)
    (unowned : ∀ revision ∈ cluster.revisions kind, ¬ revision.Owned object.ns object.name)
    {created : Revision kind} {updated : Object kind} {withNew : Table (Revision kind)} {objects : Table (Object kind)}
    (create : (cluster.revisions kind).create (newRevision object cluster.nextVersion) = .ok (created, withNew))
    (updating : (cluster.objects kind).Written
      (Init.introduce workload owner cluster.nextVersion created.name object) updated objects) :
    cluster.Begins ((cluster.reseeded.withRevisions kind withNew).withObjects kind objects) object updated created := by
  have creating := Table.written_of_create create
  have unmarked : ∀ label, ∀ revision ∈ cluster.revisions kind,
      marked object.ns object.name label revision = false := by
    intro label revision member
    by_contra marks
    exact unowned revision member (owned_of_marked (by simpa using marks))
  have version : updated.currentVersion = cluster.nextVersion := by
    rw [updating.answered, Object.currentVersion_stamp, Object.currentVersion_introduce]
  have kept : object.content.stored = object.content := Object.stored_content held
  have content : updated.content = object.content := by
    rw [updating.answered]
    exact (congrArg Content.stored (content_introduce _ _ object)).trans kept
  have same : key updated = key object := updating.key_eq.trans (Object.key_introduce _ _ _ _ _)
  refine ⟨held, ?_, ⟨?_, ?_, ?_, ?_⟩, ?_, ?_⟩
  · refine rewritten_of_written rfl rfl updating (Object.key_introduce _ _ _ _ _) (fun revision => ?_) ?_
      ((steady.orderly.tended held).create (steady.plain kind object held) creating (Table.free_of_create create))
    · cases kind with
      | configMap => exact Iff.rfl
      | secret => simp only [SameType, content_introduce]
    · rw [Object.currentVersion_introduce]
      exact lettered_randomSequence _ _
  · simpa using updating.mem
  · rw [show updated.ns = object.ns from congrArg Prod.fst same,
      show updated.name = object.name from congrArg Prod.snd same]
    simpa using creating.sole_new (Or.inl rfl) (unmarked "current")
  · rw [version, creating.customVersion_new]
  · refine differs_newSpec kept content (creating.answered ▸ rfl) ?_
    rintro rfl key user
    rw [updating.answered]
    simpa [stamp] using lookup_introduce_of_own _ _ object user
  · rw [version]
    exact randomSequence_ne_empty _ _
  · simpa using creating.sole_new (Or.inr rfl) (unmarked "latest")

/-- What one reference of a workload does in the start-up job: nothing to the records, or it
synchronises an object that had no version with its first revision. -/
theorem version_rewrites (steady : cluster.Steady) (unbegun : cluster.Unbegun) :
    let after := ((Init.version? workload ns owner kind name).run Cluster.serve cluster).1
    (after.objects = cluster.objects ∧ after.revisions = cluster.revisions) ∨
      ∃ (object updated : Object kind) (created : Revision kind), cluster.Begins after object updated created := by
  intro after
  cases found : (cluster.objects kind).find? (ns, name) with
  | none =>
    have ran : after = cluster := by simp [after, Init.version?, getObject, found]
    exact Or.inl ⟨by rw [ran], by rw [ran]⟩
  | some object =>
    obtain ⟨held, own⟩ := Table.find?_eq_some.mp found
    by_cases unversioned : object.currentVersion = ""
    swap
    · have ran : after = cluster := by simp [after, Init.version?, getObject, found, unversioned]
      exact Or.inl ⟨by rw [ran], by rw [ran]⟩
    cases create : (cluster.revisions kind).create (newRevision object cluster.nextVersion) with
    | error refusal =>
      have ran : after = cluster.reseeded := by
        simp [after, Init.version?, getObject, found, unversioned, newCustomResource, createRevision, create]
      exact Or.inl ⟨by rw [ran]; rfl, by rw [ran]; rfl⟩
    | ok result =>
      obtain ⟨created, withNew⟩ := result
      obtain ⟨updated, objects, update, updating⟩ := Table.update_of_current
        (Init.introduce workload owner cluster.nextVersion created.name object) held
        (Object.key_introduce _ _ _ _ _).symm (Object.version_introduce _ _ _ _ _).symm
      have ran : after = (cluster.reseeded.withRevisions kind withNew).withObjects kind objects := by
        simp [after, Init.version?, getObject, found, unversioned, newCustomResource, createRevision, create,
          updateObject, update]
      refine Or.inr ⟨object, updated, created, ?_⟩
      rw [ran]
      exact begins_introduced steady held (unbegun kind object held unversioned) create updating

namespace Cluster.Begins

variable {created : Revision kind} (begins : before.Begins after object updated created)
include begins

theorem steady (steady : before.Steady) : after.Steady :=
  begins.synchronised.steady begins.rewritten steady begins.held begins.isLatest

theorem unbegun (unbegun : before.Unbegun) : after.Unbegun := by
  intro other entry member unversioned revision present owned
  have rewritten := begins.rewritten
  by_cases own : other = kind
  · subst own
    rcases (rewritten.members entry).mp member with rfl | ⟨was, different⟩
    · exact begins.versioned unversioned
    · refine unbegun other entry was unversioned revision ((rewritten.spares different revision owned).mp present) owned
  · rw [rewritten.objects other own] at member
    rw [rewritten.revisions other own] at present
    exact unbegun other entry member unversioned revision present owned

theorem inStep (inStep : before.InStep) : after.InStep := by
  intro other entry member versioned
  have rewritten := begins.rewritten
  by_cases own : other = kind
  · subst own
    rcases (rewritten.members entry).mp member with rfl | ⟨was, different⟩
    · exact ⟨created, begins.synchronised⟩
    · obtain ⟨current, _, isCurrent, version, agrees⟩ := inStep other entry was versioned
      exact ⟨current, member, sole_congr (rewritten.spares different) isCurrent, version, agrees⟩
  · have was := rewritten.objects other own ▸ member
    obtain ⟨current, _, isCurrent, version, agrees⟩ := inStep other entry was versioned
    refine ⟨current, member, ?_, version, agrees⟩
    rw [rewritten.revisions other own]
    exact isCurrent

end Cluster.Begins

/-- A property of the records that each first revision keeps. -/
structure Begun (keeps : Cluster → Prop) : Prop where
  steady : ∀ {cluster}, keeps cluster → cluster.Steady
  unbegun : ∀ {cluster}, keeps cluster → cluster.Unbegun
  congr : ∀ {before after : Cluster}, keeps before → after.objects = before.objects →
    after.revisions = before.revisions → keeps after
  begins : ∀ {before after : Cluster} {kind : Kind} {object updated : Object kind} {created : Revision kind},
    keeps before → before.Begins after object updated created → keeps after

variable {keeps : Cluster → Prop} (begun : Begun keeps)
include begun

theorem Begun.version : (Init.version? workload ns owner kind name).Keeps Cluster.serve keeps := by
  intro cluster holds
  rcases version_rewrites (begun.steady holds) (begun.unbegun holds) with
    ⟨objects, revisions⟩ | ⟨object, updated, created, begins⟩
  · exact begun.congr holds objects revisions
  · exact begun.begins holds begins

theorem Begun.annotations {stored : Workload} (references : List (Kind × String)) (made : GoMap String) :
    (Init.annotations workload ns stored references made).Keeps Cluster.serve keeps := by
  induction references generalizing made with
  | nil => exact Program.keeps_ret _ _ _
  | cons reference rest ih =>
    obtain ⟨kind, name⟩ := reference
    unfold Init.annotations
    split
    · refine begun.version.bind fun answer => ?_
      cases answer with
      | none => exact ih made
      | some version => exact ih _
    · exact ih made

theorem Begun.initWorkload (stored : Workload) : (Init.initWorkload workload ns stored).Keeps Cluster.serve keeps := by
  refine (begun.annotations _ _).bind fun made => ?_
  dsimp only
  split
  · refine Program.Keeps.call (fun world holds => ?_) fun answer => ?_
    · have rolls : ∀ sent, (Call.updateWorkload workload sent).Rolls := fun _ => trivial
      exact begun.congr holds ((rolls _).serve world).objects ((rolls _).serve world).revisions
    · cases answer with
      | ok stored => exact Program.keeps_ret _ _ _
      | error error => exact fun _ holds => holds
  · exact Program.keeps_ret _ _ _

theorem Begun.initWorkloads (list : List Workload) :
    (Init.initWorkloads workload ns list).Keeps Cluster.serve keeps := by
  induction list with
  | nil => exact Program.keeps_ret _ _ _
  | cons stored rest ih => exact (begun.initWorkload stored).bind fun _ => ih

theorem Begun.listed : (listWorkloads workload ns >>= Init.initWorkloads workload ns).Keeps Cluster.serve keeps := by
  refine Program.Keeps.call (fun world holds => holds) fun answer => ?_
  cases answer with
  | ok list => exact begun.initWorkloads list
  | error error => exact fun _ holds => holds

theorem Begun.start : Init.initController.Keeps Cluster.serve keeps := by
  have every : ∀ namespaces, (Init.initNamespaces namespaces).Keeps Cluster.serve keeps := by
    intro namespaces
    induction namespaces with
    | nil => exact Program.keeps_ret _ _ _
    | cons ns rest ih =>
      have parts : Init.initNamespaces (ns :: rest) = (do
          (listWorkloads .deployment ns >>= Init.initWorkloads .deployment ns)
          (listWorkloads .statefulSet ns >>= Init.initWorkloads .statefulSet ns)
          Init.initNamespaces rest) := by
        simp only [Init.initNamespaces, bind_assoc]
      rw [parts]
      exact begun.listed.bind fun _ => begun.listed.bind fun _ => ih
  refine Program.Keeps.call (fun world holds => holds) fun answer => ?_
  cases answer with
  | ok namespaces => exact every namespaces
  | error error => exact fun _ holds => holds

end Start

section Events

theorem Cluster.Unbegun.congr (unbegun : before.Unbegun) (objects : after.objects = before.objects)
    (revisions : after.revisions = before.revisions) : after.Unbegun := by
  unfold Cluster.Unbegun
  rw [objects, revisions]
  exact unbegun

theorem begun_steady : Begun fun cluster => cluster.Steady ∧ cluster.Unbegun where
  steady holds := holds.1
  unbegun holds := holds.2
  congr holds objects revisions := ⟨holds.1.congr objects revisions, holds.2.congr objects revisions⟩
  begins holds begins := ⟨begins.steady holds.1, begins.unbegun holds.2⟩

theorem begun_inStep : Begun fun cluster => cluster.Steady ∧ cluster.Unbegun ∧ cluster.InStep where
  steady holds := holds.1
  unbegun holds := holds.2.1
  congr holds objects revisions := by
    refine ⟨holds.1.congr objects revisions, holds.2.1.congr objects revisions, ?_⟩
    intro kind object member versioned
    rw [objects] at member
    obtain ⟨current, _, isCurrent, version, agrees⟩ := holds.2.2 kind object member versioned
    exact ⟨current, by rwa [objects], by rwa [revisions], version, agrees⟩
  begins holds begins := ⟨begins.steady holds.1, begins.unbegun holds.2.1, begins.inStep holds.2.2⟩

/-- What a user may make of an object: anything, as long as it names no version that is not its
own, and a Secret has the type of its revisions. -/
structure Cluster.Acceptable (cluster : Cluster) (object : Object kind) : Prop where
  plain : Plain object.name
  known : object.Known (cluster.revisions kind)
  types : ∀ revision ∈ cluster.revisions kind, revision.Owned object.ns object.name → SameType object revision

/-- The reconcilers do not need the revision: it has no label of theirs, and its object does not name it. -/
structure Cluster.Idle (cluster : Cluster) (revision : Revision kind) : Prop where
  unmarked : ¬ revision.Labelled "current" "true" ∧ ¬ revision.Labelled "latest" "true"
  unnamed : ∀ object ∈ cluster.objects kind, revision.Owned object.ns object.name →
    revision.customVersion ≠ object.currentVersion

/-- An event in the life of a cluster. -/
inductive Cluster.Lives : Cluster → Cluster → Prop where
  | objects {cluster : Cluster} (kind : Kind) (table : Table (Object kind))
      (acceptable : ∀ object ∈ table, object ∈ cluster.objects kind ∨ cluster.Acceptable object) :
      Lives cluster (cluster.withObjects kind table)
  | workloads {cluster : Cluster} (workload : WorkloadKind) (table : Table Workload) :
      Lives cluster (cluster.withWorkloads workload table)
  | entropy {cluster : Cluster} (entropy : Nat → Draws) : Lives cluster { cluster with entropy := entropy }
  | start {cluster : Cluster} (unbegun : cluster.Unbegun) :
      Lives cluster (Init.initController.run Cluster.serve cluster).1
  | admission {cluster : Cluster} (workload : WorkloadKind) (order : Iteration) (sent : Workload) :
      Lives cluster ((createPatch workload order sent).run Cluster.serve cluster).1
  | purge {cluster : Cluster}
      (idle : ∀ kind, ∀ revision ∈ cluster.revisions kind, cluster.Disused revision → cluster.Idle revision) :
      Lives cluster (Purge.purgeCCMAndCS.run Cluster.serve cluster).1
  | reconcile {cluster : Cluster} (kind : Kind) (ns name : String)
      (unused : cluster.Unused kind ns name cluster.nextVersion)
      (calm : (cluster.reconcile kind ns name).2 ≠ .panicked) :
      Lives cluster (cluster.reconcile kind ns name).1

theorem Cluster.Steady.acceptable (steady : cluster.Steady) (held : object ∈ cluster.objects kind) :
    cluster.Acceptable object :=
  ⟨steady.plain kind object held, steady.known kind object held, steady.orderly.types kind object held⟩

theorem Cluster.Acceptable.lettered (acceptable : cluster.Acceptable object) (orderly : cluster.Orderly) :
    Lettered object.currentVersion := by
  rcases acceptable.known with unversioned | ⟨revision, member, _, version⟩
  · rw [unversioned]
    exact fun letter member => absurd member List.not_mem_nil
  · obtain ⟨owner, filed⟩ := orderly.filed kind revision member
    exact version ▸ filed.lettered

theorem Cluster.Steady.withObjects (steady : cluster.Steady) {table : Table (Object kind)}
    (acceptable : ∀ object ∈ table, object ∈ cluster.objects kind ∨ cluster.Acceptable object) :
    (cluster.withObjects kind table).Steady := by
  have every : ∀ other, ∀ entry ∈ (cluster.withObjects kind table).objects other, cluster.Acceptable entry := by
    intro other entry member
    by_cases own : other = kind
    · subst own
      rw [Cluster.withObjects_objects] at member
      exact (acceptable entry member).elim steady.acceptable id
    · rw [show (cluster.withObjects kind table).objects other = cluster.objects other from
        Function.update_of_ne own _ _] at member
      exact steady.acceptable member
  refine ⟨⟨steady.orderly.filed, fun other entry member => (every other entry member).lettered steady.orderly, ?_⟩, ?_,
    steady.tidy, ?_⟩
  · exact fun other entry member => (every other entry member).types
  · exact fun other entry member => (every other entry member).plain
  · exact fun other entry member => (every other entry member).known

theorem Cluster.Steady.pin (steady : cluster.Steady) (workload : WorkloadKind) (sent : Workload) :
    ((pin workload sent kind name).run Cluster.serve cluster).1.Steady := by
  cases found : (cluster.objects kind).find? (sent.ns, name) with
  | none =>
    rw [run_pin_missing found]
    exact steady
  | some object =>
    obtain ⟨held, own⟩ := Table.find?_eq_some.mp found
    obtain ⟨stored, objects, accepted, ran⟩ := run_pin workload held own
    obtain ⟨_, written⟩ := Table.written_of_update accepted
    have acceptable := steady.acceptable held
    have sameKey : key stored = key object := written.key_eq.trans (key_register workload sent.name object)
    have sameNs : stored.ns = object.ns := congrArg Prod.fst sameKey
    have sameName : stored.name = object.name := congrArg Prod.snd sameKey
    have version : stored.currentVersion = object.currentVersion := by
      rw [written.answered, Object.currentVersion_stamp, currentVersion_register]
    have content : (register workload sent.name object).content = object.content := by
      dsimp only [register]
      split_ifs <;> rfl
    rw [ran]
    refine steady.withObjects fun entry member => ?_
    rcases (written.members entry).mp member with rfl | ⟨was, _⟩
    swap
    · exact Or.inl was
    refine Or.inr ⟨sameName ▸ acceptable.plain, ?_, fun revision present owned => ?_⟩
    · rw [Object.Known, version, sameNs, sameName]
      exact acceptable.known
    · rw [sameNs, sameName] at owned
      have sameType := acceptable.types revision present owned
      rw [written.answered]
      cases kind with
      | configMap => trivial
      | secret => exact (congrArg SecretContent.type content).trans sameType

/-- The admission of a workload registers it on one object after the other. -/
theorem keeps_createPatch (workload : WorkloadKind) (order : Iteration) (sent : Workload) :
    (createPatch workload order sent).Keeps Cluster.serve Cluster.Steady := by
  have loops : ∀ references added,
      (newAnnotations workload sent references added).Keeps Cluster.serve Cluster.Steady := by
    intro references added
    induction references generalizing added with
    | nil => exact Program.keeps_ret _ _ _
    | cons reference rest ih =>
      obtain ⟨kind, name⟩ := reference
      unfold newAnnotations
      split
      · exact Program.Keeps.bind (fun world steady => steady.pin workload sent) fun pinned => ih _
      · exact ih added
  exact (loops _ _).bind fun added => Program.keeps_ret _ _ _

/-- Revisions that nobody needs may go. -/
theorem Cluster.Steady.swept {gone : AnyRevision → Prop} (steady : before.Steady)
    (swept : Cluster.Swept gone before after)
    (idle : ∀ kind, ∀ revision ∈ before.revisions kind, gone ⟨kind, revision⟩ → before.Idle revision) :
    after.Steady := by
  have there : ∀ kind, ∀ revision ∈ after.revisions kind, revision ∈ before.revisions kind :=
    fun kind revision member => ((swept.revisions kind revision).mp member).1
  have soles : ∀ {kind space called label} {revision : Revision kind}, label = "current" ∨ label = "latest" →
      (before.revisions kind).Sole (marked space called label) revision →
        (after.revisions kind).Sole (marked space called label) revision := by
    intro kind space called label revision moving sole
    obtain ⟨member, marks, only⟩ := sole
    refine ⟨(swept.revisions kind revision).mpr ⟨member, fun goes => ?_⟩, marks, fun other present =>
      only other (there kind other present)⟩
    obtain ⟨_, _, carries⟩ := marked_iff.mp marks
    have unmarked := (idle kind revision member goes).unmarked
    rcases moving with rfl | rfl
    · exact unmarked.1 carries
    · exact unmarked.2 carries
  obtain ⟨⟨filed, pinned, types⟩, plain, tidy, known⟩ := steady
  refine ⟨⟨fun kind revision member => filed kind revision (there kind revision member), ?_, ?_⟩, ?_, ?_, ?_⟩
  · rw [swept.objects]
    exact pinned
  · intro kind object held revision member
    rw [swept.objects] at held
    exact types kind object held revision (there kind revision member)
  · rw [swept.objects]
    exact plain
  · intro kind space called
    rcases tidy kind space called with none | ⟨⟨current, isCurrent⟩, latest, isLatest⟩
    · exact Or.inl fun revision member => none revision (there kind revision member)
    · exact Or.inr ⟨⟨current, soles (Or.inl rfl) isCurrent⟩, latest, soles (Or.inr rfl) isLatest⟩
  · intro kind object held
    rw [swept.objects] at held
    rcases known kind object held with unversioned | ⟨revision, member, owned, version⟩
    · exact Or.inl unversioned
    · exact Or.inr ⟨revision, (swept.revisions kind revision).mpr ⟨member, fun goes =>
        (idle kind revision member goes).unnamed object held owned version⟩, owned, version⟩

theorem Cluster.Lives.steady (lives : before.Lives after) (steady : before.Steady) : after.Steady := by
  cases lives with
  | objects kind table acceptable => exact steady.withObjects acceptable
  | workloads workload table => exact steady.congr rfl rfl
  | entropy entropy => exact steady.congr rfl rfl
  | start unbegun => exact (begun_steady.start before ⟨steady, unbegun⟩).1
  | admission workload order sent =>
    exact keeps_createPatch workload order sent before steady
  | purge idle =>
    obtain ⟨after, ran, swept, _⟩ := Purge.run_purgeNamespaces before.namespaces (.refl before)
    have listing : before.serve .listNamespaces = (before, .ok before.namespaces) := rfl
    have runs : Purge.purgeCCMAndCS.run Cluster.serve before = (after, .returned ()) := by
      rw [Purge.purgeCCMAndCS, Purge.run_asks listing]
      exact ran
    rw [runs]
    refine steady.swept swept fun kind revision member goes => idle kind revision member ?_
    exact (goes.resolve_left id).2
  | reconcile kind ns name unused calm =>
    cases found : (before.objects kind).find? (ns, name) with
    | none =>
      have still : (before.reconcile kind ns name).1 = before := by
        simp [Cluster.reconcile, Configurator.reconcile, found]
      rw [still]
      exact steady
    | some object =>
      obtain ⟨held, own⟩ := Table.find?_eq_some.mp found
      obtain rfl : object.ns = ns := congrArg Prod.fst own
      obtain rfl : object.name = name := congrArg Prod.snd own
      exact (steady.synchronises held unused calm).steady

theorem Cluster.Steady.lives (steady : before.Steady) (life : Relation.ReflTransGen Cluster.Lives before after) :
    after.Steady := by
  induction life with
  | refl => exact steady
  | tail _ last ih => exact last.steady ih

end Events

/-- Whatever has happened to a cluster, a reconcile that does not panic ends with its object
synchronised: it keeps the content of the object, or else the version that the object names. -/
theorem life_synchronises {start cluster : Cluster} {kind : Kind} {object : Object kind} (steady : start.Steady)
    (life : Relation.ReflTransGen Cluster.Lives start cluster) (held : object ∈ cluster.objects kind)
    (unused : cluster.Unused kind object.ns object.name cluster.nextVersion)
    (calm : (cluster.reconcile kind object.ns object.name).2 ≠ .panicked) :
    ∃ (updated : Object kind) (current : Revision kind), key updated = key object ∧
      updated.Synchronised (cluster.reconcile kind object.ns object.name).1 current ∧
      object.Served updated cluster := by
  exact ((steady.lives life).synchronises held unused calm).serves

/-- What the start-up job has versioned, the reconcilers leave alone: it makes no work for them. -/
theorem start_agrees {cluster : Cluster} (steady : cluster.Steady) (unbegun : cluster.Unbegun)
    (inStep : cluster.InStep) :
    let after := (Init.initController.run Cluster.serve cluster).1
    ∀ kind, ∀ object ∈ after.objects kind, object.currentVersion ≠ "" → after.Quiet kind object.ns object.name := by
  intro after kind object held versioned
  obtain ⟨still, _, synchronised⟩ := begun_inStep.start cluster ⟨steady, unbegun, inStep⟩
  obtain ⟨current, _, isCurrent, version, agrees⟩ := synchronised kind object held versioned
  exact AtRest.quiet (.aligned held rfl versioned isCurrent version agrees) still.orderly

namespace Sample

theorem steady_of_bare {cluster : Cluster}
    (none : ∀ kind, ∀ revision : Revision kind, revision ∉ cluster.revisions kind)
    (bare : ∀ kind, ∀ object ∈ cluster.objects kind, Plain object.name ∧ object.currentVersion = "") :
    cluster.Steady where
  orderly := {
    filed := fun kind revision member => absurd member (none kind revision)
    pinned := fun kind object held letter member => by
      rw [(bare kind object held).2] at member
      exact absurd member List.not_mem_nil
    types := fun kind object held revision member => absurd member (none kind revision) }
  plain kind object held := (bare kind object held).1
  tidy kind space called := Or.inl fun revision member => absurd member (none kind revision)
  known kind object held := Or.inl (bare kind object held).2

theorem unversioned_steady : unversioned.Steady := by
  refine steady_of_bare (fun kind revision member => ?_) fun kind object held => ?_
  · cases kind <;> exact absurd member List.not_mem_nil
  · cases kind with
    | secret => exact absurd held List.not_mem_nil
    | configMap =>
      obtain rfl := List.mem_singleton.mp held
      decide

/-- A user has painted `settings` blue, it has been reconciled, and the user has painted it red. -/
def repaintedTwice : Cluster :=
  (((unversioned.withObjects .configMap repainted).reconcile .configMap "shop" "settings").1).withObjects .configMap
    redStored

theorem repaintedTwice_lived : Relation.ReflTransGen Cluster.Lives unversioned repaintedTwice := by
  refine .tail (.tail (.single (.objects .configMap repainted ?_))
    (.reconcile .configMap "shop" "settings" (by unfold Cluster.Unused; decide) (calm_of_returned rfl)))
    (.objects .configMap _ ?_)
  · intro object member
    obtain rfl := List.mem_singleton.mp member
    exact Or.inr ⟨by decide, Or.inl (by decide), fun revision present => absurd present List.not_mem_nil⟩
  · intro object member
    obtain rfl := List.mem_singleton.mp member
    refine Or.inr ⟨by decide, Or.inr ⟨_, List.mem_of_mem_head? (by rfl), ⟨rfl, by decide⟩, by decide⟩, ?_⟩
    exact fun _ _ _ => trivial

theorem repaintedTwice_synchronised : ∃ (updated : Object .configMap) (current : Revision .configMap),
    key updated = ("shop", "settings") ∧
      updated.Synchronised (repaintedTwice.reconcile .configMap "shop" "settings").1 current ∧
      (versioned "red" "bbbbb" 4).Served updated repaintedTwice := by
  have unused : repaintedTwice.Unused .configMap "shop" "settings" repaintedTwice.nextVersion := by
    unfold Cluster.Unused
    decide
  have calm : (repaintedTwice.reconcile .configMap "shop" "settings").2 ≠ .panicked := calm_of_returned rfl
  have held : versioned "red" "bbbbb" 4 ∈ repaintedTwice.objects .configMap := List.mem_singleton_self _
  exact life_synchronises unversioned_steady repaintedTwice_lived held unused calm

theorem starting_bare : ∀ kind, ∀ object ∈ starting.objects kind, Plain object.name ∧ object.currentVersion = "" := by
  intro kind object held
  cases kind with
  | secret => exact absurd held List.not_mem_nil
  | configMap =>
    obtain rfl := List.mem_singleton.mp held
    decide

/-- The job versions `settings`, and its reconcile finds nothing to do. -/
theorem starting_agrees :
    let after := (Init.initController.run Cluster.serve starting).1
    ∀ kind, ∀ object ∈ after.objects kind, object.currentVersion ≠ "" → after.Quiet kind object.ns object.name := by
  have none : ∀ kind, ∀ revision : Revision kind, revision ∉ starting.revisions kind := by
    intro kind revision member
    cases kind <;> exact absurd member List.not_mem_nil
  exact start_agrees (steady_of_bare none starting_bare)
    (fun kind object held unversioned revision member => absurd member (none kind revision))
    fun kind object held versioned => absurd (starting_bare kind object held).2 versioned

end Sample

end Configurator
