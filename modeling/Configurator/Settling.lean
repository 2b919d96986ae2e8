import Configurator.Idempotence
import Configurator.Independence

/-! The work queue of the reconcilers. A reconcile leaves its object at rest and does not
disturb what another one has settled, so a queue that has served every object once has
nothing left to do, in whatever order it serves them. -/
namespace Configurator

open Resource

variable {kind : Kind} {ns name : String}

def Revision.Owned (revision : Revision kind) (ns name : String) : Prop :=
  revision.ns = ns ∧ revision.Labelled "name" name

/-- A revision that is stored under the name of its object and its version. -/
structure Revision.Filed (revision : Revision kind) (name : String) : Prop where
  owned : revision.Labelled "name" name
  named : revision.name = name ++ "-" ++ revision.customVersion
  lettered : Lettered revision.customVersion
  filled : revision.customVersion ≠ ""

/-- Every revision is filed, every version that an object names is over `a-z` and `0-9`, and
the revisions of a Secret have its type. -/
structure Cluster.Orderly (cluster : Cluster) : Prop where
  filed : ∀ kind, ∀ revision ∈ cluster.revisions kind, ∃ name, revision.Filed name
  pinned : ∀ kind, ∀ object ∈ cluster.objects kind, Lettered object.currentVersion
  types : ∀ kind, ∀ object ∈ cluster.objects kind, ∀ revision ∈ cluster.revisions kind,
    revision.Owned object.ns object.name → SameType object revision

theorem Revision.Owned.unique {revision : Revision kind} {other : String} (owned : revision.Owned ns name)
    (again : revision.Labelled "name" other) : name = other :=
  Option.some.inj (owned.2.symm.trans again)

theorem Revision.Filed.eq_of_named {revision : Revision kind} {owner version : String}
    (filed : revision.Filed owner) (lettered : Lettered version) (named : revision.name = name ++ "-" ++ version) :
    owner = name ∧ revision.customVersion = version := by
  have same : owner ++ "-" ++ revision.customVersion = name ++ "-" ++ version := filed.named.symm.trans named
  have owners : owner = name := dashed_inj_of_absent (dash_notMem_of_lettered filed.lettered)
    (dash_notMem_of_lettered lettered) same
  subst owners
  exact ⟨rfl, (String.append_right_inj _).mp same⟩

theorem lettered_randomSequence (draws : Draws) (n : Nat) : Lettered (randomSequence draws n) := by
  intro letter member
  simp only [randomSequence, String.toList_ofList, List.mem_map] at member
  obtain ⟨position, _, rfl⟩ := member
  exact List.get_mem _ _

section Tended

variable {object : Object kind} {start table next : Table (Revision kind)} {revision sent answer : Revision kind}

/-- A revision that can be the object's. -/
structure Revision.Suits (revision : Revision kind) (object : Object kind) : Prop where
  ns : revision.ns = object.ns
  filed : revision.Filed object.name
  sameType : SameType object revision

theorem Revision.Suits.owned (suits : revision.Suits object) : revision.Owned object.ns object.name :=
  ⟨suits.ns, suits.filed.owned⟩

theorem sameType_stamp (written : Nat) : SameType object (stamp written revision) ↔ SameType object revision := by
  cases kind <;> exact Iff.rfl

theorem Revision.Suits.stamp (suits : revision.Suits object) (written : Nat) :
    (stamp written revision).Suits object := by
  refine ⟨suits.ns, ⟨Revision.labelled_stamp.mpr suits.filed.owned, ?_, ?_, ?_⟩,
    (sameType_stamp written).mpr suits.sameType⟩
  · rw [Revision.customVersion_stamp]
    exact suits.filed.named
  · rw [Revision.customVersion_stamp]
    exact suits.filed.lettered
  · rw [Revision.customVersion_stamp]
    exact suits.filed.filled

theorem Revision.Suits.unlabel (suits : revision.Suits object) {label : String} (other : "name" ≠ label) :
    (revision.unlabel label).Suits object := by
  refine ⟨suits.ns, ⟨Revision.labelled_unlabel.mpr ⟨other, suits.filed.owned⟩, suits.filed.named,
    suits.filed.lettered, suits.filed.filled⟩, ?_⟩
  cases kind <;> exact suits.sameType

theorem Revision.Suits.relabel (suits : revision.Suits object) : Revision.Suits { revision with
    labels := revision.labels.put "current" "true", spec := revision.spec.untracked } object := by
  refine ⟨suits.ns, ⟨?_, suits.filed.named, suits.filed.lettered, suits.filed.filled⟩, ?_⟩
  · have owned : revision.labels.lookup "name" = some object.name := suits.filed.owned
    simp [Revision.Labelled, owned]
  · cases kind <;> exact suits.sameType

theorem suits_newRevision (plain : Plain object.name) (draws : Draws) :
    (newRevision object (randomSequence draws 5)).Suits object := by
  have version := customVersion_newRevision object (randomSequence draws 5)
  refine ⟨rfl, ⟨?_, ?_, ?_, ?_⟩, ?_⟩
  · exact Table.labelled_newRevision.mpr (Or.inr (Or.inr ⟨rfl, rfl⟩))
  · rw [version]
    exact nameValidation_of_plain
      (plain_append.mpr ⟨plain_append.mpr ⟨plain, by decide⟩, plain_randomSequence draws 5⟩)
  · rw [version]
    exact lettered_randomSequence draws 5
  · rw [version]
    exact randomSequence_ne_empty draws 4
  · cases kind with
    | configMap => trivial
    | secret => rfl

/-- Only the object's own revisions have been written since the start, and they suit it. -/
structure Table.Tended (object : Object kind) (start table : Table (Revision kind)) : Prop where
  spares : ∀ revision, ¬ revision.Owned object.ns object.name → (revision ∈ table ↔ revision ∈ start)
  suits : ∀ revision ∈ table, revision.Owned object.ns object.name → revision.Suits object

theorem Table.Tended.write (tended : Table.Tended object start table) (written : table.Written sent answer next)
    (suits : sent.Suits object)
    (holders : ∀ entry ∈ table, key entry = key sent → entry.Owned object.ns object.name) :
    Table.Tended object start next := by
  have answered : answer.Suits object := written.answered ▸ suits.stamp _
  constructor
  · intro revision foreign
    rw [← tended.spares revision foreign, written.members]
    constructor
    · rintro (rfl | ⟨present, _⟩)
      · exact absurd answered.owned foreign
      · exact present
    · exact fun present => Or.inr ⟨present, fun same => foreign (holders revision present same)⟩
  · intro revision present owned
    rcases (written.members revision).mp present with rfl | ⟨was, _⟩
    · exact answered
    · exact tended.suits revision was owned

theorem Table.Tended.rewrite (tended : Table.Tended object start table) (written : table.Written sent answer next)
    (suits : sent.Suits object) (member : revision ∈ table) (same : key sent = key revision)
    (owned : revision.Owned object.ns object.name) : Table.Tended object start next :=
  tended.write written suits fun _ present again => Table.unique present member (again.trans same) ▸ owned

theorem Table.Tended.unlabel (tended : Table.Tended object start table) {label : String} (other : "name" ≠ label)
    (written : table.Written (revision.unlabel label) answer next) (member : revision ∈ table)
    (owned : revision.Owned object.ns object.name) : Table.Tended object start next :=
  tended.rewrite written ((tended.suits revision member owned).unlabel other) member rfl owned

theorem Table.Tended.create (tended : Table.Tended object start table) (plain : Plain object.name) {draws : Draws}
    (written : table.Written (newRevision object (randomSequence draws 5)) answer next)
    (free : ∀ entry ∈ table, key entry ≠ key (newRevision object (randomSequence draws 5))) :
    Table.Tended object start next :=
  tended.write written (suits_newRevision plain draws) fun entry present same => absurd same (free entry present)

end Tended

section Rewritten

variable {before after : Cluster} {object updated : Object kind}

/-- The object has been rewritten, and of the revisions only its own. -/
structure Cluster.Rewritten (before after : Cluster) (object updated : Object kind) : Prop where
  objects : ∀ other, other ≠ kind → after.objects other = before.objects other
  revisions : ∀ other, other ≠ kind → after.revisions other = before.revisions other
  members : ∀ entry, entry ∈ after.objects kind ↔
    entry = updated ∨ entry ∈ before.objects kind ∧ key entry ≠ key object
  same : key updated = key object
  types : ∀ revision : Revision kind, SameType object revision → SameType updated revision
  lettered : Lettered updated.currentVersion
  tended : Table.Tended object (before.revisions kind) (after.revisions kind)

theorem Cluster.Rewritten.orderly (rewritten : before.Rewritten after object updated) (orderly : before.Orderly) :
    after.Orderly := by
  have sameNs : updated.ns = object.ns := congrArg Prod.fst rewritten.same
  have sameName : updated.name = object.name := congrArg Prod.snd rewritten.same
  refine ⟨fun other revision member => ?_, fun other entry member => ?_,
    fun other entry held revision member owned => ?_⟩
  · by_cases own : other = kind
    · subst own
      by_cases owned : revision.Owned object.ns object.name
      · exact ⟨object.name, (rewritten.tended.suits revision member owned).filed⟩
      · exact orderly.filed other revision ((rewritten.tended.spares revision owned).mp member)
    · rw [rewritten.revisions other own] at member
      exact orderly.filed other revision member
  · by_cases own : other = kind
    · subst own
      rcases (rewritten.members entry).mp member with rfl | ⟨was, _⟩
      · exact rewritten.lettered
      · exact orderly.pinned other entry was
    · rw [rewritten.objects other own] at member
      exact orderly.pinned other entry member
  · by_cases own : other = kind
    · subst own
      rcases (rewritten.members entry).mp held with rfl | ⟨was, different⟩
      · rw [sameNs, sameName] at owned
        exact rewritten.types revision (rewritten.tended.suits revision member owned).sameType
      · refine orderly.types other entry was revision ((rewritten.tended.spares revision ?_).mp member) owned
        intro again
        exact different (Prod.ext (owned.1.symm.trans again.1) (owned.unique again.2))
    · rw [rewritten.revisions other own] at member
      rw [rewritten.objects other own] at held
      exact orderly.types other entry held revision member owned

/-- An object stays at rest as long as it and its revisions stay as they are, whatever is
filed elsewhere. -/
theorem AtRest.frame (rest : AtRest before kind ns name True) (orderly : after.Orderly)
    (objects : ∀ object : Object kind, key object = (ns, name) →
      (object ∈ after.objects kind ↔ object ∈ before.objects kind))
    (revisions : ∀ revision : Revision kind, revision.Owned ns name →
      (revision ∈ after.revisions kind ↔ revision ∈ before.revisions kind)) :
    AtRest after kind ns name True := by
  have owns : ∀ {revision : Revision kind}, marked ns name "current" revision = true → revision.Owned ns name := by
    intro revision marks
    obtain ⟨inNs, owned, _⟩ := marked_iff.mp marks
    exact ⟨inNs, owned⟩
  have soles : ∀ current, (after.revisions kind).Sole (marked ns name "current") current ↔
      (before.revisions kind).Sole (marked ns name "current") current := by
    intro current
    constructor
    · rintro ⟨member, marks, only⟩
      exact ⟨(revisions current (owns marks)).mp member, marks, fun other present selected =>
        only other ((revisions other (owns selected)).mpr present) selected⟩
    · rintro ⟨member, marks, only⟩
      exact ⟨(revisions current (owns marks)).mpr member, marks, fun other present selected =>
        only other ((revisions other (owns selected)).mp present) selected⟩
  cases rest with
  | absent missing =>
    refine .absent (Table.find?_eq_none.mpr fun entry member same => ?_)
    exact Table.find?_eq_none.mp missing entry ((objects entry same).mp member) same
  | stuck held same versioned stuck =>
    exact .stuck ((objects _ same).mpr held) same versioned fun current sole => stuck current ((soles current).mp sole)
  | several held same list =>
    have listed : ((after.revisions kind).select (marked ns name "current")).Perm
        ((before.revisions kind).select (marked ns name "current")) := by
      refine (List.perm_ext_iff_of_nodup (Table.nodup_select _ _) (Table.nodup_select _ _)).mpr fun revision => ?_
      rw [Table.mem_select, Table.mem_select]
      exact and_congr_left fun marks => revisions revision (owns marks)
    rw [list] at listed
    have long := listed.length_eq
    rcases found : (after.revisions kind).select (marked ns name "current") with _ | ⟨first, _ | ⟨second, others⟩⟩
    · simp [found] at long
    · simp [found] at long
    · exact .several ((objects _ same).mpr held) same found
  | dangling held same versioned isCurrent other missing =>
    refine .dangling ((objects _ same).mpr held) same versioned ((soles _).mpr isCurrent) other ?_
    refine Table.find?_eq_none.mpr fun entry member named => ?_
    obtain ⟨owner, filed⟩ := orderly.filed kind entry member
    have lettered := orderly.pinned kind _ ((objects _ same).mpr held)
    obtain ⟨rfl, _⟩ := filed.eq_of_named lettered (congrArg Prod.snd named)
    have owned : entry.Owned ns owner := ⟨congrArg Prod.fst named, filed.owned⟩
    exact Table.find?_eq_none.mp missing entry ((revisions entry owned).mp member) named
  | aligned held same versioned isCurrent version agrees =>
    exact .aligned ((objects _ same).mpr held) same versioned ((soles _).mpr isCurrent) version agrees
  | unnumbered unnumbered => exact absurd trivial unnumbered

end Rewritten

section Turn

variable {cluster : Cluster} {object : Object kind} {current : Revision kind}

/-- What the reconcile of an object does to an orderly cluster: it keeps the order, leaves the
object at rest and leaves every other one at rest that was. -/
structure Turned (before after : Cluster) (kind : Kind) (ns name : String) : Prop where
  orderly : after.Orderly
  rest : AtRest after kind ns name True
  others : ∀ other space called, AtRest before other space called True → AtRest after other space called True

theorem turned_still (orderly : cluster.Orderly) (rest : AtRest cluster kind ns name True) :
    Turned cluster cluster kind ns name :=
  ⟨orderly, rest, fun _ _ _ still => still⟩

theorem Cluster.Rewritten.turned {after : Cluster} {updated : Object kind} (orderly : cluster.Orderly)
    (rewritten : cluster.Rewritten after object updated) (rest : AtRest after kind object.ns object.name True) :
    Turned cluster after kind object.ns object.name := by
  have still := rewritten.orderly orderly
  refine ⟨still, rest, fun other space called atRest => ?_⟩
  by_cases own : other = kind
  · subst own
    by_cases same : (space, called) = (object.ns, object.name)
    · obtain ⟨rfl, rfl⟩ := Prod.mk.inj same
      exact rest
    · refine atRest.frame still (fun entry named => ?_) fun revision owned => ?_
      · rw [rewritten.members]
        constructor
        · rintro (rfl | ⟨was, _⟩)
          · exact absurd (named.symm.trans rewritten.same) same
          · exact was
        · exact fun was => Or.inr ⟨was, fun again => same (named.symm.trans again)⟩
      · refine rewritten.tended.spares revision fun again => same (Prod.ext ?_ ?_)
        · exact owned.1.symm.trans again.1
        · exact owned.unique again.2
  · exact atRest.frame still (fun _ _ => by rw [rewritten.objects other own])
      fun _ _ => by rw [rewritten.revisions other own]

theorem sameType_annotate (version called : String) (revision : Revision kind) :
    SameType (object.annotate version called) revision ↔ SameType object revision := by
  cases kind <;> exact Iff.rfl

theorem sameType_restored {restored : Object kind} {target revision : Revision kind}
    (copied : restore? object target = some restored) : SameType restored revision ↔ SameType object revision := by
  cases kind with
  | configMap => exact Iff.rfl
  | secret =>
    have made : target.spec.secretAnnotations ≠ .nil := by
      intro nil
      simp [restore?_secret_nil nil] at copied
    rw [restore?_secret made, Option.some.injEq] at copied
    subst copied
    exact Iff.rfl

theorem rewritten_of_written {after : Cluster} {sent updated : Object kind} {objects : Table (Object kind)}
    {revisions : Table (Revision kind)} (sameObjects : after.objects = Function.update cluster.objects kind objects)
    (sameRevisions : after.revisions = Function.update cluster.revisions kind revisions)
    (written : (cluster.objects kind).Written sent updated objects) (own : key sent = key object)
    (types : ∀ revision : Revision kind, SameType sent revision ↔ SameType object revision)
    (lettered : Lettered sent.currentVersion) (tended : Table.Tended object (cluster.revisions kind) revisions) :
    cluster.Rewritten after object updated where
  objects other different := by rw [sameObjects, Function.update_of_ne different]
  revisions other different := by rw [sameRevisions, Function.update_of_ne different]
  members entry := by rw [sameObjects, Function.update_self, written.members, own]
  same := written.key_eq.trans own
  types revision same := by
    rw [written.answered]
    have sameSent := (types revision).mpr same
    cases kind with
    | configMap => trivial
    | secret => exact sameSent
  lettered := by rwa [written.answered, Object.currentVersion_stamp]
  tended := by rwa [sameRevisions, Function.update_self]

theorem Cluster.Orderly.tended (orderly : cluster.Orderly) (held : object ∈ cluster.objects kind) :
    Table.Tended object (cluster.revisions kind) (cluster.revisions kind) := by
  refine ⟨fun _ _ => Iff.rfl, fun revision member owned => ?_⟩
  obtain ⟨owner, filed⟩ := orderly.filed kind revision member
  obtain rfl := owned.unique filed.owned
  exact ⟨owned.1, filed, orderly.types kind object held revision member owned⟩

theorem content_annotated {updated : Object kind} {objects : Table (Object kind)} {version called : String}
    (held : object ∈ cluster.objects kind)
    (updating : (cluster.objects kind).Written (object.annotate version called) updated objects) :
    updated.content = object.content := by
  have kept : object.content.stored = object.content := Object.stored_content held
  rw [updating.answered]
  exact kept

/-- A new revision, made next to any number of latest ones. -/
theorem createNew_rewritten (orderly : cluster.Orderly) (plain : Plain object.name)
    (held : object ∈ cluster.objects kind)
    (isCurrent : (cluster.revisions kind).Sole (marked object.ns object.name "current") current)
    (unused : cluster.Unused kind object.ns object.name cluster.nextVersion)
    (calm : ((createNew object current).run Cluster.serve cluster).2 ≠ .panicked) :
    ∃ updated, cluster.Rewritten ((createNew object current).run Cluster.serve cluster).1 object updated ∧
      updated.content = object.content := by
  obtain ⟨inNs, owned, _⟩ := marked_iff.mp isCurrent.2.1
  obtain ⟨stripped, noCurrent, strip, stripping⟩ :=
    Table.update_of_current (current.unlabel "current") isCurrent.1 rfl rfl
  have once := (orderly.tended held).unlabel (by decide) stripping isCurrent.1 ⟨inNs, owned⟩
  cases list : noCurrent.select (marked object.ns object.name "latest") with
  | nil => simp [createNew, updateRevision, stripLatest, strip, list] at calm
  | cons latest others =>
    have listed : latest ∈ noCurrent.select (marked object.ns object.name "latest") := by simp [list]
    obtain ⟨member, marks⟩ := Table.mem_select.mp listed
    obtain ⟨inLatest, ownedLatest, _⟩ := marked_iff.mp marks
    obtain ⟨retired, noLatest, retire, retiring⟩ :=
      Table.update_of_current (latest.unlabel "latest") member rfl rfl
    have twice := once.unlabel (by decide) retiring member ⟨inLatest, ownedLatest⟩
    have stems := (stripping.stems isCurrent.1 (stripping.relabelled_unlabel isCurrent.1 (Or.inl rfl))).trans
      (retiring.stems member (retiring.relabelled_unlabel member (Or.inr rfl)))
    have free : ∀ entry ∈ noLatest, key entry ≠ key (newRevision object cluster.nextVersion) := by
      intro entry present
      obtain ⟨old, was, same⟩ := stems.keys entry present
      exact same ▸ unused old was
    obtain ⟨created, withNew, create, creating⟩ := Table.create_of_free free
    by_cases made : object.annotations = .nil
    · simp [createNew, updateRevision, stripLatest, addNew, publish, newCustomResource, strip, list, retire,
        create, Object.annotate?, made, GoMap.assign?] at calm
    have annotate := Object.annotate?_of_ne_nil made cluster.nextVersion created.name
    obtain ⟨updated, objects, update, updating⟩ :=
      Table.update_of_current (object.annotate cluster.nextVersion created.name) held rfl rfl
    have ran : (createNew object current).run Cluster.serve cluster =
        (rollOuts updated cluster.nextVersion).run Cluster.serve
          ((cluster.reseeded.withRevisions kind withNew).withObjects kind objects) := by
      simp [createNew, updateRevision, updateObject, stripLatest, addNew, publish, newCustomResource, rollOuts,
        strip, list, retire, create, annotate, update]
    have same := run_rollOuts updated cluster.nextVersion
      ((cluster.reseeded.withRevisions kind withNew).withObjects kind objects)
    rw [ran]
    refine ⟨updated, rewritten_of_written (by rw [same.objects]; rfl) (by rw [same.revisions]; rfl) updating rfl
      (sameType_annotate _ _) ?_ (twice.create plain creating free), content_annotated held updating⟩
    rw [Object.currentVersion_annotate]
    exact lettered_randomSequence _ _

theorem first_rewritten (orderly : cluster.Orderly) (plain : Plain object.name) (held : object ∈ cluster.objects kind)
    (unversioned : object.currentVersion = "")
    (none : ∀ revision ∈ cluster.revisions kind, marked object.ns object.name "current" revision = false)
    (unused : cluster.Unused kind object.ns object.name cluster.nextVersion) :
    ∃ updated, cluster.Rewritten (cluster.reconcile kind object.ns object.name).1 object updated ∧
      updated.content = object.content := by
  obtain ⟨created, withNew, create, creating⟩ :=
    @Table.create_of_free _ _ _ _ (cluster.revisions kind) (newRevision object cluster.nextVersion) unused
  obtain ⟨updated, objects, update, updating⟩ :=
    Table.update_of_current (object.annotate cluster.nextVersion created.name) held rfl rfl
  rw [Cluster.reconcile_first held unversioned none create update]
  refine ⟨updated, rewritten_of_written rfl rfl updating rfl (sameType_annotate _ _) ?_
    ((orderly.tended held).create plain creating unused), content_annotated held updating⟩
  rw [Object.currentVersion_annotate]
  exact lettered_randomSequence _ _

theorem adopt_rewritten (orderly : cluster.Orderly) (held : object ∈ cluster.objects kind)
    (unversioned : object.currentVersion = "")
    (isCurrent : (cluster.revisions kind).Sole (marked object.ns object.name "current") current)
    (agrees : differs object current = false) :
    ∃ updated, cluster.Rewritten (cluster.reconcile kind object.ns object.name).1 object updated ∧
      updated.content = object.content := by
  obtain ⟨owner, filed⟩ := orderly.filed kind current isCurrent.1
  obtain ⟨updated, objects, update, updating⟩ :=
    Table.update_of_current (object.annotate current.customVersion current.name) held rfl rfl
  rw [Cluster.reconcile_adopt held unversioned isCurrent agrees update]
  refine ⟨updated, rewritten_of_written rfl (Function.update_eq_self _ _).symm updating rfl
    (sameType_annotate _ _) ?_ (orderly.tended held), content_annotated held updating⟩
  rw [Object.currentVersion_annotate]
  exact filed.lettered

section Checkout

variable {target : Revision kind} (checkout : Checkout cluster object current target)
include checkout

theorem checkout_rewritten (orderly : cluster.Orderly) (held : object ∈ cluster.objects kind)
    (owned : target.Owned object.ns object.name) (version : target.customVersion = object.currentVersion) :
    cluster.Rewritten checkout.moved object checkout.updated := by
  have isCurrent := Table.select_eq_singleton.mp checkout.list
  have labelled := checkout.labelled_eq
  obtain ⟨inCurrent, ownedCurrent, _⟩ := marked_iff.mp isCurrent.2.1
  have start := orderly.tended held
  have once : Table.Tended object (cluster.revisions kind) checkout.withTwo := by
    refine start.rewrite checkout.promoting ?_ checkout.target_mem (labelled ▸ rfl) owned
    rw [labelled]
    exact (start.suits target checkout.target_mem owned).relabel
  have still : current ∈ checkout.withTwo := by
    refine checkout.promoting.mem_of_ne isCurrent.1 ?_
    rw [labelled]
    exact checkout.apart version
  refine rewritten_of_written rfl rfl checkout.updating checkout.restoring.key
    (fun _ => sameType_restored checkout.restore) ?_
    (once.unlabel (by decide) checkout.stripping still ⟨inCurrent, ownedCurrent⟩)
  rw [checkout.restoring.current]
  exact orderly.pinned kind object held

theorem checkout_rests (orderly : cluster.Orderly) (held : object ∈ cluster.objects kind)
    (versioned : object.currentVersion ≠ "") (owned : target.Owned object.ns object.name)
    (version : target.customVersion = object.currentVersion) :
    AtRest checkout.moved kind object.ns object.name True := by
  have isCurrent := Table.select_eq_singleton.mp checkout.list
  refine .aligned (by simpa [Checkout.moved] using checkout.updating.mem) checkout.key_updated
    (checkout.currentVersion_updated.trans_ne versioned)
    (by simpa [Checkout.moved] using checkout.sole_promoted isCurrent owned.2 (checkout.apart version)) ?_
    (checkout.agrees held (orderly.types kind object held target checkout.target_mem owned))
  rw [checkout.currentVersion_updated, checkout.customVersion_promoted, version]

end Checkout

theorem createNew_turned (orderly : cluster.Orderly) (plain : Plain object.name)
    (held : object ∈ cluster.objects kind)
    (isCurrent : (cluster.revisions kind).Sole (marked object.ns object.name "current") current)
    (unused : cluster.Unused kind object.ns object.name cluster.nextVersion)
    (calm : ((createNew object current).run Cluster.serve cluster).2 ≠ .panicked) :
    Turned cluster ((createNew object current).run Cluster.serve cluster).1 kind object.ns object.name := by
  obtain ⟨updated, rewritten, _⟩ := createNew_rewritten orderly plain held isCurrent unused calm
  exact rewritten.turned orderly (atRest_createNew held isCurrent unused calm)

/-- An object that names another revision than the current one has been brought to it, or
there is none. -/
theorem moved_turned (orderly : cluster.Orderly) (held : object ∈ cluster.objects kind)
    (versioned : object.currentVersion ≠ "")
    (isCurrent : (cluster.revisions kind).Sole (marked object.ns object.name "current") current)
    (other : current.customVersion ≠ object.currentVersion)
    (calm : (cluster.reconcile kind object.ns object.name).2 ≠ .panicked) :
    Turned cluster (cluster.reconcile kind object.ns object.name).1 kind object.ns object.name := by
  cases find : (cluster.revisions kind).find? (object.ns, object.name ++ "-" ++ object.currentVersion) with
  | none =>
    rw [Cluster.reconcile_missing held versioned isCurrent other find]
    exact turned_still orderly (.dangling held rfl versioned isCurrent other find)
  | some target =>
    obtain ⟨member, named⟩ := Table.find?_eq_some.mp find
    obtain ⟨owner, filed⟩ := orderly.filed kind target member
    obtain ⟨rfl, version⟩ := filed.eq_of_named (orderly.pinned kind object held) (congrArg Prod.snd named)
    have owned : target.Owned object.ns object.name := ⟨congrArg Prod.fst named, filed.owned⟩
    have restorable : Restorable target := by
      by_contra unrestorable
      rw [Cluster.reconcile_unrestorable held versioned isCurrent other find unrestorable] at calm
      exact calm rfl
    obtain ⟨checkout⟩ :=
      Checkout.exists_of_sole held isCurrent other member named version filed.owned restorable
    rw [Cluster.reconcile_checkout held versioned checkout]
    exact (checkout_rewritten checkout orderly held owned version).turned orderly
      (checkout_rests checkout orderly held versioned owned version)

theorem Cluster.reconcile_edited (held : object ∈ cluster.objects kind)
    (isCurrent : (cluster.revisions kind).Sole (marked object.ns object.name "current") current)
    (stays : object.currentVersion = "" ∨ current.customVersion = object.currentVersion)
    (edited : differs object current = true) :
    cluster.reconcile kind object.ns object.name = (createNew object current).run Cluster.serve cluster := by
  have list := Table.select_eq_singleton.mpr isCurrent
  by_cases unversioned : object.currentVersion = ""
  · rw [Cluster.reconcile_unversioned held unversioned]
    simp [adoptOrCreate, listRevisions, list, edited]
  · have version := stays.resolve_left unversioned
    rw [Cluster.reconcile_versioned held unversioned]
    simp [synchronize, listRevisions, list, version, edited]

theorem reconcile_turned (orderly : cluster.Orderly) (plain : Plain name)
    (unused : cluster.Unused kind ns name cluster.nextVersion)
    (calm : (cluster.reconcile kind ns name).2 ≠ .panicked) :
    Turned cluster (cluster.reconcile kind ns name).1 kind ns name := by
  cases found : (cluster.objects kind).find? (ns, name) with
  | none =>
    have still : (cluster.reconcile kind ns name).1 = cluster := by
      simp [Cluster.reconcile, Configurator.reconcile, found]
    rw [still]
    exact turned_still orderly (.absent found)
  | some object =>
    obtain ⟨held, same⟩ := Table.find?_eq_some.mp found
    obtain rfl : object.ns = ns := congrArg Prod.fst same
    obtain rfl : object.name = name := congrArg Prod.snd same
    cases list : (cluster.revisions kind).select (marked object.ns object.name "current") with
    | nil =>
      have none := Table.select_eq_nil.mp list
      by_cases unversioned : object.currentVersion = ""
      · obtain ⟨updated, rewritten, _⟩ := first_rewritten orderly plain held unversioned none unused
        exact rewritten.turned orderly (atRest_first held unversioned none unused)
      · have stuck : ∀ current, ¬ (cluster.revisions kind).Sole (marked object.ns object.name "current") current := by
          intro current sole
          simpa [none current sole.1] using sole.2.1
        rw [Cluster.reconcile_stuck held unversioned stuck]
        exact turned_still orderly (.stuck held rfl unversioned stuck)
    | cons current others =>
      cases others with
      | cons second others =>
        have still : (cluster.reconcile kind object.ns object.name).1 = cluster := by
          by_cases unversioned : object.currentVersion = "" <;>
            simp [Cluster.reconcile, Configurator.reconcile, found, unversioned, adoptOrCreate, synchronize,
              listRevisions, list]
        rw [still]
        exact turned_still orderly (.several held rfl list)
      | nil =>
        have isCurrent := Table.select_eq_singleton.mp list
        by_cases unversioned : object.currentVersion = ""
        · cases edited : differs object current with
          | false =>
            obtain ⟨owner, filed⟩ := orderly.filed kind current isCurrent.1
            obtain ⟨updated, rewritten, _⟩ := adopt_rewritten orderly held unversioned isCurrent edited
            exact rewritten.turned orderly (atRest_adopt held unversioned isCurrent edited fun _ => filed.filled)
          | true =>
            rw [Cluster.reconcile_edited held isCurrent (Or.inl unversioned) edited] at calm ⊢
            exact createNew_turned orderly plain held isCurrent unused calm
        · by_cases version : current.customVersion = object.currentVersion
          · cases edited : differs object current with
            | false =>
              rw [Cluster.reconcile_synced held unversioned isCurrent version.symm edited]
              exact turned_still orderly (.aligned held rfl unversioned isCurrent version.symm edited)
            | true =>
              rw [Cluster.reconcile_edited held isCurrent (Or.inr version) edited] at calm ⊢
              exact createNew_turned orderly plain held isCurrent unused calm
          · exact moved_turned orderly held unversioned isCurrent version calm

end Turn

/-- The work queue serves these objects one after the other, each time with another
generator. No call fails, no reconcile panics, and the version that each would make is new. -/
inductive Pass : Cluster → List (Kind × ObjectKey) → Cluster → Prop where
  | done (cluster : Cluster) : Pass cluster [] cluster
  | serve {cluster last : Cluster} {kind : Kind} {ns name : String} {others : List (Kind × ObjectKey)}
      (draws : Draws) (plain : Plain name)
      (unused : (cluster.drawing draws).Unused kind ns name (cluster.drawing draws).nextVersion)
      (calm : ((cluster.drawing draws).reconcile kind ns name).2 ≠ .panicked)
      (rest : Pass ((cluster.drawing draws).reconcile kind ns name).1 others last) :
      Pass cluster ((kind, ns, name) :: others) last

/-- A reconcile of the object, whatever its generators give, asks for no change and makes none. -/
def Cluster.Quiet (cluster : Cluster) (kind : Kind) (ns name : String) : Prop :=
  ∀ draws, ∀ call ∈ (Configurator.reconcile kind ns name).calls Cluster.serve (cluster.drawing draws),
    ((cluster.drawing draws).serve call).1 = cluster.drawing draws ∧ ¬ call.Writes

section Queue

variable {cluster last : Cluster} {targets : List (Kind × ObjectKey)}

theorem Cluster.Orderly.drawing (orderly : cluster.Orderly) (draws : Draws) : (cluster.drawing draws).Orderly :=
  ⟨orderly.filed, orderly.pinned, orderly.types⟩

theorem AtRest.drawing (rest : AtRest cluster kind ns name True) (orderly : cluster.Orderly) (draws : Draws) :
    AtRest (cluster.drawing draws) kind ns name True :=
  rest.frame (orderly.drawing draws) (fun _ _ => Iff.rfl) fun _ _ => Iff.rfl

theorem AtRest.quiet (rest : AtRest cluster kind ns name True) (orderly : cluster.Orderly) :
    cluster.Quiet kind ns name := by
  intro draws call made
  obtain ⟨still, writes⟩ := (rest.drawing orderly draws).calls call made
  exact ⟨still, fun asks => writes asks trivial⟩

/-- A pass keeps the order, and what is at rest stays so. -/
theorem Pass.keeps (pass : Pass cluster targets last) (orderly : cluster.Orderly) :
    last.Orderly ∧ ∀ kind ns name, AtRest cluster kind ns name True → AtRest last kind ns name True := by
  induction pass with
  | done => exact ⟨orderly, fun _ _ _ rest => rest⟩
  | serve draws plain unused calm _ ih =>
    have turned := reconcile_turned (orderly.drawing draws) plain unused calm
    obtain ⟨still, rests⟩ := ih turned.orderly
    exact ⟨still, fun kind ns name rest => rests kind ns name
      (turned.others kind ns name (rest.drawing orderly draws))⟩

/-- Every object that has been served is at rest in the end. -/
theorem Pass.rests (pass : Pass cluster targets last) (orderly : cluster.Orderly) :
    ∀ target ∈ targets, AtRest last target.1 target.2.1 target.2.2 True := by
  induction pass with
  | done => exact fun _ member => absurd member List.not_mem_nil
  | serve draws plain unused calm rest ih =>
    have turned := reconcile_turned (orderly.drawing draws) plain unused calm
    intro target member
    rcases List.mem_cons.mp member with rfl | later
    · exact (rest.keeps turned.orderly).2 _ _ _ turned.rest
    · exact ih turned.orderly target later

/-- A pass over objects at rest leaves everything as it is. -/
theorem Pass.idle (pass : Pass cluster targets last) (orderly : cluster.Orderly)
    (rests : ∀ target ∈ targets, AtRest cluster target.1 target.2.1 target.2.2 True) :
    last.objects = cluster.objects ∧ last.revisions = cluster.revisions ∧ last.workloads = cluster.workloads := by
  induction pass with
  | done => exact ⟨rfl, rfl, rfl⟩
  | @serve cluster last kind ns name others draws plain unused calm rest ih =>
    have atRest := (rests _ List.mem_cons_self).drawing orderly draws
    have still : ((cluster.drawing draws).reconcile kind ns name).1 = cluster.drawing draws :=
      Program.run_of_calls Cluster.serve _ _ fun call made => (atRest.calls call made).1
    rw [still] at ih
    exact ih (orderly.drawing draws) fun target member =>
      (rests target (List.mem_cons_of_mem _ member)).drawing orderly draws

end Queue

/-- Once the work queue has served every object it is done, whatever the order and whichever
workloads they share: no reconcile asks for another change, and another pass over any of them,
in any order, leaves the cluster as it is. -/
theorem queue_settles {cluster last final : Cluster} {targets again : List (Kind × ObjectKey)}
    (orderly : cluster.Orderly) (pass : Pass cluster targets last) (served : ∀ target ∈ again, target ∈ targets)
    (next : Pass last again final) :
    (∀ target ∈ targets, last.Quiet target.1 target.2.1 target.2.2) ∧
      final.objects = last.objects ∧ final.revisions = last.revisions ∧ final.workloads = last.workloads := by
  obtain ⟨still, _⟩ := pass.keeps orderly
  have rests := pass.rests orderly
  exact ⟨fun target member => (rests target member).quiet still,
    next.idle still fun target member => rests target (served target member)⟩

namespace Sample

theorem sharedWeb_orderly : sharedWeb.Orderly where
  filed kind revision member := by
    cases kind with
    | secret => exact absurd member List.not_mem_nil
    | configMap =>
      rcases List.mem_pair.mp member with rfl | rfl
      · exact ⟨"palette", by decide, by decide, by decide, by decide⟩
      · exact ⟨"settings", by decide, by decide, by decide, by decide⟩
  pinned kind object member := by
    cases kind with
    | secret => exact absurd member List.not_mem_nil
    | configMap => rcases List.mem_pair.mp member with rfl | rfl <;> decide
  types kind object member revision present owned := by
    cases kind with
    | secret => exact absurd member List.not_mem_nil
    | configMap => trivial

theorem calm_of_returned {outcome : Outcome ApiError Unit} (returned : outcome = .returned ()) :
    outcome ≠ .panicked := by
  rw [returned]
  simp

/-- The cluster once `settings` and then `palette` have got their new versions. -/
def settledWeb : Cluster :=
  ((((sharedWeb.drawing drawD).reconcile .configMap "shop" "settings").1.drawing drawE).reconcile
    .configMap "shop" "palette").1

theorem settledWeb_passed : Pass sharedWeb
    [(.configMap, "shop", "settings"), (.configMap, "shop", "palette")] settledWeb :=
  .serve drawD (by decide) (by unfold Cluster.Unused; decide) (calm_of_returned rfl)
    (.serve drawE (by decide) (by unfold Cluster.Unused; decide) (calm_of_returned rfl) (.done _))

/-- Neither ConfigMap has anything left to do, in the other order either. -/
theorem settledWeb_quiet :
    let after := (((settledWeb.drawing drawD).reconcile .configMap "shop" "palette").1.drawing drawE).reconcile
      .configMap "shop" "settings"
    (∀ target ∈ ([(.configMap, "shop", "settings"), (.configMap, "shop", "palette")] : List (Kind × ObjectKey)),
        settledWeb.Quiet target.1 target.2.1 target.2.2) ∧
      after.1.objects = settledWeb.objects ∧ after.1.revisions = settledWeb.revisions ∧
        after.1.workloads = settledWeb.workloads :=
  queue_settles sharedWeb_orderly settledWeb_passed (by decide)
    (.serve drawD (by decide) (by unfold Cluster.Unused; decide) (calm_of_returned rfl)
      (.serve drawE (by decide) (by unfold Cluster.Unused; decide) (calm_of_returned rfl) (.done _)))

end Sample

end Configurator
