import Configurator.Revisions

namespace Configurator

open Resource

variable {kind : Kind}

/-- The selector for the revisions of an object that carry a label. -/
abbrev marked (ns name label : String) (revision : Revision kind) : Bool :=
  revision.matches ns [("name", name), (label, "true")]

theorem marked_iff {ns name label : String} {revision : Revision kind} :
    marked ns name label revision = true ↔
      revision.ns = ns ∧ revision.Labelled "name" name ∧ revision.Labelled label "true" := by
  simp [Revision.matches]

theorem marked_eq_false {ns name label : String} {revision : Revision kind} :
    marked ns name label revision = false ↔
      ¬ (revision.ns = ns ∧ revision.Labelled "name" name ∧ revision.Labelled label "true") := by
  rw [← marked_iff, Bool.not_eq_true]

namespace Revision

/-- The same revision up to its two moving labels and the version it is stored at. -/
structure Relabelled (old new : Revision kind) : Prop where
  ns : new.ns = old.ns
  name : new.name = old.name
  annotations : new.annotations = old.annotations
  spec : new.spec = old.spec
  labels : ∀ label, label ≠ "current" → label ≠ "latest" →
    new.labels.lookup label = old.labels.lookup label

theorem Relabelled.refl (revision : Revision kind) : revision.Relabelled revision :=
  ⟨rfl, rfl, rfl, rfl, fun _ _ _ => rfl⟩

theorem Relabelled.trans {first second third : Revision kind}
    (earlier : first.Relabelled second) (later : second.Relabelled third) :
    first.Relabelled third where
  ns := later.ns.trans earlier.ns
  name := later.name.trans earlier.name
  annotations := later.annotations.trans earlier.annotations
  spec := later.spec.trans earlier.spec
  labels := fun label current latest =>
    (later.labels label current latest).trans (earlier.labels label current latest)

theorem Relabelled.key_eq {old new : Revision kind} (relabelled : old.Relabelled new) :
    key new = key old :=
  Prod.ext relabelled.ns relabelled.name

theorem Relabelled.customVersion_eq {old new : Revision kind} (relabelled : old.Relabelled new) :
    new.customVersion = old.customVersion := by
  rw [customVersion, relabelled.annotations]
  rfl

theorem Relabelled.owned {old new : Revision kind} (relabelled : old.Relabelled new) (name : String) :
    new.Labelled "name" name ↔ old.Labelled "name" name := by
  rw [Labelled, relabelled.labels "name" (by decide) (by decide)]
  rfl

theorem stored_labels {table : Table (Revision kind)} {revision : Revision kind}
    (member : revision ∈ table) : revision.labels.omitEmpty = revision.labels :=
  congrArg Revision.labels (Table.stamp_of_mem member)

theorem stored_annotations {table : Table (Revision kind)} {revision : Revision kind}
    (member : revision ∈ table) : revision.annotations.omitEmpty = revision.annotations :=
  congrArg Revision.annotations (Table.stamp_of_mem member)

theorem stored_spec {table : Table (Revision kind)} {revision : Revision kind}
    (member : revision ∈ table) : revision.spec.stored = revision.spec :=
  congrArg Revision.spec (Table.stamp_of_mem member)

@[simp] theorem key_unlabel (revision : Revision kind) (label : String) :
    key (revision.unlabel label) = key revision := rfl

@[simp] theorem version_unlabel (revision : Revision kind) (label : String) :
    version (revision.unlabel label) = version revision := rfl

theorem labelled_unlabel {revision : Revision kind} {label other value : String} :
    (revision.unlabel label).Labelled other value ↔
      other ≠ label ∧ revision.Labelled other value := by
  simp only [Labelled, unlabel, GoMap.lookup_delete]
  by_cases same : other = label <;> simp [same]

theorem label?_eq_some {revision labelled : Revision kind} {label : String}
    (assigned : revision.label? label = some labelled) :
    labelled = { revision with labels := revision.labels.put label "true" } := by
  cases put : revision.labels.assign? label "true" with
  | none => simp [label?, put] at assigned
  | some labels =>
    rw [GoMap.eq_put_of_assign? put] at put
    simpa [label?, put] using assigned.symm

theorem label?_of_labelled {revision : Revision kind} {other value : String}
    (carries : revision.Labelled other value) (label : String) :
    revision.label? label = some { revision with labels := revision.labels.put label "true" } := by
  simp [label?, GoMap.assign?_eq_some (GoMap.ne_nil_of_lookup carries)]

theorem labelled_stamp {written : Nat} {revision : Revision kind} {label value : String} :
    (stamp written revision).Labelled label value ↔ revision.Labelled label value := by
  simp [Labelled, stamp]

@[simp] theorem customVersion_stamp (written : Nat) (revision : Revision kind) :
    (stamp written revision).customVersion = revision.customVersion := by
  simp [customVersion, stamp]

theorem labelled_put {revision : Revision kind} {label other value : String} (labels : GoMap String)
    (written : Nat) (same : labels = revision.labels.put label "true") :
    (stamp written { revision with labels := labels }).Labelled other value ↔
      if other = label then "true" = value else revision.Labelled other value := by
  subst same
  simp only [Labelled, stamp, GoMap.lookup_omitEmpty, GoMap.lookup_put]
  split <;> simp

end Revision

open Revision

theorem marked_stamp (ns name label : String) (written : Nat) (revision : Revision kind) :
    marked ns name label (stamp written revision) = marked ns name label revision := by
  rw [Bool.eq_iff_iff, marked_iff, marked_iff, labelled_stamp, labelled_stamp]
  rfl

theorem marked_put_latest (ns name : String) (revision : Revision kind) :
    marked ns name "current" { revision with labels := revision.labels.put "latest" "true" } =
      marked ns name "current" revision := by
  rw [Bool.eq_iff_iff, marked_iff, marked_iff]
  simp [Labelled]

theorem marked_unlabel_latest (ns name : String) (revision : Revision kind) :
    marked ns name "current" (revision.unlabel "latest") = marked ns name "current" revision := by
  rw [Bool.eq_iff_iff, marked_iff, marked_iff, labelled_unlabel, labelled_unlabel]
  simp [Revision.unlabel]

namespace Table

variable {table next : Table (Revision kind)} {revision answer : Revision kind}

/-- Every revision of `table` is still there, up to its moving labels. -/
def Keeps (table next : Table (Revision kind)) : Prop :=
  ∀ revision ∈ table, ∃ kept ∈ next, revision.Relabelled kept

theorem Keeps.trans {first second third : Table (Revision kind)} (earlier : first.Keeps second)
    (later : second.Keeps third) : first.Keeps third := by
  intro revision member
  obtain ⟨kept, present, relabelled⟩ := earlier revision member
  obtain ⟨last, stays, again⟩ := later kept present
  exact ⟨last, stays, relabelled.trans again⟩

/-- Every revision of `next` was in `table`, up to its moving labels. -/
def Stems (table next : Table (Revision kind)) : Prop :=
  ∀ revision ∈ next, ∃ old ∈ table, old.Relabelled revision

theorem Stems.refl (table : Table (Revision kind)) : table.Stems table :=
  fun revision member => ⟨revision, member, Relabelled.refl revision⟩

theorem Stems.trans {first second third : Table (Revision kind)} (earlier : first.Stems second)
    (later : second.Stems third) : first.Stems third := by
  intro revision member
  obtain ⟨old, present, relabelled⟩ := later revision member
  obtain ⟨oldest, was, again⟩ := earlier old present
  exact ⟨oldest, was, again.trans relabelled⟩

/-- Every revision of an object is stored under the name made of the object and its
version, and has a version. -/
def Named (table : Table (Revision kind)) (ns name : String) : Prop :=
  ∀ revision ∈ table, revision.ns = ns → revision.Labelled "name" name →
    revision.name = nameValidation (name ++ "-" ++ revision.customVersion) ∧
      revision.customVersion ≠ ""

theorem Stems.keys (stems : table.Stems next) :
    ∀ revision ∈ next, ∃ old ∈ table, key old = key revision := by
  intro revision member
  obtain ⟨old, present, relabelled⟩ := stems revision member
  exact ⟨old, present, relabelled.key_eq.symm⟩

theorem Stems.named {table next : Table (Revision kind)} {ns name : String}
    (stems : table.Stems next) (named : table.Named ns name) : next.Named ns name := by
  intro revision member inNs owned
  obtain ⟨old, present, relabelled⟩ := stems revision member
  rw [relabelled.name, relabelled.customVersion_eq]
  exact named old present (relabelled.ns ▸ inNs) ((relabelled.owned name).mp owned)

/-- A write that changes nothing but the moving labels keeps every revision. -/
theorem Written.keeps {sent : Revision kind} (written : table.Written sent answer next)
    (member : revision ∈ table) (relabelled : revision.Relabelled answer) : table.Keeps next := by
  intro other present
  by_cases same : key other = key sent
  · have equal : other = revision :=
      unique present member (same.trans (written.key_eq.symm.trans relabelled.key_eq))
    exact ⟨answer, written.mem, equal ▸ relabelled⟩
  · exact ⟨other, written.mem_of_ne present same, Relabelled.refl other⟩

theorem Written.stems {sent : Revision kind} (written : table.Written sent answer next)
    (member : revision ∈ table) (relabelled : revision.Relabelled answer) : table.Stems next := by
  intro other present
  rcases (written.members other).mp present with rfl | ⟨old, _⟩
  · exact ⟨revision, member, relabelled⟩
  · exact ⟨other, old, Relabelled.refl other⟩

theorem Written.keeps_of_free {sent : Revision kind} (written : table.Written sent answer next)
    (free : ∀ entry ∈ table, key entry ≠ key sent) : table.Keeps next :=
  fun revision member =>
    ⟨revision, written.mem_of_ne member (free revision member), Relabelled.refl revision⟩

section Unlabel

variable {label : String}

theorem Written.relabelled_unlabel (written : table.Written (revision.unlabel label) answer next)
    (member : revision ∈ table) (moving : label = "current" ∨ label = "latest") :
    revision.Relabelled answer where
  ns := by rw [written.answered]; rfl
  name := by rw [written.answered]; rfl
  annotations := by
    have kept : revision.annotations.omitEmpty = revision.annotations := stored_annotations member
    rw [written.answered]
    exact kept
  spec := by
    have kept : revision.spec.stored = revision.spec := stored_spec member
    rw [written.answered]
    exact kept
  labels := by
    intro other current latest
    have different : other ≠ label := by rcases moving with rfl | rfl <;> assumption
    rw [written.answered]
    simp [stamp, unlabel, different]

theorem Written.labelled_unlabel (written : table.Written (revision.unlabel label) answer next)
    {other value : String} :
    answer.Labelled other value ↔ other ≠ label ∧ revision.Labelled other value := by
  rw [written.answered, labelled_stamp, Revision.labelled_unlabel]

/-- A revision that loses a label is stored at a later version. -/
theorem Written.clock_lt_unlabel (written : table.Written (revision.unlabel label) answer next)
    (member : revision ∈ table) {value : String} (carries : revision.Labelled label value) :
    table.clock < version answer := by
  by_contra aged
  have old : answer ∈ table := written.later.old answer written.mem (Nat.le_of_not_lt aged)
  have equal : answer = revision := unique old member written.key_eq
  rw [← equal, written.labelled_unlabel] at carries
  exact carries.1 rfl

/-- Taking a label away from the one revision that has it leaves none with it. -/
theorem Sole.unlabelled {ns name : String} (sole : table.Sole (marked ns name label) revision)
    (written : table.Written (revision.unlabel label) answer next) :
    ∀ other ∈ next, marked ns name label other = false := by
  intro other member
  rcases (written.members other).mp member with rfl | ⟨present, different⟩
  · rw [marked_eq_false, written.labelled_unlabel, written.labelled_unlabel]
    exact fun carries => carries.2.2.1 rfl
  · rw [← Bool.not_eq_true]
    intro selected
    have same : other = revision := sole.2.2 other present selected
    exact different (by rw [same, key_unlabel])

/-- Taking another label away does not move a label from its one revision. -/
theorem Sole.unlabel_other {ns name kept : String} {holder : Revision kind}
    (sole : table.Sole (marked ns name kept) holder)
    (written : table.Written (revision.unlabel label) answer next) (member : revision ∈ table)
    (moving : label = "current" ∨ label = "latest") (other : kept ≠ label) :
    ∃ after, next.Sole (marked ns name kept) after ∧ holder.Relabelled after ∧
      (holder = revision ∧ after = answer ∨ key holder ≠ key revision ∧ after = holder) := by
  have relabelled := written.relabelled_unlabel member moving
  have named : "name" ≠ label := by rcases moving with rfl | rfl <;> decide
  have same : marked ns name kept answer = marked ns name kept revision := by
    rw [Bool.eq_iff_iff, marked_iff, marked_iff, written.labelled_unlabel, written.labelled_unlabel,
      relabelled.ns]
    simp [named, other]
  obtain ⟨after, moved, which⟩ := sole.rewrite written member rfl same
  refine ⟨after, moved, ?_, which⟩
  rcases which with ⟨rfl, rfl⟩ | ⟨_, rfl⟩
  · exact relabelled
  · exact Relabelled.refl _

end Unlabel

section Label

variable {ns name label : String}

theorem Written.relabelled_label
    (written : table.Written { revision with labels := revision.labels.put label "true" } answer next)
    (member : revision ∈ table) (moving : label = "current" ∨ label = "latest") :
    revision.Relabelled answer where
  ns := by rw [written.answered]; rfl
  name := by rw [written.answered]; rfl
  annotations := by
    have kept : revision.annotations.omitEmpty = revision.annotations := stored_annotations member
    rw [written.answered]
    exact kept
  spec := by
    have kept : revision.spec.stored = revision.spec := stored_spec member
    rw [written.answered]
    exact kept
  labels := by
    intro other current latest
    have different : other ≠ label := by rcases moving with rfl | rfl <;> assumption
    rw [written.answered]
    simp [stamp, different]

/-- Putting a label back on a stored revision when no other revision has it: the
write is accepted, the revision is the only one with the label, and the other label
does not move. -/
theorem exists_label (member : revision ∈ table) (inNs : revision.ns = ns)
    (owned : revision.Labelled "name" name) (moving : label = "current" ∨ label = "latest")
    (none : ∀ other ∈ table, marked ns name label other = false) :
    ∃ labelled answer next, revision.label? label = some labelled ∧
      table.update labelled = .ok (answer, next) ∧ table.Written labelled answer next ∧
      key labelled = key revision ∧ next.Sole (marked ns name label) answer ∧
      revision.Relabelled answer ∧
      ∀ kept, kept ≠ label →
        (∀ holder, table.Sole (marked ns name kept) holder →
          ∃ after, next.Sole (marked ns name kept) after ∧ holder.Relabelled after) ∧
        ((∀ other ∈ table, marked ns name kept other = false) →
          ∀ other ∈ next, marked ns name kept other = false) := by
  have named : label ≠ "name" := by rcases moving with rfl | rfl <;> decide
  obtain ⟨answer, next, updated, written⟩ := update_of_current
    { revision with labels := revision.labels.put label "true" } member rfl rfl
  have carries : ∀ other value, answer.Labelled other value ↔
      if other = label then "true" = value else revision.Labelled other value := by
    intro other value
    rw [written.answered, labelled_put _ _ rfl]
  have relabelled : revision.Relabelled answer := written.relabelled_label member moving
  refine ⟨_, answer, next, label?_of_labelled owned label, updated, written, rfl, ?_, relabelled, ?_⟩
  · refine ⟨written.mem, ?_, ?_⟩
    · rw [marked_iff, carries, carries]
      exact ⟨relabelled.ns.trans inNs, by simpa [Ne.symm named] using owned, by simp⟩
    · intro other present selected
      rcases (written.members other).mp present with equal | ⟨was, _⟩
      · exact equal
      · simp [none other was] at selected
  · intro kept different
    have same : marked ns name kept answer = marked ns name kept revision := by
      rw [Bool.eq_iff_iff, marked_iff, marked_iff, carries, carries, relabelled.ns]
      simp [different, Ne.symm named]
    refine ⟨fun holder sole => ?_, fun nowhere other present => ?_⟩
    · obtain ⟨after, moved, which⟩ := sole.rewrite written member rfl same
      refine ⟨after, moved, ?_⟩
      rcases which with ⟨rfl, rfl⟩ | ⟨_, rfl⟩
      · exact relabelled
      · exact Relabelled.refl _
    · rcases (written.members other).mp present with rfl | ⟨was, _⟩
      · exact same.trans (nowhere revision member)
      · exact nowhere other was

end Label

section New

variable {object : Object kind} {made : String}

theorem labelled_newRevision {label value : String} :
    (newRevision object made).Labelled label value ↔
      (label = "current" ∧ value = "true" ∨ label = "latest" ∧ value = "true" ∨
        label = "name" ∧ value = object.name) := by
  simp only [Labelled, newRevision, GoMap.lookup_put]
  by_cases current : label = "current"
  · subst current
    simp [eq_comm]
  · by_cases latest : label = "latest"
    · subst latest
      simp [eq_comm]
    · by_cases named : label = "name"
      · subst named
        simp [eq_comm]
      · simp [current, latest, named, GoMap.lookup]

theorem Written.customVersion_new (written : table.Written (newRevision object made) answer next) :
    answer.customVersion = made := by
  rw [written.answered]
  simp [customVersion, stamp, newRevision]

theorem Written.named_new {ns name : String}
    (written : table.Written (newRevision object made) answer next)
    (named : table.Named ns name) (filled : made ≠ "") : next.Named ns name := by
  intro revision member inNs owned
  rcases (written.members revision).mp member with rfl | ⟨present, _⟩
  · rw [written.customVersion_new]
    rw [written.answered, labelled_stamp, labelled_newRevision] at owned
    obtain ⟨impossible, _⟩ | ⟨impossible, _⟩ | ⟨_, same⟩ := owned
    · exact absurd impossible (by decide)
    · exact absurd impossible (by decide)
    · refine ⟨?_, filled⟩
      rw [written.answered, same]
      rfl
  · exact named revision present inNs owned

theorem Written.marked_new (written : table.Written (newRevision object made) answer next)
    {label : String} (moving : label = "current" ∨ label = "latest") :
    marked object.ns object.name label answer = true := by
  rw [written.answered, marked_iff, labelled_stamp, labelled_stamp, labelled_newRevision,
    labelled_newRevision]
  refine ⟨rfl, by simp, ?_⟩
  rcases moving with rfl | rfl <;> simp

/-- A new revision takes over a label that no revision of its object has. -/
theorem Written.sole_new (written : table.Written (newRevision object made) answer next)
    {label : String} (moving : label = "current" ∨ label = "latest")
    (none : ∀ other ∈ table, marked object.ns object.name label other = false) :
    next.Sole (marked object.ns object.name label) answer := by
  refine ⟨written.mem, written.marked_new moving, fun other member selected => ?_⟩
  rcases (written.members other).mp member with equal | ⟨present, _⟩
  · exact equal
  · simp [none other present] at selected

end New

end Table

end Configurator
