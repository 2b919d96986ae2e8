import Configurator.Conduct
import Configurator.Marks
import Configurator.Reactions
import Configurator.Sends

namespace Configurator

open Resource

variable {kind : Kind} {ns name version : String}

/-- The version is that of a revision of the object, which is found under its name. -/
def Resolves (cluster : Cluster) (kind : Kind) (ns name version : String) : Prop :=
  ∃ revision ∈ cluster.revisions kind, key revision = (ns, name ++ "-" ++ version) ∧
    revision.spec.owner = name ∧ revision.customVersion = version

/-- A revision is named after its object and its version, and labelled with its object. -/
structure WellNamed (revision : Revision kind) : Prop where
  name_eq : revision.name = revision.spec.owner ++ "-" ++ revision.customVersion
  length_eq : revision.customVersion.toList.length = 5
  labelled : ∀ value, revision.Labelled "name" value → value = revision.spec.owner

/-- Versions of one length tell their objects. -/
theorem dashed_inj {left right first second : String}
    (same : left ++ "-" ++ first = right ++ "-" ++ second)
    (length : first.toList.length = second.toList.length) : left = right ∧ first = second := by
  have letters := congrArg String.toList same
  simp only [String.toList_append] at letters
  obtain ⟨fronts, ends⟩ := List.append_inj' letters length
  exact ⟨String.toList_inj.mp (List.append_cancel_right fronts), String.toList_inj.mp ends⟩

@[simp] theorem Spec.owner_untracked (spec : Spec kind) : spec.untracked.owner = spec.owner := by
  cases kind <;> rfl

namespace WellNamed

variable {revision labelled : Revision kind} {mark : String}

theorem unlabel (named : WellNamed revision) : WellNamed (revision.unlabel mark) where
  name_eq := named.name_eq
  length_eq := named.length_eq
  labelled value carries := named.labelled value (Revision.labelled_unlabel.mp carries).2

theorem label (named : WellNamed revision) (other : mark ≠ "name")
    (put : revision.label? mark = some labelled) : WellNamed labelled := by
  rw [Revision.label?_eq_some put]
  exact ⟨named.name_eq, named.length_eq, fun value carries => named.labelled value (by
    simpa [Revision.Labelled, other.symm] using carries)⟩

theorem untracked (named : WellNamed revision) :
    WellNamed { revision with spec := revision.spec.untracked } where
  name_eq := by
    rw [Spec.owner_untracked]
    exact named.name_eq
  length_eq := named.length_eq
  labelled value carries := by
    rw [Spec.owner_untracked]
    exact named.labelled value carries

theorem stamp (named : WellNamed revision) (written : Nat) : WellNamed (stamp written revision) where
  name_eq := by
    rw [Revision.customVersion_stamp]
    simpa [Resource.stamp] using named.name_eq
  length_eq := by
    rw [Revision.customVersion_stamp]
    exact named.length_eq
  labelled value carries := by
    simpa [Resource.stamp] using named.labelled value (Revision.labelled_stamp.mp carries)

theorem newRevision {object : Object kind} (plain : Plain object.name) (draws : Draws) :
    WellNamed (newRevision object (randomSequence draws 5)) where
  name_eq := by
    rw [customVersion_newRevision]
    simp only [Configurator.newRevision, owner_newSpec]
    refine nameValidation_of_plain (plain_append.mpr ⟨plain_append.mpr ⟨plain, by decide⟩, ?_⟩)
    exact plain_randomSequence draws 5
  length_eq := by
    rw [customVersion_newRevision]
    exact length_randomSequence draws 5
  labelled value carries := by
    have found : some object.name = some value := by
      simpa [Revision.Labelled, Configurator.newRevision] using carries
    simpa [Configurator.newRevision] using (Option.some.inj found).symm

end WellNamed

/-- The object has a plain name, and the version that it names resolves. -/
def Fine (cluster : Cluster) (object : Object kind) : Prop :=
  Plain object.name ∧
    (object.currentVersion = "" ∨ Resolves cluster kind object.ns object.name object.currentVersion)

structure Sound (cluster : Cluster) : Prop where
  revisions : ∀ kind, ∀ revision ∈ cluster.revisions kind, WellNamed revision
  objects : ∀ kind, ∀ object ∈ cluster.objects kind, Fine cluster object

/-- Nothing that resolves stops to. -/
structure Advances (before after : Cluster) : Prop where
  sound : Sound before → Sound after
  resolves : ∀ {kind ns name version}, Sound before → Resolves before kind ns name version →
    Resolves after kind ns name version

theorem Fine.mono {before after : Cluster} {object : Object kind}
    (resolves : ∀ {kind ns name version}, Resolves before kind ns name version →
      Resolves after kind ns name version) (fine : Fine before object) : Fine after object :=
  ⟨fine.1, fine.2.imp_right resolves⟩

namespace Advances

theorem refl (cluster : Cluster) : Advances cluster cluster := ⟨id, fun _ => id⟩

theorem trans {first second third : Cluster} (earlier : Advances first second)
    (later : Advances second third) : Advances first third where
  sound := later.sound ∘ earlier.sound
  resolves sound found := later.resolves (earlier.sound sound) (earlier.resolves sound found)

theorem of_same {before after : Cluster} (objects : after.objects = before.objects)
    (revisions : after.revisions = before.revisions) : Advances before after := by
  have resolves : ∀ {kind ns name version}, Resolves before kind ns name version →
      Resolves after kind ns name version := by
    intro kind ns name version found
    simpa [Resolves, revisions] using found
  exact ⟨fun sound => ⟨revisions ▸ sound.revisions,
    fun kind object member => (sound.objects kind object (objects ▸ member)).mono resolves⟩,
    fun _ => resolves⟩

theorem of_revision {before : Cluster} {sent answer : Revision kind} {table : Table (Revision kind)}
    (named : WellNamed sent) (written : (before.revisions kind).Written sent answer table) :
    Advances before (before.withRevisions kind table) := by
  have renamed : WellNamed answer := written.answered ▸ named.stamp _
  have resolves : ∀ {other ns name version}, Sound before → Resolves before other ns name version →
      Resolves (before.withRevisions kind table) other ns name version := by
    rintro other ns name version sound ⟨revision, member, found, owned, versioned⟩
    by_cases same : other = kind
    · subst same
      by_cases own : key revision = key sent
      · -- The written revision has the name of the old one, and with it object and version.
        have keys : key answer = (ns, name ++ "-" ++ version) :=
          written.key_eq.trans (own.symm.trans found)
        have names : answer.name = name ++ "-" ++ version := congrArg Prod.snd keys
        have length := versioned ▸ (sound.revisions other revision member).length_eq
        obtain ⟨owner, carried⟩ := dashed_inj (renamed.name_eq.symm.trans names)
          (renamed.length_eq.trans length.symm)
        exact ⟨answer, by simpa using written.mem, keys, owner, carried⟩
      · exact ⟨revision, by simpa using written.mem_of_ne member own, found, owned, versioned⟩
    · refine ⟨revision, ?_, found, owned, versioned⟩
      simpa [Cluster.withRevisions, Function.update_of_ne same] using member
  refine ⟨fun sound => ⟨fun other revision member => ?_, fun other object member =>
    (sound.objects other object member).mono (resolves sound)⟩, resolves⟩
  by_cases same : other = kind
  · subst same
    rw [Cluster.withRevisions_revisions] at member
    rcases (written.members revision).mp member with rfl | ⟨was, _⟩
    · exact renamed
    · exact sound.revisions other revision was
  · simp only [Cluster.withRevisions, Function.update_of_ne same] at member
    exact sound.revisions other revision member

theorem of_object {before : Cluster} {sent answer : Object kind} {table : Table (Object kind)}
    (fine : Fine before sent) (written : (before.objects kind).Written sent answer table) :
    Advances before (before.withObjects kind table) := by
  have resolves : ∀ {kind' ns name version}, Resolves before kind' ns name version →
      Resolves (before.withObjects kind table) kind' ns name version := id
  refine ⟨fun sound => ⟨sound.revisions, fun other object member => ?_⟩, fun _ => resolves⟩
  by_cases same : other = kind
  · subst same
    rw [Cluster.withObjects_objects] at member
    rcases (written.members object).mp member with rfl | ⟨was, _⟩
    · rw [written.answered]
      refine ⟨fine.1, ?_⟩
      rw [Object.currentVersion_stamp]
      exact fine.2
    · exact (sound.objects other object was).mono resolves
  · simp only [Cluster.withObjects, Function.update_of_ne same] at member
    exact (sound.objects other object member).mono resolves

end Advances

end Configurator
