import Configurator.PodValidation
import Configurator.Reconciler

/-! The name under which a revision is stored and the one under which the reconcilers and the pod webhook
look it up again. They are built apart from each other, and only the first is validated. -/
namespace Configurator

variable {kind : Kind}

/-- A label of a DNS-1123 subdomain. -/
structure DnsLabel (label : String) : Prop where
  plain : Plain label
  filled : label ≠ ""
  starts : label.toList.head? ≠ some '-'
  ends : label.toList.getLast? ≠ some '-'

instance (label : String) : Decidable (DnsLabel label) :=
  decidable_of_iff (Plain label ∧ label ≠ "" ∧ label.toList.head? ≠ some '-' ∧ label.toList.getLast? ≠ some '-')
    ⟨fun ⟨plain, filled, starts, ends⟩ => ⟨plain, filled, starts, ends⟩,
      fun valid => ⟨valid.plain, valid.filled, valid.starts, valid.ends⟩⟩

/-- A DNS-1123 subdomain: labels joined by dots. -/
def Subdomain (name : String) : Prop := ∀ label ∈ split name '.', DnsLabel label

instance (name : String) : Decidable (Subdomain name) :=
  inferInstanceAs (Decidable (∀ label ∈ split name '.', DnsLabel label))

/-- The only character of a subdomain that `NameValidation` replaces is the dot. -/
theorem Subdomain.plain_iff {name : String} (valid : Subdomain name) : Plain name ↔ '.' ∉ name.toList := by
  constructor
  · intro plain dot
    exact absurd (plain '.' dot) (by decide)
  · intro absent
    have whole := split_of_absent absent
    exact (valid name (by simp [whole])).plain

def AsksFirst {α : Type} (program : Client α) (request : Call) : Prop :=
  ∃ next, program = .call request next

/-- The reconciler and the webhook ask for the revision, given the object that names its version. -/
structure FindsAgain (later : Object kind) (revision : Revision kind) : Prop where
  controller : AsksFirst (Configurator.copyRevision later) (.getRevision kind revision.ns revision.name)
  webhook : AsksFirst (PodWebhook.copyRevision later) (.getRevision kind revision.ns revision.name)

theorem asksFirst_getRevision {α : Type} {ns asked wanted : String} {next : Revision kind → Client α} :
    AsksFirst (getRevision kind ns asked >>= next) (.getRevision kind ns wanted) ↔ asked = wanted := by
  constructor
  · intro asks
    obtain ⟨rest, same⟩ := asks
    have calls : Call.getRevision kind ns asked = .getRevision kind ns wanted := by
      injection same
    injection calls
  · intro same
    subst same
    exact ⟨_, rfl⟩

/-- A revision is found again exactly if its object has a plain name. -/
theorem findsAgain_iff {object later : Object kind} {draws : Draws} (same : Resource.key later = Resource.key object)
    (names : later.currentVersion = randomSequence draws 5) :
    FindsAgain later (newRevision object (randomSequence draws 5)) ↔ Plain object.name := by
  obtain ⟨spaces, equal⟩ := Prod.mk.inj same
  have stored : nameValidation (object.name ++ "-" ++ randomSequence draws 5) =
      object.name ++ "-" ++ randomSequence draws 5 ↔ Plain object.name := by
    rw [nameValidation_eq_self, plain_append, plain_append]
    constructor
    · intro plain
      exact plain.1.1
    · intro plain
      exact ⟨⟨plain, by decide⟩, plain_randomSequence draws 5⟩
  rw [← stored]
  have space : (newRevision object (randomSequence draws 5)).ns = later.ns := spaces.symm
  constructor
  · intro finds
    have asks := finds.controller
    rw [space] at asks
    have asked := asksFirst_getRevision.mp asks
    rw [equal, names] at asked
    exact asked.symm
  · intro validated
    have asked : later.name ++ "-" ++ later.currentVersion =
        (newRevision object (randomSequence draws 5)).name := by
      rw [equal, names]
      exact validated.symm
    constructor
    · rw [space]
      exact asksFirst_getRevision.mpr asked
    · rw [space]
      exact asksFirst_getRevision.mpr asked

theorem revisionName_inj {one other : Object kind} {first second : Draws} (plain : Plain one.name)
    (apart : Plain other.name)
    (same : (newRevision one (randomSequence first 5)).name = (newRevision other (randomSequence second 5)).name) :
    one.name = other.name ∧ randomSequence first 5 = randomSequence second 5 := by
  have validated : ∀ {name : String} {draws : Draws}, Plain name →
      nameValidation (name ++ "-" ++ randomSequence draws 5) = name ++ "-" ++ randomSequence draws 5 := by
    intro name draws plain
    apply nameValidation_of_plain
    exact plain_append.mpr ⟨plain_append.mpr ⟨plain, by decide⟩, plain_randomSequence draws 5⟩
  have joined : one.name ++ "-" ++ randomSequence first 5 = other.name ++ "-" ++ randomSequence second 5 := by
    rw [← validated plain, ← validated apart]
    exact same
  have names : one.name = other.name := dashed_inj_of_absent (dash_notMem_randomSequence first 5)
    (dash_notMem_randomSequence second 5) joined
  rw [names] at joined
  exact ⟨names, String.toList_inj.mp (by simpa using congrArg String.toList joined)⟩

/-- Among objects with valid names every revision is found again under every version, and no two revisions
share a name, exactly if no name has a dot. -/
theorem revisions_found_iff {names : Set String} (valid : ∀ name ∈ names, Subdomain name) :
    ((∀ (kind : Kind) (object later : Object kind) (draws : Draws), object.name ∈ names →
        Resource.key later = Resource.key object → later.currentVersion = randomSequence draws 5 →
          FindsAgain later (newRevision object (randomSequence draws 5))) ∧
      ∀ (kind : Kind) (one other : Object kind) (first second : Draws), one.name ∈ names → other.name ∈ names →
        (newRevision one (randomSequence first 5)).name = (newRevision other (randomSequence second 5)).name →
          one.name = other.name ∧ randomSequence first 5 = randomSequence second 5) ↔
      ∀ name ∈ names, '.' ∉ name.toList := by
  have plain : ∀ {name : String}, name ∈ names → (Plain name ↔ '.' ∉ name.toList) :=
    fun member => (valid _ member).plain_iff
  constructor
  · intro ⟨finds, _⟩ name member
    let draws : Draws := fun _ => ⟨0, by decide⟩
    let object : Object .configMap := { Object.empty .configMap with name := name }
    have found := finds .configMap object (object.naming (randomSequence draws 5)) draws member rfl
      (object.currentVersion_naming _)
    exact (plain member).mp ((findsAgain_iff rfl (object.currentVersion_naming _)).mp found)
  · intro undotted
    constructor
    · intro kind object later draws member same named
      exact (findsAgain_iff same named).mpr ((plain member).mpr (undotted object.name member))
    · intro kind one other first second member present same
      exact revisionName_inj ((plain member).mpr (undotted one.name member))
        ((plain present).mpr (undotted other.name present)) same

namespace Sample

def sameLetters : Draws := fun _ => ⟨0, by decide⟩

def called (name : String) : Object .configMap := { Object.empty .configMap with name := name }

theorem called_settings_found : FindsAgain ((called "settings").naming "aaaaa")
    (newRevision (called "settings") "aaaaa") := by
  have valid : ∀ name ∈ ({"settings"} : Set String), Subdomain name := by
    intro name member
    rw [Set.mem_singleton_iff.mp member]
    decide
  have undotted : ∀ name ∈ ({"settings"} : Set String), '.' ∉ name.toList := by
    intro name member
    rw [Set.mem_singleton_iff.mp member]
    decide
  exact ((revisions_found_iff valid).mpr undotted).1 .configMap (called "settings") _ sameLetters rfl rfl
    (Object.currentVersion_naming _ _)

/-- The revision of `my.settings` is stored under another name than the one asked for, and under that of a
revision of `myssettings`. -/
theorem called_dotted_lost : Subdomain "my.settings" ∧ Subdomain "myssettings" ∧
    ¬ FindsAgain ((called "my.settings").naming "aaaaa") (newRevision (called "my.settings") "aaaaa") ∧
    (newRevision (called "my.settings") "aaaaa").name = (newRevision (called "myssettings") "aaaaa").name := by
  refine ⟨by decide, by decide, fun finds => ?_, by decide⟩
  have version : randomSequence sameLetters 5 = "aaaaa" := rfl
  rw [← version] at finds
  have plain : Plain "my.settings" := (findsAgain_iff rfl (Object.currentVersion_naming _ _)).mp finds
  exact absurd plain (by decide)

end Sample

end Configurator
