import Configurator.Checkout
import Configurator.Reconciliation
import Configurator.Resolution

namespace Configurator

open Resource

variable {kind : Kind} {ns name : String} {α : Type}

/-- A user creates an object with a plain name. -/
inductive Creation (brings : ∀ kind, Cluster → Object kind → Prop) : Cluster → Cluster → Prop where
  | mk {cluster : Cluster} {kind : Kind} {object answer : Object kind} {objects : Table (Object kind)}
      (plain : Plain object.name) (meets : brings kind cluster object)
      (accepted : (cluster.objects kind).create object = .ok (answer, objects)) :
      Creation brings cluster (cluster.withObjects kind objects)

/-- The order is one of the entries of the map. -/
def Iterates (order : Iteration) : Prop :=
  ∀ map entry, entry ∈ order map → map.lookup entry.1 = some entry.2

namespace Job

def Stamps : Job → Prop
  | .admission _ order _ => Iterates order
  | .reconcile _ _ _ => True
  | _ => False

/-- The condition on the calls of an admission. -/
def condition (meets : Cluster → Call → Prop) : Job → Cluster → Call → Prop
  | .admission _ _ _ => meets
  | _ => fun _ _ => True

end Job

/-- Admissions and reconciles among the creations of objects. -/
def stamping (jobs : Nat → Job) (meets : Cluster → Call → Prop)
    (brings : ∀ kind, Cluster → Object kind → Prop) :
    System Cluster Call Answer ApiError (List PatchOperation) Nat where
  react party cluster request after answer :=
    cluster.serve request = (after, answer) ∧ (jobs party).condition meets cluster request
  environment := Creation brings
  starts party program := program = (jobs party).program

/-- An object that is updated names a version. -/
def SendsVersion (_ : Cluster) : Call → Prop
  | .updateObject _ sent => sent.currentVersion ≠ ""
  | _ => True

/-- An object is created without a version or with one that resolves. -/
def BringsVersion (kind : Kind) (cluster : Cluster) (object : Object kind) : Prop :=
  object.currentVersion = "" ∨ Resolves cluster kind object.ns object.name object.currentVersion

theorem Creation.advances {before after : Cluster} (creation : Creation BringsVersion before after) :
    Advances before after := by
  cases creation with
  | mk plain meets accepted => exact .of_object ⟨plain, meets⟩ (Table.written_of_create accepted)

/-- The rules by which admissions and reconciles are safe. -/
def advanceRules (meets : Cluster → Call → Prop) : Rules Cluster Call Answer where
  react cluster request after answer := cluster.serve request = (after, answer) ∧ meets cluster request
  rely := Advances
  guarantee before _ after := Advances before after

/-- Everything is sound, and the object that has been read is fine. -/
structure SoundWith (object : Object kind) (cluster : Cluster) : Prop where
  sound : Sound cluster
  fine : Fine cluster object

theorem SoundWith.later {object : Object kind} {before after : Cluster} (advances : Advances before after)
    (holds : SoundWith object before) : SoundWith object after :=
  ⟨advances.sound holds.sound, holds.fine.mono (advances.resolves holds.sound)⟩

theorem SoundWith.of_mem {object : Object kind} {cluster : Cluster} (sound : Sound cluster)
    (member : object ∈ cluster.objects kind) : SoundWith object cluster :=
  ⟨sound, sound.objects kind object member⟩

section Reconcile

variable {meets : Cluster → Call → Prop} {object : Object kind} {cluster : Cluster}

theorem conduct_sound (object : Object kind) :
    Conduct kind (advanceRules meets) (SoundWith object) WellNamed where
  reflexive := Advances.refl
  stable := SoundWith.later
  seeds := by
    rintro before after draws holds ⟨served, _⟩
    obtain ⟨rfl, rfl⟩ := Prod.mk.inj served
    have advances : Advances before before.reseeded := .of_same rfl rfl
    exact ⟨advances, holds.later advances⟩
  gets := by
    rintro before after ns name answer holds ⟨served, _⟩
    obtain ⟨rfl, ⟨error, rfl⟩ | ⟨revision, member, _, rfl⟩⟩ := Cluster.getRevision_cases served
    · exact ⟨.refl after, holds, nofun⟩
    · refine ⟨.refl after, holds, fun found returned => ?_⟩
      obtain rfl := Except.ok.inj returned
      exact holds.sound.revisions kind revision member
  lists := by
    rintro before after ns labels answer holds ⟨served, _⟩
    obtain ⟨rfl, rfl⟩ := Cluster.listRevisions_cases served
    refine ⟨.refl after, holds, fun found returned revision member => ?_⟩
    obtain rfl := Except.ok.inj returned
    exact holds.sound.revisions kind revision (Table.mem_select.mp member).1
  writes := by
    rintro before after sent answer named holds ⟨served, _⟩
    rcases Cluster.updateRevision_cases served with
      ⟨rfl, refusal, _, rfl⟩ | ⟨stored, revisions, accepted, rfl, rfl⟩
    · exact ⟨.refl after, holds, nofun⟩
    · have written := (Table.written_of_update accepted).2
      have advances := Advances.of_revision named written
      refine ⟨advances, holds.later advances, fun found returned => ?_⟩
      obtain rfl := Except.ok.inj returned
      exact written.answered ▸ named.stamp _
  unlabels _ named := named.unlabel
  labels other put named := named.label other put
  untracks named := named.untracked

theorem safe_advance_update {sent : Object kind} {next : Object kind → Client α}
    {post : Cluster → Outcome ApiError α → Prop} (holds : SoundWith sent cluster)
    (fails : ∀ error world, SoundWith sent world → post world (.failed error))
    (continues : ∀ written world, SoundWith sent world → (∃ before, meets before (.updateObject kind sent)) →
      (next (stamp written sent)).Safe (advanceRules meets) post world) :
    (updateObject sent >>= next).Safe (advanceRules meets) post cluster := by
  refine Program.Safe.call (SoundWith sent) SoundWith.later holds ?_
  rintro before after answer holds ⟨served, met⟩
  rcases Cluster.updateObject_cases served with
    ⟨rfl, refusal, _, rfl⟩ | ⟨stored, objects, accepted, rfl, rfl⟩
  · exact ⟨.refl after, fun later advances => fails _ later (holds.later advances)⟩
  · have written := (Table.written_of_update accepted).2
    have advances := Advances.of_object holds.fine written
    refine ⟨advances, ?_⟩
    show (next stored).Safe _ _ _
    rw [written.answered]
    exact continues _ _ (holds.later advances) ⟨before, met⟩

theorem sound_of_rolls {before after : Cluster} {request : Call} {answer : Answer request}
    (rolls : request.Rolls) (reacts : (advanceRules meets).react before request after answer) :
    Advances before after := by
  have same := rolls.serve before
  rw [reacts.1] at same
  exact .of_same same.objects same.revisions

theorem safe_advance_annotate {next : Object kind → Client Unit} (sound : Sound cluster)
    (plain : Plain object.name) {version revision : String}
    (resolves : Resolves cluster kind object.ns object.name version)
    (continues : ∀ updated world, Sound world →
      (next updated).Safe (advanceRules meets) (fun after _ => Sound after) world) :
    (updateObject (object.annotate version revision) >>= next).Safe (advanceRules meets)
      (fun after _ => Sound after) cluster := by
  have fine : Fine cluster (object.annotate version revision) := by
    refine ⟨plain, Or.inr ?_⟩
    rw [Object.currentVersion_annotate]
    exact resolves
  exact safe_advance_update ⟨sound, fine⟩ (fun _ _ => SoundWith.sound)
    fun _ world holds _ => continues _ world holds.sound

/-- A version resolves as soon as its revision has been created. -/
theorem resolves_created {draws : Draws} {created : Revision kind}
    {revisions : Table (Revision kind)} (named : WellNamed (newRevision object (randomSequence draws 5)))
    (written : (cluster.revisions kind).Written (newRevision object (randomSequence draws 5)) created
      revisions) :
    Resolves (cluster.withRevisions kind revisions) kind object.ns object.name
      (randomSequence draws 5) := by
  have owner : (newRevision object (randomSequence draws 5)).spec.owner = object.name :=
    owner_newSpec object
  refine ⟨created, by simpa using written.mem, ?_, ?_, ?_⟩
  · have name_eq := named.name_eq
    rw [customVersion_newRevision, owner] at name_eq
    exact written.key_eq.trans (congrArg (Prod.mk object.ns) name_eq)
  · rw [written.answered]
    simp [stamp, newRevision]
  · rw [written.answered, Revision.customVersion_stamp, customVersion_newRevision]

theorem safe_advance_creation (object : Object kind) :
    SafeCreation (advanceRules meets) (SoundWith object) Sound object := by
  rintro before after draws answer holds ⟨served, _⟩
  have named := WellNamed.newRevision holds.fine.1 draws
  rcases Cluster.createRevision_cases served with
    ⟨rfl, refusal, _, rfl⟩ | ⟨created, revisions, accepted, rfl, rfl⟩
  · exact ⟨.refl after, fun _ _ => holds, nofun⟩
  · have written := Table.written_of_create accepted
    have advances := Advances.of_revision named written
    refine ⟨advances, nofun, fun found returned => ?_⟩
    obtain rfl := Except.ok.inj returned
    have resolves := resolves_created named written
    unfold publish
    cases assigned : object.annotate? (randomSequence draws 5) created.name with
    | none => exact fun later moves => (holds.later (advances.trans moves)).sound
    | some annotated =>
      obtain ⟨_, rfl⟩ := Object.annotate?_eq_some assigned
      refine safe_advance_annotate (advances.sound holds.sound) holds.fine.1 resolves ?_
      intro updated world sound
      exact Program.Safe.of_emits (emits_rollOuts updated _) (fun moves => moves.sound) sound
        (fun _ _ _ _ rolls sound reacts =>
          have moves := sound_of_rolls rolls reacts
          ⟨moves, moves.sound sound⟩)
        fun _ _ => id

theorem safe_advance_copy (object : Object kind) :
    SafeCopy (advanceRules meets) (SoundWith object) WellNamed object := by
  rintro before after revision restored answer _ copied holds ⟨served, _⟩
  have kept := restored_of_restore? copied
  have fine : Fine before restored := by
    have names : restored.name = object.name := congrArg Prod.snd kept.key
    have spaces : restored.ns = object.ns := congrArg Prod.fst kept.key
    rw [Fine, names, spaces, kept.current]
    exact holds.fine
  rcases Cluster.updateObject_cases served with
    ⟨rfl, refusal, _, rfl⟩ | ⟨stored, objects, accepted, rfl, rfl⟩
  · exact ⟨.refl after, holds⟩
  · have advances := Advances.of_object fine (Table.written_of_update accepted).2
    exact ⟨advances, holds.later advances⟩

theorem safe_advance_synchronize (holds : SoundWith object cluster) :
    (synchronize object).Safe (advanceRules meets) (fun after _ => Sound after) cluster :=
  (conduct_sound object).safe_synchronize (fun _ => SoundWith.sound) (safe_advance_copy object)
    (safe_advance_creation object) holds

theorem safe_sound_ret {value : α} (sound : Sound cluster) :
    (Program.ret value : Client α).Safe (advanceRules meets) (fun after _ => Sound after) cluster :=
  fun _ advances => advances.sound sound

/-- A revision that is listed for the object stands for a version that resolves. -/
theorem resolves_listed {labels : List (String × String)} {current : Revision kind}
    (sound : Sound cluster) (listed : current ∈ (cluster.revisions kind).select fun revision =>
      revision.matches ns (("name", name) :: labels)) :
    Resolves cluster kind ns name current.customVersion := by
  obtain ⟨member, matching⟩ := Table.mem_select.mp listed
  simp only [Revision.matches, List.all_cons, Bool.and_eq_true, decide_eq_true_eq] at matching
  have named := sound.revisions kind current member
  have owner := named.labelled name matching.2.1
  refine ⟨current, member, ?_, owner.symm, rfl⟩
  rw [owner, ← named.name_eq, ← matching.1]
  rfl

theorem safe_advance_adoptOrCreate (holds : SoundWith object cluster) :
    (adoptOrCreate object).Safe (advanceRules meets) (fun after _ => Sound after) cluster := by
  have conduct : Conduct kind (advanceRules meets) (SoundWith object) WellNamed := conduct_sound object
  refine Program.Safe.call (SoundWith object) SoundWith.later holds ?_
  rintro before after answer holds ⟨served, _⟩
  obtain ⟨rfl, rfl⟩ := Cluster.listRevisions_cases served
  refine ⟨.refl after, ?_⟩
  have resolves : ∀ current ∈ (after.revisions kind).select fun revision =>
      revision.matches object.ns [("name", object.name), ("current", "true")],
        Resolves after kind object.ns object.name current.customVersion :=
    fun current listed => resolves_listed holds.sound listed
  have named : ∀ current ∈ (after.revisions kind).select fun revision =>
      revision.matches object.ns [("name", object.name), ("current", "true")], WellNamed current :=
    fun current listed => holds.sound.revisions kind current (Table.mem_select.mp listed).1
  revert resolves named
  generalize ((after.revisions kind).select fun revision =>
    revision.matches object.ns [("name", object.name), ("current", "true")]) = listed
  intro resolves named
  rcases listed with _ | ⟨current, _ | ⟨second, others⟩⟩
  · refine Program.Safe.call (SoundWith object) SoundWith.later holds ?_
    rintro before seeded draws holds reacts
    obtain ⟨guaranteed, still⟩ := conduct.seeds holds reacts
    refine ⟨guaranteed, ?_⟩
    refine Program.Safe.call (SoundWith object) SoundWith.later still ?_
    rintro before after answer holds ⟨served, _⟩
    have fresh := WellNamed.newRevision holds.fine.1 draws
    rcases Cluster.createRevision_cases served with
      ⟨rfl, refusal, _, rfl⟩ | ⟨created, revisions, accepted, rfl, rfl⟩
    · exact ⟨.refl after, fun later advances => advances.sound holds.sound⟩
    · have written := Table.written_of_create accepted
      have advances := Advances.of_revision fresh written
      exact ⟨advances, safe_advance_annotate (advances.sound holds.sound) holds.fine.1
        (resolves_created fresh written) fun _ _ sound => safe_sound_ret sound⟩
  · show Program.Safe _ _ (if differs object current = true then _ else _) after
    split
    · exact conduct.safe_createNew (fun _ => SoundWith.sound) (safe_advance_creation object) holds
        (named current (List.mem_singleton_self _))
    · exact safe_advance_annotate holds.sound holds.fine.1
        (resolves current (List.mem_singleton_self _)) fun _ _ sound => safe_sound_ret sound
  · exact safe_sound_ret holds.sound

theorem safe_sound_reconcile (sound : Sound cluster) :
    (reconcile kind ns name).Safe (advanceRules meets) (fun after _ => Sound after) cluster := by
  refine Program.Safe.call Sound Advances.sound sound ?_
  rintro before after answer sound ⟨served, _⟩
  obtain ⟨rfl, ⟨error, rfl⟩ | ⟨object, member, _, rfl⟩⟩ := Cluster.getObject_cases served
  · exact ⟨.refl after, safe_sound_ret sound⟩
  · refine ⟨.refl after, ?_⟩
    have holds := SoundWith.of_mem sound member
    show Program.Safe _ _ (if object.currentVersion = "" then _ else _) after
    split
    · exact safe_advance_adoptOrCreate holds
    · exact safe_advance_synchronize holds

end Reconcile

section Admission

variable {workload : WorkloadKind} {sent : Workload} {cluster : Cluster}

def Stamped (cluster : Cluster) (ns key version : String) : Prop :=
  ∃ kind name, key = Kind.tag kind ++ name ∧ Plain name ∧ Resolves cluster kind ns name version

theorem Stamped.later {before after : Cluster} {key version : String} (advances : Advances before after)
    (sound : Sound before) (stamped : Stamped before ns key version) : Stamped after ns key version := by
  obtain ⟨kind, name, rfl, plain, resolves⟩ := stamped
  exact ⟨kind, name, rfl, plain, advances.resolves sound resolves⟩

/-- Everything is sound, and every annotation that has been added pins a version that
resolves. -/
structure StampedAll (ns : String) (added : GoMap String) (cluster : Cluster) : Prop where
  sound : Sound cluster
  stamped : ∀ key version, added.lookup key = some version → Stamped cluster ns key version

theorem StampedAll.later {added : GoMap String} {before after : Cluster}
    (advances : Advances before after) (all : StampedAll ns added before) :
    StampedAll ns added after :=
  ⟨advances.sound all.sound, fun key version found =>
    (all.stamped key version found).later advances all.sound⟩

def Stamping (ns : String) (cluster : Cluster) (outcome : Outcome ApiError (GoMap String)) : Prop :=
  Sound cluster ∧ ∀ added, outcome = .returned added → StampedAll ns added cluster

theorem Fine.register {object : Object kind} (fine : Fine cluster object) (workload : WorkloadKind)
    (owner : String) : Fine cluster (register workload owner object) := by
  have same := key_register workload owner object
  have names : (Configurator.register workload owner object).name = object.name :=
    congrArg Prod.snd same
  have spaces : (Configurator.register workload owner object).ns = object.ns := congrArg Prod.fst same
  rw [Fine, names, spaces, currentVersion_register]
  exact fine

theorem StampedAll.put {object : Object kind} {added : GoMap String} (all : StampedAll ns added cluster)
    (fine : Fine cluster object) (inNs : object.ns = ns) (versioned : object.currentVersion ≠ "") :
    StampedAll ns (added.put (kind.tag ++ object.name) object.currentVersion) cluster where
  sound := all.sound
  stamped := by
    intro key version found
    rw [GoMap.lookup_put] at found
    split at found
    · rename_i same
      obtain rfl := Option.some.inj found
      exact ⟨kind, object.name, same, fine.1, inNs ▸ fine.2.resolve_left versioned⟩
    · exact all.stamped key version found

/-- The handlers register on objects with a version, so what they stamp resolves. -/
theorem safe_stamp_newAnnotations (references : List (Kind × String)) {added : GoMap String}
    (all : StampedAll sent.ns added cluster) :
    (newAnnotations workload sent references added).Safe (advanceRules SendsVersion)
      (Stamping sent.ns) cluster := by
  induction references generalizing added cluster with
  | nil =>
    intro later advances
    refine ⟨(all.later advances).sound, fun returned same => ?_⟩
    obtain rfl : added = returned := by simpa using same
    exact all.later advances
  | cons reference rest ih =>
    obtain ⟨kind, name⟩ := reference
    unfold newAnnotations
    split
    · have parts : (pin workload sent kind name >>= fun pinned =>
            newAnnotations workload sent rest (added.put pinned.1 pinned.2)) =
          getObject kind sent.ns name >>= fun object =>
            updateObject (register workload sent.name object) >>= fun stored =>
              newAnnotations workload sent rest
                (added.put (kind.tag ++ stored.name) stored.currentVersion) := by
        simp only [pin, bind_assoc, pure_bind]
      show (pin workload sent kind name >>= fun pinned =>
        newAnnotations workload sent rest (added.put pinned.1 pinned.2)).Safe _ _ _
      rw [parts]
      have fails : ∀ {world : Cluster} {error : ApiError}, StampedAll sent.ns added world →
          (Program.fail error : Client (GoMap String)).Safe (advanceRules SendsVersion)
            (Stamping sent.ns) world :=
        fun all _ advances => ⟨advances.sound all.sound, nofun⟩
      refine Program.Safe.call (StampedAll sent.ns added) StampedAll.later all ?_
      rintro before after answer all ⟨served, _⟩
      obtain ⟨rfl, ⟨error, rfl⟩ | ⟨object, member, own, rfl⟩⟩ := Cluster.getObject_cases served
      · exact ⟨.refl after, fails all⟩
      refine ⟨.refl after, ?_⟩
      refine Program.Safe.call (fun world => SoundWith object world ∧ StampedAll sent.ns added world)
        (fun advances holds => ⟨holds.1.later advances, holds.2.later advances⟩)
        ⟨.of_mem all.sound member, all⟩ ?_
      rintro writing written answer ⟨holds, all⟩ ⟨served, versioned⟩
      have same := key_register workload sent.name object
      have current := currentVersion_register workload sent.name object
      have fine := holds.fine.register workload sent.name
      rcases Cluster.updateObject_cases served with
        ⟨rfl, refusal, _, rfl⟩ | ⟨stored, objects, accepted, rfl, rfl⟩
      · exact ⟨.refl written, fails all⟩
      have writes := (Table.written_of_update accepted).2
      have advances := Advances.of_object fine writes
      refine ⟨advances, ?_⟩
      have names : stored.name = object.name := congrArg Prod.snd (writes.key_eq.trans same)
      have versions : stored.currentVersion = object.currentVersion := by
        rw [writes.answered, Object.currentVersion_stamp, current]
      show (newAnnotations workload sent rest
        (added.put (kind.tag ++ stored.name) stored.currentVersion)).Safe _ _ _
      rw [names, versions]
      exact ih ((all.later advances).put (holds.later advances).fine (congrArg Prod.fst own)
        (current ▸ versioned))
    · exact ih all

end Admission

section Patch

/-- The patch puts a value of the handler under an annotation: it replaces the value, or the
annotations are added as a whole. -/
def Puts (patch : List PatchOperation) (key value : String) : Prop :=
  ⟨.replace, annotationPath key, .text value⟩ ∈ patch ∨
    ∃ entries, ⟨.add, annotationsPath, .map entries⟩ ∈ patch ∧ (escapeKey key, value) ∈ entries

theorem annotationPath_inj {left right : String}
    (same : annotationPath left = annotationPath right) : escapeKey left = escapeKey right := by
  simpa [annotationPath] using same

theorem updateAnnotation_cases {operation : PatchOperation} {ts as rs : List (String × String)}
    (member : operation ∈ updateAnnotation ts as rs) :
    (∃ entry ∈ ts, operation = ⟨.add, annotationPath entry.1, .text entry.2⟩) ∨
      (∃ entry ∈ as, operation = ⟨.replace, annotationPath entry.1, .text entry.2⟩) ∨
      (ts = [] ∧ ∃ entry ∈ as, operation = ⟨.add, annotationsPath, .map [(escapeKey entry.1, entry.2)]⟩) ∨
      ∃ entry ∈ rs, operation = ⟨.remove, annotationPath entry.1, .text entry.2⟩ := by
  have replaced : ∀ entries : List (String × String), operation ∈ entries.map (fun entry =>
      ⟨.replace, annotationPath entry.1, .text entry.2⟩) →
        ∃ entry ∈ entries, operation = ⟨.replace, annotationPath entry.1, .text entry.2⟩ := by
    intro entries listed
    obtain ⟨entry, inside, same⟩ := List.mem_map.mp listed
    exact ⟨entry, inside, same.symm⟩
  unfold updateAnnotation at member
  rcases List.mem_append.mp member with front | removed
  · rcases List.mem_append.mp front with kept | new
    · obtain ⟨entry, inside, same⟩ := List.mem_map.mp kept
      exact Or.inl ⟨entry, inside, same.symm⟩
    · right
      split at new
      · rcases List.mem_cons.mp new with whole | later
        · exact Or.inr (Or.inl ⟨rfl, _, List.mem_cons_self, whole⟩)
        · obtain ⟨entry, inside, same⟩ := replaced _ later
          exact Or.inl ⟨entry, List.mem_cons_of_mem _ inside, same⟩
      · exact Or.inl (replaced _ new)
  · obtain ⟨entry, inside, same⟩ := List.mem_map.mp removed
    exact Or.inr (Or.inr (Or.inr ⟨entry, inside, same.symm⟩))

/-- Every value that the patch puts is that of an added annotation. -/
theorem added_of_puts {target added remove : List (String × String)} {key value : String}
    (puts : (Puts <| updateAnnotation target added remove) key value) :
    ∃ entry ∈ added, escapeKey entry.1 = escapeKey key ∧ entry.2 = value := by
  rcases puts with member | ⟨entries, member, listed⟩
  · rcases updateAnnotation_cases member with
      ⟨_, _, same⟩ | ⟨entry, inside, same⟩ | ⟨_, _, _, same⟩ | ⟨_, _, same⟩
    · simp at same
    · simp only [PatchOperation.mk.injEq, PatchValue.text.injEq, true_and] at same
      exact ⟨entry, inside, (annotationPath_inj same.1).symm, same.2.symm⟩
    · simp at same
    · simp at same
  · rcases updateAnnotation_cases member with
      ⟨_, _, same⟩ | ⟨_, _, same⟩ | ⟨_, entry, inside, same⟩ | ⟨_, _, same⟩
    · simp at same
    · simp at same
    · simp only [PatchOperation.mk.injEq, PatchValue.map.injEq, true_and] at same
      rw [same, List.mem_singleton, Prod.mk.injEq] at listed
      exact ⟨entry, inside, listed.1.symm, listed.2.symm⟩
    · simp at same

theorem escapeKey_of_plain {key : String} (plain : '/' ∉ key.toList) : escapeKey key = key := by
  have same : ∀ letters : List Char, '/' ∉ letters →
      letters.flatMap (fun letter => if letter = '/' then ['~', '1'] else [letter]) = letters := by
    intro letters
    induction letters with
    | nil => exact fun _ => rfl
    | cons first rest ih =>
      intro absent
      rw [List.mem_cons, not_or] at absent
      rw [List.flatMap_cons, if_neg (Ne.symm absent.1), ih absent.2, List.singleton_append]
  simp [escapeKey, same _ plain]

theorem escapeKey_pin (kind : Kind) {name : String} (plain : Plain name) :
    escapeKey (kind.tag ++ name) = kind.tag ++ name := by
  refine escapeKey_of_plain fun slash => ?_
  rw [String.toList_append, List.mem_append] at slash
  rcases slash with inTag | inName
  · cases kind <;> exact absurd inTag (by decide)
  · exact absurd (plain '/' inName) (by decide)

theorem pin_ne_control (kind : Kind) (name : String) : kind.tag ++ name ≠ "config-sync-controller" := by
  intro control
  have letters := congrArg String.toList control
  rw [String.toList_append] at letters
  cases kind <;> simp [Kind.tag] at letters

/-- Whatever a handler puts under a pin resolves. -/
theorem resolves_of_puts {cluster : Cluster} {added : GoMap String} {order : Iteration}
    {target remove : List (String × String)} {version : String} (iterates : Iterates order)
    (all : StampedAll ns added cluster) (plain : Plain name)
    (puts : (Puts <| updateAnnotation target
      (order (added.put "config-sync-controller" "configurator")) remove) (kind.tag ++ name) version) :
    Resolves cluster kind ns name version := by
  obtain ⟨entry, member, same, rfl⟩ := added_of_puts puts
  have found := iterates _ entry member
  rw [escapeKey_pin kind plain] at same
  rw [GoMap.lookup_put] at found
  split at found
  · rename_i control
    rw [control, escapeKey_of_plain (by decide)] at same
    exact absurd same.symm (pin_ne_control kind name)
  · obtain ⟨other, otherName, key, plainOther, resolves⟩ := all.stamped _ _ found
    rw [key, escapeKey_pin other plainOther] at same
    obtain ⟨rfl, rfl⟩ := pin_inj same
    exact resolves

end Patch

/-- Every version that a returned patch puts under a pin resolves. -/
def StampsResolve (ns : String) (cluster : Cluster)
    (outcome : Outcome ApiError (List PatchOperation)) : Prop :=
  Sound cluster ∧ ∀ patch, outcome = .returned patch → ∀ kind name version, Plain name →
    Puts patch (Kind.tag kind ++ name) version → Resolves cluster kind ns name version

theorem safe_stamp_createPatch {workload : WorkloadKind} {order : Iteration} {sent : Workload}
    {cluster : Cluster} (iterates : Iterates order) (sound : Sound cluster) :
    (createPatch workload order sent).Safe (advanceRules SendsVersion) (StampsResolve sent.ns)
      cluster := by
  have empty : StampedAll sent.ns (.make ∅) cluster := ⟨sound, nofun⟩
  refine Program.Safe.bind (safe_stamp_newAnnotations _ empty) (fun added world stamping => ?_)
    (fun error world failed => ⟨failed.1, nofun⟩) (fun world panicked => ⟨panicked.1, nofun⟩)
    Advances.refl
  have all := stamping.2 added rfl
  intro later advances
  refine ⟨advances.sound all.sound, ?_⟩
  rintro patch ⟨⟩ kind name version plain puts
  exact resolves_of_puts iterates (all.later advances) plain puts

namespace Job

def leaves : Job → Cluster → Outcome ApiError (List PatchOperation) → Prop
  | .admission _ _ sent => StampsResolve sent.ns
  | _ => fun cluster _ => Sound cluster

theorem safe_stamps {job : Job} {cluster : Cluster} (stamps : job.Stamps) (sound : Sound cluster) :
    job.program.Safe (advanceRules (job.condition SendsVersion)) job.leaves cluster := by
  cases job with
  | admission workload order sent =>
    cases workload <;> exact safe_stamp_createPatch stamps sound
  | reconcile kind ns name =>
    exact Program.Safe.bind (safe_sound_reconcile sound) (fun _ _ sound => safe_sound_ret sound)
      (fun _ _ sound => sound) (fun _ sound => sound) Advances.refl
  | podAdmission | start => exact stamps.elim

end Job

/-- Admissions and reconciles keep everything sound while objects are created. -/
def stampingOutline {jobs : Nat → Job} (stamps : ∀ party, (jobs party).Stamps) :
    (stamping jobs SendsVersion BringsVersion).Outline where
  rely _ := Advances
  guarantee _ before _ after := Advances before after
  ready _ := Sound
  post party := (jobs party).leaves
  reflexive _ := Advances.refl
  transitive _ := Advances.trans
  environment _ _ _ := Creation.advances
  others _ _ _ _ advances := advances
  stable _ := Advances.sound
  safe {party _} begins _ sound := begins ▸ Job.safe_stamps (stamps party) sound
  settles party _ _ leaves := by
    cases job : jobs party <;> rw [job] at leaves
    · exact leaves.1
    all_goals exact leaves

/-- Along every interleaving in which the handlers register workloads only on objects that
name a version and no object is created with a version of which there is no revision,
every version that a handler puts under a pin resolves. -/
theorem stamps_resolve {jobs : Nat → Job} {cluster : Cluster}
    {pool : Pool Cluster Call Answer ApiError (List PatchOperation) Nat} {party : Nat}
    {workload : WorkloadKind} {order : Iteration} {sent : Workload} {patch : List PatchOperation}
    (stamps : ∀ party, (jobs party).Stamps) (sound : Sound cluster)
    (run : (stamping jobs SendsVersion BringsVersion).Reaches (System.idle cluster) pool)
    (job : jobs party = .admission workload order sent)
    (flight : pool.threads party = some (.ret patch)) (kind : Kind) {version : String} (plain : Plain name)
    (puts : Puts patch (kind.tag ++ name) version) :
    Resolves pool.world kind sent.ns name version := by
  let outline := stampingOutline stamps
  have start : outline.Holds (System.idle cluster) := fun _ => sound
  have ended : outline.Fits party pool.world (some (.ret patch)) :=
    flight ▸ System.Outline.reaches start run party
  have leaves : (Job.admission workload order sent).leaves pool.world (.returned patch) :=
    job ▸ ended pool.world (Advances.refl _)
  exact leaves.2 patch rfl kind name version plain puts

namespace Sample

theorem iterates_inOrder (keys : List String) : Iterates (inOrder keys) := by
  intro map entry member
  obtain ⟨key, _, found⟩ := List.mem_filterMap.mp member
  obtain ⟨value, present, rfl⟩ := Option.map_eq_some_iff.mp found
  exact present

theorem sound_synced : Sound synced where
  revisions := by
    rintro (_ | _) revision member
    · obtain rfl : revision = settingsCCM "red" "aaaaa" ["current", "latest"] 1 :=
        List.mem_singleton.mp member
      exact ⟨by decide, by decide, fun value carries => by
        have found : some "settings" = some value := carries
        exact (Option.some.inj found).symm⟩
    · exact absurd member (Table.not_mem_empty _)
  objects := by
    rintro (_ | _) object member
    · obtain rfl : object = settings "red" "aaaaa" 1 := List.mem_singleton.mp member
      exact ⟨by decide, Or.inr ⟨_, List.mem_singleton_self _, by decide, by decide, by decide⟩⟩
    · exact absurd member (Table.not_mem_empty _)

def apiPatch (version : String) : List PatchOperation :=
  [⟨.add, annotationsPath, .map [("ccm-settings", version)]⟩,
    ⟨.replace, annotationPath "config-sync-controller", .text "configurator"⟩]

theorem puts_apiPatch (version : String) : Puts (apiPatch version) "ccm-settings" version :=
  Or.inr ⟨_, List.mem_cons_self, List.mem_singleton.mpr rfl⟩

theorem api_stamp_resolves :
    Resolves ((createDeploymentPatch apiOrder api).after Cluster.serve 2 synced).1 .configMap "shop"
      "settings" "aaaaa" :=
  have stamps : ∀ party, (admitApi party).Stamps := fun _ => iterates_inOrder _
  have started : (stamping admitApi SendsVersion BringsVersion).Reaches (System.idle synced) _ :=
    System.Reaches.started .refl 0 _ rfl rfl
  have versioned : Object.currentVersion (register .deployment "api" (settings "red" "aaaaa" 1)) ≠ "" := by
    decide
  have serves : ∀ world request, SendsVersion world request →
      (stamping admitApi SendsVersion BringsVersion).react 0 world request (world.serve request).1
        (world.serve request).2 := fun _ _ met => ⟨rfl, met⟩
  have run := started.after 0 serves 2 rfl
    (show Program.Meets Cluster.serve SendsVersion 2 (createDeploymentPatch apiOrder api) synced from
      ⟨trivial, versioned, trivial⟩)
  have job : admitApi 0 = .admission .deployment apiOrder api := rfl
  stamps_resolve stamps sound_synced run job (by rfl) .configMap (by decide) (puts_apiPatch "aaaaa")

def vacant : Cluster := shop .empty .empty

theorem sound_vacant : Sound vacant := by
  constructor <;> rintro (_ | _) _ member <;> exact absurd member (Table.not_mem_empty _)

/-- A ConfigMap as a user creates it. -/
def unstamped : Object .configMap where
  ns := "shop"
  name := "settings"
  annotations := .nil
  resourceVersion := 0
  content := (⟨.nil, .nil⟩ : ConfigMapContent)

def withUnversioned : Table (Object .configMap) :=
  ⟨[{ unstamped with resourceVersion := 1 }], 1, by decide, by decide, by decide⟩

/-- A Deployment that is admitted before the first Reconcile of its ConfigMap is stamped
with an empty version, which no revision has. -/
theorem early_stamp_unresolved : ∃ pool patch,
    (stamping admitApi (fun _ _ => True) fun _ _ _ => True).Reaches (System.idle vacant) pool ∧
      Sound vacant ∧ pool.threads 0 = some (.ret patch) ∧ Puts patch "ccm-settings" "" ∧
      ¬ Resolves pool.world .configMap "shop" "settings" "" := by
  have accepted : (vacant.objects .configMap).create unstamped =
      .ok ({ unstamped with resourceVersion := 1 }, withUnversioned) := by rfl
  have created : Creation (fun _ _ _ => True) vacant (vacant.withObjects .configMap withUnversioned) :=
    .mk (by decide) trivial accepted
  have moved : (stamping admitApi (fun _ _ => True) fun _ _ _ => True).Reaches (System.idle vacant) _ :=
    System.Reaches.moved .refl created
  have serves : ∀ world request, (stamping admitApi (fun _ _ => True) fun _ _ _ => True).react 0 world
      request (world.serve request).1 (world.serve request).2 := fun _ _ => ⟨rfl, trivial⟩
  have run := (moved.started 0 _ rfl rfl).calls 0 serves 2 rfl
  refine ⟨_, apiPatch "", run, sound_vacant, rfl, puts_apiPatch "", ?_⟩
  rintro ⟨revision, member, _⟩
  exact absurd member (Table.not_mem_empty _)

end Sample

end Configurator
