import Configurator.Authorship

namespace Configurator

open Resource

variable {kind : Kind}

/-- The data that a ConfigMap or a Secret is there for. -/
def Payload : Kind → Type
  | .configMap => GoMap String × GoMap Bytes
  | .secret => GoMap Bytes

def Content.payload : {kind : Kind} → Content kind → Payload kind
  | .configMap, content => (content.data, content.binaryData)
  | .secret, content => content.data

def Object.payload (object : Object kind) : Payload kind := Content.payload object.content

def Spec.payload : {kind : Kind} → Spec kind → Payload kind
  | .configMap, spec => (spec.data, spec.binaryData)
  | .secret, spec => spec.data

def Revision.payload (revision : Revision kind) : Payload kind := Spec.payload revision.spec

section Payload

variable {source sent : Revision kind} {held : Object kind}

theorem Revision.Turns.payload_eq (turns : source.Turns sent) : sent.payload = source.payload := by
  have same : Spec.payload sent.spec = Spec.payload source.spec := by
    rcases turns.spec with same | same | same <;> rw [same] <;> cases kind <;> rfl
  exact same

theorem Revision.payload_stamp (stored : source.spec.stored = source.spec) (turns : source.Turns sent)
    (written : Nat) : (stamp written sent).payload = source.payload := by
  have kept : Spec.payload sent.spec.stored = Spec.payload source.spec.stored := by
    have same := turns.payload_eq
    cases kind with
    | configMap =>
      obtain ⟨data, binaryData⟩ := Prod.mk.inj same
      exact Prod.ext (congrArg GoMap.omitEmpty data) (congrArg GoMap.omitEmpty binaryData)
    | secret => exact congrArg GoMap.omitEmpty same
  rw [stored] at kept
  exact kept

theorem payload_newRevision (stored : held.content.stored = held.content) (version : String) (written : Nat) :
    (stamp written (newRevision held version)).payload = held.payload := by
  have shows := Revision.shows_newRevision stored version written
  cases kind with
  | configMap => exact Prod.ext shows.1 shows.2
  | secret => exact shows.1

theorem Object.payload_stamp {sent : Object kind} (stored : held.content.stored = held.content)
    (same : sent.content = held.content) (written : Nat) : (stamp written sent).payload = held.payload := by
  have kept : (stamp written sent).content = held.content := by
    rw [← stored, ← same]
    rfl
  exact congrArg Content.payload kept

theorem Object.payload_restored {sent : Object kind} {revision : Revision kind}
    (cleared : held.content.stored = held.content) (stored : revision.spec.stored = revision.spec)
    (copied : restore? held revision = some sent ∨ PodWebhook.restore? held revision = some sent) (written : Nat) :
    (stamp written sent).payload = revision.payload := by
  cases kind with
  | configMap =>
    have content : sent.content =
        ({ data := revision.spec.data, binaryData := revision.spec.binaryData } : ConfigMapContent) := by
      rcases copied with copied | copied
      · simp only [restore?, Option.some.injEq] at copied
        rw [← copied]
      · by_cases made : held.annotations = .nil
        · simp [PodWebhook.restore?, made, GoMap.assign?] at copied
        · rw [PodWebhook.restore?_configMap made, Option.some.injEq] at copied
          rw [← copied]
    have data : revision.spec.data.omitEmpty = revision.spec.data := congrArg CustomConfigMapSpec.data stored
    have binaryData : revision.spec.binaryData.omitEmpty = revision.spec.binaryData :=
      congrArg CustomConfigMapSpec.binaryData stored
    refine Prod.ext ?_ ?_
    · show sent.content.data.omitEmpty = revision.spec.data
      rw [content, data]
    · show sent.content.binaryData.omitEmpty = revision.spec.binaryData
      rw [content, binaryData]
  | secret =>
    have content : sent.content = ({ held.content with data := revision.spec.data } : SecretContent) := by
      by_cases nil : revision.spec.secretAnnotations = .nil
      · rcases copied with copied | copied
        · simp [restore?_secret_nil nil] at copied
        · simp [PodWebhook.restore?_secret_nil nil] at copied
      · rcases copied with copied | copied
        · rw [restore?_secret nil, Option.some.injEq] at copied
          rw [← copied]
        · rw [PodWebhook.restore?_secret nil, Option.some.injEq] at copied
          rw [← copied]
    have none : held.content.stringData = .nil := (congrArg SecretContent.stringData cleared).symm
    have data : revision.spec.data.omitEmpty = revision.spec.data := congrArg CustomSecretSpec.data stored
    show (GoMap.overlay (sent.content.stringData.mapValues fun text => text.toUTF8.toList)
      sent.content.data).omitEmpty = revision.spec.data
    rw [content]
    simp only [none, GoMap.mapValues_nil, GoMap.overlay_nil, data]

end Payload

/-- The data of an object that a task writes is the data that was there, or that of a revision which was
looked up under the name of the object and a version. -/
theorem Object.Turns.payload_cases {scope : Scope} {diary : Chronicle} {held sent : Object kind}
    (present : held ∈ diary.now.objects kind) (turns : held.Turns scope diary.truths sent) (written : Nat) :
    (stamp written sent).payload = held.payload ∨ ∃ (revision : Revision kind) (version : String),
      Chronicle.Once diary (fun cluster => cluster.revisions kind) revision ∧
      key revision = (held.ns, held.name ++ "-" ++ version) ∧
      (version = held.currentVersion ∨ scope.pins version) ∧
      (stamp written sent).payload = revision.payload := by
  have stored : held.content.stored = held.content := Object.stored_content present
  cases turns with
  | published | adopted => exact Or.inl (Object.payload_stamp stored rfl written)
  | registered workload owner =>
    refine Or.inl (Object.payload_stamp stored ?_ written)
    dsimp only [register]
    split_ifs <;> rfl
  | introduced workload owner =>
    refine Or.inl (Object.payload_stamp stored ?_ written)
    dsimp only [Init.introduce, Init.enlist]
    split_ifs <;> rfl
  | @restored revision sent exchange copied =>
    obtain ⟨keys, once⟩ := exchange revision rfl
    have spec : revision.spec.stored = revision.spec := once.elim fun _ was => Revision.stored_spec was.2.1
    exact Or.inr ⟨revision, _, once, keys, Or.inl rfl, Object.payload_restored stored spec (Or.inl copied) written⟩
  | @rolledBack pinned annotations revision sent pins assigned exchange copied =>
    obtain ⟨keys, once⟩ := exchange revision rfl
    have spec : revision.spec.stored = revision.spec := once.elim fun _ was => Revision.stored_spec was.2.1
    have cleared : ({ held with annotations := annotations } : Object kind).content.stored = held.content := stored
    exact Or.inr ⟨revision, pinned, once, keys, Or.inr pins,
      Object.payload_restored cleared spec (Or.inr copied) written⟩

/-- Somebody other than the tasks gave the object of this name these data, or the diary began
with them, in the object or in one of its revisions. -/
inductive Authored (start : Cluster) (diary : Chronicle) (kind : Kind) (ns name : String) (payload : Payload kind) :
    Prop where
  | began {object : Object kind} (member : object ∈ start.objects kind) (same : key object = (ns, name))
      (holds : object.payload = payload)
  | revised {revision : Revision kind} (member : revision ∈ start.revisions kind) (spaces : revision.ns = ns)
      (owns : revision.spec.owner = name) (holds : revision.payload = payload)
  | wrote {entry : Entry Cluster Nat} {object : Object kind} (member : entry ∈ diary.entries)
      (outside : entry.author = none) (after : object ∈ entry.after.objects kind)
      (before : object ∉ entry.before.objects kind) (same : key object = (ns, name)) (holds : object.payload = payload)

theorem Authored.write {start after : Cluster} {diary : Chronicle} {ns name : String} {payload : Payload kind}
    {author : Option Nat} (authored : Authored start diary kind ns name payload) :
    Authored start (diary.write author after) kind ns name payload := by
  cases authored with
  | began member same holds => exact .began member same holds
  | revised member spaces owns holds => exact .revised member spaces owns holds
  | wrote member outside after before same holds =>
    exact .wrote (List.mem_cons_of_mem _ member) outside after before same holds

/-- Every datum of the world was written under a name akin to the one under which it stands. -/
structure Traceable (kin : String → String → Prop) (start : Cluster) (diary : Chronicle) (world : Cluster) :
    Prop where
  objects : ∀ kind, ∀ object ∈ world.objects kind, ∃ name, kin name object.name ∧
    Authored start diary kind object.ns name object.payload
  revisions : ∀ kind, ∀ revision ∈ world.revisions kind, ∃ name, kin name revision.spec.owner ∧
    Authored start diary kind revision.ns name revision.payload

section Traces

variable {tasks : Nat → Task} {others : Cluster → Cluster → Prop} {start : Cluster}
  {kin : String → String → Prop} {diary : Chronicle}

theorem Traceable.write {author : Option Nat} {after world : Cluster} (traceable : Traceable kin start diary world) :
    Traceable kin start (diary.write author after) world where
  objects kind object member := by
    obtain ⟨name, akin, authored⟩ := traceable.objects kind object member
    exact ⟨name, akin, authored.write⟩
  revisions kind revision member := by
    obtain ⟨name, akin, authored⟩ := traceable.revisions kind revision member
    exact ⟨name, akin, authored.write⟩

theorem Traceable.opened (reflexive : ∀ name, kin name name) : Traceable kin start (.opened start) start where
  objects _ object member := ⟨object.name, reflexive _, .began member rfl rfl⟩
  revisions _ revision member := ⟨revision.spec.owner, reflexive _, .revised member rfl rfl rfl⟩

theorem Traceable.outside {after : Cluster} (reflexive : ∀ name, kin name name)
    (changes : diary.now.Outsiders after) (traceable : Traceable kin start diary diary.now) :
    Traceable kin start (diary.write none after) after := by
  have before : Traceable kin start (diary.write none after) diary.now := traceable.write
  refine ⟨fun kind object member => ?_, fun kind revision member => ?_⟩
  · by_cases was : object ∈ diary.now.objects kind
    · exact before.objects kind object was
    · exact ⟨object.name, reflexive _, .wrote List.mem_cons_self rfl member was rfl rfl⟩
  · exact before.revisions kind revision (changes.kept kind revision member)

section Moves

variable {scope : Scope} {after : Cluster} (moves : diary.now.Moves scope diary.truths after)
  (past : ∀ world, diary.Past world → Traceable kin start diary world)
include moves past

/-- An object that a task writes keeps its data, or it gets those of a revision that it has looked up. -/
theorem Traceable.object_moved (transitive : ∀ {one two three}, kin one two → kin two three → kin one three)
    (finds : ∀ {kind : Kind} {held : Object kind} {revision : Revision kind} {version : String},
      held ∈ diary.now.objects kind → Chronicle.Once diary (fun cluster => cluster.revisions kind) revision →
        key revision = (held.ns, held.name ++ "-" ++ version) →
          version = held.currentVersion ∨ scope.pins version → kin revision.spec.owner held.name)
    {object : Object kind} (member : object ∈ after.objects kind) :
    ∃ name, kin name object.name ∧ Authored start diary kind object.ns name object.payload := by
  have now := past _ diary.past_now
  rcases moves.object_cases member with was | ⟨held, was, _, sent, turns, same⟩
  · exact now.objects kind object was
  · obtain ⟨spaces, names⟩ := Prod.mk.inj turns.key_eq
    have place : object.ns = held.ns ∧ object.name = held.name := by
      rw [same]
      exact ⟨spaces, names⟩
    rw [place.1, place.2]
    rcases turns.payload_cases was (version object) with data | ⟨revision, pinned, once, keys, named, data⟩
    · rw [← same] at data
      rw [data]
      exact now.objects kind held was
    · rw [← same] at data
      rw [data]
      have akin := finds was once keys named
      obtain ⟨world, earlier, member, _⟩ := once
      obtain ⟨name, related, authored⟩ := (past world earlier).revisions kind revision member
      refine ⟨name, transitive related akin, ?_⟩
      rw [← (Prod.mk.inj keys).1]
      exact authored

/-- A revision that a task writes keeps its data, or it gets those of its object. -/
theorem Traceable.revision_moved {revision : Revision kind} (member : revision ∈ after.revisions kind) :
    ∃ name, kin name revision.spec.owner ∧ Authored start diary kind revision.ns name revision.payload := by
  have now := past _ diary.past_now
  rcases moves.revision_cases member with was | ⟨source, was, _, sent, turns, same⟩ | ⟨held, draws, _, read, same⟩
  · exact now.revisions kind revision was
  · have place : revision.ns = source.ns := by
      rw [same]
      exact congrArg Prod.fst turns.key_eq
    have owner : revision.spec.owner = source.spec.owner := by
      rw [same]
      simp [Resource.stamp, turns.owner_eq]
    have data : revision.payload = source.payload := by
      rw [same]
      exact Revision.payload_stamp (Revision.stored_spec was) turns _
    rw [place, owner, data]
    exact now.revisions kind source was
  · obtain ⟨_, world, earlier, present, _⟩ := read held rfl
    have place : revision.ns = held.ns := by
      rw [same]
      rfl
    have owner : revision.spec.owner = held.name := by
      rw [same]
      simp [Resource.stamp, newRevision]
    have data : revision.payload = held.payload := by
      rw [same]
      exact payload_newRevision (Object.stored_content present) _ _
    rw [place, owner, data]
    exact (past world earlier).objects kind held present

end Moves

/-- Where a look-up only finds revisions of kindred objects, every datum can be traced. -/
theorem traceable_of_kept (outsiders : ∀ {before after}, others before after → before.Outsiders after)
    (reflexive : ∀ name, kin name name) (transitive : ∀ {one two three}, kin one two → kin two three → kin one three)
    (finds : ∀ {diary : Chronicle} {party : Nat} {kind : Kind} {held : Object kind} {revision : Revision kind}
      {version : String}, diary.Kept others (Ledger tasks) start → held ∈ diary.now.objects kind →
      Chronicle.Once diary (fun cluster => cluster.revisions kind) revision →
      key revision = (held.ns, held.name ++ "-" ++ version) →
      version = held.currentVersion ∨ (tasks party).scope.pins version → kin revision.spec.owner held.name)
    (kept : diary.Kept others (Ledger tasks) start) : ∀ past, diary.Past past → Traceable kin start diary past := by
  refine kept.always Traceable.write (.opened reflexive) ?_ ?_
  · exact fun changes traceable => traceable.outside reflexive (outsiders changes)
  · intro diary party after kept past moves
    have moved : Traceable kin start diary after :=
      { objects := fun _ _ member => Traceable.object_moved moves past transitive (finds kept) member
        revisions := fun _ _ member => Traceable.revision_moved moves past member }
    exact moved.write

/-- Whatever interleaves with whatever, the data of every ConfigMap and Secret was written by a user
into an object of the same kind and namespace. -/
theorem data_authored (outsiders : ∀ {before after}, others before after → before.Outsiders after)
    {last : Pool Chronicle Call Answer ApiError (Option HttpResponse) Nat}
    (run : (everyone tasks others).recorded.Reaches (System.idle (.opened start)) last) {object : Object kind}
    (member : object ∈ last.world.now.objects kind) :
    ∃ name, Authored start last.world kind object.ns name object.payload := by
  have traceable : Traceable (fun _ _ => True) start last.world last.world.now :=
    traceable_of_kept outsiders (fun _ => trivial) (fun _ _ => trivial) (fun _ _ _ _ _ => trivial)
      ((conforms_ledger fun changes => (outsiders changes).toAdvances).kept run) _ (Diary.past_now _)
  obtain ⟨name, _, authored⟩ := traceable.objects kind object member
  exact ⟨name, authored⟩

namespace Sample

theorem reconciled_authored : ∃ object ∈ reconciled.now.objects .configMap, object.currentVersion = "bbbbb" ∧
    ∃ name, Authored painted reconciled .configMap object.ns name object.payload := by
  obtain ⟨threads, run⟩ := reconciled_reached Cluster.Outsiders
  have member : settings "blue" "bbbbb" 3 ∈ reconciled.now.objects .configMap := List.mem_singleton_self _
  exact ⟨_, member, by decide, data_authored id run member⟩

end Sample

end Traces

section Versions

variable {scope : Scope} {diary : Chronicle} {held sent : Object kind}

/-- A version that a task puts in force is the one of a revision that it has just created for the object,
that it has found labelled current for it, or that it has looked up under the name of both. -/
theorem Object.Turns.version_cases (turns : held.Turns scope diary.truths sent) :
    sent.currentVersion = held.currentVersion ∨
    (∃ created written, Chronicle.Once diary (fun cluster => cluster.revisions kind) created ∧
      created = stamp written (newRevision held sent.currentVersion)) ∨
    (∃ current : Revision kind, Chronicle.Once diary (fun cluster => cluster.revisions kind) current ∧
      current.ns = held.ns ∧ current.Labelled "name" held.name ∧ sent.currentVersion = current.customVersion) ∨
    ∃ revision : Revision kind, Chronicle.Once diary (fun cluster => cluster.revisions kind) revision ∧
      key revision = (held.ns, held.name ++ "-" ++ sent.currentVersion) ∧ scope.pins sent.currentVersion := by
  cases turns with
  | @published version created exchange =>
    obtain ⟨stamped, once⟩ := exchange created rfl
    exact Or.inr (Or.inl ⟨created, _, once, by simpa using stamped⟩)
  | @adopted listed current exchange member =>
    obtain ⟨selected, once⟩ := exchange listed rfl current member
    obtain ⟨spaces, named, _⟩ := marked_iff.mp selected
    exact Or.inr (Or.inr (Or.inl ⟨current, once, spaces, named, by simp⟩))
  | registered workload owner => exact Or.inl (currentVersion_register workload owner held)
  | @introduced version created workload owner exchange =>
    obtain ⟨stamped, once⟩ := exchange created rfl
    refine Or.inr (Or.inl ⟨created, Resource.version created, once, ?_⟩)
    rw [Object.currentVersion_introduce]
    exact stamped
  | restored exchange copied => exact Or.inl (restored_of_restore? copied).current
  | @rolledBack pinned annotations revision sent pins assigned exchange copied =>
    have same : sent.currentVersion = pinned := by
      rw [(PodWebhook.restored_of_restore? copied).current, GoMap.eq_put_of_assign? assigned]
      simp [Object.currentVersion]
    obtain ⟨keys, once⟩ := exchange revision rfl
    exact Or.inr (Or.inr (Or.inr ⟨revision, once, same ▸ keys, same ▸ pins⟩))

end Versions

/-- The name of a sound revision is a plain one. -/
theorem Revision.Sound.plain {revision : Revision kind} (sound : revision.Sound) : Plain revision.name :=
  sound.name ▸ plain_nameValidation _

/-- A sound revision that carries the name of an object belongs to it. -/
theorem Revision.Sound.owner_eq {revision : Revision kind} (sound : revision.Sound) {name : String}
    (named : revision.Labelled "name" name) : revision.spec.owner = name :=
  Option.some.inj (sound.owned.symm.trans named)

section Honest

variable {tasks : Nat → Task} {others : Cluster → Cluster → Prop} {start : Cluster} {diary : Chronicle}

/-- When a task makes an object name another version, a revision of that version has been stored before,
under the name that the code gives it. -/
theorem versions_honest (outsiders : ∀ {before after}, others before after → before.Outsiders after)
    (sound : AllSound start) {last : Pool Chronicle Call Answer ApiError (Option HttpResponse) Nat}
    (run : (everyone tasks others).recorded.Reaches (System.idle (.opened start)) last)
    {entry : Entry Cluster Nat} {recent older : List (Entry Cluster Nat)}
    (written : last.world.entries = recent ++ entry :: older) (inside : entry.author ≠ none)
    {object : Object kind} (present : object ∈ entry.after.objects kind) :
    (∃ old ∈ entry.before.objects kind, key old = key object ∧ old.currentVersion = object.currentVersion) ∨
    ∃ past, (entry.onto older).Past past ∧ ∃ revision ∈ past.revisions kind, revision.ns = object.ns ∧
      revision.name = nameValidation (object.name ++ "-" ++ object.currentVersion) := by
  have kept := (conforms_ledger fun changes => (outsiders changes).toAdvances).kept run
  obtain ⟨its, follows⟩ := kept.entry written
  obtain ⟨author, before, after⟩ := entry
  cases author with
  | none => exact absurd rfl inside
  | some party =>
    have moves : before.Moves (tasks party).scope (Chronicle.truths ⟨before, older⟩) after := follows
    rcases moves.object_cases present with was | ⟨held, was, _, sent, turns, stamped⟩
    · exact Or.inl ⟨object, was, rfl, rfl⟩
    · have keys : key object = key held := by
        rw [stamped, key_stamp, turns.key_eq]
      obtain ⟨spaces, names⟩ := Prod.mk.inj keys
      have version : object.currentVersion = sent.currentVersion := by
        rw [stamped, Object.currentVersion_stamp]
      have found : ∀ revision : Revision kind,
          Chronicle.Once ⟨before, older⟩ (fun cluster => cluster.revisions kind) revision →
          revision.ns = held.ns → (revision.Sound → revision.name =
            nameValidation (held.name ++ "-" ++ sent.currentVersion)) →
          ∃ past, Diary.Past ⟨before, older⟩ past ∧ ∃ revision ∈ past.revisions kind, revision.ns = object.ns ∧
            revision.name = nameValidation (object.name ++ "-" ++ object.currentVersion) := by
        rintro revision ⟨past, was, member, _⟩ place name
        refine ⟨past, was, revision, member, place.trans spaces.symm, ?_⟩
        rw [names, version]
        exact name (allSound_of_kept outsiders sound its past was kind revision member)
      rcases turns.version_cases with kept | ⟨created, written, once, made⟩ |
        ⟨current, once, place, named, versions⟩ | ⟨revision, once, itsKey, _⟩
      · exact Or.inl ⟨held, was, keys.symm, kept.symm.trans version.symm⟩
      · refine Or.inr (found created once (by rw [made]; rfl) fun _ => ?_)
        rw [made]
        rfl
      · refine Or.inr (found current once place fun sound => ?_)
        rw [sound.name, sound.owner_eq named, versions]
      · obtain ⟨place, name⟩ := Prod.mk.inj itsKey
        refine Or.inr (found revision once place fun sound => ?_)
        rw [← name, nameValidation_of_plain sound.plain]

namespace Sample

/-- The last call of the reconcile, which puts the new version in force. -/
def renamed : Entry Cluster Nat := reconciled.entries.head (by decide)

theorem renamed_written : reconciled.entries = [] ++ renamed :: reconciled.entries.tail :=
  (List.cons_head_tail _).symm

theorem renamed_honest : ∃ past, (renamed.onto reconciled.entries.tail).Past past ∧
    ∃ revision ∈ past.revisions .configMap,
      revision.ns = "shop" ∧ revision.name = nameValidation ("settings" ++ "-" ++ "bbbbb") := by
  obtain ⟨threads, run⟩ := reconciled_reached Cluster.Outsiders
  have present : settings "blue" "bbbbb" 3 ∈ renamed.after.objects .configMap := List.mem_singleton_self _
  have old : ¬ ∃ old ∈ renamed.before.objects .configMap, key old = key (settings "blue" "bbbbb" 3) ∧
      old.currentVersion = "bbbbb" := by decide
  have inside : renamed.author ≠ none := by decide
  exact (versions_honest id painted_sound run renamed_written inside present).resolve_left old

end Sample

structure Orderly (cluster : Cluster) : Prop where
  objects : ∀ kind, ∀ object ∈ cluster.objects kind, Plain object.name ∧ '-' ∉ object.currentVersion.toList
  revisions : ∀ kind, ∀ revision ∈ cluster.revisions kind, revision.Sound ∧ Plain revision.spec.owner

theorem Revision.Sound.undashed {revision : Revision kind} (sound : revision.Sound) :
    '-' ∉ revision.customVersion.toList := by
  obtain ⟨draws, generated⟩ := sound.generated
  exact generated ▸ dash_notMem_randomSequence draws 5

/-- A move of a task that pins no version with a dash keeps an orderly world so. -/
theorem Orderly.moves {scope : Scope} {after : Cluster} (pins : ∀ version, scope.pins version → '-' ∉ version.toList)
    (past : ∀ world, diary.Past world → Orderly world) (moves : diary.now.Moves scope diary.truths after) :
    Orderly after := by
  have orderly := past _ diary.past_now
  refine ⟨fun kind object member => ?_, fun kind revision member => ?_⟩
  · rcases moves.object_cases member with was | ⟨held, was, _, sent, turns, stamped⟩
    · exact orderly.objects kind object was
    · obtain ⟨plain, undashed⟩ := orderly.objects kind held was
      have name : object.name = held.name := by
        rw [stamped]
        exact congrArg Prod.snd turns.key_eq
      have version : object.currentVersion = sent.currentVersion := by
        rw [stamped, Object.currentVersion_stamp]
      refine ⟨name ▸ plain, ?_⟩
      rw [version]
      rcases turns.version_cases with kept | ⟨created, written, ⟨world, was, stands, _⟩, made⟩ |
        ⟨current, ⟨world, was, stands, _⟩, _, _, versions⟩ | ⟨revision, _, _, pinned⟩
      · exact kept ▸ undashed
      · have own := ((past world was).revisions kind created stands).1.undashed
        rwa [made, Revision.customVersion_stamp, customVersion_newRevision] at own
      · exact versions ▸ ((past world was).revisions kind current stands).1.undashed
      · exact pins _ pinned
  · rcases moves.revision_cases member with was | ⟨source, was, _, sent, turns, same⟩ | ⟨held, draws, _, read, same⟩
    · exact orderly.revisions kind revision was
    · obtain ⟨sound, plain⟩ := orderly.revisions kind source was
      have owner : revision.spec.owner = source.spec.owner := by
        rw [same]
        simp [Resource.stamp, turns.owner_eq]
      exact ⟨same ▸ (sound.turns turns).stamp _, owner ▸ plain⟩
    · obtain ⟨_, world, was, stands, _⟩ := read held rfl
      have owner : revision.spec.owner = held.name := by
        rw [same]
        simp [Resource.stamp, newRevision]
      exact ⟨same ▸ (Revision.sound_newRevision held draws).stamp _,
        owner ▸ ((past world was).objects kind held stands).1⟩

theorem orderly_of_kept (tidy : ∀ {before after}, others before after → Orderly before → Orderly after)
    (pins : ∀ party version, (tasks party).scope.pins version → '-' ∉ version.toList) (first : Orderly start)
    (kept : diary.Kept others (Ledger tasks) start) : ∀ past, diary.Past past → Orderly past :=
  kept.invariant first tidy fun past moves => Orderly.moves (pins _) past moves

/-- Among plain names and versions without a dash no object ever gets the data of another one. -/
theorem data_own (outsiders : ∀ {before after}, others before after → before.Outsiders after)
    (tidy : ∀ {before after}, others before after → Orderly before → Orderly after)
    (pins : ∀ party version, (tasks party).scope.pins version → '-' ∉ version.toList) (first : Orderly start)
    {last : Pool Chronicle Call Answer ApiError (Option HttpResponse) Nat}
    (run : (everyone tasks others).recorded.Reaches (System.idle (.opened start)) last) {object : Object kind}
    (member : object ∈ last.world.now.objects kind) :
    Authored start last.world kind object.ns object.name object.payload := by
  have kept := (conforms_ledger fun changes => (outsiders changes).toAdvances).kept run
  have traceable : Traceable Eq start last.world last.world.now := by
    refine traceable_of_kept outsiders (fun _ => rfl) Eq.trans ?_ kept _ (Diary.past_now _)
    intro diary party kind held revision version kept present once keys named
    obtain ⟨world, was, stands, _⟩ := once
    have orderly := orderly_of_kept tidy pins first kept
    obtain ⟨itsSound, owner⟩ := (orderly world was).revisions kind revision stands
    have undashed : '-' ∉ version.toList := by
      rcases named with rfl | pinned
      · exact ((orderly _ diary.past_now).objects kind held present).2
      · exact pins party version pinned
    have plain : Plain (revision.spec.owner ++ "-" ++ revision.customVersion) := by
      obtain ⟨draws, generated⟩ := itsSound.generated
      rw [generated]
      exact plain_append.mpr ⟨plain_append.mpr ⟨owner, by decide⟩, plain_randomSequence draws 5⟩
    have names : revision.spec.owner ++ "-" ++ revision.customVersion = held.name ++ "-" ++ version := by
      rw [← (Prod.mk.inj keys).2, itsSound.name, nameValidation_of_plain plain]
    exact dashed_inj_of_absent itsSound.undashed undashed names
  obtain ⟨name, rfl, authored⟩ := traceable.objects kind object member
  exact authored

namespace Sample

theorem painted_orderly : Orderly painted := by
  refine ⟨fun kind object member => ?_, fun kind revision member => ?_⟩
  · cases kind with
    | configMap =>
      obtain rfl : object = settings "blue" "aaaaa" 2 := List.mem_singleton.mp member
      exact ⟨by decide, by decide⟩
    | secret => exact absurd member (Table.not_mem_empty object)
  · cases kind with
    | configMap =>
      obtain rfl : revision = settingsCCM "red" "aaaaa" ["current", "latest"] 1 := List.mem_singleton.mp member
      exact ⟨settingsCCM_sound, by decide⟩
    | secret => exact absurd member (Table.not_mem_empty revision)

theorem reconciled_own : ∃ object ∈ reconciled.now.objects .configMap, object.currentVersion = "bbbbb" ∧
    Authored painted reconciled .configMap object.ns object.name object.payload := by
  obtain ⟨threads, run⟩ := reconciled_reached fun before after =>
    before.Outsiders after ∧ (Orderly before → Orderly after)
  have member : settings "blue" "bbbbb" 3 ∈ reconciled.now.objects .configMap := List.mem_singleton_self _
  exact ⟨_, member, by decide, data_own And.left And.right (fun _ _ => False.elim) painted_orderly run member⟩

end Sample

end Honest

end Configurator
