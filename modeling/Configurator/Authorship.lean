import Configurator.Ledger

namespace Configurator

open Resource

variable {kind : Kind}

namespace Revision

/-- A revision as the controller makes it: it carries the name of its owner, a generated version,
the name made of both, and no labels or annotations besides. -/
structure Sound (revision : Revision kind) : Prop where
  owned : revision.Labelled "name" revision.spec.owner
  name : revision.name = nameValidation (revision.spec.owner ++ "-" ++ revision.customVersion)
  generated : ∃ draws, revision.customVersion = randomSequence draws 5
  annotations : ∀ key, key ≠ kind.revisionKey → revision.annotations.lookup key = none
  labels : ∀ label value, revision.Labelled label value →
    label = "name" ∨ (label = "current" ∨ label = "latest") ∧ value = "true"

@[simp] theorem owner_keptSpec (revision : Revision kind) :
    (PodWebhook.keptSpec revision).owner = revision.spec.owner := by
  cases kind <;> rfl

theorem Turns.owner_eq {source sent : Revision kind} (turns : source.Turns sent) :
    sent.spec.owner = source.spec.owner := by
  rcases turns.spec with same | same | same <;> simp [same]

theorem Turns.customVersion_eq {source sent : Revision kind} (turns : source.Turns sent) :
    sent.customVersion = source.customVersion := by
  simp [customVersion, turns.annotations]

theorem Sound.stamp {revision : Revision kind} (sound : revision.Sound) (written : Nat) :
    (stamp written revision).Sound where
  owned := labelled_stamp.mpr (by simpa [Resource.stamp] using sound.owned)
  name := by
    rw [customVersion_stamp]
    simpa [Resource.stamp] using sound.name
  generated := by simpa using sound.generated
  annotations key other := by simpa [Resource.stamp] using sound.annotations key other
  labels label value carries := sound.labels label value (labelled_stamp.mp carries)

theorem Sound.turns {source sent : Revision kind} (sound : source.Sound) (turns : source.Turns sent) :
    sent.Sound where
  owned := by
    have same : sent.labels.lookup "name" = source.labels.lookup "name" :=
      (turns.labels "name").resolve_right fun moving => by simp at moving
    rw [turns.owner_eq]
    exact same.trans sound.owned
  name := by
    have names : sent.name = source.name := congrArg Prod.snd turns.key_eq
    rw [names, turns.owner_eq, turns.customVersion_eq]
    exact sound.name
  generated := by
    rw [turns.customVersion_eq]
    exact sound.generated
  annotations key other := by
    rw [turns.annotations]
    exact sound.annotations key other
  labels label value carries := by
    rcases turns.labels label with same | ⟨moving, none | some⟩
    · exact sound.labels label value (same.symm.trans carries)
    · exact absurd (none.symm.trans carries) (by simp)
    · exact Or.inr ⟨moving, Option.some.inj (carries.symm.trans some)⟩

theorem sound_newRevision (object : Object kind) (draws : Draws) :
    (newRevision object (randomSequence draws 5)).Sound where
  owned := Table.labelled_newRevision.mpr (by simp [newRevision])
  name := by
    rw [customVersion_newRevision]
    simp [newRevision]
  generated := ⟨draws, customVersion_newRevision object _⟩
  annotations key other := by
    simp only [newRevision, GoMap.lookup_put, if_neg other]
    rfl
  labels label value carries := by
    rcases Table.labelled_newRevision.mp carries with ⟨rfl, rfl⟩ | ⟨rfl, rfl⟩ | ⟨rfl, _⟩ <;> simp

end Revision

/-- The revision holds what the object holds: its data, a Secret's type, and a Secret's own
annotations except for the one under the key that the pod webhook writes. -/
def Revision.Shows : {kind : Kind} → Revision kind → Object kind → Prop
  | .configMap, ccm, configMap => ccm.spec.data = configMap.content.data ∧
      ccm.spec.binaryData = configMap.content.binaryData
  | .secret, cs, secret => cs.spec.data = secret.content.data ∧ cs.spec.type = secret.content.type ∧
      ∀ label, label ≠ "customConfigMap-name" → cs.spec.secretAnnotations.lookup label =
        if label ∈ trackingKeys then none else secret.annotations.lookup label

namespace Revision

variable {source sent : Revision kind} {object : Object kind}

theorem shows_newRevision (stored : object.content.stored = object.content) (version : String) (written : Nat) :
    (stamp written (newRevision object version)).Shows object := by
  cases kind with
  | configMap =>
    have data : object.content.data.omitEmpty = object.content.data := congrArg ConfigMapContent.data stored
    have binaryData : object.content.binaryData.omitEmpty = object.content.binaryData :=
      congrArg ConfigMapContent.binaryData stored
    exact ⟨data, binaryData⟩
  | secret =>
    have cleared : object.content.stringData = .nil := (congrArg SecretContent.stringData stored).symm
    have data : object.content.data.omitEmpty = object.content.data := by
      have whole := congrArg SecretContent.data stored
      simpa [Content.stored, cleared] using whole
    refine ⟨?_, rfl, fun label other => ?_⟩
    · simp only [stamp, newRevision, newSpec, Spec.stored, cleared, GoMap.mapValues_nil, GoMap.overlay_nil]
      rw [GoMap.overlay_empty, data]
    · simp only [stamp, newRevision, newSpec, Spec.stored, GoMap.lookup_omitEmpty, lookup_untracked]

/-- However a stored revision is changed, it shows what it showed. -/
theorem Shows.turns (shows : source.Shows object) (stored : source.spec.stored = source.spec)
    (turns : source.Turns sent) (written : Nat) : (stamp written sent).Shows object := by
  cases kind with
  | configMap =>
    have same : sent.spec = source.spec := by rcases turns.spec with same | same | same <;> exact same
    have spec : (stamp written sent).spec = source.spec := (congrArg Spec.stored same).trans stored
    simp only [Shows, spec]
    exact shows
  | secret =>
    obtain ⟨data, type, annotations⟩ := shows
    have kept : source.spec.data.omitEmpty = source.spec.data := congrArg CustomSecretSpec.data stored
    have itsData : sent.spec.data = source.spec.data := by
      rcases turns.spec with same | same | same <;> rw [same] <;> rfl
    have itsType : sent.spec.type = source.spec.type := by
      rcases turns.spec with same | same | same <;> rw [same] <;> rfl
    have itsAnnotations : ∀ label, label ≠ "customConfigMap-name" → sent.spec.secretAnnotations.lookup label =
        if label ∈ trackingKeys then none else object.annotations.lookup label := by
      intro label other
      rcases turns.spec with same | same | same
      · rw [same, annotations label other]
      · have own : sent.spec.secretAnnotations = untracked source.spec.secretAnnotations :=
          congrArg CustomSecretSpec.secretAnnotations same
        rw [own, lookup_untracked, annotations label other, ← ite_or]
        simp
      · have own : sent.spec.secretAnnotations =
            untracked (source.spec.secretAnnotations.put "customConfigMap-name" source.name) :=
          congrArg CustomSecretSpec.secretAnnotations same
        rw [own, lookup_untracked, GoMap.lookup_put, if_neg other, annotations label other, ← ite_or]
        simp
    refine ⟨?_, itsType.trans type, fun label other => ?_⟩
    · show sent.spec.data.omitEmpty = _
      rw [itsData, kept, data]
    · show sent.spec.secretAnnotations.omitEmpty.lookup label = _
      rw [GoMap.lookup_omitEmpty, itsAnnotations label other]

end Revision

section Runs

variable {tasks : Nat → Task} {others : Cluster → Cluster → Prop} {start : Cluster}
  {pool : Pool Cluster Call Answer ApiError (Option HttpResponse) Nat}

def AllSound (cluster : Cluster) : Prop :=
  ∀ kind, ∀ revision ∈ cluster.revisions kind, revision.Sound

theorem AllSound.outside {before after : Cluster} (sound : AllSound before) (outside : before.Outsiders after) :
    AllSound after :=
  fun kind revision member => sound kind revision (outside.kept kind revision member)

theorem AllSound.moves {scope : Scope} {known : Known} {before after : Cluster} (sound : AllSound before)
    (moves : before.Moves scope known after) : AllSound after := by
  intro kind revision member
  rcases moves.revision_cases member with was | ⟨source, was, _, sent, turns, same⟩ | ⟨held, draws, _, _, same⟩
  · exact sound kind revision was
  · rw [same]
    exact ((sound kind source was).turns turns).stamp _
  · rw [same]
    exact (Revision.sound_newRevision held draws).stamp _

theorem allSound_of_kept (outsiders : ∀ {before after}, others before after → before.Outsiders after)
    (sound : AllSound start) {diary : Chronicle} (kept : diary.Kept others (Ledger tasks) start) :
    ∀ past, diary.Past past → AllSound past :=
  kept.invariant sound (fun changes sound => sound.outside (outsiders changes))
    fun {diary} _ _ past moves => (past _ diary.past_now).moves moves

/-- In every reachable state a version tells the revisions of an object apart, and each is found
under the name made of both. -/
theorem versions_unique (outsiders : ∀ {before after}, others before after → before.Outsiders after)
    (sound : AllSound start) (run : (everyone tasks others).Reaches (System.idle start) pool) :
    AllSound pool.world ∧ ∀ kind, ∀ one ∈ pool.world.revisions kind, ∀ other ∈ pool.world.revisions kind,
      one.ns = other.ns → one.spec.owner = other.spec.owner → one.customVersion = other.customVersion →
        one = other := by
  obtain ⟨entries, recorded⟩ := run.recorded
  have kept := (conforms_ledger fun changes => (outsiders changes).toAdvances).kept recorded
  have all : AllSound pool.world := allSound_of_kept outsiders sound kept _ (Diary.past_now _)
  refine ⟨all, fun kind one member other present spaces owners versions => ?_⟩
  have names : one.name = other.name := by
    rw [(all kind one member).name, (all kind other present).name, owners, versions]
  exact Table.unique member present (Prod.ext spaces names)

namespace Sample

theorem settingsCCM_sound : (settingsCCM "red" "aaaaa" ["current", "latest"] 1).Sound where
  owned := by decide
  name := by decide
  generated := ⟨fun _ => ⟨0, by decide⟩, by decide⟩
  annotations label other := by
    have made : Kind.revisionKey .configMap = "customConfigMapVersion" := rfl
    rw [made] at other
    simp only [settingsCCM, ccm, GoMap.lookup_put, if_neg other]
    rfl
  labels label value carries := by
    simp only [Revision.Labelled, settingsCCM, ccm, List.foldr, GoMap.lookup_put] at carries
    split_ifs at carries with current latest name
    · exact Or.inr ⟨Or.inl current, (Option.some.inj carries).symm⟩
    · exact Or.inr ⟨Or.inr latest, (Option.some.inj carries).symm⟩
    · exact Or.inl name
    · cases carries

theorem painted_sound : AllSound painted := by
  intro kind revision member
  cases kind with
  | configMap =>
    obtain rfl : revision = settingsCCM "red" "aaaaa" ["current", "latest"] 1 := List.mem_singleton.mp member
    exact settingsCCM_sound
  | secret => exact absurd member (Table.not_mem_empty revision)

theorem reconciled_versions : AllSound reconciled.now ∧ ∀ kind, ∀ one ∈ reconciled.now.revisions kind,
    ∀ other ∈ reconciled.now.revisions kind, one.ns = other.ns → one.spec.owner = other.spec.owner →
      one.customVersion = other.customVersion → one = other := by
  obtain ⟨threads, run⟩ := reconciled_reached Cluster.Outsiders
  exact versions_unique id painted_sound run.unrecorded

end Sample

/-- The revision is a snapshot of its own object in this state. -/
def Revision.Depicts (revision : Revision kind) (object : Object kind) : Prop :=
  key object = (revision.ns, revision.spec.owner) ∧ revision.Shows object

theorem Revision.Depicts.turns {source sent : Revision kind} {object : Object kind} (depicts : source.Depicts object)
    (stored : source.spec.stored = source.spec) (turns : source.Turns sent) (written : Nat) :
    (stamp written sent).Depicts object := by
  refine ⟨?_, depicts.2.turns stored turns written⟩
  have spaces : sent.ns = source.ns := congrArg Prod.fst turns.key_eq
  rw [depicts.1]
  simp [Resource.stamp, spaces, turns.owner_eq]

/-- Each revision of the world shows its own object as it was at an earlier moment, or as it was
before the diary began where the revision is that old. -/
def Authentic (earlier : (kind : Kind) → Object kind → Prop) (diary : Chronicle) (world : Cluster) : Prop :=
  ∀ kind, ∀ revision ∈ world.revisions kind, ∃ object : Object kind,
    (earlier kind object ∨ ∃ past, diary.Past past ∧ object ∈ past.objects kind) ∧ revision.Depicts object

theorem Authentic.write {earlier : (kind : Kind) → Object kind → Prop} {diary : Chronicle} {author : Option Nat}
    {after world : Cluster} (authentic : Authentic earlier diary world) :
    Authentic earlier (diary.write author after) world := by
  intro kind revision member
  obtain ⟨object, origin, depicts⟩ := authentic kind revision member
  refine ⟨object, ?_, depicts⟩
  rcases origin with old | ⟨past, was, present⟩
  · exact Or.inl old
  · exact Or.inr ⟨past, Diary.past_write.mpr (Or.inr was), present⟩

theorem authentic_of_kept (outsiders : ∀ {before after}, others before after → before.Outsiders after)
    {earlier : (kind : Kind) → Object kind → Prop} {diary : Chronicle}
    (first : Authentic earlier (.opened start) start) (kept : diary.Kept others (Ledger tasks) start) :
    ∀ past, diary.Past past → Authentic earlier diary past := by
  refine kept.always Authentic.write first ?_ ?_
  · intro diary after changes authentic kind revision member
    exact authentic.write kind revision ((outsiders changes).kept kind revision member)
  · intro diary party after _ past moves kind revision member
    have before : Authentic earlier (diary.write (some party) after) diary.now := (past _ diary.past_now).write
    rcases moves.revision_cases member with was | ⟨source, was, _, sent, turns, same⟩ | ⟨held, draws, _, read, same⟩
    · exact before kind revision was
    · obtain ⟨object, origin, depicts⟩ := before kind source was
      exact ⟨object, origin, same ▸ depicts.turns (Revision.stored_spec was) turns _⟩
    · obtain ⟨_, once, was, present, _⟩ := read held rfl
      refine ⟨held, Or.inr ⟨once, Diary.past_write.mpr (Or.inr was), present⟩, ?_⟩
      rw [same]
      refine ⟨?_, Revision.shows_newRevision (Object.stored_content present) _ _⟩
      simp [Resource.stamp, newRevision, Resource.key]

/-- In every run each revision is a snapshot of its own object at an earlier moment. -/
theorem snapshots_authentic (outsiders : ∀ {before after}, others before after → before.Outsiders after)
    {earlier : (kind : Kind) → Object kind → Prop} (first : Authentic earlier (.opened start) start)
    {last : Pool Chronicle Call Answer ApiError (Option HttpResponse) Nat}
    (run : (everyone tasks others).recorded.Reaches (System.idle (.opened start)) last) :
    Authentic earlier last.world last.world.now :=
  authentic_of_kept outsiders first ((conforms_ledger fun changes => (outsiders changes).toAdvances).kept run) _
    (Diary.past_now _)

namespace Sample

theorem painted_authentic : Authentic (fun kind object => object ∈ synced.objects kind) (.opened painted) painted := by
  intro kind revision member
  cases kind with
  | configMap =>
    obtain rfl : revision = settingsCCM "red" "aaaaa" ["current", "latest"] 1 := List.mem_singleton.mp member
    exact ⟨settings "red" "aaaaa" 1, Or.inl (List.mem_singleton_self _), rfl, rfl, rfl⟩
  | secret => exact absurd member (Table.not_mem_empty revision)

theorem reconciled_authentic :
    Authentic (fun kind object => object ∈ synced.objects kind) reconciled reconciled.now := by
  obtain ⟨threads, run⟩ := reconciled_reached Cluster.Outsiders
  exact snapshots_authentic id painted_authentic run

end Sample

end Runs

end Configurator
