import Configurator.Reconciliation

namespace Configurator

open Resource

/-- The Secret has the data and the own annotations of an earlier one and keeps what the
controller tracks. -/
structure BroughtBack (secret later restored : Object .secret) : Prop where
  data : restored.content.data = secret.content.data.omitEmpty
  own : ∀ key, key ∉ trackingKeys → restored.annotations.lookup key = secret.annotations.lookup key
  registered : ∀ workload, restored.registered workload = later.registered workload
  method : restored.annotations.index "updateMethod" = later.annotations.index "updateMethod"

/-- `CopyCSToSecret` completes and brings the earlier Secret back. -/
def BringsBack (cluster : Cluster) (secret later : Object .secret) : Prop :=
  ∃ after, (SecretReconciler.copyCSToSecret later).run Cluster.serve cluster = (after, .returned ()) ∧
    ∃ restored ∈ after.objects .secret, key restored = key later ∧ BroughtBack secret later restored

/-- The Secret has an annotation that is not one of the controller's. -/
def HasOwnEntry (secret : Object .secret) : Prop :=
  ∃ key, key ∉ trackingKeys ∧ secret.annotations.lookup key ≠ none

/-- A stored snapshot, up to its moving labels. -/
structure SnapshotOf (secret : Object .secret) (version : String) (cs : Revision .secret) : Prop where
  keys : key cs = (secret.ns, nameValidation (secret.name ++ "-" ++ version))
  owned : cs.Labelled "name" secret.name
  data : secret.content.stringData = .nil → cs.spec.data = secret.content.data.omitEmpty
  annotations : cs.spec.secretAnnotations = (untracked secret.annotations).omitEmpty

theorem snapshotOf_newCustomSecret {origin : Cluster} {secret : Object .secret} {sent cs : Revision .secret}
    {version : String} {written : Nat}
    (made : ((newCustomSecret secret).run Cluster.serve origin).2 = .returned (sent, version))
    (kept : (stamp written sent).Relabelled cs) : SnapshotOf secret version cs := by
  obtain ⟨rfl, rfl⟩ : newRevision secret origin.nextVersion = sent ∧ origin.nextVersion = version := by
    simpa [newCustomSecret, newCustomResource] using made
  refine ⟨kept.key_eq, (kept.owned secret.name).mpr ?_, fun read => ?_, ?_⟩
  · rw [Revision.labelled_stamp, Table.labelled_newRevision]
    simp
  · rw [kept.spec]
    simp only [stamp, newRevision, newSpec, Spec.stored, read, GoMap.mapValues_nil, GoMap.overlay_nil]
    exact GoMap.overlay_empty secret.content.data
  · rw [kept.spec]
    rfl

/-- The snapshot keeps a map of annotations exactly if there is one to keep. -/
theorem SnapshotOf.restorable_iff {secret : Object .secret} {version : String} {cs : Revision .secret}
    (snapshot : SnapshotOf secret version cs) : Restorable cs ↔ HasOwnEntry secret := by
  show cs.spec.secretAnnotations ≠ .nil ↔ _
  rw [snapshot.annotations, GoMap.omitEmpty_ne_nil, ← Bool.not_eq_true, GoMap.isEmpty_iff]
  simp only [lookup_untracked, HasOwnEntry]
  constructor
  · intro some
    by_contra none
    refine some fun key => ?_
    split
    · rfl
    · rename_i outside
      by_contra found
      exact none ⟨key, outside, found⟩
  · rintro ⟨key, outside, found⟩ none
    exact found (by simpa [outside] using none key)

variable {cluster : Cluster} {secret later : Object .secret} {cs : Revision .secret} {version : String}

/-- The snapshot is found under the name that the later Secret asks for. -/
theorem SnapshotOf.find (snapshot : SnapshotOf secret version cs) (plain : Plain (secret.name ++ "-" ++ version))
    (stored : cs ∈ cluster.revisions .secret) (same : key later = key secret)
    (names : later.currentVersion = version) : (cluster.revisions .secret).find?
      (later.ns, later.name ++ "-" ++ later.currentVersion) = some cs := by
  obtain ⟨spaces, equal⟩ := Prod.mk.inj same
  rw [Table.find?_eq_some, snapshot.keys, nameValidation_of_plain plain, spaces, equal, names]
  exact ⟨stored, rfl⟩

theorem run_copy_nil (snapshot : SnapshotOf secret version cs) (plain : Plain (secret.name ++ "-" ++ version))
    (stored : cs ∈ cluster.revisions .secret) (same : key later = key secret)
    (names : later.currentVersion = version) (nil : ¬ Restorable cs) :
    (SecretReconciler.copyCSToSecret later).run Cluster.serve cluster = (cluster, .panicked) := by
  have found := snapshot.find plain stored same names
  simp [SecretReconciler.copyCSToSecret, copyRevision, getRevision, found, restore?_eq_none.mpr nil]

theorem bringsBack_of_restorable (snapshot : SnapshotOf secret version cs)
    (plain : Plain (secret.name ++ "-" ++ version)) (read : secret.content.stringData = .nil)
    (stored : cs ∈ cluster.revisions .secret) (held : later ∈ cluster.objects .secret)
    (same : key later = key secret) (names : later.currentVersion = version) (made : Restorable cs) :
    BringsBack cluster secret later := by
  have found := snapshot.find plain stored same names
  obtain ⟨copied, restore⟩ := exists_restored later made
  have kept := restored_of_restore? restore
  obtain ⟨restored, objects, update, written⟩ :=
    Table.update_of_current copied held kept.key.symm kept.version.symm
  have relabel := relabel?_of_labelled snapshot.owned
  obtain ⟨promoted, revisions, promote, _⟩ := Table.update_of_current
    { cs with labels := cs.labels.put "current" "true", spec := cs.spec.untracked } stored rfl rfl
  have cleared : later.content.stringData = .nil :=
    (congrArg SecretContent.stringData (Object.stored_content held)).symm
  refine ⟨(cluster.withObjects .secret objects).withRevisions .secret revisions, ?_, restored, ?_, ?_, ?_⟩
  · simp [SecretReconciler.copyCSToSecret, copyRevision, getRevision, updateObject, updateRevision, found,
      restore, update, relabel, promote]
  · simpa using written.mem
  · exact written.key_eq.trans kept.key
  · rw [restore?_secret made, Option.some.injEq] at restore
    have answered := written.answered
    refine ⟨?_, fun key outside => ?_, fun workload => ?_, ?_⟩
    · rw [answered, ← restore]
      simp [stamp, Content.stored, cleared, snapshot.data read]
    · have unlisted := outside
      simp only [trackingKeys, List.mem_cons, List.not_mem_nil, or_false, not_or] at unlisted
      rw [answered, ← restore]
      simp [stamp, secretAnnotations, unlisted, snapshot.annotations, lookup_untracked, outside]
    · rw [answered, Object.registered_stamp, kept.registered]
    · rw [answered, ← kept.method]
      simp [stamp]

/-- A snapshot brings its Secret back exactly if the Secret had an annotation of its own:
otherwise the snapshot is stored without a map to write the tracking annotations into. -/
theorem bringsBack_iff {origin : Cluster} {sent : Revision .secret} {written : Nat}
    (plain : Plain secret.name) (read : secret.content.stringData = .nil)
    (made : ((newCustomSecret secret).run Cluster.serve origin).2 = .returned (sent, version))
    (kept : (stamp written sent).Relabelled cs) (stored : cs ∈ cluster.revisions .secret)
    (held : later ∈ cluster.objects .secret) (same : key later = key secret)
    (names : later.currentVersion = version) :
    BringsBack cluster secret later ↔ HasOwnEntry secret := by
  have snapshot := snapshotOf_newCustomSecret made kept
  obtain ⟨_, rfl⟩ : newRevision secret origin.nextVersion = sent ∧ origin.nextVersion = version := by
    simpa [newCustomSecret, newCustomResource] using made
  have plainName : Plain (secret.name ++ "-" ++ origin.nextVersion) :=
    plain_append.mpr ⟨plain_append.mpr ⟨plain, by decide⟩, plain_randomSequence _ _⟩
  rw [← snapshot.restorable_iff]
  constructor
  · rintro ⟨after, ran, _⟩
    by_contra nil
    rw [run_copy_nil snapshot plainName stored same names nil] at ran
    cases congrArg Prod.snd ran
  · exact bringsBack_of_restorable snapshot plainName read stored held same names

namespace Sample

def credentials (password : Bytes) (annotations : GoMap String) (written : Nat) : Object .secret where
  ns := "shop"
  name := "credentials"
  annotations := annotations
  resourceVersion := written
  content := (⟨(GoMap.make ∅).put "password" password, .nil, "Opaque"⟩ : SecretContent)

/-- The Secret after a change, annotated with the version of its first snapshot. -/
def selecting : Object .secret :=
  credentials [2] ((GoMap.make ∅).put "currentCustomSecretVersion" "bbbbb") 2

/-- The snapshot of a Secret is stored, and the Secret has been changed. -/
def returning (secret : Object .secret) : Cluster :=
  (synced.withRevisions .secret ⟨[stamp 1 (newRevision secret "bbbbb")], 1, List.nodup_singleton _, by simp,
    by simp⟩).withObjects .secret ⟨[selecting], 2, by decide, by decide, by decide⟩

def owned : Object .secret := credentials [1] ((GoMap.make ∅).put "team" "shop") 1

theorem owned_bringsBack : BringsBack (returning owned) owned selecting := by
  have made : ((newCustomSecret owned).run Cluster.serve synced).2 =
      .returned (newRevision owned "bbbbb", "bbbbb") := rfl
  have comesBack : BringsBack (returning owned) owned selecting ↔ HasOwnEntry owned :=
    bringsBack_iff (by decide) rfl made (.refl (stamp 1 (newRevision owned "bbbbb")))
      (List.mem_singleton_self _) (List.mem_singleton_self _) rfl (by decide)
  exact comesBack.mpr ⟨"team", by decide, by decide⟩

def bare : Object .secret := credentials [1] .nil 1

/-- A Secret without annotations does not come back: the copy writes into a nil map. -/
theorem bare_not_bringsBack : ¬ BringsBack (returning bare) bare selecting := by
  rintro ⟨after, ran, _⟩
  exact absurd (congrArg Prod.snd ran) nofun

end Sample

end Configurator
