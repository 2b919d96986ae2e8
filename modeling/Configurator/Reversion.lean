import Configurator.Marks
import Configurator.Reconciliation

namespace Configurator

open Resource

variable {kind : Kind}

/-- The server that refuses to create a revision and serves every other call. -/
def Cluster.refusing (error : ApiError) (cluster : Cluster) : (call : Call) → Cluster × Answer call
  | .createRevision _ _ => (cluster, .error error)
  | call => cluster.serve call

@[simp] theorem Cluster.refusing_createRevision (error : ApiError) (cluster : Cluster)
    (revision : Revision kind) :
    cluster.refusing error (.createRevision kind revision) = (cluster, .error error) := rfl

@[simp] theorem Cluster.refusing_listRevisions (error : ApiError) (cluster : Cluster) (ns : String)
    (labels : List (String × String)) : cluster.refusing error (.listRevisions kind ns labels) =
      cluster.serve (.listRevisions kind ns labels) := rfl

@[simp] theorem Cluster.refusing_updateRevision (error : ApiError) (cluster : Cluster)
    (revision : Revision kind) : cluster.refusing error (.updateRevision kind revision) =
      cluster.serve (.updateRevision kind revision) := rfl

@[simp] theorem Cluster.refusing_seedRandom (error : ApiError) (cluster : Cluster) :
    cluster.refusing error .seedRandom = cluster.serve .seedRandom := rfl

/-- The objects are as before, every revision of the object has the labels that it had,
and the function ends with the error. -/
structure Reverted (kind : Kind) (ns name : String) (error : ApiError) (before : Cluster)
    (result : Cluster × Outcome ApiError Unit) : Prop where
  objects : result.1.objects = before.objects
  labels : ∀ revision ∈ before.revisions kind, revision.ns = ns → revision.Labelled "name" name →
    ∃ kept ∈ result.1.revisions kind, key kept = key revision ∧ kept.labels = revision.labels
  nothingNew : ∀ kept ∈ result.1.revisions kind, ∃ revision ∈ before.revisions kind,
    key kept = key revision
  failed : result.2 = .failed error

/-- What the function has done when the new revision is refused. -/
structure Refused (cluster : Cluster) (object : Object kind) (current : Revision kind) where
  stripped : Revision kind
  noCurrent : Table (Revision kind)
  found : Revision kind
  retired : Revision kind
  noLatest : Table (Revision kind)
  isCurrent : (cluster.revisions kind).Sole (marked object.ns object.name "current") current
  isLatest : noCurrent.Sole (marked object.ns object.name "latest") found
  strip : (cluster.revisions kind).update (current.unlabel "current") = .ok (stripped, noCurrent)
  retire : noCurrent.update (found.unlabel "latest") = .ok (retired, noLatest)
  stripping : (cluster.revisions kind).Written (current.unlabel "current") stripped noCurrent
  retiring : noCurrent.Written (found.unlabel "latest") retired noLatest

namespace Refused

variable {cluster : Cluster} {object : Object kind} {current latest : Revision kind}

theorem exists_of_sole
    (isCurrent : (cluster.revisions kind).Sole (marked object.ns object.name "current") current)
    (isLatest : (cluster.revisions kind).Sole (marked object.ns object.name "latest") latest) :
    ∃ refused : Refused cluster object current, latest = current ∧ refused.found = refused.stripped ∨
      key latest ≠ key current ∧ refused.found = latest := by
  obtain ⟨stripped, noCurrent, strip, stripping⟩ :=
    Table.update_of_current (current.unlabel "current") isCurrent.1 rfl rfl
  obtain ⟨found, sole, _, which⟩ :=
    isLatest.unlabel_other stripping isCurrent.1 (Or.inl rfl) (by decide)
  obtain ⟨retired, noLatest, retire, retiring⟩ :=
    Table.update_of_current (found.unlabel "latest") sole.1 rfl rfl
  exact ⟨⟨stripped, noCurrent, found, retired, noLatest, isCurrent, sole, strip, retire, stripping,
    retiring⟩, which⟩

variable (refused : Refused cluster object current) (error : ApiError)

def reached : Cluster := cluster.reseeded.withRevisions kind refused.noLatest

theorem run_createNew : (createNew object current).run (Cluster.refusing error) cluster =
    (revert refused.stripped [refused.retired] error).run (Cluster.refusing error) refused.reached := by
  have list := Table.select_eq_singleton.mpr refused.isLatest
  simp [createNew, updateRevision, stripLatest, addNew, newCustomResource, refused.strip, list,
    refused.retire, reached]

theorem owned_stripped : refused.stripped.Labelled "name" object.name :=
  refused.stripping.labelled_unlabel.mpr ⟨by decide, (marked_iff.mp refused.isCurrent.2.1).2.1⟩

theorem owned_retired : refused.retired.Labelled "name" object.name :=
  refused.retiring.labelled_unlabel.mpr ⟨by decide, (marked_iff.mp refused.isLatest.2.1).2.1⟩

theorem keys : ∀ revision ∈ refused.noLatest, ∃ old ∈ cluster.revisions kind, key revision = key old := by
  intro revision member
  have back : ∀ middle ∈ refused.noCurrent, ∃ old ∈ cluster.revisions kind, key middle = key old := by
    intro middle present
    rcases (refused.stripping.members middle).mp present with rfl | ⟨old, _⟩
    · exact ⟨current, refused.isCurrent.1, refused.stripping.key_eq⟩
    · exact ⟨middle, old, rfl⟩
  rcases (refused.retiring.members revision).mp member with rfl | ⟨present, _⟩
  · rw [refused.retiring.key_eq]
    exact back refused.found refused.isLatest.1
  · exact back revision present

/-- Labels that were on one revision do not come back: the first write is made from the
revision before its second label was taken away. -/
theorem not_reverted (one : refused.found = refused.stripped) : ¬ Reverted kind object.ns object.name error cluster
    ((createNew object current).run (Cluster.refusing error) cluster) := by
  intro reverted
  have sameKey : key refused.retired = key refused.stripped := by
    rw [refused.retiring.key_eq, one]
    rfl
  have carries := (marked_iff.mp refused.isLatest.2.1).2.2
  have later := refused.retiring.clock_lt_unlabel refused.isLatest.1 carries
  have stale : version refused.retired ≠ version refused.stripped :=
    Nat.ne_of_gt (Nat.lt_of_le_of_lt (Table.bound refused.stripping.mem) later)
  have conflict := Table.update_of_stale
    { refused.stripped with labels := refused.stripped.labels.put "current" "true" }
    refused.retiring.mem sameKey stale
  have unchanged : ((createNew object current).run (Cluster.refusing error) cluster).1 =
      refused.reached := by
    rw [refused.run_createNew]
    simp [revert, updateRevision, Revision.label?_of_labelled refused.owned_stripped, conflict, reached]
  obtain ⟨inNs, owned, marking⟩ := marked_iff.mp refused.isCurrent.2.1
  obtain ⟨kept, member, keys, labels⟩ := reverted.labels current refused.isCurrent.1 inNs owned
  have stored : kept ∈ refused.noLatest := by simpa [unchanged, reached] using member
  have equal : kept = refused.retired :=
    Table.unique stored refused.retiring.mem (keys.trans (sameKey.trans refused.stripping.key_eq).symm)
  have still : refused.retired.Labelled "current" "true" := by
    rw [Revision.Labelled, ← equal, labels]
    exact marking
  have before := (refused.retiring.labelled_unlabel.mp still).2
  rw [one] at before
  exact (refused.stripping.labelled_unlabel.mp before).1 rfl

private theorem labels_put_back {revision taken : Revision kind} {table next : Table (Revision kind)}
    {label : String} (member : revision ∈ table) (carries : revision.Labelled label "true")
    (written : table.Written (revision.unlabel label) taken next) (at_ : Nat) :
    (stamp at_ { taken with labels := taken.labels.put label "true" }).labels = revision.labels := by
  rw [← Revision.stored_labels member]
  refine GoMap.omitEmpty_congr fun other => ?_
  rw [written.answered, GoMap.lookup_put]
  split
  · rename_i same
    rw [same]
    exact carries.symm
  · rename_i different
    simp [stamp, Revision.unlabel, different]

theorem reverted (isLatest : latest ∈ cluster.revisions kind)
    (two : key latest ≠ key current ∧ refused.found = latest) :
    Reverted kind object.ns object.name error cluster
      ((createNew object current).run (Cluster.refusing error) cluster) := by
  have apart : key refused.stripped ≠ key (refused.found.unlabel "latest") := by
    rw [refused.stripping.key_eq, two.2]
    exact two.1.symm
  have stays : refused.stripped ∈ refused.noLatest :=
    refused.retiring.mem_of_ne refused.stripping.mem apart
  obtain ⟨promoted, withCurrent, promote, promoting⟩ := Table.update_of_current
    { refused.stripped with labels := refused.stripped.labels.put "current" "true" } stays rfl rfl
  have remains : refused.retired ∈ withCurrent :=
    promoting.mem_of_ne refused.retiring.mem fun same =>
      apart (same.symm.trans refused.retiring.key_eq)
  obtain ⟨renewed, withBoth, renew, renewing⟩ := Table.update_of_current
    { refused.retired with labels := refused.retired.labels.put "latest" "true" } remains rfl rfl
  have ran : (createNew object current).run (Cluster.refusing error) cluster =
      (cluster.reseeded.withRevisions kind withBoth, .failed error) := by
    rw [refused.run_createNew]
    simp [revert, updateRevision, reached, Revision.label?_of_labelled refused.owned_stripped, promote,
      Revision.label?_of_labelled refused.owned_retired, renew]
  rw [ran]
  refine ⟨rfl, ?_, ?_, rfl⟩
  · intro revision member _ _
    by_cases isOne : key revision = key current
    · obtain rfl := Table.unique member refused.isCurrent.1 isOne
      have other : key promoted ≠ key refused.retired := by
        rw [promoting.key_eq, refused.retiring.key_eq]
        exact apart
      have present := renewing.mem_of_ne promoting.mem other
      refine ⟨promoted, by simpa using present, ?_, ?_⟩
      · exact promoting.key_eq.trans refused.stripping.key_eq
      · rw [promoting.answered]
        exact labels_put_back member (marked_iff.mp refused.isCurrent.2.1).2.2 refused.stripping _
    by_cases isOther : key revision = key latest
    · obtain rfl : revision = refused.found := (Table.unique member isLatest isOther).trans two.2.symm
      refine ⟨renewed, by simpa using renewing.mem, ?_, ?_⟩
      · exact renewing.key_eq.trans refused.retiring.key_eq
      · rw [renewing.answered]
        exact labels_put_back refused.isLatest.1 (marked_iff.mp refused.isLatest.2.1).2.2
          refused.retiring _
    · have one : key revision ≠ key refused.stripped := refused.stripping.key_eq ▸ isOne
      have found : key revision ≠ key (refused.found.unlabel "latest") := by
        rw [two.2]
        exact isOther
      have other : key revision ≠ key refused.retired := refused.retiring.key_eq ▸ found
      have first := refused.retiring.mem_of_ne (refused.stripping.mem_of_ne member isOne) found
      have second := renewing.mem_of_ne (promoting.mem_of_ne first one) other
      exact ⟨revision, by simpa using second, rfl, rfl⟩
  · intro kept member
    rcases (renewing.members kept).mp (by simpa using member) with rfl | ⟨present, _⟩
    · rw [renewing.key_eq]
      exact refused.keys refused.retired refused.retiring.mem
    · rcases (promoting.members kept).mp present with rfl | ⟨old, _⟩
      · rw [promoting.key_eq]
        exact refused.keys refused.stripped stays
      · exact refused.keys kept old

end Refused

/-- A refused creation is undone exactly if the two labels were on two revisions. -/
theorem reverted_iff {cluster : Cluster} (object : Object kind) {current latest : Revision kind}
    (isCurrent : (cluster.revisions kind).Sole (marked object.ns object.name "current") current)
    (isLatest : (cluster.revisions kind).Sole (marked object.ns object.name "latest") latest)
    (error : ApiError) : Reverted kind object.ns object.name error cluster
      ((createNew object current).run (Cluster.refusing error) cluster) ↔ current ≠ latest := by
  obtain ⟨refused, ⟨same, one⟩ | two⟩ := Refused.exists_of_sole isCurrent isLatest
  · exact ⟨fun reverted => absurd reverted (refused.not_reverted error one),
      fun different => absurd same.symm different⟩
  · exact ⟨fun _ same => two.1 (congrArg key same.symm), fun _ => refused.reverted error isLatest.1 two⟩

namespace Sample

/-- `settings` with its current revision and a later one, after a roll-back. -/
def rolledBack : Cluster :=
  shop edited ⟨[settingsCCM "red" "aaaaa" ["current"] 1, settingsCCM "blue" "bbbbb" ["latest"] 2], 2,
    by decide, by decide, by decide⟩

theorem rolledBack_reverted : Reverted .configMap "shop" "settings" (.other "timeout") rolledBack
    ((createNew (settings "blue" "aaaaa" 2) (settingsCCM "red" "aaaaa" ["current"] 1)).run
      (Cluster.refusing (.other "timeout")) rolledBack) := by
  have isCurrent : (rolledBack.revisions .configMap).Sole (marked "shop" "settings" "current")
      (settingsCCM "red" "aaaaa" ["current"] 1) := Table.select_eq_singleton.mp (by rfl)
  have isLatest : (rolledBack.revisions .configMap).Sole (marked "shop" "settings" "latest")
      (settingsCCM "blue" "bbbbb" ["latest"] 2) := Table.select_eq_singleton.mp (by rfl)
  exact (reverted_iff (settings "blue" "aaaaa" 2) isCurrent isLatest (.other "timeout")).mpr (by decide)

def firstEdit : Cluster := synced.withObjects .configMap edited

/-- Both labels are on one revision, and neither comes back. -/
theorem firstEdit_not_reverted : ¬ Reverted .configMap "shop" "settings" (.other "timeout") firstEdit
    ((createNew (settings "blue" "aaaaa" 2) (settingsCCM "red" "aaaaa" ["current", "latest"] 1)).run
      (Cluster.refusing (.other "timeout")) firstEdit) := by
  intro reverted
  obtain ⟨kept, member, _, labels⟩ := reverted.labels
    (settingsCCM "red" "aaaaa" ["current", "latest"] 1) (List.mem_singleton_self _) rfl (by decide)
  obtain rfl : kept = settingsCCM "red" "aaaaa" [] 3 := List.mem_singleton.mp member
  exact absurd labels (by decide)

end Sample

end Configurator
