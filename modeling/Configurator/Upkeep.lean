import Configurator.Idempotence
import Configurator.Snapshot

/-! A Secret and the revision that is current, while users edit the Secret and the controller reconciles it. What the
comparison of `UpdateSecret` sees is less than what `newCustomSecret` keeps. -/
namespace Configurator

open Resource

variable {cluster : Cluster} {secret : Object .secret} {cs : Revision .secret} {ns name : String}

/-- The revision holds the data, the type and the own annotations of the Secret. -/
structure Reproduces (secret : Object .secret) (cs : Revision .secret) : Prop where
  data : secret.content.data = cs.spec.data
  type : secret.content.type = cs.spec.type
  annotations : ∀ key, (untracked secret.annotations).lookup key = cs.spec.secretAnnotations.lookup key

/-- Whatever the Secret has that the revision has not, the comparison of the two is about it: annotations are left out
where the revision has none. -/
def Noticed (secret : Object .secret) (cs : Revision .secret) : Prop :=
  secret.content.data ≠ cs.spec.data ∨ secret.content.type ≠ cs.spec.type ∨
    cs.spec.secretAnnotations.isEmpty = false ∨ (untracked secret.annotations).isEmpty = true

instance : Decidable (Noticed secret cs) := inferInstanceAs (Decidable (_ ∨ _))

def MakesRevision (program : Client Unit) (cluster : Cluster) : Prop :=
  ∃ created ∈ (program.run Cluster.serve cluster).1.revisions .secret,
    ∀ old ∈ cluster.revisions .secret, key old ≠ key created

section Comparison

theorem differs_secret : differs secret cs = true ↔ secret.content.data ≠ cs.spec.data ∨
    secret.content.type ≠ cs.spec.type ∨ cs.spec.secretAnnotations.isEmpty = false ∧
      ¬ ∀ key, (untracked secret.annotations).lookup key = cs.spec.secretAnnotations.lookup key := by
  cases filled : cs.spec.secretAnnotations.isEmpty with
  | true => simp [differs, filled]
  | false =>
    have same : (untracked secret.annotations = cs.spec.secretAnnotations) ↔
        ∀ key, (untracked secret.annotations).lookup key = cs.spec.secretAnnotations.lookup key := by
      constructor
      · intro equal key
        rw [equal]
      · intro lookups
        rw [← GoMap.omitEmpty_eq_iff filled, GoMap.omitEmpty_congr lookups, GoMap.omitEmpty_of_not_isEmpty filled]
    simp only [differs, filled, Bool.false_eq_true, if_false, Bool.or_eq_true, bne_iff_ne, ne_eq, same, true_and,
      or_assoc]

/-- The comparison and the snapshot agree exactly where nothing escapes the comparison. -/
theorem noticed_iff : (differs secret cs = true ↔ ¬ Reproduces secret cs) ↔ Noticed secret cs := by
  have whole : Reproduces secret cs ↔ secret.content.data = cs.spec.data ∧ secret.content.type = cs.spec.type ∧
      ∀ key, (untracked secret.annotations).lookup key = cs.spec.secretAnnotations.lookup key :=
    ⟨fun same => ⟨same.data, same.type, same.annotations⟩, fun ⟨data, type, own⟩ => ⟨data, type, own⟩⟩
  rw [differs_secret, whole, Noticed]
  by_cases data : secret.content.data = cs.spec.data
  · by_cases type : secret.content.type = cs.spec.type
    · cases filled : cs.spec.secretAnnotations.isEmpty with
      | false => simp [data, type]
      | true =>
        have none := GoMap.isEmpty_iff.mp filled
        simp only [data, type, none, GoMap.isEmpty_iff]
        simp
    · simp [type]
  · simp [data]

theorem noticed_of_differs (edited : differs secret cs = true) : Noticed secret cs := by
  rcases differs_secret.mp edited with data | type | ⟨filled, _⟩
  · exact Or.inl data
  · exact Or.inr (Or.inl type)
  · exact Or.inr (Or.inr (Or.inl filled))

/-- Of a Secret without a noticed edit, the revision holds everything exactly where nothing escapes the comparison. -/
theorem reproduces_iff_noticed (agrees : differs secret cs = false) : Reproduces secret cs ↔ Noticed secret cs := by
  rw [← noticed_iff, agrees]
  simp

/-- Neither the tracking annotations of the Secret nor the labels of the revision matter. -/
theorem reproduces_congr {updated : Object .secret} (content : updated.content = secret.content)
    (own : ∀ key, key ∉ trackingKeys → updated.annotations.lookup key = secret.annotations.lookup key) :
    Reproduces updated cs ↔ Reproduces secret cs := by
  have lookups := lookup_untracked_congr own
  constructor
  · intro same
    exact ⟨content ▸ same.data, content ▸ same.type, fun key => (lookups key).symm.trans (same.annotations key)⟩
  · intro same
    exact ⟨content ▸ same.data, content ▸ same.type, fun key => (lookups key).trans (same.annotations key)⟩

theorem reproduces_newSpec (held : secret ∈ cluster.objects .secret) (spec : cs.spec = (newSpec secret).stored) :
    Reproduces secret cs := by
  have stored := Object.stored_content held
  have cleared : secret.content.stringData = .nil := (congrArg SecretContent.stringData stored).symm
  have data : secret.content.data.omitEmpty = secret.content.data := by
    have whole := congrArg SecretContent.data stored
    simpa [Content.stored, cleared] using whole
  constructor
  · rw [spec]
    simp only [newSpec, Spec.stored, cleared, GoMap.mapValues_nil, GoMap.overlay_nil]
    rw [GoMap.overlay_empty, data]
  · rw [spec]
    rfl
  · intro key
    rw [spec]
    exact (GoMap.lookup_omitEmpty _ key).symm

/-- What `CopyCSToSecret` brings back, which is everything but the type. -/
theorem reproduces_checkout {current target : Revision .secret} (checkout : Checkout cluster secret current target)
    (held : secret ∈ cluster.objects .secret) :
    Reproduces checkout.updated checkout.promoted ↔ SameType secret target := by
  have cleared : secret.content.stringData = .nil :=
    (congrArg SecretContent.stringData (Object.stored_content held)).symm
  have made : target.spec.secretAnnotations ≠ .nil := by
    intro nil
    have restore := checkout.restore
    rw [restore?_secret_nil nil] at restore
    cases restore
  have copied := checkout.restore
  rw [restore?_secret made, Option.some.injEq] at copied
  have type : checkout.updated.content.type = secret.content.type := by
    rw [checkout.updating.answered, ← copied]
    rfl
  have kept : checkout.promoted.spec.type = target.spec.type := by
    rw [checkout.spec_promoted]
    rfl
  constructor
  · intro same
    exact type.symm.trans (same.type.trans kept)
  · intro same
    refine ⟨?_, type.trans (Eq.trans same kept.symm), fun key => ?_⟩
    · rw [checkout.updating.answered, ← copied, checkout.spec_promoted]
      simp [Resource.stamp, Content.stored, cleared, Spec.stored, Spec.untracked]
    · rw [checkout.updating.answered, ← copied, checkout.spec_promoted]
      simp only [Resource.stamp, Spec.stored, Spec.untracked, lookup_untracked, GoMap.lookup_omitEmpty]
      split
      · rfl
      · rename_i outside
        simp only [trackingKeys, List.mem_cons, List.not_mem_nil, or_false, not_or] at outside
        simp [secretAnnotations, outside]

end Comparison

section Update

variable {current : Revision .secret}

/-- `UpdateSecret` makes a revision for an edit that it notices, if there is a latest revision to
take the label from. -/
theorem makesRevision_iff (held : secret ∈ cluster.objects .secret)
    (isCurrent : (cluster.revisions .secret).Sole (marked secret.ns secret.name "current") current)
    (version : secret.currentVersion = current.customVersion)
    (unused : cluster.Unused .secret secret.ns secret.name cluster.nextVersion) :
    MakesRevision (SecretReconciler.updateSecret secret) cluster ↔ differs secret current = true ∧
      (cluster.revisions .secret).select (marked secret.ns secret.name "latest") ≠ [] := by
  have list := Table.select_eq_singleton.mpr isCurrent
  have runs : (SecretReconciler.updateSecret secret).run Cluster.serve cluster =
      if differs secret current then (createNew secret current).run Cluster.serve cluster
      else (cluster, .returned ()) := by
    cases edited : differs secret current <;>
      simp [SecretReconciler.updateSecret, synchronize, listRevisions, list, version, edited]
  unfold MakesRevision
  rw [runs]
  cases edited : differs secret current with
  | false =>
    refine iff_of_false ?_ (by simp)
    rintro ⟨created, member, new⟩
    exact new created member rfl
  | true =>
    rw [if_pos rfl]
    rcases createNew_ran held isCurrent unused with ⟨stripped, noCurrent, none, stripping, ran⟩ |
      ⟨created, noLatest, withNew, some, stems, _, creating, ends⟩
    · refine iff_of_false ?_ (by simp [none])
      rintro ⟨created, member, new⟩
      rw [ran] at member
      rcases (stripping.members created).mp (by simpa using member) with rfl | ⟨was, _⟩
      · exact new current isCurrent.1 stripping.key_eq.symm
      · exact new created was rfl
    · have revisions : ((createNew secret current).run Cluster.serve cluster).1.revisions .secret = withNew := by
        rcases ends with ⟨_, ran⟩ | ⟨_, updated, objects, _, ran⟩
        · rw [ran]
          simp
        · have same := run_rollOuts updated cluster.nextVersion
            ((cluster.reseeded.withRevisions .secret withNew).withObjects .secret objects)
          rw [ran, same.revisions]
          simp
      refine iff_of_true ⟨created, revisions ▸ creating.mem, fun old present => ?_⟩ ⟨rfl, some⟩
      rw [creating.key_eq]
      exact unused old present

end Update

def LeavesRevisions (ns name : String) (before after : Cluster) : Prop :=
  ∀ revision : Revision .secret, revision.ns = ns → revision.Labelled "name" name →
    (revision ∈ after.revisions .secret ↔ revision ∈ before.revisions .secret)

/-- No call of the next reconcile fails for its name, and a revision that the Secret asks for is its own. -/
structure Met (ns name : String) (cluster : Cluster) : Prop where
  unused : cluster.Unused .secret ns name cluster.nextVersion
  named : ∀ secret ∈ cluster.objects .secret, key secret = (ns, name) → ∀ target ∈ cluster.revisions .secret,
    key target = (ns, name ++ "-" ++ secret.currentVersion) →
      target.Labelled "name" name ∧ target.customVersion = secret.currentVersion

/-- The states that a Secret without a revision comes to. -/
inductive Upkeep (ns name : String) : Cluster → Prop where
  | start {cluster : Cluster}
      (none : ∀ revision ∈ cluster.revisions .secret, marked ns name "current" revision = false) :
    Upkeep ns name cluster
  | edit {before after : Cluster} (earlier : Upkeep ns name before) (leaves : LeavesRevisions ns name before after) :
    Upkeep ns name after
  | reconcile {before : Cluster} (earlier : Upkeep ns name before) (met : Met ns name before) :
    Upkeep ns name (before.reconcile .secret ns name).1

def Reproduced (cluster : Cluster) (secret : Object .secret) : Prop :=
  ∃ current ∈ cluster.revisions .secret, marked secret.ns secret.name "current" current = true ∧
    Reproduces secret current

/-- A reconcile brings the Secret and its current revision together. -/
def Reproducible (cluster : Cluster) (secret : Object .secret) : Prop :=
  match (cluster.revisions .secret).select (marked secret.ns secret.name "current") with
  | [] => secret.currentVersion = ""
  | current :: _ =>
    if secret.currentVersion = "" ∨ secret.currentVersion = current.customVersion then Noticed secret current
    else
      match (cluster.revisions .secret).find? (secret.ns, secret.name ++ "-" ++ secret.currentVersion) with
      | none => Reproduces secret current
      | some target => if Restorable target then SameType secret target else Reproduces secret current

/-- No revision is current, or one is and there is a latest one. -/
def Tended (ns name : String) (cluster : Cluster) : Prop :=
  (∀ revision ∈ cluster.revisions .secret, marked ns name "current" revision = false) ∨
    (∃ current, (cluster.revisions .secret).Sole (marked ns name "current") current) ∧
      (cluster.revisions .secret).select (marked ns name "latest") ≠ []

section Run

variable {current : Revision .secret} {before after : Cluster}

theorem LeavesRevisions.marked (leaves : LeavesRevisions ns name before after) {label : String}
    {revision : Revision .secret} (selected : marked ns name label revision = true) :
    revision ∈ after.revisions .secret ↔ revision ∈ before.revisions .secret := by
  obtain ⟨inNs, owned, _⟩ := marked_iff.mp selected
  exact leaves revision inNs owned

theorem Tended.edit (tended : Tended ns name before) (leaves : LeavesRevisions ns name before after) :
    Tended ns name after := by
  rcases tended with none | ⟨⟨current, isCurrent⟩, some⟩
  · left
    intro revision member
    by_contra selected
    rw [Bool.not_eq_false] at selected
    have was := none revision ((leaves.marked selected).mp member)
    rw [was] at selected
    cases selected
  · right
    refine ⟨⟨current, (leaves.marked isCurrent.2.1).mpr isCurrent.1, isCurrent.2.1,
      fun other member selected => ?_⟩, ?_⟩
    · exact isCurrent.2.2 other ((leaves.marked selected).mp member) selected
    · intro nil
      rw [Table.select_eq_nil] at nil
      apply some
      rw [Table.select_eq_nil]
      intro revision member
      by_contra selected
      rw [Bool.not_eq_false] at selected
      have now := nil revision ((leaves.marked selected).mpr member)
      rw [now] at selected
      cases selected

theorem reproduced_iff (isCurrent : (cluster.revisions .secret).Sole (marked secret.ns secret.name "current") current) :
    Reproduced cluster secret ↔ Reproduces secret current := by
  constructor
  · rintro ⟨other, member, selected, same⟩
    exact isCurrent.2.2 other member selected ▸ same
  · intro same
    exact ⟨current, isCurrent.1, isCurrent.2.1, same⟩

theorem reproduced_at (held : secret ∈ cluster.objects .secret) (own : key secret = (ns, name)) :
    (∀ other ∈ cluster.objects .secret, key other = (ns, name) → Reproduced cluster other) ↔
      Reproduced cluster secret := by
  constructor
  · intro every
    exact every secret held own
  · intro reproduced other member same
    exact Table.unique held member (own.trans same.symm) ▸ reproduced

theorem select_ne_nil {table : Table (Revision .secret)} {label : String} {revision : Revision .secret}
    (member : revision ∈ table) (selected : marked ns name label revision = true) :
    table.select (marked ns name label) ≠ [] :=
  List.ne_nil_of_mem (Table.mem_select.mpr ⟨member, selected⟩)

theorem reproduced_annotated (held : secret ∈ cluster.objects .secret)
    (annotated : after.objects .secret = cluster.objects .secret ∨ ∃ version called updated,
      (cluster.objects .secret).Written (secret.annotate version called) updated (after.objects .secret))
    (isCurrent : (after.revisions .secret).Sole (marked secret.ns secret.name "current") current) :
    (∀ other ∈ after.objects .secret, key other = key secret → Reproduced after other) ↔
      Reproduces secret current := by
  obtain ⟨kept, member, own, content, lookups⟩ : ∃ kept ∈ after.objects .secret, key kept = key secret ∧
      kept.content = secret.content ∧
      ∀ key, key ∉ trackingKeys → kept.annotations.lookup key = secret.annotations.lookup key := by
    rcases annotated with same | ⟨version, called, updated, written⟩
    · exact ⟨secret, same ▸ held, rfl, rfl, fun _ _ => rfl⟩
    · refine ⟨updated, written.mem, written.key_eq, ?_, fun key outside => ?_⟩
      · rw [written.answered]
        exact Object.stored_content held
      · rw [written.answered]
        simp only [Resource.stamp, GoMap.lookup_omitEmpty]
        exact Object.lookup_annotate_of_own secret _ _ outside
  have spaces : kept.ns = secret.ns := congrArg Prod.fst own
  have names : kept.name = secret.name := congrArg Prod.snd own
  rw [← spaces, ← names] at isCurrent
  exact (reproduced_at member own).trans ((reproduced_iff isCurrent).trans (reproduces_congr content lookups))

theorem Checkout.latests {target : Revision .secret} (checkout : Checkout cluster secret current target)
    (member : current ∈ cluster.revisions .secret) (apart : key current ≠ key target)
    (some : (cluster.revisions .secret).select (marked ns name "latest") ≠ []) :
    checkout.withOne.select (marked ns name "latest") ≠ [] := by
  have sent : key checkout.labelled = key target := by
    rw [checkout.labelled_eq]
    rfl
  have stays := checkout.promoting.mem_of_ne member (sent ▸ apart)
  rw [Ne, latests_unlabel checkout.stripping stays]
  obtain ⟨latest, selected⟩ := List.exists_mem_of_ne_nil _ some
  obtain ⟨present, isLatest⟩ := Table.mem_select.mp selected
  by_cases same : key latest = key target
  · obtain rfl := Table.unique present checkout.target_mem same
    obtain ⟨inNs, owned, carries⟩ := marked_iff.mp isLatest
    refine select_ne_nil checkout.promoting.mem (marked_iff.mpr ⟨?_, ?_, ?_⟩)
    · exact (congrArg Prod.fst checkout.key_promoted).trans inNs
    · exact checkout.labelled_promoted.mpr (by simpa using owned)
    · exact checkout.labelled_promoted.mpr (by simpa using carries)
  · exact select_ne_nil (checkout.promoting.mem_of_ne present (sent ▸ same)) isLatest

/-- What a reconcile is to do: keep the labels, and bring the two together exactly if that is possible. -/
structure Upkept (before after : Cluster) (secret : Object .secret) : Prop where
  tended : Tended secret.ns secret.name after
  reproduced : (∀ other ∈ after.objects .secret, key other = key secret → Reproduced after other) ↔
    Reproducible before secret

theorem reproducible_none (none : ∀ revision ∈ cluster.revisions .secret,
    marked secret.ns secret.name "current" revision = false) :
    Reproducible cluster secret ↔ secret.currentVersion = "" := by
  rw [Reproducible, Table.select_eq_nil.mpr none]

theorem reproducible_sole
    (isCurrent : (cluster.revisions .secret).Sole (marked secret.ns secret.name "current") current)
    (version : secret.currentVersion = "" ∨ secret.currentVersion = current.customVersion) :
    Reproducible cluster secret ↔ Noticed secret current := by
  simp only [Reproducible, Table.select_eq_singleton.mpr isCurrent, if_pos version]

theorem upkept_created {created : Revision .secret} {table : Table (Revision .secret)} {version : String}
    (held : secret ∈ cluster.objects .secret)
    (unlabelled : ∀ other ∈ table, marked secret.ns secret.name "current" other = false)
    (creating : table.Written (newRevision secret version) created (after.revisions .secret))
    (annotated : after.objects .secret = cluster.objects .secret ∨ ∃ version called updated,
      (cluster.objects .secret).Written (secret.annotate version called) updated (after.objects .secret))
    (reproducible : Reproducible cluster secret) : Upkept cluster after secret := by
  have isCurrent := creating.sole_new (Or.inl rfl) unlabelled
  have isLatest := creating.marked_new (Or.inr rfl)
  refine ⟨Or.inr ⟨⟨created, isCurrent⟩, select_ne_nil creating.mem isLatest⟩, ?_⟩
  rw [reproduced_annotated held annotated isCurrent]
  refine iff_of_true (reproduces_newSpec held ?_) reproducible
  rw [creating.answered]
  rfl

theorem upkept_first (held : secret ∈ cluster.objects .secret) (unversioned : secret.currentVersion = "")
    (none : ∀ revision ∈ cluster.revisions .secret, marked secret.ns secret.name "current" revision = false)
    (unused : cluster.Unused .secret secret.ns secret.name cluster.nextVersion) :
    Upkept cluster (cluster.reconcile .secret secret.ns secret.name).1 secret := by
  obtain ⟨created, withNew, create, creating⟩ :=
    @Table.create_of_free _ _ _ _ (cluster.revisions .secret) (newRevision secret cluster.nextVersion) unused
  obtain ⟨updated, objects, update, updating⟩ :=
    Table.update_of_current (secret.annotate cluster.nextVersion created.name) held rfl rfl
  rw [Cluster.reconcile_first held unversioned none create update]
  refine upkept_created held none (by simpa using creating) (Or.inr ⟨_, _, updated, by simpa using updating⟩) ?_
  exact (reproducible_none none).mpr unversioned

theorem upkept_createNew (held : secret ∈ cluster.objects .secret)
    (isCurrent : (cluster.revisions .secret).Sole (marked secret.ns secret.name "current") current)
    (some : (cluster.revisions .secret).select (marked secret.ns secret.name "latest") ≠ [])
    (unused : cluster.Unused .secret secret.ns secret.name cluster.nextVersion)
    (reproducible : Reproducible cluster secret) :
    Upkept cluster ((createNew secret current).run Cluster.serve cluster).1 secret := by
  rcases createNew_ran held isCurrent unused with ⟨_, _, none, _⟩ |
    ⟨created, noLatest, withNew, _, _, unlabelled, creating, ends⟩
  · exact absurd none some
  · rcases ends with ⟨_, ran⟩ | ⟨_, updated, objects, updating, ran⟩
    · rw [ran]
      exact upkept_created held unlabelled (by simpa using creating) (Or.inl (by simp)) reproducible
    · have same := run_rollOuts updated cluster.nextVersion
        ((cluster.reseeded.withRevisions .secret withNew).withObjects .secret objects)
      rw [← ran] at same
      have revisions := congrFun same.revisions .secret
      have annotated := congrFun same.objects .secret
      simp only [Cluster.withObjects_revisions, Cluster.withRevisions_revisions,
        Cluster.withObjects_objects] at revisions annotated
      rw [← revisions] at creating
      rw [← annotated] at updating
      exact upkept_created held unlabelled creating (Or.inr ⟨_, _, updated, updating⟩) reproducible

/-- Nothing is noticed: at most the version of the current revision is taken over. -/
theorem upkept_kept (held : secret ∈ cluster.objects .secret)
    (isCurrent : (cluster.revisions .secret).Sole (marked secret.ns secret.name "current") current)
    (some : (cluster.revisions .secret).select (marked secret.ns secret.name "latest") ≠ [])
    (version : secret.currentVersion = "" ∨ secret.currentVersion = current.customVersion)
    (agrees : differs secret current = false) (revisions : after.revisions .secret = cluster.revisions .secret)
    (annotated : after.objects .secret = cluster.objects .secret ∨ ∃ version called updated,
      (cluster.objects .secret).Written (secret.annotate version called) updated (after.objects .secret)) :
    Upkept cluster after secret := by
  rw [← revisions] at isCurrent some
  refine ⟨Or.inr ⟨⟨current, isCurrent⟩, some⟩, ?_⟩
  rw [reproduced_annotated held annotated isCurrent, reproduces_iff_noticed agrees]
  rw [revisions] at isCurrent
  exact (reproducible_sole isCurrent version).symm

theorem upkept_same (held : secret ∈ cluster.objects .secret)
    (isCurrent : (cluster.revisions .secret).Sole (marked secret.ns secret.name "current") current)
    (some : (cluster.revisions .secret).select (marked secret.ns secret.name "latest") ≠ [])
    (version : secret.currentVersion = "" ∨ secret.currentVersion = current.customVersion)
    (unused : cluster.Unused .secret secret.ns secret.name cluster.nextVersion) :
    Upkept cluster (cluster.reconcile .secret secret.ns secret.name).1 secret := by
  have list := Table.select_eq_singleton.mpr isCurrent
  cases edited : differs secret current with
  | true =>
    have runs : cluster.reconcile .secret secret.ns secret.name =
        (createNew secret current).run Cluster.serve cluster := by
      by_cases unversioned : secret.currentVersion = ""
      · rw [Cluster.reconcile_unversioned held unversioned]
        simp [adoptOrCreate, listRevisions, list, edited]
      · rw [Cluster.reconcile_versioned held unversioned]
        simp [synchronize, listRevisions, list, version.resolve_left unversioned, edited]
    rw [runs]
    refine upkept_createNew held isCurrent some unused ?_
    exact (reproducible_sole isCurrent version).mpr (noticed_of_differs edited)
  | false =>
    by_cases unversioned : secret.currentVersion = ""
    · obtain ⟨updated, objects, update, updating⟩ :=
        Table.update_of_current (secret.annotate current.customVersion current.name) held rfl rfl
      rw [Cluster.reconcile_adopt held unversioned isCurrent edited update]
      exact upkept_kept held isCurrent some version edited (by simp) (Or.inr ⟨_, _, updated, by simpa using updating⟩)
    · rw [Cluster.reconcile_synced held unversioned isCurrent (version.resolve_left unversioned) edited]
      exact upkept_kept held isCurrent some version edited rfl (Or.inl rfl)

theorem upkept_other (held : secret ∈ cluster.objects .secret) (versioned : secret.currentVersion ≠ "")
    (isCurrent : (cluster.revisions .secret).Sole (marked secret.ns secret.name "current") current)
    (some : (cluster.revisions .secret).select (marked secret.ns secret.name "latest") ≠ [])
    (other : current.customVersion ≠ secret.currentVersion) (met : Met secret.ns secret.name cluster) :
    Upkept cluster (cluster.reconcile .secret secret.ns secret.name).1 secret := by
  have list := Table.select_eq_singleton.mpr isCurrent
  have apart : ¬ (secret.currentVersion = "" ∨ secret.currentVersion = current.customVersion) := by
    simp [versioned, Ne.symm other]
  have still : ∀ {same : Prop}, same = Reproduces secret current → (Reproducible cluster secret ↔ same) →
      Upkept cluster cluster secret := by
    rintro _ rfl reproducible
    refine ⟨Or.inr ⟨⟨current, isCurrent⟩, some⟩, ?_⟩
    rw [reproduced_annotated held (Or.inl rfl) isCurrent, reproducible]
  cases find : (cluster.revisions .secret).find? (secret.ns, secret.name ++ "-" ++ secret.currentVersion) with
  | none =>
    rw [Cluster.reconcile_missing held versioned isCurrent other find]
    exact still rfl (by simp only [Reproducible, list, if_neg apart, find])
  | some target =>
    obtain ⟨member, named⟩ := Table.find?_eq_some.mp find
    by_cases restorable : Restorable target
    · obtain ⟨owned, version⟩ := met.named secret held rfl target member named
      obtain ⟨checkout⟩ := Checkout.exists_of_sole held isCurrent other member named version owned restorable
      have promoted := checkout.sole_promoted isCurrent owned (checkout.apart version)
      rw [Cluster.reconcile_checkout held versioned checkout]
      have latests := checkout.latests isCurrent.1 (checkout.apart version) some
      refine ⟨Or.inr ⟨⟨_, by simpa [Checkout.moved] using promoted⟩, by simpa [Checkout.moved] using latests⟩, ?_⟩
      have stored : checkout.updated ∈ checkout.moved.objects .secret := by
        simpa [Checkout.moved] using checkout.updating.mem
      have spaces : checkout.updated.ns = secret.ns := congrArg Prod.fst checkout.key_updated
      have names : checkout.updated.name = secret.name := congrArg Prod.snd checkout.key_updated
      have isNew : (checkout.moved.revisions .secret).Sole
          (marked checkout.updated.ns checkout.updated.name "current") checkout.promoted := by
        simpa [Checkout.moved, spaces, names] using promoted
      refine (reproduced_at stored checkout.key_updated).trans ((reproduced_iff isNew).trans ?_)
      rw [reproduces_checkout checkout held]
      simp only [Reproducible, list, if_neg apart, find, if_pos restorable]
    · rw [Cluster.reconcile_unrestorable held versioned isCurrent other find restorable]
      exact still rfl (by simp only [Reproducible, list, if_neg apart, find, if_neg restorable])

theorem upkept_reconcile (held : secret ∈ cluster.objects .secret) (tended : Tended secret.ns secret.name cluster)
    (met : Met secret.ns secret.name cluster) :
    Upkept cluster (cluster.reconcile .secret secret.ns secret.name).1 secret := by
  rcases tended with none | ⟨⟨current, isCurrent⟩, some⟩
  · by_cases unversioned : secret.currentVersion = ""
    · exact upkept_first held unversioned none met.unused
    · have stuck : ∀ current, ¬ (cluster.revisions .secret).Sole (marked secret.ns secret.name "current") current := by
        intro current isCurrent
        simpa [none current isCurrent.1] using isCurrent.2.1
      rw [Cluster.reconcile_stuck held unversioned stuck]
      refine ⟨Or.inl none, ?_⟩
      rw [reproducible_none none]
      refine iff_of_false (fun every => ?_) unversioned
      obtain ⟨current, member, selected, _⟩ := every secret held rfl
      simp [none current member] at selected
  · by_cases version : secret.currentVersion = "" ∨ secret.currentVersion = current.customVersion
    · exact upkept_same held isCurrent some version met.unused
    · obtain ⟨versioned, other⟩ := not_or.mp version
      exact upkept_other held versioned isCurrent some (Ne.symm other) met

theorem reconcile_absent (missing : (cluster.objects .secret).find? (ns, name) = none) :
    (cluster.reconcile .secret ns name).1 = cluster := by
  simp [Cluster.reconcile, Configurator.reconcile, missing]

theorem Upkeep.tended (upkeep : Upkeep ns name cluster) : Tended ns name cluster := by
  induction upkeep with
  | start none => exact Or.inl none
  | edit _ leaves tended => exact tended.edit leaves
  | @reconcile before _ met tended =>
    cases found : (before.objects .secret).find? (ns, name) with
    | none => exact (reconcile_absent found).symm ▸ tended
    | some secret =>
      obtain ⟨held, own⟩ := Table.find?_eq_some.mp found
      obtain rfl : secret.ns = ns := congrArg Prod.fst own
      obtain rfl : secret.name = name := congrArg Prod.snd own
      exact (upkept_reconcile held tended met).tended

end Run

/-- `UpdateSecret` makes a revision exactly of what its current revision does not reproduce, unless the edit is one of
annotations alone and that revision has none. So do the runs that start without a revision: after a reconcile the
current revision reproduces the Secret unless the reconcile met such an edit, or a version that it cannot bring back. -/
theorem changes_versioned_iff (cluster : Cluster) :
    (∀ {secret : Object .secret} {cs : Revision .secret}, secret ∈ cluster.objects .secret →
      (cluster.revisions .secret).Sole (marked secret.ns secret.name "current") cs →
      secret.currentVersion = cs.customVersion →
      cluster.Unused .secret secret.ns secret.name cluster.nextVersion →
      ((MakesRevision (SecretReconciler.updateSecret secret) cluster ↔ ¬ Reproduces secret cs) ↔
        Noticed secret cs ∧ ((cluster.revisions .secret).select (marked secret.ns secret.name "latest") ≠ [] ∨
          Reproduces secret cs))) ∧
    ∀ {ns name : String}, Upkeep ns name cluster → Met ns name cluster →
      ((∀ secret ∈ (cluster.reconcile .secret ns name).1.objects .secret, key secret = (ns, name) →
          Reproduced (cluster.reconcile .secret ns name).1 secret) ↔
        ∀ secret ∈ cluster.objects .secret, key secret = (ns, name) → Reproducible cluster secret) := by
  constructor
  · intro secret cs held isCurrent version unused
    rw [makesRevision_iff held isCurrent version unused]
    by_cases noticed : Noticed secret cs
    · have seen := noticed_iff.mpr noticed
      rw [seen]
      by_cases same : Reproduces secret cs <;> simp [same, noticed]
    · have unseen := mt noticed_of_differs noticed
      have lost : ¬ Reproduces secret cs :=
        fun same => noticed ((reproduces_iff_noticed (by simpa using unseen)).mp same)
      simp [noticed, unseen, lost]
  · intro ns name upkeep met
    cases found : (cluster.objects .secret).find? (ns, name) with
    | none =>
      have absent := Table.find?_eq_none.mp found
      rw [reconcile_absent found]
      refine iff_of_true ?_ ?_
      · intro secret held own
        exact absurd own (absent secret held)
      · intro secret held own
        exact absurd own (absent secret held)
    | some secret =>
      obtain ⟨held, own⟩ := Table.find?_eq_some.mp found
      obtain rfl : secret.ns = ns := congrArg Prod.fst own
      obtain rfl : secret.name = name := congrArg Prod.snd own
      refine (upkept_reconcile held upkeep.tended met).reproduced.trans ?_
      constructor
      · intro reproducible other member same
        exact Table.unique held member same.symm ▸ reproducible
      · intro every
        exact every secret held rfl

namespace Sample

/-- A namespace with a Secret that has no annotations. -/
def bareShop : Cluster :=
  (synced.withObjects .secret ⟨[bare], 1, by decide, by decide, by decide⟩).withRevisions .secret .empty

def bareCS : Revision .secret := stamp 1 (newRevision bare "bbbbb")

/-- The Secret is reconciled for the first time and edited after that. -/
def bareEdited (secrets : Table (Object .secret)) : Cluster :=
  (bareShop.reconcile .secret "shop" "credentials").1.withObjects .secret secrets

def rekeyed : Object .secret := (credentials [2] (.make ∅) 3).annotate "bbbbb" "credentials-bbbbb"

def teamSecret : Object .secret :=
  (credentials [1] ((GoMap.make ∅).put "team" "shop") 3).annotate "bbbbb" "credentials-bbbbb"

def rekeyedSecrets : Table (Object .secret) := ⟨[rekeyed], 3, by decide, by decide, by decide⟩

def teamSecrets : Table (Object .secret) := ⟨[teamSecret], 3, by decide, by decide, by decide⟩

section Edited

variable {secrets : Table (Object .secret)}

theorem met_bareShop : Met "shop" "credentials" bareShop where
  unused _ member := absurd member List.not_mem_nil
  named _ _ _ _ member := absurd member List.not_mem_nil

theorem upkeep_bareEdited : Upkeep "shop" "credentials" (bareEdited secrets) := by
  apply Upkeep.edit
  · exact .reconcile (.start fun _ member => absurd member List.not_mem_nil) met_bareShop
  · exact fun _ _ _ => Iff.rfl

theorem revisions_bareEdited : (bareEdited secrets).revisions .secret =
    ⟨[bareCS], 1, by decide, by decide, by decide⟩ := by rfl

theorem sole_bareEdited :
    ((bareEdited secrets).revisions .secret).Sole (marked "shop" "credentials" "current") bareCS := by
  rw [revisions_bareEdited]
  exact Table.select_eq_singleton.mp (by decide)

theorem unused_bareEdited :
    (bareEdited secrets).Unused .secret "shop" "credentials" (bareEdited secrets).nextVersion := by
  intro revision member
  rw [revisions_bareEdited] at member
  obtain rfl := List.mem_singleton.mp member
  exact (by decide : key bareCS ≠ ("shop", nameValidation ("credentials" ++ "-" ++ "ccccc")))

end Edited

theorem rekeyed_versioned :
    (MakesRevision (SecretReconciler.updateSecret rekeyed) (bareEdited rekeyedSecrets) ↔
        ¬ Reproduces rekeyed bareCS) ∧
      ∀ secret ∈ ((bareEdited rekeyedSecrets).reconcile .secret "shop" "credentials").1.objects .secret,
        key secret = ("shop", "credentials") →
          Reproduced ((bareEdited rekeyedSecrets).reconcile .secret "shop" "credentials").1 secret := by
  have held : rekeyed ∈ (bareEdited rekeyedSecrets).objects .secret := List.mem_singleton_self _
  have noticed : Noticed rekeyed bareCS := Or.inl (by decide)
  have latest : ((bareEdited rekeyedSecrets).revisions .secret).select (marked "shop" "credentials" "latest") ≠ [] := by
    rw [revisions_bareEdited]
    decide
  have named : ∀ secret ∈ (bareEdited rekeyedSecrets).objects .secret, key secret = ("shop", "credentials") →
      ∀ target ∈ (bareEdited rekeyedSecrets).revisions .secret,
        key target = ("shop", "credentials" ++ "-" ++ secret.currentVersion) →
          target.Labelled "name" "credentials" ∧ target.customVersion = secret.currentVersion := by
    intro secret member _ target present _
    rw [revisions_bareEdited] at present
    obtain rfl := List.mem_singleton.mp member
    obtain rfl := List.mem_singleton.mp present
    decide
  constructor
  · exact ((changes_versioned_iff _).1 held sole_bareEdited (by decide) unused_bareEdited).mpr
      ⟨noticed, Or.inl latest⟩
  · refine ((changes_versioned_iff _).2 upkeep_bareEdited ⟨unused_bareEdited, named⟩).mpr ?_
    intro secret member _
    obtain rfl := List.mem_singleton.mp member
    exact (reproducible_sole sole_bareEdited (Or.inr (by decide))).mpr noticed

/-- An annotation alone does not become a revision, and the next reconcile leaves the Secret without one
that reproduces it. -/
theorem teamSecret_unnoticed :
    (teamSecret ∈ (bareEdited teamSecrets).objects .secret ∧
      ((bareEdited teamSecrets).revisions .secret).Sole (marked "shop" "credentials" "current") bareCS ∧
      teamSecret.currentVersion = bareCS.customVersion ∧
      (bareEdited teamSecrets).Unused .secret "shop" "credentials" (bareEdited teamSecrets).nextVersion ∧
      ¬ (MakesRevision (SecretReconciler.updateSecret teamSecret) (bareEdited teamSecrets) ↔
        ¬ Reproduces teamSecret bareCS)) ∧
    Upkeep "shop" "credentials" (bareEdited teamSecrets) ∧
      ¬ Reproduced ((bareEdited teamSecrets).reconcile .secret "shop" "credentials").1 teamSecret := by
  have held : teamSecret ∈ (bareEdited teamSecrets).objects .secret := List.mem_singleton_self _
  have agrees : differs teamSecret bareCS = false := by decide
  have escapes : ¬ Noticed teamSecret bareCS := by decide
  have lost : ¬ Reproduces teamSecret bareCS := fun same => escapes ((reproduces_iff_noticed agrees).mp same)
  refine ⟨⟨held, sole_bareEdited, by decide, unused_bareEdited, ?_⟩, upkeep_bareEdited, ?_⟩
  · rw [makesRevision_iff held sole_bareEdited (by decide) unused_bareEdited, agrees]
    simp [lost]
  · have still : (bareEdited teamSecrets).reconcile .secret "shop" "credentials" =
        (bareEdited teamSecrets, .returned ()) :=
      Cluster.reconcile_synced held (by decide) sole_bareEdited (by decide) agrees
    rw [still]
    exact fun reproduced => lost ((reproduced_iff sole_bareEdited).mp reproduced)

end Sample

end Configurator
