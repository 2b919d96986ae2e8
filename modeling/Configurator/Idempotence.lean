import Configurator.Reconciliation

namespace Configurator

open Resource

variable {kind : Kind} {ns name : String}

/-- The revisions named after the object and a version are those of the object with that version. -/
def Table.Indexed (table : Table (Revision kind)) (ns name : String) : Prop :=
  ∀ revision ∈ table, revision.ns = ns → ∀ version, revision.name = name ++ "-" ++ version ↔
    revision.Labelled "name" name ∧ revision.customVersion = version ∧ version ≠ ""

/-- Every revision of the object has a version. -/
def Table.Numbered (table : Table (Revision kind)) (ns name : String) : Prop :=
  ∀ revision ∈ table, revision.ns = ns → revision.Labelled "name" name → revision.customVersion ≠ ""

/-- The revisions of a Secret have its type. -/
def Cluster.SameTypes (cluster : Cluster) (kind : Kind) (ns name : String) : Prop :=
  ∀ object ∈ cluster.objects kind, object.ns = ns → object.name = name →
    ∀ revision ∈ cluster.revisions kind, revision.ns = ns → revision.Labelled "name" name →
      SameType object revision

/-- The call asks for a change. -/
def Call.Writes : Call → Prop
  | .updateObject _ _ => True
  | .createRevision _ _ => True
  | .updateRevision _ _ => True
  | .deleteRevision _ _ _ => True
  | .updateWorkload _ _ => True
  | _ => False

/-- The states in which a reconcile finds nothing to do. -/
inductive AtRest (cluster : Cluster) (kind : Kind) (ns name : String) (numbered : Prop) : Prop
  | absent (missing : (cluster.objects kind).find? (ns, name) = none)
  | stuck {object : Object kind} (held : object ∈ cluster.objects kind) (same : key object = (ns, name))
      (versioned : object.currentVersion ≠ "")
      (stuck : ∀ current, ¬ (cluster.revisions kind).Sole (marked ns name "current") current)
  | several {object : Object kind} {first second : Revision kind} {others : List (Revision kind)}
      (held : object ∈ cluster.objects kind) (same : key object = (ns, name))
      (list : (cluster.revisions kind).select (marked ns name "current") = first :: second :: others)
  | dangling {object : Object kind} {current : Revision kind} (held : object ∈ cluster.objects kind)
      (same : key object = (ns, name)) (versioned : object.currentVersion ≠ "")
      (isCurrent : (cluster.revisions kind).Sole (marked ns name "current") current)
      (other : current.customVersion ≠ object.currentVersion)
      (missing : (cluster.revisions kind).find? (ns, name ++ "-" ++ object.currentVersion) = none)
  | aligned {object : Object kind} {current : Revision kind} (held : object ∈ cluster.objects kind)
      (same : key object = (ns, name)) (versioned : object.currentVersion ≠ "")
      (isCurrent : (cluster.revisions kind).Sole (marked ns name "current") current)
      (version : object.currentVersion = current.customVersion) (agrees : differs object current = false)
  | unnumbered {object : Object kind} {current : Revision kind} (unnumbered : ¬ numbered)
      (held : object ∈ cluster.objects kind) (same : key object = (ns, name))
      (unversioned : object.currentVersion = "")
      (isCurrent : (cluster.revisions kind).Sole (marked ns name "current") current)
      (agrees : differs object current = false)
      (annotated : object.annotate current.customVersion current.name = object)

section Rest

variable {cluster : Cluster} {numbered : Prop}

/-- At rest, a reconcile reads and at most writes what is there already. -/
theorem AtRest.calls (rest : AtRest cluster kind ns name numbered) :
    ∀ call ∈ (Configurator.reconcile kind ns name).calls Cluster.serve cluster,
      (cluster.serve call).1 = cluster ∧ (call.Writes → ¬ numbered) := by
  have reads : ∀ (object : Object kind), object ∈ cluster.objects kind → key object = (ns, name) →
      (cluster.objects kind).find? (ns, name) = some object ∧ object.ns = ns ∧ object.name = name :=
    fun object held same => ⟨Table.find?_eq_some.mpr ⟨held, same⟩, congrArg Prod.fst same, congrArg Prod.snd same⟩
  cases rest with
  | absent missing => simp [Configurator.reconcile, missing, Call.Writes]
  | @stuck object held same versioned stuck =>
    obtain ⟨found, rfl, rfl⟩ := reads object held same
    have list : ∀ current, (cluster.revisions kind).select (marked object.ns object.name "current") ≠ [current] :=
      fun current listed => stuck current (Table.select_eq_singleton.mp listed)
    simp only [Configurator.reconcile, synchronize, listRevisions]
    generalize selected : (cluster.revisions kind).select (marked object.ns object.name "current") = listed at list
    rcases listed with _ | ⟨only, _ | ⟨second, others⟩⟩
    · simp [found, versioned, selected, Call.Writes]
    · exact absurd rfl (list only)
    · simp [found, versioned, selected, Call.Writes]
  | @several object first second others held same list =>
    obtain ⟨found, rfl, rfl⟩ := reads object held same
    by_cases versioned : object.currentVersion = "" <;>
      simp [Configurator.reconcile, found, versioned, adoptOrCreate, synchronize, listRevisions, list, Call.Writes]
  | @dangling object current held same versioned isCurrent other missing =>
    obtain ⟨found, rfl, rfl⟩ := reads object held same
    have list := Table.select_eq_singleton.mpr isCurrent
    simp [Configurator.reconcile, found, versioned, synchronize, listRevisions, list, other, copyRevision,
      getRevision, missing, Call.Writes]
  | @aligned object current held same versioned isCurrent version agrees =>
    obtain ⟨found, rfl, rfl⟩ := reads object held same
    have list := Table.select_eq_singleton.mpr isCurrent
    have filled : current.customVersion ≠ "" := version ▸ versioned
    simp [Configurator.reconcile, found, filled, synchronize, listRevisions, list, version, agrees, Call.Writes]
  | @unnumbered object current unnumbered held same unversioned isCurrent agrees annotated =>
    obtain ⟨found, rfl, rfl⟩ := reads object held same
    have list := Table.select_eq_singleton.mpr isCurrent
    simp [Configurator.reconcile, found, unversioned, adoptOrCreate, listRevisions, list, agrees, updateObject,
      annotated, Table.update_self held, Call.Writes, unnumbered]

end Rest

section First

variable {cluster : Cluster} {object : Object kind} {current : Revision kind}

/-- The calls of `createNew` where one revision is current: it panics for want of a latest one, or it stores
the new revision and panics or rolls it out. -/
theorem createNew_ran (held : object ∈ cluster.objects kind)
    (isCurrent : (cluster.revisions kind).Sole (marked object.ns object.name "current") current)
    (unused : cluster.Unused kind object.ns object.name cluster.nextVersion) :
    (∃ stripped noCurrent, (cluster.revisions kind).select (marked object.ns object.name "latest") = [] ∧
      (cluster.revisions kind).Written (current.unlabel "current") stripped noCurrent ∧
      (createNew object current).run Cluster.serve cluster = (cluster.withRevisions kind noCurrent, .panicked)) ∨
    ∃ created noLatest withNew, (cluster.revisions kind).select (marked object.ns object.name "latest") ≠ [] ∧
      (cluster.revisions kind).Stems noLatest ∧
      (∀ other ∈ noLatest, marked object.ns object.name "current" other = false) ∧
      noLatest.Written (newRevision object cluster.nextVersion) created withNew ∧
      (object.annotations = .nil ∧ (createNew object current).run Cluster.serve cluster =
        (cluster.reseeded.withRevisions kind withNew, .panicked) ∨
      object.annotations ≠ .nil ∧ ∃ updated objects,
        (cluster.objects kind).Written (object.annotate cluster.nextVersion created.name) updated objects ∧
        (createNew object current).run Cluster.serve cluster =
          (rollOuts updated cluster.nextVersion).run Cluster.serve
            ((cluster.reseeded.withRevisions kind withNew).withObjects kind objects)) := by
  obtain ⟨stripped, noCurrent, strip, stripping⟩ :=
    Table.update_of_current (current.unlabel "current") isCurrent.1 rfl rfl
  have none := isCurrent.unlabelled stripping
  cases list : noCurrent.select (marked object.ns object.name "latest") with
  | nil =>
    left
    refine ⟨stripped, noCurrent, (latests_unlabel stripping isCurrent.1).mp list, stripping, ?_⟩
    simp [createNew, updateRevision, stripLatest, strip, list]
  | cons latest others =>
    right
    have listed : latest ∈ noCurrent.select (marked object.ns object.name "latest") := by simp [list]
    have member := (Table.mem_select.mp listed).1
    obtain ⟨retired, noLatest, retire, retiring⟩ :=
      Table.update_of_current (latest.unlabel "latest") member rfl rfl
    have stems := (stripping.stems isCurrent.1 (stripping.relabelled_unlabel isCurrent.1 (Or.inl rfl))).trans
      (retiring.stems member (retiring.relabelled_unlabel member (Or.inr rfl)))
    have free : ∀ entry ∈ noLatest, key entry ≠ key (newRevision object cluster.nextVersion) := by
      intro entry present
      obtain ⟨old, was, same⟩ := stems.keys entry present
      exact same ▸ unused old was
    have unlabelled : ∀ other ∈ noLatest, marked object.ns object.name "current" other = false := by
      intro other present
      rcases (retiring.members other).mp present with rfl | ⟨was, _⟩
      · rw [retiring.answered, marked_stamp, marked_unlabel_latest]
        exact none latest member
      · exact none other was
    have some : (cluster.revisions kind).select (marked object.ns object.name "latest") ≠ [] := by
      rw [Ne, ← latests_unlabel stripping isCurrent.1, list]
      exact List.cons_ne_nil _ _
    obtain ⟨created, withNew, create, creating⟩ := Table.create_of_free free
    refine ⟨created, noLatest, withNew, some, stems, unlabelled, creating, ?_⟩
    by_cases made : object.annotations = .nil
    · left
      refine ⟨made, ?_⟩
      simp [createNew, updateRevision, stripLatest, addNew, publish, newCustomResource, strip, list, retire,
        create, Object.annotate?, made, GoMap.assign?]
    · right
      have annotate := Object.annotate?_of_ne_nil made cluster.nextVersion created.name
      obtain ⟨updated, objects, update, updating⟩ :=
        Table.update_of_current (object.annotate cluster.nextVersion created.name) held rfl rfl
      refine ⟨made, updated, objects, updating, ?_⟩
      simp [createNew, updateRevision, updateObject, stripLatest, addNew, publish, newCustomResource, rollOuts,
        strip, list, retire, create, annotate, update]

/-- The making of a new revision panics, or it ends with the object in agreement with a new revision
that alone is current, whichever revisions are latest. -/
theorem createNew_cases (held : object ∈ cluster.objects kind)
    (isCurrent : (cluster.revisions kind).Sole (marked object.ns object.name "current") current)
    (unused : cluster.Unused kind object.ns object.name cluster.nextVersion) :
    ((createNew object current).run Cluster.serve cluster).2 = .panicked ∨
      ∃ (updated : Object kind) (created : Revision kind),
        updated ∈ ((createNew object current).run Cluster.serve cluster).1.objects kind ∧
        key updated = key object ∧ created.customVersion ≠ "" ∧
        (((createNew object current).run Cluster.serve cluster).1.revisions kind).Sole
          (marked object.ns object.name "current") created ∧
        updated.currentVersion = created.customVersion ∧ differs updated created = false := by
  rcases createNew_ran held isCurrent unused with ⟨_, _, _, _, ran⟩ |
    ⟨created, noLatest, withNew, _, _, unlabelled, creating, ⟨_, ran⟩ | ⟨_, updated, objects, updating, ran⟩⟩
  · exact Or.inl (congrArg Prod.snd ran)
  · exact Or.inl (congrArg Prod.snd ran)
  · right
    have same := run_rollOuts updated cluster.nextVersion
      ((cluster.reseeded.withRevisions kind withNew).withObjects kind objects)
    rw [ran, same.objects, same.revisions]
    refine ⟨updated, created, by simpa using updating.mem, updating.key_eq, ?_, ?_, ?_, ?_⟩
    · rw [creating.customVersion_new]
      exact randomSequence_ne_empty _ _
    · simpa using creating.sole_new (Or.inl rfl) unlabelled
    · rw [creating.customVersion_new, updating.answered, Object.currentVersion_stamp,
        Object.currentVersion_annotate]
    · exact differs_annotated held updating creating

theorem atRest_adopt {numbered : Prop} (held : object ∈ cluster.objects kind)
    (unversioned : object.currentVersion = "")
    (isCurrent : (cluster.revisions kind).Sole (marked object.ns object.name "current") current)
    (agrees : differs object current = false) (numbers : numbered → current.customVersion ≠ "") :
    AtRest (cluster.reconcile kind object.ns object.name).1 kind object.ns object.name numbered := by
  obtain ⟨updated, objects, update, updating⟩ :=
    Table.update_of_current (object.annotate current.customVersion current.name) held rfl rfl
  rw [Cluster.reconcile_adopt held unversioned isCurrent agrees update]
  have stored : updated ∈ (cluster.withObjects kind objects).objects kind := by simpa using updating.mem
  have version : updated.currentVersion = current.customVersion := by
    rw [updating.answered, Object.currentVersion_stamp, Object.currentVersion_annotate]
  have still : differs updated current = false := (differs_adopted held updating current).trans agrees
  by_cases filled : current.customVersion = ""
  · have lookups : ∀ key, updated.annotations.lookup key =
        (object.annotate current.customVersion current.name).annotations.lookup key := by
      intro key
      rw [updating.answered]
      simp [Resource.stamp]
    exact .unnumbered (fun all => numbers all filled) stored updating.key_eq (version.trans filled) isCurrent
      still (Object.annotate_eq_self lookups)
  · exact .aligned stored updating.key_eq (version.trans_ne filled) isCurrent version still

theorem atRest_createNew {numbered : Prop} (held : object ∈ cluster.objects kind)
    (isCurrent : (cluster.revisions kind).Sole (marked object.ns object.name "current") current)
    (unused : cluster.Unused kind object.ns object.name cluster.nextVersion)
    (calm : ((createNew object current).run Cluster.serve cluster).2 ≠ .panicked) :
    AtRest ((createNew object current).run Cluster.serve cluster).1 kind object.ns object.name numbered := by
  rcases createNew_cases held isCurrent unused with
    panics | ⟨updated, created, stored, same, filled, isNew, version, agrees⟩
  · exact absurd panics calm
  · exact .aligned stored same (version.trans_ne filled) isNew version agrees

theorem atRest_first {numbered : Prop} (held : object ∈ cluster.objects kind)
    (unversioned : object.currentVersion = "")
    (none : ∀ revision ∈ cluster.revisions kind, marked object.ns object.name "current" revision = false)
    (unused : cluster.Unused kind object.ns object.name cluster.nextVersion) :
    AtRest (cluster.reconcile kind object.ns object.name).1 kind object.ns object.name numbered := by
  obtain ⟨created, withNew, create, creating⟩ :=
    @Table.create_of_free _ _ _ _ (cluster.revisions kind) (newRevision object cluster.nextVersion) unused
  obtain ⟨updated, objects, update, updating⟩ :=
    Table.update_of_current (object.annotate cluster.nextVersion created.name) held rfl rfl
  rw [Cluster.reconcile_first held unversioned none create update]
  have stored : updated ∈ ((cluster.reseeded.withRevisions kind withNew).withObjects kind objects).objects kind := by
    simpa using updating.mem
  have version : updated.currentVersion = cluster.nextVersion := by
    rw [updating.answered, Object.currentVersion_stamp, Object.currentVersion_annotate]
  refine .aligned stored updating.key_eq (version.trans_ne (randomSequence_ne_empty _ _)) ?_
    (version.trans creating.customVersion_new.symm) (differs_annotated held updating creating)
  simpa using creating.sole_new (Or.inl rfl) none

/-- An object that names another revision than the current one has been brought to it, or there is none. -/
theorem atRest_moved {numbered : Prop} (held : object ∈ cluster.objects kind)
    (versioned : object.currentVersion ≠ "")
    (isCurrent : (cluster.revisions kind).Sole (marked object.ns object.name "current") current)
    (other : current.customVersion ≠ object.currentVersion)
    (indexed : (cluster.revisions kind).Indexed object.ns object.name)
    (types : cluster.SameTypes kind object.ns object.name)
    (calm : (cluster.reconcile kind object.ns object.name).2 ≠ .panicked) :
    AtRest (cluster.reconcile kind object.ns object.name).1 kind object.ns object.name numbered := by
  cases find : (cluster.revisions kind).find? (object.ns, object.name ++ "-" ++ object.currentVersion) with
  | none =>
    rw [Cluster.reconcile_missing held versioned isCurrent other find]
    exact .dangling held rfl versioned isCurrent other find
  | some target =>
    obtain ⟨member, named⟩ := Table.find?_eq_some.mp find
    obtain ⟨owned, version, _⟩ := (indexed target member (congrArg Prod.fst named) object.currentVersion).mp
      (congrArg Prod.snd named)
    have restorable : Restorable target := by
      by_contra unrestorable
      rw [Cluster.reconcile_unrestorable held versioned isCurrent other find unrestorable] at calm
      exact calm rfl
    obtain ⟨checkout⟩ := Checkout.exists_of_sole held isCurrent other member named version owned restorable
    rw [Cluster.reconcile_checkout held versioned checkout]
    have promoted := checkout.sole_promoted isCurrent owned (checkout.apart version)
    have sameType := types object held rfl rfl target member (congrArg Prod.fst named) owned
    refine .aligned (by simpa [Checkout.moved] using checkout.updating.mem) checkout.key_updated
      (checkout.currentVersion_updated.trans_ne versioned) (by simpa [Checkout.moved] using promoted) ?_
      (checkout.agrees held sameType)
    rw [checkout.currentVersion_updated, checkout.customVersion_promoted, version]

theorem atRest_reconcile (indexed : (cluster.revisions kind).Indexed ns name)
    (unused : cluster.Unused kind ns name cluster.nextVersion) (types : cluster.SameTypes kind ns name)
    (calm : (cluster.reconcile kind ns name).2 ≠ .panicked) :
    AtRest (cluster.reconcile kind ns name).1 kind ns name ((cluster.revisions kind).Numbered ns name) := by
  cases found : (cluster.objects kind).find? (ns, name) with
  | none =>
    have still : (cluster.reconcile kind ns name).1 = cluster := by
      simp [Cluster.reconcile, Configurator.reconcile, found]
    rw [still]
    exact .absent found
  | some object =>
    obtain ⟨held, same⟩ := Table.find?_eq_some.mp found
    obtain rfl : object.ns = ns := congrArg Prod.fst same
    obtain rfl : object.name = name := congrArg Prod.snd same
    cases list : (cluster.revisions kind).select (marked object.ns object.name "current") with
    | nil =>
      have none := Table.select_eq_nil.mp list
      by_cases unversioned : object.currentVersion = ""
      · exact atRest_first held unversioned none unused
      · have stuck : ∀ current, ¬ (cluster.revisions kind).Sole (marked object.ns object.name "current") current := by
          intro current sole
          simpa [none current sole.1] using sole.2.1
        rw [Cluster.reconcile_stuck held unversioned stuck]
        exact .stuck held rfl unversioned stuck
    | cons current others =>
      cases others with
      | cons second others =>
        have still : (cluster.reconcile kind object.ns object.name).1 = cluster := by
          by_cases unversioned : object.currentVersion = "" <;>
            simp [Cluster.reconcile, Configurator.reconcile, found, unversioned, adoptOrCreate, synchronize,
              listRevisions, list]
        rw [still]
        exact .several held rfl list
      | nil =>
        have isCurrent := Table.select_eq_singleton.mp list
        by_cases unversioned : object.currentVersion = ""
        · cases edited : differs object current with
          | false =>
            refine atRest_adopt held unversioned isCurrent edited fun all => ?_
            obtain ⟨inNs, owned, _⟩ := marked_iff.mp isCurrent.2.1
            exact all current isCurrent.1 inNs owned
          | true =>
            have runs : cluster.reconcile kind object.ns object.name =
                (createNew object current).run Cluster.serve cluster := by
              rw [Cluster.reconcile_unversioned held unversioned]
              simp [adoptOrCreate, listRevisions, list, edited]
            rw [runs] at calm ⊢
            exact atRest_createNew held isCurrent unused calm
        · by_cases version : current.customVersion = object.currentVersion
          · cases edited : differs object current with
            | false =>
              rw [Cluster.reconcile_synced held unversioned isCurrent version.symm edited]
              exact .aligned held rfl unversioned isCurrent version.symm edited
            | true =>
              have runs : cluster.reconcile kind object.ns object.name =
                  (createNew object current).run Cluster.serve cluster := by
                rw [Cluster.reconcile_versioned held unversioned]
                simp [synchronize, listRevisions, list, version, edited]
              rw [runs] at calm ⊢
              exact atRest_createNew held isCurrent unused calm
          · exact atRest_moved held unversioned isCurrent version indexed types calm

end First

/-- A second reconcile changes nothing, call by call; it asks for no change either, if every revision
of the object has a version. -/
theorem reconcile_idempotent {cluster after : Cluster} {outcome : Outcome ApiError Unit}
    (indexed : (cluster.revisions kind).Indexed ns name)
    (unused : cluster.Unused kind ns name cluster.nextVersion) (types : cluster.SameTypes kind ns name)
    (ran : cluster.reconcile kind ns name = (after, outcome)) (calm : outcome ≠ .panicked) :
    (after.reconcile kind ns name).1 = after ∧
      (∀ call ∈ (Configurator.reconcile kind ns name).calls Cluster.serve after, (after.serve call).1 = after) ∧
      ((cluster.revisions kind).Numbered ns name →
        ∀ call ∈ (Configurator.reconcile kind ns name).calls Cluster.serve after, ¬ call.Writes) := by
  have rest := atRest_reconcile indexed unused types (by rw [ran]; exact calm)
  rw [ran] at rest
  have still : ∀ call ∈ (Configurator.reconcile kind ns name).calls Cluster.serve after,
      (after.serve call).1 = after := fun call made => (rest.calls call made).1
  refine ⟨Program.run_of_calls Cluster.serve _ after still, still, fun numbered call made writes => ?_⟩
  exact (rest.calls call made).2 writes numbered

namespace Sample

/-- `settings` names its first CustomConfigMap, another one is current, and both are latest. -/
def twoLatest : Cluster :=
  shop (synced.objects .configMap)
    ⟨[settingsCCM "red" "aaaaa" ["latest"] 1, settingsCCM "blue" "ddddd" ["current", "latest"] 2], 2,
      by decide, by decide, by decide⟩

theorem indexed_twoLatest : (twoLatest.revisions .configMap).Indexed "shop" "settings" := by
  have indexes : ∀ (text version : String) (labels : List String) (written : Nat), version ≠ "" →
      (settingsCCM text version labels written).Labelled "name" "settings" → ∀ other,
        (settingsCCM text version labels written).name = "settings" ++ "-" ++ other ↔
          (settingsCCM text version labels written).Labelled "name" "settings" ∧
            (settingsCCM text version labels written).customVersion = other ∧ other ≠ "" := by
    intro text version labels written filled owned other
    have carries : (settingsCCM text version labels written).customVersion = version := rfl
    rw [carries]
    constructor
    · intro same
      obtain rfl : version = other := String.append_right_inj _ |>.mp same
      exact ⟨owned, rfl, filled⟩
    · rintro ⟨_, rfl, _⟩
      rfl
  intro revision member _
  rcases List.mem_pair.mp member with rfl | rfl
  · exact indexes "red" "aaaaa" ["latest"] 1 (by decide) (by decide)
  · exact indexes "blue" "ddddd" ["current", "latest"] 2 (by decide) (by decide)

/-- The first reconcile of such a state moves the label, and the second one writes nothing. -/
theorem twoLatest_idempotent :
    let after := (twoLatest.reconcile .configMap "shop" "settings").1
    (after.reconcile .configMap "shop" "settings").1 = after ∧
      (∀ call ∈ (Configurator.reconcile .configMap "shop" "settings").calls Cluster.serve after,
        (after.serve call).1 = after) ∧
      ((twoLatest.revisions .configMap).Numbered "shop" "settings" →
        ∀ call ∈ (Configurator.reconcile .configMap "shop" "settings").calls Cluster.serve after,
          ¬ call.Writes) := by
  have ran : twoLatest.reconcile .configMap "shop" "settings" =
      ((twoLatest.reconcile .configMap "shop" "settings").1, .returned ()) := by rfl
  have unused : twoLatest.Unused .configMap "shop" "settings" twoLatest.nextVersion := by
    intro revision member
    rcases List.mem_pair.mp member with rfl | rfl <;> decide
  exact reconcile_idempotent indexed_twoLatest unused (fun _ _ _ _ _ _ _ _ => trivial) ran nofun

end Sample

end Configurator
