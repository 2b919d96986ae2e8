import Configurator.Admission
import Configurator.Stamping
import Configurator.Templates

namespace Configurator

open Resource

variable {kind : Kind} {workload : WorkloadKind} {ns name : String} {cluster : Cluster}

section Reconcile

variable {object : Object kind} {start : Cluster}

/-- A run that returns leaves every template suited. -/
def SteadyIfReturned (kind : Kind) (ns name : String) (cluster : Cluster) (outcome : Outcome ApiError Unit) :
    Prop :=
  outcome = .returned () → Steady kind ns name cluster

/-- The object that was read is still stored under its version and with its workloads. -/
theorem Follows.rewrite {before : Cluster} {sent answer : Object kind} {objects : Table (Object kind)}
    (follows : Follows kind object.ns object.name start before) (read : object ∈ start.objects kind)
    (same : key sent = key object) (version : sent.currentVersion = object.currentVersion)
    (registered : ∀ workload, sent.registered workload = object.registered workload)
    (accepted : (before.objects kind).update sent = .ok (answer, objects)) :
    Follows kind object.ns object.name start (before.withObjects kind objects) := by
  obtain ⟨⟨entry, present, sameKey, _⟩, written⟩ := Table.written_of_update accepted
  have its : key entry = key object := sameKey.trans same
  obtain ⟨old, was, own, itsVersion, itsWorkloads⟩ := follows.objects entry present its
  obtain rfl : old = object := Table.unique was read own
  exact follows.trans (.of_object present its (version.trans itsVersion.symm)
    (fun workload => (registered workload).trans (itsWorkloads workload).symm) written)

theorem follows_of_relabels {before after : Cluster} {request : Call} {answer : Answer request}
    (relabels : request.Relabels) (served : before.serve request = (after, answer)) :
    Follows kind ns name before after :=
  have spares : SparesObject kind ns name request := by
    cases request <;> first | exact relabels.elim | exact relabels
  (untouched_of_spares spares served).follows

/-- The object that a reconcile has read has not been written. -/
structure Unwritten (object : Object kind) (start cluster : Cluster) : Prop where
  follows : Follows kind object.ns object.name start cluster
  held : object ∈ cluster.objects kind

theorem conduct_follows :
    Conduct kind soloRules (Follows kind object.ns object.name start) fun _ => True :=
  .of_relabels (fun _ => rfl) (fun same holds => same ▸ holds)
    fun _ _ _ _ relabels holds served => ⟨trivial, holds.trans (follows_of_relabels relabels served)⟩

theorem conduct_unwritten : Conduct kind soloRules (Unwritten object start) fun _ => True := by
  refine .of_relabels (fun _ => rfl) (fun same holds => same ▸ holds) ?_
  intro before request after answer relabels holds served
  refine ⟨trivial, holds.follows.trans (follows_of_relabels relabels served), ?_⟩
  have objects := (Cluster.Reacts.onRevisions relabels.onRevisions (Or.inl served)).1
  exact objects ▸ holds.held

/-- A revision is stored under a name that was in use before or under that of a made version. -/
def Renames (kind : Kind) (ns name made : String) (before after : Cluster) : Prop :=
  ∀ next ∈ after.revisions kind, (∃ old ∈ before.revisions kind, key old = key next) ∨
    made ≠ "" ∧ Plain made ∧ key next = (ns, nameValidation (name ++ "-" ++ made))

theorem Renames.noRevision {made pinned : String} {before after : Cluster}
    (renames : Renames kind ns name made before after) (none : NoRevision before kind ns name pinned) :
    pinned = made ∧ made ≠ "" ∨ NoRevision after kind ns name pinned := by
  by_cases found : ∃ next ∈ after.revisions kind, key next = (ns, name ++ "-" ++ pinned)
  · obtain ⟨next, member, named⟩ := found
    rcases renames next member with ⟨old, was, same⟩ | ⟨filled, plain, same⟩
    · exact absurd (same.trans named) (none old was)
    · left
      have validated : nameValidation (name ++ "-" ++ made) = name ++ "-" ++ pinned :=
        congrArg Prod.snd (same.symm.trans named)
      have whole : Plain (name ++ "-" ++ pinned) := validated ▸ plain_nameValidation _
      have front : Plain (name ++ "-") := (plain_append.mp whole).1
      rw [nameValidation_of_plain (plain_append.mpr ⟨front, plain⟩)] at validated
      exact ⟨(String.append_right_inj _).mp validated.symm, filled⟩
  · right
    exact fun next member named => found ⟨next, member, named⟩

/-- The object gets a version, and every template carries it or had nothing to go back to. -/
theorem Steady.renewed {made : String} {after : Cluster} (steady : Steady kind ns name start)
    (renames : Renames kind ns name made start after)
    (named : ∀ object ∈ after.objects kind, key object = (ns, name) → object.currentVersion = made)
    (templates : ∀ object ∈ after.objects kind, key object = (ns, name) → ∀ workload,
      ∀ stored ∈ after.workloads workload, stored.ns = ns → Registered object workload stored.name →
        stored.pinned kind name = made ∧ made ≠ "" ∨ NoRevision start kind ns name (stored.pinned kind name)) :
    Steady kind ns name after where
  undashed := by
    rcases renames.noRevision steady.undashed with ⟨rfl, filled⟩ | none
    · exact absurd rfl filled
    · exact none
  suits := by
    intro object member own workload stored present inNs registered
    have version := named object member own
    have its := templates object member own workload stored present inNs registered
    obtain ⟨rfl, rfl⟩ := Prod.mk.inj own
    rcases its with ⟨same, filled⟩ | none
    · exact Or.inl ⟨same.trans version.symm, same.trans_ne filled⟩
    · rcases renames.noRevision none with ⟨same, filled⟩ | still
      · exact Or.inl ⟨same.trans version.symm, same.trans_ne filled⟩
      · exact Or.inr still

/-- The only workload of the kind that the object registers carries the version, if there is one. -/
def Brought (workload : WorkloadKind) (object : Object kind) (version : String) (cluster : Cluster) : Prop :=
  object.registered workload ≠ "" → ∃ owner, split (object.registered workload) ',' = [owner] ∧
    ∀ stored ∈ cluster.workloads workload, key stored = (object.ns, owner) →
      stored.pinned kind object.name = version

/-- A roll-out that returns has reached the workload, and touches no workload of the other kind. -/
theorem brought_rollOut {after : Cluster} {version : String}
    (method : object.annotations.index "updateMethod" = "ignoreWhenShared")
    (ran : (rollOut workload object version).run Cluster.serve cluster = (after, .returned ())) :
    Brought workload object version after ∧
      ∀ other, other ≠ workload → after.workloads other = cluster.workloads other := by
  by_cases empty : object.registered workload = ""
  · rw [rollOut_unregistered empty, Program.run_ret, Prod.mk.injEq] at ran
    obtain ⟨rfl, _⟩ := ran
    exact ⟨fun filled => absurd empty filled, fun _ _ => rfl⟩
  match names : split (object.registered workload) ',' with
  | [] => exact absurd names (split_ne_nil _ _)
  | _ :: _ :: _ =>
    simp [rollOut, empty, method, names] at ran
  | [owner] =>
    cases found : (cluster.workloads workload).find? (object.ns, owner) with
    | none => simp [rollOut, empty, method, names, getWorkload, found] at ran
    | some stored =>
      obtain ⟨member, own⟩ := Table.find?_eq_some.mp found
      by_cases nil : stored.template.annotations = .nil
      · simp [rollOut, empty, method, names, getWorkload, found, nil, GoMap.assign?] at ran
      · obtain ⟨updated, workloads, runs, written⟩ := run_rollOut version empty method names member own nil
        rw [runs, Prod.mk.injEq] at ran
        obtain ⟨rfl, _⟩ := ran
        refine ⟨fun _ => ⟨owner, names, fun entry present same => ?_⟩, fun other different => ?_⟩
        · rw [Cluster.withWorkloads_workloads] at present
          obtain rfl := Table.unique present written.mem (same.trans (written.key_eq.trans own).symm)
          rw [written.answered]
          simp [Workload.pinned, stamp, Workload.carrying, GoMap.index]
        · simp only [Cluster.withWorkloads, Function.update_of_ne different]

/-- Where both roll-outs return, every registered workload carries the version. -/
theorem brought_rollOuts {after : Cluster} {version : String}
    (method : object.annotations.index "updateMethod" = "ignoreWhenShared")
    (ran : (rollOuts object version).run Cluster.serve cluster = (after, .returned ())) (workload : WorkloadKind) :
    Brought workload object version after := by
  obtain ⟨middle, _, first, second⟩ := Program.returned_bind ran
  obtain ⟨deployments, _⟩ := brought_rollOut method first
  obtain ⟨statefulSets, others⟩ := brought_rollOut method second
  cases workload with
  | statefulSet => exact statefulSets
  | deployment =>
    intro filled
    rw [others .deployment (by decide)]
    exact deployments filled

theorem Brought.pinned {version : String} {stored : Workload} (brought : Brought workload object version cluster)
    (present : stored ∈ cluster.workloads workload) (inNs : stored.ns = object.ns)
    (registered : Registered object workload stored.name) : stored.pinned kind object.name = version := by
  obtain ⟨owner, sole, carries⟩ := brought registered.1
  have names : stored.name ∈ [owner] := sole ▸ registered.2
  exact carries stored present (Prod.ext inNs (List.mem_singleton.mp names))

theorem Renames.of_created {before : Cluster} {draws : Draws} {created : Revision kind}
    {revisions : Table (Revision kind)} (follows : Follows kind object.ns object.name start before)
    (written : (before.revisions kind).Written (newRevision object (randomSequence draws 5)) created revisions) :
    Renames kind object.ns object.name (randomSequence draws 5) start (before.withRevisions kind revisions) := by
  intro next member
  rw [Cluster.withRevisions_revisions] at member
  rcases (written.members next).mp member with rfl | ⟨was, _⟩
  · exact Or.inr ⟨randomSequence_ne_empty draws 4, plain_randomSequence draws 5, written.key_eq⟩
  · exact Or.inl (follows.revisions next was)

theorem safe_publish_steady {before : Cluster} {draws : Draws} {created : Revision kind}
    {revisions : Table (Revision kind)} (steady : Steady kind object.ns object.name start)
    (unwritten : Unwritten object start before)
    (written : (before.revisions kind).Written (newRevision object (randomSequence draws 5)) created revisions) :
    (publish object created (randomSequence draws 5)).Safe soloRules
      (SteadyIfReturned kind object.ns object.name) (before.withRevisions kind revisions) := by
  have renames := Renames.of_created unwritten.follows written
  have filled : randomSequence draws 5 ≠ "" := randomSequence_ne_empty draws 4
  generalize randomSequence draws 5 = made at renames filled ⊢
  unfold publish
  cases assigned : object.annotate? made created.name with
  | none => exact fun _ _ => nofun
  | some annotated =>
    obtain ⟨_, rfl⟩ := Object.annotate?_eq_some assigned
    rintro _ rfl after answer served
    refine ⟨trivial, ?_⟩
    rcases Cluster.updateObject_cases served with ⟨rfl, refusal, _, rfl⟩ | ⟨updated, objects, accepted, rfl, rfl⟩
    · exact fun _ _ => nofun
    · have updating := (Table.written_of_update accepted).2
      have keys : key updated = key object := updating.key_eq
      have version : updated.currentVersion = made := by
        rw [updating.answered, Object.currentVersion_stamp, Object.currentVersion_annotate]
      have method : updated.annotations.index "updateMethod" = "ignoreWhenShared" := by
        rw [updating.answered]
        simp [stamp, Object.annotate]
      show (rollOuts updated made).Safe _ _ _
      refine .of_run (emits_rollOuts updated made) Eq.symm (fun _ _ _ _ _ served => ⟨trivial, served⟩) ?_
      intro returned
      have brought := brought_rollOuts method (Prod.ext rfl returned)
      have records := run_rollOuts updated made ((before.withRevisions kind revisions).withObjects kind objects)
      have sole : ∀ stored ∈ ((rollOuts updated made).run Cluster.serve
          ((before.withRevisions kind revisions).withObjects kind objects)).1.objects kind,
          key stored = (object.ns, object.name) → stored = updated := by
        intro stored member own
        rw [records.objects, Cluster.withObjects_objects] at member
        exact Table.unique member updating.mem (own.trans keys.symm)
      refine steady.renewed (fun next member => renames next (records.revisions ▸ member)) ?_ ?_
      · intro stored member own
        rw [sole stored member own, version]
      · intro stored member own workload owner present inNs registered
        obtain rfl := sole stored member own
        obtain ⟨spaces, names⟩ := Prod.mk.inj own
        rw [← names]
        exact Or.inl ⟨(brought workload).pinned present (inNs.trans spaces.symm) registered, filled⟩

/-- What ends before the object is written leaves every template suited. -/
theorem Unwritten.steady (steady : Steady kind object.ns object.name start) (cluster : Cluster)
    (outcome : Outcome ApiError Unit) (unwritten : Unwritten object start cluster) :
    SteadyIfReturned kind object.ns object.name cluster outcome :=
  fun _ => unwritten.follows.steady steady

theorem safe_createNew_steady (steady : Steady kind object.ns object.name start)
    (unwritten : Unwritten object start cluster) (previous : Revision kind) :
    (createNew object previous).Safe soloRules (SteadyIfReturned kind object.ns object.name) cluster := by
  have conduct : Conduct kind soloRules (Unwritten object start) fun _ => True := conduct_unwritten
  have aborts : ∀ world (outcome : Outcome ApiError Unit), outcome.Aborts → Unwritten object start world →
      SteadyIfReturned kind object.ns object.name world outcome :=
    fun world outcome _ => Unwritten.steady steady world outcome
  refine conduct.safe_write aborts unwritten trivial fun current world _ unwritten => ?_
  refine Program.Safe.bind (conduct.safe_stripLatest trivial 6 nofun unwritten) ?_
    (fun _ _ _ => nofun) (fun _ _ => nofun) fun _ => rfl
  rintro (_ | latest) world ⟨unwritten, _⟩
  · exact fun later same => same ▸ Unwritten.steady steady world _ unwritten
  · rintro _ rfl seeded draws served
    have unwritten := (conduct.seeds unwritten served).2
    refine ⟨trivial, ?_⟩
    rintro _ rfl after answer served
    refine ⟨trivial, ?_⟩
    rcases Cluster.createRevision_cases served with ⟨rfl, refusal, _, rfl⟩ | ⟨created, revisions, accepted, rfl, rfl⟩
    · refine conduct.safe_label aborts (by decide) unwritten trivial fun _ world _ unwritten => ?_
      cases latest with
      | nil => exact conduct.safe_panic aborts unwritten
      | cons first others =>
        refine conduct.safe_label aborts (by decide) unwritten trivial fun _ world _ unwritten => ?_
        exact conduct.safe_fail aborts unwritten
    · exact safe_publish_steady steady unwritten (Table.written_of_create accepted)

theorem safe_synchronize_steady (steady : Steady kind object.ns object.name cluster)
    (held : object ∈ cluster.objects kind) :
    (synchronize object).Safe soloRules (SteadyIfReturned kind object.ns object.name) cluster := by
  rintro _ rfl listed answer served
  obtain ⟨rfl, rfl⟩ := Cluster.listRevisions_cases served
  refine ⟨trivial, ?_⟩
  have unwritten : Unwritten object listed listed := ⟨.refl listed, held⟩
  have rests : (Program.ret () : Client Unit).Safe soloRules
      (SteadyIfReturned kind object.ns object.name) listed := fun _ same _ => same ▸ steady
  dsimp only [Program.ofExcept, Program.bind]
  split
  · rename_i current _
    split_ifs
    · have conduct : Conduct kind soloRules (Follows kind object.ns object.name listed) fun _ => True :=
        conduct_follows
      have copies : SafeCopy soloRules (Follows kind object.ns object.name listed) (fun _ => True) object := by
        intro before after revision restored answer _ copied follows served
        have kept := restored_of_restore? copied
        refine ⟨trivial, ?_⟩
        rcases Cluster.updateObject_cases served with ⟨rfl, _⟩ | ⟨updated, objects, accepted, rfl, _⟩
        · exact follows
        · exact follows.rewrite held kept.key kept.current kept.registered accepted
      have implies : ∀ world, Follows kind object.ns object.name listed world →
          Steady kind object.ns object.name world := fun _ follows => follows.steady steady
      have moves : (copyRevision object >>= fun _ => updateRevision (current.unlabel "current") >>= fun _ =>
          (Program.ret () : Client Unit)).Safe soloRules
            (fun after _ => Steady kind object.ns object.name after) listed := by
        refine conduct.safe_copyRevision implies copies (.refl listed) fun world follows => ?_
        refine conduct.safe_write (fun world _ _ => implies world) follows trivial fun _ world _ follows => ?_
        exact fun _ same => same ▸ implies world follows
      refine Program.Safe.mono ?_ moves
      exact fun _ _ steady _ => steady
    · exact safe_createNew_steady steady unwritten current
    · exact rests
  · exact rests

theorem safe_adoptOrCreate_steady (steady : Steady kind object.ns object.name cluster)
    (held : object ∈ cluster.objects kind) (unversioned : object.currentVersion = "") :
    (adoptOrCreate object).Safe soloRules (SteadyIfReturned kind object.ns object.name) cluster := by
  rintro _ rfl listed answer served
  obtain ⟨rfl, rfl⟩ := Cluster.listRevisions_cases served
  refine ⟨trivial, ?_⟩
  have unwritten : Unwritten object listed listed := ⟨.refl listed, held⟩
  -- no template carries the empty version as one to go back to
  have bare : ∀ workload, ∀ stored ∈ listed.workloads workload, stored.ns = object.ns →
      Registered object workload stored.name →
        NoRevision listed kind object.ns object.name (stored.pinned kind object.name) := by
    intro workload stored present inNs registered
    rcases steady.suits object held rfl workload stored present inNs registered with ⟨same, filled⟩ | none
    · exact absurd (same.trans unversioned) filled
    · exact none
  have annotated : ∀ {made name : String} {world : Cluster} {updated : Object kind}
      {objects : Table (Object kind)}, Renames kind object.ns object.name made listed world →
      world.workloads = listed.workloads → (world.objects kind).Written (object.annotate made name) updated objects →
        Steady kind object.ns object.name (world.withObjects kind objects) := by
    intro made name world updated objects renames workloads updating
    refine steady.renewed renames (fun stored member own => ?_) fun stored member own => ?_
    · rw [Cluster.withObjects_objects] at member
      obtain rfl := Table.unique member updating.mem (own.trans updating.key_eq.symm)
      rw [updating.answered, Object.currentVersion_stamp, Object.currentVersion_annotate]
    · rw [Cluster.withObjects_objects] at member
      obtain rfl := Table.unique member updating.mem (own.trans updating.key_eq.symm)
      intro workload owner present inNs registered
      have same : stored.registered workload = object.registered workload := by
        rw [updating.answered, Object.registered_stamp, Object.registered_annotate]
      rw [Registered, same] at registered
      rw [Cluster.withObjects_workloads, workloads] at present
      exact Or.inr (bare workload owner present inNs registered)
  dsimp only [Program.ofExcept, Program.bind]
  split
  · rintro _ rfl seeded draws served
    obtain ⟨rfl, rfl⟩ := Prod.mk.inj served
    refine ⟨trivial, ?_⟩
    rintro _ rfl after answer served
    refine ⟨trivial, ?_⟩
    rcases Cluster.createRevision_cases served with ⟨rfl, refusal, _, rfl⟩ | ⟨created, revisions, accepted, rfl, rfl⟩
    · rintro _ _ ⟨⟩
    · rintro _ rfl after answer served
      refine ⟨trivial, ?_⟩
      rcases Cluster.updateObject_cases served with ⟨rfl, refusal, _, rfl⟩ | ⟨updated, objects, updates, rfl, rfl⟩
      · rintro _ _ ⟨⟩
      · have renames := Renames.of_created unwritten.follows (Table.written_of_create accepted)
        exact fun _ same _ => same ▸ annotated renames rfl (Table.written_of_update updates).2
  · rename_i current _
    show Program.Safe _ _ (if differs object current = true then _ else _) listed
    split
    · exact safe_createNew_steady steady unwritten current
    · rintro _ rfl after answer served
      refine ⟨trivial, ?_⟩
      rcases Cluster.updateObject_cases served with ⟨rfl, refusal, _, rfl⟩ | ⟨updated, objects, updates, rfl, rfl⟩
      · rintro _ _ ⟨⟩
      · have renames : Renames kind object.ns object.name current.customVersion listed listed :=
          fun next member => Or.inl ⟨next, member, rfl⟩
        exact fun _ same _ => same ▸ annotated renames rfl (Table.written_of_update updates).2
  · exact fun _ same _ => same ▸ steady

/-- A reconcile that returns leaves every template suited. -/
theorem Steady.reconcile (steady : Steady kind ns name cluster)
    (returned : (cluster.reconcile kind ns name).2 = .returned ()) :
    Steady kind ns name (cluster.reconcile kind ns name).1 := by
  have safe : (Configurator.reconcile kind ns name).Safe soloRules (SteadyIfReturned kind ns name) cluster := by
    rintro _ rfl after answer served
    refine ⟨trivial, ?_⟩
    obtain ⟨rfl, ⟨error, rfl⟩ | ⟨object, member, own, rfl⟩⟩ := Cluster.getObject_cases served
    · exact fun _ same _ => same ▸ steady
    · obtain ⟨rfl, rfl⟩ := Prod.mk.inj own
      show Program.Safe _ _ (if object.currentVersion = "" then _ else _) after
      split
      · exact safe_adoptOrCreate_steady steady member ‹_›
      · exact safe_synchronize_steady steady member
  exact run_of_safe safe returned

end Reconcile

section Admission

variable {sent : Workload}

/-- The handlers add no name to a list but that of the workload. -/
theorem registered_register {object : Object kind} {owner called : String} {other : WorkloadKind}
    (listable : Listable owner) (registered : Registered (register workload owner object) other called) :
    Registered object other called ∨ other = workload ∧ called = owner := by
  have kept : ∀ {list : String}, other ≠ workload →
      ({ object with annotations := object.annotations.put workload.registry list } : Object kind).registered other =
        object.registered other := by
    intro list different
    have keys : other.registry ≠ workload.registry := by
      cases other <;> cases workload <;> first | exact absurd rfl different | decide
    simp [Object.registered, keys]
  have set : ∀ {list : String}, ({ object with annotations := object.annotations.put workload.registry list } :
      Object kind).registered workload = list := by
    intro list
    simp [Object.registered]
  dsimp only [register] at registered
  by_cases same : other = workload
  · subst same
    split_ifs at registered with empty present
    · rw [Registered, set, split_of_absent listable.2] at registered
      exact Or.inr ⟨rfl, List.mem_singleton.mp registered.2⟩
    · exact Or.inl registered
    · rw [Registered, set] at registered
      cases other with
      | deployment =>
        rcases List.mem_append.mp (split_append listable.2 ▸ registered.2) with before | added
        · exact Or.inl ⟨empty, before⟩
        · exact Or.inr ⟨rfl, List.mem_singleton.mp added⟩
      | statefulSet =>
        rw [extendRegistry, split_of_absent listable.2] at registered
        exact Or.inr ⟨rfl, List.mem_singleton.mp registered.2⟩
  · left
    split_ifs at registered
    · rwa [Registered, kept same] at registered
    · exact registered
    · rwa [Registered, kept same] at registered

/-- The object keeps its version and gets no workload but the one that is admitted. -/
structure Enrols (kind : Kind) (ns name : String) (workload : WorkloadKind) (sent : Workload)
    (before after : Cluster) : Prop where
  objects : ∀ next ∈ after.objects kind, key next = (ns, name) →
    ∃ old ∈ before.objects kind, key old = (ns, name) ∧ next.currentVersion = old.currentVersion ∧
      ∀ other called, Registered next other called →
        Registered old other called ∨ other = workload ∧ called = sent.name ∧ sent.ns = ns
  revisions : after.revisions = before.revisions
  workloads : after.workloads = before.workloads

namespace Enrols

theorem refl (cluster : Cluster) : Enrols kind ns name workload sent cluster cluster :=
  ⟨fun object member own => ⟨object, member, own, rfl, fun _ _ => Or.inl⟩, rfl, rfl⟩

theorem trans {first second third : Cluster} (earlier : Enrols kind ns name workload sent first second)
    (later : Enrols kind ns name workload sent second third) :
    Enrols kind ns name workload sent first third where
  objects := by
    intro next member own
    obtain ⟨middle, present, its, version, registers⟩ := later.objects next member own
    obtain ⟨old, was, first, same, before⟩ := earlier.objects middle present its
    refine ⟨old, was, first, version.trans same, fun other called registered => ?_⟩
    exact (registers other called registered).elim (before other called) Or.inr
  revisions := later.revisions.trans earlier.revisions
  workloads := later.workloads.trans earlier.workloads

end Enrols

theorem enlists_pin (listable : Listable sent.name) (other : Kind) (called : String) {after : Cluster}
    {outcome : Outcome ApiError (String × String)}
    (ran : (pin workload sent other called).run Cluster.serve cluster = (after, outcome)) :
    Enrols kind ns name workload sent cluster after ∧ ∀ pinned, outcome = .returned pinned →
      pinned.1 = other.tag ++ called ∧ ∀ object ∈ after.objects other,
        key object = (sent.ns, called) → object.currentVersion = pinned.2 := by
  cases found : (cluster.objects other).find? (sent.ns, called) with
  | none =>
    rw [run_pin_missing found, Prod.mk.injEq] at ran
    obtain ⟨rfl, rfl⟩ := ran
    exact ⟨.refl cluster, nofun⟩
  | some object =>
    obtain ⟨member, own⟩ := Table.find?_eq_some.mp found
    obtain ⟨stored, objects, accepted, runs⟩ := run_pin workload member own
    rw [runs, Prod.mk.injEq] at ran
    obtain ⟨rfl, rfl⟩ := ran
    have written := (Table.written_of_update accepted).2
    have keys : key stored = (sent.ns, called) := written.key_eq.trans ((key_register _ _ _).trans own)
    refine ⟨⟨fun next present its => ?_, rfl, rfl⟩, ?_⟩
    · by_cases kinds : kind = other
      · subst kinds
        rw [Cluster.withObjects_objects] at present
        rcases (written.members next).mp present with rfl | ⟨was, _⟩
        · obtain ⟨spaces, names⟩ := Prod.mk.inj (keys.symm.trans its)
          refine ⟨object, member, own.trans (keys.symm.trans its), ?_, fun other called registered => ?_⟩
          · rw [written.answered, Object.currentVersion_stamp, currentVersion_register]
          · rw [Registered, written.answered, Object.registered_stamp] at registered
            rcases registered_register listable registered with before | ⟨rfl, rfl⟩
            · exact Or.inl before
            · exact Or.inr ⟨rfl, rfl, spaces⟩
        · exact ⟨next, was, its, rfl, fun _ _ => Or.inl⟩
      · simp only [Cluster.withObjects, Function.update_of_ne kinds] at present
        exact ⟨next, present, its, rfl, fun _ _ => Or.inl⟩
    · rintro pinned ⟨⟩
      have names : stored.name = called := congrArg Prod.snd keys
      refine ⟨by rw [names], fun next present its => ?_⟩
      rw [Cluster.withObjects_objects] at present
      rw [Table.unique present written.mem (its.trans keys.symm)]

/-- The annotation, if there is one, pins the version of the object. -/
def PinsVersion (kind : Kind) (ns name : String) (added : GoMap String) (cluster : Cluster) : Prop :=
  ∀ version, added.lookup (kind.tag ++ name) = some version →
    ∀ object ∈ cluster.objects kind, key object = (ns, name) → object.currentVersion = version

theorem PinsVersion.later {added : GoMap String} {before after : Cluster}
    (pins : PinsVersion kind ns name added before) (enlists : Enrols kind ns name workload sent before after) :
    PinsVersion kind ns name added after := by
  intro version found next member own
  obtain ⟨old, was, its, same, _⟩ := enlists.objects next member own
  exact same.trans (pins version found old was its)

/-- The loops over the references of a workload pin the version that the object has. -/
theorem enlists_newAnnotations (listable : Listable sent.name) (references : List (Kind × String))
    {added : GoMap String} {cluster after : Cluster} {outcome : Outcome ApiError (GoMap String)}
    (ran : (newAnnotations workload sent references added).run Cluster.serve cluster = (after, outcome))
    (pins : PinsVersion kind sent.ns name added cluster) :
    (∀ ns, Enrols kind ns name workload sent cluster after) ∧ ∀ result, outcome = .returned result →
      PinsVersion kind sent.ns name result after := by
  induction references generalizing added cluster with
  | nil =>
    obtain ⟨rfl, rfl⟩ := Prod.mk.inj ran
    refine ⟨fun _ => .refl _, ?_⟩
    rintro result ⟨⟩
    exact pins
  | cons reference rest ih =>
    obtain ⟨other, called⟩ := reference
    unfold newAnnotations at ran
    split at ran
    · rw [Program.run_bind] at ran
      generalize first : (pin workload sent other called).run Cluster.serve cluster = middle at ran
      obtain ⟨middle, outcome'⟩ := middle
      have enlists : ∀ ns, Enrols kind ns name workload sent cluster middle :=
        fun _ => (enlists_pin listable other called first).1
      have pinned := (@enlists_pin kind workload sent.ns name cluster sent listable other called _ _ first).2
      have still := pins.later (enlists sent.ns)
      cases outcome' with
      | failed | panicked =>
        obtain ⟨rfl, rfl⟩ := Prod.mk.inj ran
        refine ⟨enlists, ?_⟩
        rintro result ⟨⟩
      | returned made =>
        obtain ⟨tagged, versions⟩ := pinned made rfl
        have grown : PinsVersion kind sent.ns name (added.put made.1 made.2) middle := by
          intro version found object member own
          rw [GoMap.lookup_put] at found
          split at found
          · rename_i same
            obtain ⟨rfl, rfl⟩ := pin_inj (same.trans tagged)
            obtain rfl := Option.some.inj found
            exact versions object member own
          · exact still version found object member own
        obtain ⟨later, result⟩ := ih ran grown
        exact ⟨fun ns => (enlists ns).trans (later ns), result⟩
    · exact ih ran pins

/-- What the API server makes of the annotations of a template when it applies a patch, for the keys that
a path of a patch spells as they are. -/
def Applied (patch : List PatchOperation) (before after : GoMap String) : Prop :=
  ∀ key, '/' ∉ key.toList → '~' ∉ key.toList → ∀ value, after.lookup key = some value →
    Puts patch key value ∨ before.lookup key = some value

/-- A path of a patch spells the name as it is. -/
def Spelled (name : String) : Prop := '/' ∉ name.toList ∧ '~' ∉ name.toList

instance (name : String) : Decidable (Spelled name) := inferInstanceAs (Decidable (_ ∧ _))

theorem Spelled.pin (spelled : Spelled name) (kind : Kind) :
    '/' ∉ (kind.tag ++ name).toList ∧ '~' ∉ (kind.tag ++ name).toList := by
  rw [String.toList_append]
  constructor <;> intro member <;> rcases List.mem_append.mp member with inTag | inName
  · cases kind <;> exact absurd inTag (by decide)
  · exact spelled.1 inName
  · cases kind <;> exact absurd inTag (by decide)
  · exact spelled.2 inName

theorem escapeKey_eq {key other : String} (spelled : '~' ∉ key.toList) (same : escapeKey other = key) :
    other = key := by
  by_cases slash : '/' ∈ other.toList
  · refine absurd ?_ spelled
    rw [← same, escapeKey, String.toList_ofList, List.mem_flatMap]
    exact ⟨'/', slash, by simp⟩
  · exact (escapeKey_of_plain slash).symm.trans same

/-- The value that a patch of the handlers puts under a pin is the one that they added. -/
theorem lookup_of_puts {added : GoMap String} {order : Iteration} {target remove : List (String × String)}
    {version : String} (iterates : Iterates order) (spelled : Spelled name)
    (puts : (Puts <| updateAnnotation target (order (added.put "config-sync-controller" "configurator")) remove)
      (kind.tag ++ name) version) : added.lookup (kind.tag ++ name) = some version := by
  obtain ⟨noSlash, noTilde⟩ := spelled.pin kind
  obtain ⟨entry, member, same, rfl⟩ := added_of_puts puts
  rw [escapeKey_of_plain noSlash] at same
  obtain same := escapeKey_eq noTilde same
  have found := iterates _ entry member
  rw [same, GoMap.lookup_put, if_neg (pin_ne_control kind name)] at found
  exact found

theorem enlists_createPatch (listable : Listable sent.name) {order : Iteration} {after : Cluster}
    {patch : List PatchOperation} (iterates : Iterates order) (spelled : Spelled name)
    (ran : (createPatch workload order sent).run Cluster.serve cluster = (after, .returned patch)) :
    (∀ ns, Enrols kind ns name workload sent cluster after) ∧
      ∀ version, Puts patch (kind.tag ++ name) version →
        ∀ object ∈ after.objects kind, key object = (sent.ns, name) → object.currentVersion = version := by
  have empty : PinsVersion kind sent.ns name (.make ∅) cluster := nofun
  obtain ⟨added, loops, rfl⟩ := returned_createPatch ran
  obtain ⟨enlists, pins⟩ := enlists_newAnnotations listable _ loops empty
  exact ⟨enlists, fun version puts => pins added rfl version (lookup_of_puts iterates spelled puts)⟩

end Admission

/-- A version that is pinned in the namespace suits the object. -/
def Fits (kind : Kind) (ns name : String) (cluster : Cluster) (itsNs pinned : String) : Prop :=
  itsNs = ns → ∀ object ∈ cluster.objects kind, key object = (ns, name) → Suits cluster object pinned

/-- The pod that a workload builds from its present template. -/
def Workload.pod (stored : Workload) (called : String) : Pod where
  ns := stored.ns
  name := called
  annotations := stored.template.annotations
  spec := stored.template.spec

/-- One step of a run: a workload is admitted and stored with the patch applied, a user edits the object, a
reconcile of it completes without a failing call, or a pod is admitted. A restricted run pins in the
templates and pods that users send only versions that suit the object, and its reconciles return. -/
inductive ScalingStep (restricted : Prop) (kind : Kind) (ns name : String) : Cluster → Cluster → Prop where
  | admission {cluster after : Cluster} {workload : WorkloadKind} {order : Iteration}
      {sent stored answer : Workload} {patch : List PatchOperation} {workloads : Table Workload}
      (listable : Listable sent.name) (iterates : Iterates order)
      (suits : restricted → Fits kind ns name cluster sent.ns (sent.pinned kind name))
      (ran : (createPatch workload order sent).run Cluster.serve cluster = (after, .returned patch))
      (same : key stored = key sent)
      (applied : Applied patch sent.template.annotations stored.template.annotations)
      (accepted : (after.workloads workload).create stored = .ok (answer, workloads) ∨
        (after.workloads workload).update stored = .ok (answer, workloads)) :
      ScalingStep restricted kind ns name cluster (after.withWorkloads workload workloads)
  | edit {cluster after : Cluster} (writes : UserWrite kind ns name (fun _ _ => False) cluster after) :
      ScalingStep restricted kind ns name cluster after
  | reconcile {cluster : Cluster} (returns : restricted → (cluster.reconcile kind ns name).2 = .returned ()) :
      ScalingStep restricted kind ns name cluster (cluster.reconcile kind ns name).1
  | podAdmission {cluster : Cluster} (pod : Pod)
      (suits : restricted → Fits kind ns name cluster pod.ns (pod.annotations.index (kind.tag ++ name))) :
      ScalingStep restricted kind ns name cluster ((configValidation pod).run Cluster.serve cluster).1

section Steps

/-- What suits an object depends on its version and on the names of the revisions. -/
theorem Suits.congr {before after : Cluster} {old next : Object kind} {pinned : String}
    (suits : Suits before old pinned) (same : key next = key old)
    (version : next.currentVersion = old.currentVersion) (revisions : after.revisions = before.revisions) :
    Suits after next pinned := by
  have names : next.name = old.name := congrArg Prod.snd same
  have spaces : next.ns = old.ns := congrArg Prod.fst same
  unfold Suits NoRevision
  rw [version, names, spaces, revisions]
  exact suits

/-- The stored template of an admitted workload suits the object. -/
theorem suits_admitted {sent stored : Workload} {patch : List PatchOperation} {old next : Object kind}
    {after : Cluster} (spelled : Spelled name) (undashed : NoRevision cluster kind ns name "")
    (own : key old = (ns, name)) (its : key next = (ns, name)) (version : next.currentVersion = old.currentVersion)
    (revisions : after.revisions = cluster.revisions) (suits : Suits cluster old (sent.pinned kind name))
    (puts : ∀ version, Puts patch (kind.tag ++ name) version → next.currentVersion = version)
    (applied : Applied patch sent.template.annotations stored.template.annotations) :
    Suits after next (stored.pinned kind name) := by
  have blank : Suits after next "" := by
    right
    obtain ⟨rfl, rfl⟩ := Prod.mk.inj its
    rw [NoRevision, revisions]
    exact undashed
  cases found : stored.template.annotations.lookup (kind.tag ++ name) with
  | none =>
    have unpinned : stored.pinned kind name = "" := by simp [Workload.pinned, GoMap.index, found]
    rw [unpinned]
    exact blank
  | some pinned =>
    have carries : stored.pinned kind name = pinned := by simp [Workload.pinned, GoMap.index, found]
    rw [carries]
    obtain ⟨noSlash, noTilde⟩ := spelled.pin kind
    rcases applied _ noSlash noTilde pinned found with put | before
    · by_cases empty : pinned = ""
      · rw [empty]
        exact blank
      · exact Or.inl ⟨(puts pinned put).symm, empty⟩
    · have sends : sent.pinned kind name = pinned := by simp [Workload.pinned, GoMap.index, before]
      rw [sends] at suits
      exact suits.congr (its.trans own.symm) version revisions

theorem Steady.admission {order : Iteration} {sent stored answer : Workload} {patch : List PatchOperation}
    {after : Cluster} {workloads : Table Workload} (steady : Steady kind ns name cluster) (spelled : Spelled name)
    (listable : Listable sent.name) (iterates : Iterates order)
    (suits : Fits kind ns name cluster sent.ns (sent.pinned kind name))
    (ran : (createPatch workload order sent).run Cluster.serve cluster = (after, .returned patch))
    (same : key stored = key sent)
    (applied : Applied patch sent.template.annotations stored.template.annotations)
    (written : (after.workloads workload).Written stored answer workloads) :
    Steady kind ns name (after.withWorkloads workload workloads) := by
  obtain ⟨enlists, puts⟩ := @enlists_createPatch kind workload name cluster sent listable order after patch iterates
    spelled ran
  have kept := (enlists ns).revisions
  refine ⟨?_, ?_⟩
  · rw [NoRevision, Cluster.withWorkloads_revisions, kept]
    exact steady.undashed
  intro object member own other entry present inNs registered
  obtain ⟨old, was, its, version, registers⟩ := (enlists ns).objects object member own
  have admitted : entry = answer → Suits (after.withWorkloads workload workloads) object (entry.pinned kind name) := by
    rintro rfl
    have spaces : sent.ns = ns := (congrArg Prod.fst (written.key_eq.trans same)).symm.trans inNs
    have pinned : entry.pinned kind name = stored.pinned kind name := by
      rw [written.answered]
      simp [Workload.pinned, stamp, GoMap.index]
    rw [pinned]
    refine suits_admitted spelled steady.undashed its own version kept (suits spaces old was its) ?_ applied
    exact fun version put => puts version put object member (spaces ▸ own)
  have before : entry ∈ cluster.workloads other → Registered old other entry.name →
      Suits (after.withWorkloads workload workloads) object (entry.pinned kind name) := by
    intro stays listed
    refine (steady.suits old was its other entry stays inNs listed).congr (own.trans its.symm) version kept
  by_cases kinds : other = workload
  · subst kinds
    rw [Cluster.withWorkloads_workloads] at present
    rcases (written.members entry).mp present with new | ⟨stays, different⟩
    · exact admitted new
    · rcases registers other entry.name registered with listed | ⟨_, names, spaces⟩
      · exact before ((enlists ns).workloads ▸ stays) listed
      · exact absurd ((Prod.ext (inNs.trans spaces.symm) names : key entry = key sent).trans same.symm) different
  · simp only [Cluster.withWorkloads, Function.update_of_ne kinds] at present
    rcases registers other entry.name registered with listed | ⟨rfl, _⟩
    · exact before ((enlists ns).workloads ▸ present) listed
    · exact absurd rfl kinds

/-- Every step of a restricted run leaves every template suited. -/
theorem Steady.step {after : Cluster} (steady : Steady kind ns name cluster) (spelled : Spelled name)
    (step : ScalingStep True kind ns name cluster after) : Steady kind ns name after := by
  cases step with
  | admission listable iterates suits ran same applied accepted =>
    have written := accepted.elim Table.written_of_create fun updated => (Table.written_of_update updated).2
    exact steady.admission spelled listable iterates (suits trivial) ran same applied written
  | edit writes =>
    obtain ⟨held, own, same, registered, version, accepted⟩ := writes
    have kept := version.resolve_right id
    exact (Follows.of_object held own kept registered (Table.written_of_update accepted).2).steady steady
  | reconcile returns => exact steady.reconcile (returns trivial)
  | podAdmission pod suits => exact (untouched_configValidation (suits trivial)).follows.steady steady

theorem Steady.run {start : Cluster} (steady : Steady kind ns name start) (spelled : Spelled name)
    (run : Relation.ReflTransGen (ScalingStep True kind ns name) start cluster) : Steady kind ns name cluster := by
  induction run with
  | refl => exact steady
  | tail _ step ih => exact ih.step spelled step

end Steps

/-- Along every restricted run from a state in which the template of every registered workload suits the
object, a pod that a registered workload builds from its present template leaves the object as it is. -/
theorem scaling_keeps {start : Cluster} (spelled : Spelled name) (steady : Steady kind ns name start)
    (run : Relation.ReflTransGen (ScalingStep True kind ns name) start cluster) {object : Object kind}
    (member : object ∈ cluster.objects kind) (own : key object = (ns, name)) {stored : Workload}
    (present : stored ∈ cluster.workloads workload) (inNs : stored.ns = ns)
    (registered : Registered object workload stored.name) (called : String) :
    object ∈ ((configValidation (stored.pod called)).run Cluster.serve cluster).1.objects kind := by
  have suited := steady.run spelled run
  refine ((untouched_configValidation fun _ other there its => ?_).objects object own).mpr member
  obtain rfl := Table.unique there member (its.trans own.symm)
  exact suited.suits other there its workload stored present inNs registered

namespace Sample

/-- The Deployment `api` as it is stored after an admission. -/
def stampedApi (version : String) (written : Nat) : Workload :=
  { api with
    template := { api.template with
      annotations := ((GoMap.make ∅).put "config-sync-controller" "configurator").put "ccm-settings" version }
    resourceVersion := written }

/-- `settings` with the Deployment `api`, whose template carries its first version. -/
def stamped : Cluster :=
  rolledOut.withWorkloads .deployment ⟨[stampedApi "aaaaa" 1], 1, by decide, by decide, by decide⟩

theorem steady_stamped : Steady .configMap "shop" "settings" stamped where
  undashed := by
    intro revision member
    obtain rfl : revision = settingsCCM "red" "aaaaa" ["current", "latest"] 1 := List.mem_singleton.mp member
    decide
  suits := by
    intro object member _ workload stored present _ _
    obtain rfl : object = enrolled "red" "aaaaa" 1 := List.mem_singleton.mp member
    cases workload with
    | deployment =>
      obtain rfl : stored = stampedApi "aaaaa" 1 := List.mem_singleton.mp present
      exact Or.inl (by decide)
    | statefulSet => exact absurd present (Table.not_mem_empty _)

def stampedBlue : Cluster :=
  stamped.withObjects .configMap (rolledOutBlue.objects .configMap)

theorem edits {before after : Cluster} (stored sent : Object .configMap) {answer : Object .configMap}
    {objects : Table (Object .configMap)} (held : stored ∈ before.objects .configMap)
    (own : key stored = ("shop", "settings")) (same : key sent = key stored)
    (annotations : sent.annotations = stored.annotations)
    (accepted : (before.objects .configMap).update sent = .ok (answer, objects))
    (stores : after = before.withObjects .configMap objects) (restricted : Prop) :
    ScalingStep restricted .configMap "shop" "settings" before after := by
  subst stores
  refine .edit (.mk held own same (fun workload => ?_) (Or.inl ?_) accepted) <;>
    simp only [Object.registered, Object.currentVersion, annotations]

theorem stampedBlue_kept :
    stamp 3 ((enrolled "blue" "aaaaa" 2).annotate "bbbbb" "settings-bbbbb") ∈
      ((configValidation ((stampedApi "bbbbb" 2).pod "api-1")).run Cluster.serve
        (stampedBlue.reconcile .configMap "shop" "settings").1).1.objects .configMap := by
  have accepted : (stamped.objects .configMap).update (enrolled "blue" "aaaaa" 1) =
      .ok (enrolled "blue" "aaaaa" 2, stampedBlue.objects .configMap) := by rfl
  have edit : ScalingStep True .configMap "shop" "settings" stamped stampedBlue :=
    edits (enrolled "red" "aaaaa" 1) (enrolled "blue" "aaaaa" 1) (List.mem_singleton_self _) rfl rfl rfl accepted
      rfl True
  have run := (Relation.ReflTransGen.single edit).tail (.reconcile fun _ => by rfl)
  have member : stamp 3 ((enrolled "blue" "aaaaa" 2).annotate "bbbbb" "settings-bbbbb") ∈
      (stampedBlue.reconcile .configMap "shop" "settings").1.objects .configMap := List.mem_singleton_self _
  have present : stampedApi "bbbbb" 2 ∈ (stampedBlue.reconcile .configMap "shop" "settings").1.workloads .deployment :=
    List.mem_singleton_self _
  exact scaling_keeps (by decide) steady_stamped run member rfl present rfl ⟨by decide, by decide⟩ "api-1"

/-- A pod of the present template of `api` brings another version of `settings` back. -/
def ApiReverts (cluster : Cluster) : Prop :=
  ∃ object ∈ cluster.objects .configMap, key object = ("shop", "settings") ∧
    ∃ stored ∈ cluster.workloads .deployment, stored.ns = "shop" ∧ Registered object .deployment stored.name ∧
      ∃ next ∈ ((configValidation (stored.pod "api-1")).run Cluster.serve cluster).1.objects .configMap,
        key next = key object ∧ next.currentVersion ≠ object.currentVersion ∧ next.content ≠ object.content

def broughtBack (object : Object .configMap) (text version : String) (written : Nat) : Object .configMap :=
  stamp written { object with
    annotations := (object.annotations.put "currentCustomConfigMapVersion" version).put "customConfigMap-name"
      ("settings-" ++ version)
    content := (settings text version written).content }

def shared (text version : String) (written : Nat) : Object .configMap :=
  { settings text version written with
    annotations := (settings text version written).annotations.put "deployments" "api,web" }

def sharing : Cluster :=
  (shop ⟨[shared "red" "aaaaa" 1], 1, by decide, by decide, by decide⟩
    (synced.revisions .configMap)).withWorkloads
      .deployment ⟨[stampedApi "aaaaa" 1, { stampedApi "aaaaa" 2 with name := "web" }], 2, by decide, by decide,
        by decide⟩

theorem steady_sharing : Steady .configMap "shop" "settings" sharing where
  undashed := by
    intro revision member
    obtain rfl : revision = settingsCCM "red" "aaaaa" ["current", "latest"] 1 := List.mem_singleton.mp member
    decide
  suits := by
    intro object member _ workload stored present _ _
    obtain rfl : object = shared "red" "aaaaa" 1 := List.mem_singleton.mp member
    cases workload with
    | deployment => rcases List.mem_pair.mp present with rfl | rfl <;> exact Or.inl (by decide)
    | statefulSet => exact absurd present (Table.not_mem_empty _)

def sharingBlue : Cluster :=
  sharing.withObjects .configMap ⟨[shared "blue" "aaaaa" 2], 2, by decide, by decide, by decide⟩

/-- An edit of a shared ConfigMap is not rolled out, and the next pod takes it back. -/
theorem sharing_reverts : ScalingStep False .configMap "shop" "settings" sharing sharingBlue ∧
    ApiReverts (sharingBlue.reconcile .configMap "shop" "settings").1 := by
  have accepted : (sharing.objects .configMap).update (shared "blue" "aaaaa" 1) =
      .ok (shared "blue" "aaaaa" 2, sharingBlue.objects .configMap) := by rfl
  refine ⟨edits (shared "red" "aaaaa" 1) (shared "blue" "aaaaa" 1) (List.mem_singleton_self _) rfl rfl rfl
    accepted rfl False, ?_⟩
  let object := stamp 3 ((shared "blue" "aaaaa" 2).annotate "bbbbb" "settings-bbbbb")
  have member : object ∈ (sharingBlue.reconcile .configMap "shop" "settings").1.objects .configMap :=
    List.mem_singleton_self _
  have present : stampedApi "aaaaa" 1 ∈
      (sharingBlue.reconcile .configMap "shop" "settings").1.workloads .deployment := List.mem_cons_self
  refine ⟨object, member, rfl, stampedApi "aaaaa" 1, present, rfl, ⟨by decide, by decide⟩,
    broughtBack object "red" "aaaaa" 4, ?_, rfl, by decide, by decide⟩
  exact List.mem_singleton_self _

def advanced : Cluster :=
  (shop ⟨[enrolled "blue" "bbbbb" 1], 1, by decide, by decide, by decide⟩
    (twoVersions.revisions .configMap)).withWorkloads
      .deployment ⟨[stampedApi "bbbbb" 1], 1, by decide, by decide, by decide⟩

theorem steady_advanced : Steady .configMap "shop" "settings" advanced where
  undashed := by
    intro revision member
    rcases List.mem_pair.mp member with rfl | rfl <;> decide
  suits := by
    intro object member _ workload stored present _ _
    obtain rfl : object = enrolled "blue" "bbbbb" 1 := List.mem_singleton.mp member
    cases workload with
    | deployment =>
      obtain rfl : stored = stampedApi "bbbbb" 1 := List.mem_singleton.mp present
      exact Or.inl (by decide)
    | statefulSet => exact absurd present (Table.not_mem_empty _)

/-- The user takes the template of `api` back to the first version. -/
def undone : Cluster :=
  advanced.withWorkloads .deployment ⟨[stampedApi "aaaaa" 2], 2, by decide, by decide, by decide⟩

def undoneGreen : Cluster :=
  undone.withObjects .configMap ⟨[enrolled "green" "bbbbb" 2], 2, by decide, by decide, by decide⟩

/-- An edit after a template has been taken back is lost with the next pod. -/
theorem undone_reverts : ScalingStep False .configMap "shop" "settings" advanced undone ∧
    ScalingStep False .configMap "shop" "settings" undone undoneGreen ∧ ApiReverts undoneGreen := by
  have loops : (newAnnotations .deployment (stampedApi "aaaaa" 1) (stampedApi "aaaaa" 1).template.spec.references
      (.make ∅)).run Cluster.serve advanced = (advanced, .returned (.make ∅)) := by rfl
  have ran := run_createPatch_of_loops loops apiOrder
  have accepted : (advanced.workloads .deployment).update (stampedApi "aaaaa" 1) =
      .ok (stampedApi "aaaaa" 2, undone.workloads .deployment) := by rfl
  have paints : (undone.objects .configMap).update (enrolled "green" "bbbbb" 1) =
      .ok (enrolled "green" "bbbbb" 2, undoneGreen.objects .configMap) := by rfl
  refine ⟨.admission (by decide) (iterates_inOrder _) nofun ran rfl (fun _ _ _ _ => Or.inr) (Or.inr accepted),
    edits (enrolled "blue" "bbbbb" 1) (enrolled "green" "bbbbb" 1) (List.mem_singleton_self _) rfl rfl rfl paints
      rfl False, ?_⟩
  refine ⟨enrolled "green" "bbbbb" 2, List.mem_singleton_self _, rfl, stampedApi "aaaaa" 2, List.mem_singleton_self _,
    rfl, ⟨by decide, by decide⟩, broughtBack (enrolled "green" "bbbbb" 2) "red" "aaaaa" 3, ?_, rfl, by decide,
    by decide⟩
  exact List.mem_singleton_self _

/-- `settings` once a pod of the first template has brought the first version back. -/
def aged : Cluster :=
  advanced.withObjects .configMap
    ⟨[broughtBack (enrolled "blue" "bbbbb" 1) "red" "aaaaa" 2], 2, by decide, by decide, by decide⟩

/-- After a pod of an older template the next pod of the present one changes the ConfigMap again. -/
theorem aged_reverts : ScalingStep False .configMap "shop" "settings" advanced aged ∧ ApiReverts aged := by
  have ran : (configValidation ((stampedApi "aaaaa" 1).pod "api-0")).run Cluster.serve advanced =
      (aged, .panicked) := by rfl
  have step : ScalingStep False .configMap "shop" "settings" advanced _ :=
    .podAdmission ((stampedApi "aaaaa" 1).pod "api-0") nofun
  rw [ran] at step
  let object := broughtBack (enrolled "blue" "bbbbb" 1) "red" "aaaaa" 2
  refine ⟨step, object, List.mem_singleton_self _, rfl, stampedApi "bbbbb" 1, List.mem_singleton_self _, rfl,
    ⟨by decide, by decide⟩, broughtBack object "blue" "bbbbb" 3, ?_, rfl, by decide, by decide⟩
  exact List.mem_singleton_self _

/-- Pods of present templates change a ConfigMap that is shared, one whose template was taken back before
its last edit, and one that a pod of an older template has changed. -/
theorem pods_revert :
    (Steady .configMap "shop" "settings" sharing ∧ ScalingStep False .configMap "shop" "settings" sharing sharingBlue ∧
      ApiReverts (sharingBlue.reconcile .configMap "shop" "settings").1) ∧
    (Steady .configMap "shop" "settings" advanced ∧
      ∃ middle, ScalingStep False .configMap "shop" "settings" advanced middle ∧
        ScalingStep False .configMap "shop" "settings" middle undoneGreen ∧ ApiReverts undoneGreen) ∧
    ScalingStep False .configMap "shop" "settings" advanced aged ∧ ApiReverts aged :=
  ⟨⟨steady_sharing, sharing_reverts⟩, ⟨steady_advanced, undone, undone_reverts⟩, aged_reverts⟩

end Sample

end Configurator
