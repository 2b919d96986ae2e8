import Configurator.Init
import Configurator.Reconciliation
import Configurator.Registry

namespace Configurator

open Resource

variable {kind : Kind} {workload : WorkloadKind} {ns name : String} {cluster before middle after : Cluster}
  {stored : Workload}

def Unversioned (cluster : Cluster) (kind : Kind) (ns name : String) : Prop :=
  ∃ object, (cluster.objects kind).find? (ns, name) = some object ∧ object.currentVersion = ""

def Versioned (cluster : Cluster) (kind : Kind) (ns name : String) : Prop :=
  ∃ object, (cluster.objects kind).find? (ns, name) = some object ∧ object.currentVersion ≠ ""

/-- An object gets its first version and lists a workload; nothing else changes. -/
structure Claims (workload : WorkloadKind) (owner : String) (kind : Kind) (ns name version : String)
    (before after : Cluster) : Prop where
  unversioned : Unversioned before kind ns name
  filled : version ≠ ""
  recorded : ∃ object, (after.objects kind).find? (ns, name) = some object ∧
    object.currentVersion = version ∧ Registered object workload owner
  others : ∀ other key, (other = kind → key ≠ (ns, name)) →
    (after.objects other).find? key = (before.objects other).find? key
  workloads : after.workloads = before.workloads

theorem registered_introduce {owner : String} (listable : Listable owner) (version revision : String)
    (object : Object kind) :
    Registered (Init.introduce workload owner version revision object) workload owner := by
  have enlisted : ∀ object : Object kind, Registered (Init.enlist workload owner object) workload owner := by
    intro object
    have written : ∀ list, ({ object with annotations := object.annotations.put workload.registry list } :
        Object kind).registered workload = list := fun list => by simp [Object.registered]
    dsimp only [Init.enlist]
    split_ifs with empty listed
    · rw [Registered, written, split_of_absent listable.2]
      exact ⟨listable.1, List.mem_singleton_self _⟩
    · exact ⟨empty, listed⟩
    · have appended : split (object.registered workload ++ "," ++ owner) ',' =
          split (object.registered workload) ',' ++ [owner] := split_append listable.2
      rw [Registered, written, appended]
      exact ⟨by simp, List.mem_append_right _ (List.mem_singleton_self _)⟩
  exact enlisted _

theorem Registered.stamp {object : Object kind} {owner : String} (registered : Registered object workload owner)
    (written : Nat) : Registered (stamp written object) workload owner := by
  rwa [Registered, Object.registered_stamp]

/-- What one reference of a workload does to its object. -/
theorem run_version {owner : String} {answer : Option String} (listable : Listable owner)
    (ran : (Init.version? workload ns owner kind name).run Cluster.serve before =
      (after, .returned answer)) :
    (answer = none ∧ after = before ∧ Versioned before kind ns name) ∨
      ∃ version, answer = some version ∧ Claims workload owner kind ns name version before after := by
  unfold Init.version? at ran
  cases found : (before.objects kind).find? (ns, name) with
  | none => simp [getObject, found] at ran
  | some object =>
    obtain ⟨member, own⟩ := Table.find?_eq_some.mp found
    by_cases unversioned : object.currentVersion = ""
    · right
      cases create : (before.revisions kind).create (newRevision object before.nextVersion) with
      | error refusal =>
        simp [getObject, found, unversioned, newCustomResource, createRevision, create] at ran
      | ok result =>
        obtain ⟨created, revisions⟩ := result
        obtain ⟨updated, objects, update, written⟩ := Table.update_of_current
          (Init.introduce workload owner before.nextVersion created.name object) member
          (Object.key_introduce _ _ _ _ _).symm (Object.version_introduce _ _ _ _ _).symm
        simp [getObject, found, unversioned, newCustomResource, createRevision, create, updateObject,
          update] at ran
        obtain ⟨rfl, rfl⟩ := ran
        have keys : key (Init.introduce workload owner before.nextVersion created.name object) = (ns, name) :=
          (Object.key_introduce _ _ _ _ _).trans own
        refine ⟨before.nextVersion, rfl, ⟨object, found, unversioned⟩, randomSequence_ne_empty _ _, ?_, ?_, rfl⟩
        · refine ⟨updated, ?_, ?_, ?_⟩
          · rw [Cluster.withObjects_objects, written.find?, if_pos keys.symm]
          · rw [written.answered, Object.currentVersion_stamp, Object.currentVersion_introduce]
          · rw [written.answered]
            exact (registered_introduce listable _ _ object).stamp _
        · intro other wanted different
          by_cases same : other = kind
          · subst same
            rw [Cluster.withObjects_objects, written.find?, keys, if_neg (different rfl)]
          · simp [Cluster.withObjects, Function.update_of_ne same]
    · left
      simp [getObject, found, unversioned] at ran
      exact ⟨ran.2.symm, ran.1.symm, object, found, unversioned⟩

/-- The workload refers to an object without a version and pins no version of it. -/
def Wants (cluster : Cluster) (stored : Workload) (ns : String) (references : List (Kind × String))
    (kind : Kind) (name : String) : Prop :=
  (kind, name) ∈ references ∧ stored.pinned kind name = "" ∧ Unversioned cluster kind ns name

/-- What the loops over the references of a workload do: every object that the workload
wants gets a version, which is among the new annotations. -/
structure Gathers (workload : WorkloadKind) (stored : Workload) (ns : String)
    (references : List (Kind × String)) (made added : GoMap String) (before after : Cluster) : Prop where
  workloads : after.workloads = before.workloads
  wanted : ∀ kind name, Wants before stored ns references kind name →
    ∃ object, (after.objects kind).find? (ns, name) = some object ∧ object.currentVersion ≠ "" ∧
      Registered object workload stored.name ∧
        added.lookup (kind.tag ++ name) = some object.currentVersion
  unwanted : ∀ kind key, (∀ name, key = (ns, name) → ¬ Wants before stored ns references kind name) →
    (after.objects kind).find? key = (before.objects kind).find? key
  kept : ∀ label, (∀ kind name, Wants before stored ns references kind name → label ≠ kind.tag ++ name) →
    added.lookup label = made.lookup label
  settled : ∀ kind name, (kind, name) ∈ references → stored.pinned kind name = "" →
    Versioned after kind ns name

namespace Gathers

variable {references : List (Kind × String)} {made added : GoMap String}

theorem nil (world : Cluster) : Gathers workload stored ns [] made made world world where
  workloads := rfl
  wanted := fun _ _ wants => absurd wants.1 List.not_mem_nil
  unwanted := fun _ _ _ => rfl
  kept := fun _ _ => rfl
  settled := fun _ _ member => absurd member List.not_mem_nil

theorem skip {reference : Kind × String} (rest : Gathers workload stored ns references made added before after)
    (pinned : ¬ Wants before stored ns (reference :: references) reference.1 reference.2)
    (settled : stored.pinned reference.1 reference.2 = "" → Versioned after reference.1 ns reference.2) :
    Gathers workload stored ns (reference :: references) made added before after := by
  have narrow : ∀ {kind name}, Wants before stored ns (reference :: references) kind name →
      Wants before stored ns references kind name := by
    intro kind name wants
    rcases List.mem_cons.mp wants.1 with rfl | member
    · exact absurd wants pinned
    · exact ⟨member, wants.2⟩
  have widen : ∀ {kind name}, Wants before stored ns references kind name →
      Wants before stored ns (reference :: references) kind name :=
    fun wants => ⟨List.mem_cons_of_mem _ wants.1, wants.2⟩
  refine ⟨rest.workloads, fun kind name wants => rest.wanted kind name (narrow wants), ?_, ?_, ?_⟩
  · exact fun kind key none => rest.unwanted kind key fun name same wants => none name same (widen wants)
  · exact fun label none => rest.kept label fun kind name wants => none kind name (widen wants)
  · intro kind name member unpinned
    rcases List.mem_cons.mp member with rfl | member
    · exact settled unpinned
    · exact rest.settled kind name member unpinned

theorem claim {version : String} (claims : Claims workload stored.name kind ns name version before middle)
    (unpinned : stored.pinned kind name = "")
    (rest : Gathers workload stored ns references (made.put (kind.tag ++ name) version) added middle after) :
    Gathers workload stored ns ((kind, name) :: references) made added before after := by
  obtain ⟨recorded, found, version_eq, registered⟩ := claims.recorded
  have own : Wants before stored ns ((kind, name) :: references) kind name :=
    ⟨List.mem_cons_self, unpinned, claims.unversioned⟩
  have done : ∀ {other reference}, Wants middle stored ns references other reference →
      (other, reference) ≠ (kind, name) := by
    rintro other reference ⟨_, _, object, present, unversioned⟩ same
    obtain ⟨rfl, rfl⟩ := Prod.mk.inj same
    obtain rfl := Option.some.inj (found.symm.trans present)
    exact claims.filled (version_eq.symm.trans unversioned)
  have same : ∀ {other reference}, (other, reference) ≠ (kind, name) →
      (middle.objects other).find? (ns, reference) = (before.objects other).find? (ns, reference) := by
    intro other reference different
    refine claims.others other _ fun kinds keys => different ?_
    rw [kinds, (Prod.mk.inj keys).2]
  have back : ∀ {other reference}, Wants middle stored ns references other reference →
      Wants before stored ns ((kind, name) :: references) other reference := by
    intro other reference wants
    obtain ⟨object, present, unversioned⟩ := wants.2.2
    exact ⟨List.mem_cons_of_mem _ wants.1, wants.2.1, object, (same (done wants)).symm.trans present,
      unversioned⟩
  have wanted : ∀ other reference, Wants before stored ns ((kind, name) :: references) other reference →
      ∃ object, (after.objects other).find? (ns, reference) = some object ∧ object.currentVersion ≠ "" ∧
        Registered object workload stored.name ∧
          added.lookup (other.tag ++ reference) = some object.currentVersion := by
    intro other reference wants
    by_cases first : (other, reference) = (kind, name)
    · obtain ⟨rfl, rfl⟩ := Prod.mk.inj first
      have stays := rest.unwanted other (ns, reference) fun again keys wantsAgain =>
        done wantsAgain (by rw [(Prod.mk.inj keys).2])
      have keeps := rest.kept (other.tag ++ reference) fun another again wantsAgain labels => by
        obtain ⟨rfl, rfl⟩ := pin_inj labels
        exact done wantsAgain rfl
      refine ⟨recorded, stays.trans found, version_eq ▸ claims.filled, registered, ?_⟩
      rw [keeps, GoMap.lookup_put, if_pos rfl, version_eq]
    · obtain ⟨object, present, unversioned⟩ := wants.2.2
      have member := (List.mem_cons.mp wants.1).resolve_left first
      exact rest.wanted other reference
        ⟨member, wants.2.1, object, (same first).trans present, unversioned⟩
  refine ⟨rest.workloads.trans claims.workloads, wanted, ?_, ?_, ?_⟩
  · intro other key none
    have later := rest.unwanted other key fun reference keys wants => none reference keys (back wants)
    refine later.trans (claims.others other key fun kinds keys => ?_)
    subst kinds
    exact none name keys own
  · intro label none
    rw [rest.kept label fun other reference wants => none other reference (back wants), GoMap.lookup_put,
      if_neg (none kind name own)]
  · refine forall_references_cons (fun _ => ?_) rest.settled
    obtain ⟨object, present, filled, _⟩ := wanted kind name own
    exact ⟨object, present, filled⟩

end Gathers

/-- A workload after a visit of the job: only what the visited one wants is pinned anew. -/
structure Repinned (before : Cluster) (stored : Workload) (visited : Prop) (entry next : Workload) :
    Prop where
  key_eq : key next = key entry
  spec : next.template.spec = entry.template.spec
  others : ¬ visited → next = entry
  pinned : ∀ kind name, ¬ Wants before stored stored.ns stored.template.spec.references kind name →
    next.pinned kind name = entry.pinned kind name

theorem Repinned.refl (before : Cluster) (stored : Workload) (visited : Prop) (entry : Workload) :
    Repinned before stored visited entry entry :=
  ⟨rfl, rfl, fun _ => rfl, fun _ _ _ => rfl⟩

/-- A visit of the job: what it leaves of a workload and of the objects. -/
structure Visits (workload : WorkloadKind) (stored : Workload) (before after : Cluster) : Prop where
  wanted : ∀ kind name, Wants before stored stored.ns stored.template.spec.references kind name →
    ∃ object, (after.objects kind).find? (stored.ns, name) = some object ∧ object.currentVersion ≠ "" ∧
      Registered object workload stored.name ∧ ∀ visited ∈ after.workloads workload,
        key visited = key stored → visited.pinned kind name = object.currentVersion
  unwanted : ∀ kind key, (∀ name, key = (stored.ns, name) →
      ¬ Wants before stored stored.ns stored.template.spec.references kind name) →
    (after.objects kind).find? key = (before.objects kind).find? key
  settled : ∀ kind name, (kind, name) ∈ stored.template.spec.references → stored.pinned kind name = "" →
    Versioned after kind stored.ns name
  forth : ∀ other, ∀ entry ∈ before.workloads other, ∃ next ∈ after.workloads other,
    Repinned before stored (other = workload ∧ key entry = key stored) entry next
  back : ∀ other, ∀ next ∈ after.workloads other, ∃ entry ∈ before.workloads other,
    Repinned before stored (other = workload ∧ key entry = key stored) entry next

namespace Gathers

variable {references : List (Kind × String)} {made added : GoMap String}

/-- The loops do what they should whenever they end without an error. -/
theorem of_run (listable : Listable stored.name) (ran : (Init.annotations workload ns stored references
      made).run Cluster.serve before = (after, .returned added)) :
    Gathers workload stored ns references made added before after := by
  induction references generalizing made before with
  | nil =>
    obtain ⟨rfl, same⟩ := Prod.mk.inj ran
    cases same
    exact nil before
  | cons reference rest ih =>
    obtain ⟨kind, name⟩ := reference
    unfold Init.annotations at ran
    split at ran
    · rename_i unpinned
      obtain ⟨middle, answer, looked, goes⟩ := Program.returned_bind ran
      rcases run_version listable looked with ⟨rfl, rfl, versioned⟩ | ⟨version, rfl, claims⟩
      · have rest := ih goes
        obtain ⟨object, found, filled⟩ := versioned
        have settled : ¬ Unversioned middle kind ns name := by
          rintro ⟨other, again, empty⟩
          obtain rfl := Option.some.inj (found.symm.trans again)
          exact filled empty
        have stays := rest.unwanted kind (ns, name) fun again keys wants => by
          obtain ⟨_, rfl⟩ := Prod.mk.inj keys
          exact settled wants.2.2
        exact skip rest (fun wants => settled wants.2.2) fun _ => ⟨object, stays.trans found, filled⟩
      · exact claim claims unpinned (ih goes)
    · rename_i pinned
      exact skip (ih ran) (fun wants => pinned wants.2.1) fun unpinned => absurd unpinned pinned

end Gathers

theorem lookup_merged (added annotations : GoMap String) (label : String) :
    (if annotations.isEmpty = true then added else GoMap.overlay added annotations).lookup label =
      (added.lookup label).or (annotations.lookup label) := by
  split
  · rename_i empty
    rw [GoMap.isEmpty_iff.mp empty label, Option.or_none]
  · rw [GoMap.lookup_overlay]

/-- To write the new annotations over the old ones completes the visit. -/
theorem Gathers.visits_of_written {merged added : GoMap String} {updated : Workload} {workloads : Table Workload}
    (gathers : Gathers workload stored stored.ns stored.template.spec.references (.make ∅) added before middle)
    (member : stored ∈ before.workloads workload)
    (lookups : ∀ label, merged.lookup label = (added.lookup label).or (stored.template.annotations.lookup label))
    (written : (middle.workloads workload).Written
      { stored with template := { stored.template with annotations := merged } } updated workloads) :
    Visits workload stored before (middle.withWorkloads workload workloads) := by
  have present : stored ∈ middle.workloads workload := by
    rw [gathers.workloads]
    exact member
  have pins : ∀ kind name, updated.pinned kind name =
      (((added.lookup (kind.tag ++ name)).or
        (stored.template.annotations.lookup (kind.tag ++ name))).getD "") := by
    intro kind name
    rw [written.answered, ← lookups]
    simp [Workload.pinned, stamp, GoMap.index]
  have unwanted : ∀ kind name, ¬ Wants before stored stored.ns stored.template.spec.references kind name →
      updated.pinned kind name = stored.pinned kind name := by
    intro kind name none
    rw [pins, gathers.kept (kind.tag ++ name) fun other again wants same => none (by
      obtain ⟨rfl, rfl⟩ := pin_inj same
      exact wants)]
    rfl
  have repinned : Repinned before stored (workload = workload ∧ key stored = key stored) stored updated :=
    ⟨written.key_eq, by rw [written.answered]; rfl, fun other => absurd ⟨rfl, rfl⟩ other, unwanted⟩
  refine ⟨fun kind name wants => ?_, gathers.unwanted, gathers.settled, fun other entry was => ?_,
    fun other next stands => ?_⟩
  · obtain ⟨object, found, filled, registered, looked⟩ := gathers.wanted kind name wants
    refine ⟨object, found, filled, registered, fun visited stands own => ?_⟩
    rw [Cluster.withWorkloads_workloads] at stands
    obtain rfl := Table.unique stands written.mem (own.trans written.key_eq.symm)
    rw [pins, looked]
    rfl
  · rw [← gathers.workloads] at was
    by_cases same : other = workload
    · subst same
      rw [Cluster.withWorkloads_workloads]
      by_cases own : key entry = key stored
      · obtain rfl := Table.unique was present own
        exact ⟨updated, written.mem, repinned⟩
      · exact ⟨entry, written.mem_of_ne was own, .refl _ _ _ _⟩
    · simp only [Cluster.withWorkloads, Function.update_of_ne same]
      exact ⟨entry, was, .refl _ _ _ _⟩
  · rw [← gathers.workloads]
    by_cases same : other = workload
    · subst same
      rw [Cluster.withWorkloads_workloads] at stands
      rcases (written.members next).mp stands with rfl | ⟨was, _⟩
      · exact ⟨stored, present, repinned⟩
      · exact ⟨next, was, .refl _ _ _ _⟩
    · simp only [Cluster.withWorkloads, Function.update_of_ne same] at stands
      exact ⟨next, stands, .refl _ _ _ _⟩

/-- Where the loops find nothing to write the workload had no object to pin. -/
theorem Gathers.visits_of_bare {added : GoMap String}
    (gathers : Gathers workload stored stored.ns stored.template.spec.references (.make ∅) added before after)
    (bare : added.isEmpty = true) : Visits workload stored before after := by
  have none : ∀ kind name, ¬ Wants before stored stored.ns stored.template.spec.references kind name := by
    intro kind name wants
    obtain ⟨object, _, _, _, found⟩ := gathers.wanted kind name wants
    rw [GoMap.isEmpty_iff.mp bare] at found
    cases found
  have same := gathers.workloads
  exact ⟨fun kind name wants => absurd wants (none kind name), gathers.unwanted, gathers.settled,
    fun other entry present => ⟨entry, same ▸ present, .refl _ _ _ _⟩,
    fun other next present => ⟨next, same ▸ present, .refl _ _ _ _⟩⟩

theorem visits_of_run (member : stored ∈ before.workloads workload) (listable : Listable stored.name)
    (ran : (Init.initWorkload workload stored.ns stored).run Cluster.serve before =
      (after, .returned ())) : Visits workload stored before after := by
  obtain ⟨middle, added, loops, ran⟩ := Program.returned_bind ran
  have gathers := Gathers.of_run listable loops
  dsimp only at ran
  split at ran
  · have lookups := lookup_merged added stored.template.annotations
    generalize (if stored.template.annotations.isEmpty = true then added
      else GoMap.overlay added stored.template.annotations) = merged at ran lookups
    have present : stored ∈ middle.workloads workload := by
      rw [gathers.workloads]
      exact member
    obtain ⟨updated, workloads, accepted, written⟩ := Table.update_of_current
      { stored with template := { stored.template with annotations := merged } } present rfl rfl
    simp [updateWorkload, accepted] at ran
    subst ran
    exact gathers.visits_of_written member lookups written
  · rename_i bare
    obtain ⟨rfl, -⟩ := Prod.mk.inj ran
    exact gathers.visits_of_bare (by simpa using bare)

variable {start : Cluster}

/-- The workloads in the namespace pin the version of an object as before, but for one. -/
def SamePins (before after : Cluster) (kind : Kind) (ns name : String)
    (except : WorkloadKind → ObjectKey → Prop) : Prop :=
  ∀ workload, ∀ entry ∈ before.workloads workload, ∀ next ∈ after.workloads workload,
    key next = key entry → entry.ns = ns → ¬ except workload (key entry) →
      next.pinned kind name = entry.pinned kind name

/-- The first workload that referred to an object without a version has pinned the version
that it got. -/
structure Taken (start cluster : Cluster) (kind : Kind) (ns name : String) (workload : WorkloadKind)
    (owner : Workload) : Prop where
  member : owner ∈ start.workloads workload
  inNs : owner.ns = ns
  refers : (kind, name) ∈ owner.template.spec.references
  unpinned : owner.pinned kind name = ""
  recorded : ∃ object, (cluster.objects kind).find? (ns, name) = some object ∧ object.currentVersion ≠ "" ∧
    Registered object workload owner.name ∧ ∀ next ∈ cluster.workloads workload,
      key next = key owner → next.pinned kind name = object.currentVersion
  others : SamePins start cluster kind ns name fun other key => other = workload ∧ key = Resource.key owner

/-- Nothing has happened to an object and to the pins of its version. -/
structure Same (start cluster : Cluster) (kind : Kind) (ns name : String) : Prop where
  object : (cluster.objects kind).find? (ns, name) = (start.objects kind).find? (ns, name)
  pins : SamePins start cluster kind ns name fun _ _ => False

/-- How far the job has come since its start. -/
structure Progress (start cluster : Cluster) : Prop where
  forth : ∀ workload, ∀ entry ∈ start.workloads workload, ∃ next ∈ cluster.workloads workload,
    key next = key entry ∧ next.template.spec = entry.template.spec
  back : ∀ workload, ∀ next ∈ cluster.workloads workload, ∃ entry ∈ start.workloads workload,
    key next = key entry ∧ next.template.spec = entry.template.spec
  objects : ∀ kind ns name, Same start cluster kind ns name ∨
    Unversioned start kind ns name ∧ ∃ workload owner, Taken start cluster kind ns name workload owner

theorem Progress.refl (start : Cluster) : Progress start start where
  forth _ entry member := ⟨entry, member, rfl, rfl⟩
  back _ next member := ⟨next, member, rfl, rfl⟩
  objects kind ns name := by
    refine Or.inl ⟨rfl, fun workload entry member next present same _ _ => ?_⟩
    rw [Table.unique present member same]

theorem Versioned.not_unversioned (versioned : Versioned cluster kind ns name) :
    ¬ Unversioned cluster kind ns name := by
  rintro ⟨other, found, empty⟩
  obtain ⟨object, present, filled⟩ := versioned
  obtain rfl := Option.some.inj (present.symm.trans found)
  exact filled empty

theorem Taken.versioned {owner : Workload} (taken : Taken start cluster kind ns name workload owner) :
    Versioned cluster kind ns name := by
  obtain ⟨object, found, filled, _⟩ := taken.recorded
  exact ⟨object, found, filled⟩

namespace Visits

variable (visits : Visits workload stored before after)
include visits

/-- What the visited workload does not want stays as it is. -/
theorem same (none : stored.ns = ns → ¬ Wants before stored ns stored.template.spec.references kind name) :
    Same before after kind ns name where
  object := by
    refine visits.unwanted kind (ns, name) fun again keys => ?_
    obtain ⟨rfl, rfl⟩ := Prod.mk.inj keys
    exact none rfl
  pins := by
    intro other entry member next present keys inNs _
    obtain ⟨same, stands, repinned⟩ := visits.forth other entry member
    obtain rfl := Table.unique stands present (repinned.key_eq.trans keys.symm)
    by_cases spaces : stored.ns = ns
    · subst spaces
      exact repinned.pinned kind name (none rfl)
    · rw [repinned.others fun visited => spaces ((Prod.mk.inj visited.2).1.symm.trans inNs)]

theorem samePins : SamePins before after kind ns name fun other key =>
    other = workload ∧ key = Resource.key stored := by
  intro other entry member next present keys _ different
  obtain ⟨same, stands, repinned⟩ := visits.forth other entry member
  obtain rfl := Table.unique stands present (repinned.key_eq.trans keys.symm)
  rw [repinned.others different]

theorem versioned (versioned : Versioned before kind ns name) : Versioned after kind ns name := by
  have same : Same before after kind ns name :=
    visits.same fun _ wants => versioned.not_unversioned wants.2.2
  obtain ⟨object, found, filled⟩ := versioned
  exact ⟨object, same.object.trans found, filled⟩

end Visits

theorem SamePins.trans {except : WorkloadKind → ObjectKey → Prop} (progress : Progress start before)
    (earlier : SamePins start before kind ns name except)
    (later : SamePins before after kind ns name except) : SamePins start after kind ns name except := by
  intro workload entry member next present keys inNs different
  obtain ⟨between, stands, same, _⟩ := progress.forth workload entry member
  have one := earlier workload entry member between stands same inNs different
  have spaces : between.ns = entry.ns := congrArg Prod.fst same
  rw [later workload between stands next present (keys.trans same.symm) (spaces.trans inNs)
    (same ▸ different), one]

theorem SamePins.mono {except wider : WorkloadKind → ObjectKey → Prop}
    (implies : ∀ workload key, except workload key → wider workload key)
    (pins : SamePins before after kind ns name except) : SamePins before after kind ns name wider :=
  fun workload entry member next present keys inNs different =>
    pins workload entry member next present keys inNs fun excepted => different (implies _ _ excepted)

/-- An object that is wanted is taken by the visited workload. -/
theorem Visits.taken (visits : Visits workload stored before after) (progress : Progress start before)
    (present : stored ∈ before.workloads workload) (untouched : Same start before kind stored.ns name)
    (wants : Wants before stored stored.ns stored.template.spec.references kind name) :
    ∃ owner, Taken start after kind stored.ns name workload owner := by
  obtain ⟨owner, member, same, spec⟩ := progress.back workload stored present
  have unpinned := untouched.pins workload owner member stored present same (congrArg Prod.fst same).symm nofun
  obtain ⟨object, found, filled, registered, pinned⟩ := visits.wanted kind name wants
  have names : stored.name = owner.name := congrArg Prod.snd same
  refine ⟨owner, member, (congrArg Prod.fst same).symm, spec ▸ wants.1, unpinned.symm.trans wants.2.1,
    ⟨object, found, filled, names ▸ registered, fun next stands own => pinned next stands (own.trans same.symm)⟩,
    SamePins.trans progress (untouched.pins.mono fun _ _ => False.elim) ?_⟩
  exact same ▸ visits.samePins

theorem Taken.visit {owner : Workload} {holder : WorkloadKind}
    (taken : Taken start before kind ns name holder owner) (progress : Progress start before)
    (visits : Visits workload stored before after) : Taken start after kind ns name holder owner := by
  have same : Same before after kind ns name :=
    visits.same fun _ wants => taken.versioned.not_unversioned wants.2.2
  obtain ⟨object, found, filled, registered, pinned⟩ := taken.recorded
  refine ⟨taken.member, taken.inNs, taken.refers, taken.unpinned,
    ⟨object, same.object.trans found, filled, registered, fun next present own => ?_⟩,
    taken.others.trans progress (same.pins.mono fun _ _ => False.elim)⟩
  obtain ⟨between, stands, repinned⟩ := visits.back holder next present
  have keys : key between = key owner := repinned.key_eq.symm.trans own
  have spaces : between.ns = ns := (congrArg Prod.fst keys).trans taken.inNs
  rw [same.pins holder between stands next present repinned.key_eq spaces nofun, pinned between stands keys]

theorem Progress.visit (progress : Progress start before) (present : stored ∈ before.workloads workload)
    (visits : Visits workload stored before after) : Progress start after where
  forth := by
    intro other entry member
    obtain ⟨between, stands, same, spec⟩ := progress.forth other entry member
    obtain ⟨next, stays, repinned⟩ := visits.forth other between stands
    exact ⟨next, stays, repinned.key_eq.trans same, repinned.spec.trans spec⟩
  back := by
    intro other next stays
    obtain ⟨between, stands, repinned⟩ := visits.back other next stays
    obtain ⟨entry, member, same, spec⟩ := progress.back other between stands
    exact ⟨entry, member, repinned.key_eq.trans same, repinned.spec.trans spec⟩
  objects := by
    intro kind ns name
    rcases progress.objects kind ns name with untouched | ⟨unversioned, holder, owner, taken⟩
    · by_cases wants : stored.ns = ns ∧ Wants before stored ns stored.template.spec.references kind name
      · obtain ⟨rfl, wants⟩ := wants
        obtain ⟨owner, taken⟩ := visits.taken progress present untouched wants
        refine Or.inr ⟨?_, workload, owner, taken⟩
        obtain ⟨object, found, empty⟩ := wants.2.2
        exact ⟨object, untouched.object.symm.trans found, empty⟩
      · have same : Same before after kind ns name := visits.same fun spaces own => wants ⟨spaces, own⟩
        exact Or.inl ⟨same.object.trans untouched.object, untouched.pins.trans progress same.pins⟩
    · exact Or.inr ⟨unversioned, holder, owner, taken.visit progress visits⟩

/-- Every object to which a workload refers without a pin has got its version. -/
def Supplied (start cluster : Cluster) (workload : WorkloadKind) (wanted : ObjectKey) : Prop :=
  ∀ entry ∈ start.workloads workload, key entry = wanted → ∀ kind name,
    (kind, name) ∈ entry.template.spec.references → entry.pinned kind name = "" →
      Versioned cluster kind entry.ns name

theorem Supplied.later {wanted : ObjectKey} (settled : Supplied start before workload wanted)
    (keeps : ∀ {kind ns name}, Versioned before kind ns name → Versioned after kind ns name) :
    Supplied start after workload wanted :=
  fun entry member same kind name refers unpinned => keeps (settled entry member same kind name refers unpinned)

theorem Visits.settles (visits : Visits workload stored before after) (progress : Progress start before)
    (present : stored ∈ before.workloads workload) : Supplied start after workload (key stored) := by
  intro entry member same kind name refers unpinned
  obtain ⟨other, was, keys, spec⟩ := progress.back workload stored present
  obtain rfl := Table.unique was member (keys.symm.trans same.symm)
  have spaces : stored.ns = other.ns := congrArg Prod.fst keys
  by_cases still : stored.pinned kind name = ""
  · exact spaces ▸ visits.settled kind name (spec ▸ refers) still
  · rcases progress.objects kind other.ns name with untouched | ⟨_, _, _, taken⟩
    · exact absurd ((untouched.pins workload other member stored present keys rfl nofun).trans unpinned) still
    · exact visits.versioned taken.versioned

/-- What a part of the job achieves. -/
structure Sweeps (start before after : Cluster) : Prop where
  progress : Progress start after
  versioned : ∀ {kind ns name}, Versioned before kind ns name → Versioned after kind ns name

theorem Sweeps.trans (earlier : Sweeps start before middle) (later : Sweeps start middle after) :
    Sweeps start before after :=
  ⟨later.progress, fun versioned => later.versioned (earlier.versioned versioned)⟩

def AllListable (start : Cluster) : Prop :=
  ∀ workload, ∀ stored ∈ start.workloads workload, Listable stored.name

theorem sweeps_workloads (listable : AllListable start) (progress : Progress start before)
    {list : List Workload} (distinct : (list.map key).Nodup)
    (listed : ∀ stored ∈ list, stored ∈ before.workloads workload ∧ stored.ns = ns)
    (ran : (Init.initWorkloads workload ns list).run Cluster.serve before = (after, .returned ())) :
    Sweeps start before after ∧ ∀ stored ∈ list, Supplied start after workload (key stored) := by
  induction list generalizing before with
  | nil =>
    obtain ⟨rfl, _⟩ := Prod.mk.inj ran
    exact ⟨⟨progress, id⟩, nofun⟩
  | cons stored rest ih =>
    obtain ⟨present, rfl⟩ := listed stored List.mem_cons_self
    have own : Listable stored.name := by
      obtain ⟨entry, member, same, _⟩ := progress.back workload stored present
      exact (show stored.name = entry.name from congrArg Prod.snd same) ▸ listable workload entry member
    obtain ⟨middle, _, visit, ran⟩ := Program.returned_bind ran
    have visits := visits_of_run present own visit
    have further := progress.visit present visits
    rw [List.map_cons, List.nodup_cons] at distinct
    obtain ⟨sweeps, settled⟩ := ih further distinct.2 (fun next member => by
      obtain ⟨was, inNs⟩ := listed next (List.mem_cons_of_mem _ member)
      obtain ⟨same, stays, repinned⟩ := visits.forth workload next was
      have equal := repinned.others fun visited =>
        distinct.1 (List.mem_map.mpr ⟨next, member, visited.2⟩)
      exact ⟨equal ▸ stays, inNs⟩) ran
    refine ⟨⟨sweeps.progress, fun versioned => sweeps.versioned (visits.versioned versioned)⟩, ?_⟩
    refine List.forall_mem_cons.mpr ⟨?_, settled⟩
    exact (visits.settles progress present).later sweeps.versioned

theorem sweeps_kind (listable : AllListable start) (progress : Progress start before)
    (ran : (Init.initWorkloads workload ns ((before.workloads workload).select fun stored =>
      decide (stored.ns = ns))).run Cluster.serve before = (after, .returned ())) :
    Sweeps start before after ∧ ∀ entry ∈ start.workloads workload, entry.ns = ns →
      Supplied start after workload (key entry) := by
  have distinct : (((before.workloads workload).select fun stored => decide (stored.ns = ns)).map key).Nodup :=
    (List.filter_sublist.map key).nodup (before.workloads workload).distinct
  have listed : ∀ stored ∈ (before.workloads workload).select (fun stored => decide (stored.ns = ns)),
      stored ∈ before.workloads workload ∧ stored.ns = ns := by
    intro stored member
    simpa using Table.mem_select.mp member
  obtain ⟨sweeps, settled⟩ := sweeps_workloads listable progress distinct listed ran
  refine ⟨sweeps, fun entry member inNs => ?_⟩
  obtain ⟨next, stands, same, _⟩ := progress.forth workload entry member
  have spaces : next.ns = ns := (congrArg Prod.fst same).trans inNs
  exact same ▸ settled next (Table.mem_select.mpr ⟨stands, by simpa using spaces⟩)

theorem run_listWorkloads {α : Type} (next : List Workload → Client α) (cluster : Cluster) :
    (listWorkloads workload ns >>= next).run Cluster.serve cluster =
      (next ((cluster.workloads workload).select fun stored => decide (stored.ns = ns))).run Cluster.serve
        cluster := rfl

theorem sweeps_namespaces (listable : AllListable start) (namespaces : List String)
    (progress : Progress start before)
    (ran : (Init.initNamespaces namespaces).run Cluster.serve before = (after, .returned ())) :
    Sweeps start before after ∧ ∀ workload, ∀ entry ∈ start.workloads workload, entry.ns ∈ namespaces →
      Supplied start after workload (key entry) := by
  induction namespaces generalizing before with
  | nil =>
    obtain ⟨rfl, _⟩ := Prod.mk.inj ran
    exact ⟨⟨progress, id⟩, fun _ _ _ => nofun⟩
  | cons ns rest ih =>
    unfold Init.initNamespaces at ran
    rw [run_listWorkloads] at ran
    obtain ⟨middle, _, deployments, ran⟩ := Program.returned_bind ran
    obtain ⟨first, settledFirst⟩ := sweeps_kind listable progress deployments
    rw [run_listWorkloads] at ran
    obtain ⟨last, _, statefulSets, ran⟩ := Program.returned_bind ran
    obtain ⟨second, settledSecond⟩ := sweeps_kind listable first.progress statefulSets
    obtain ⟨others, settled⟩ := ih second.progress ran
    refine ⟨(first.trans second).trans others, fun workload entry member inNs => ?_⟩
    rcases List.mem_cons.mp inNs with here | later
    · cases workload with
      | deployment =>
        exact (settledFirst entry member here).later fun has => others.versioned (second.versioned has)
      | statefulSet => exact (settledSecond entry member here).later others.versioned
    · exact settled workload entry member later

/-- Every workload that refers to an object pins the version of the object and stands in its
list. -/
def Complete (cluster : Cluster) : Prop :=
  ∀ workload, ∀ stored ∈ cluster.workloads workload, ∀ kind name,
    (kind, name) ∈ stored.template.spec.references → ∀ object ∈ cluster.objects kind,
      key object = (stored.ns, name) →
        stored.pinned kind name = object.currentVersion ∧ Registered object workload stored.name

/-- A workload that pins a version of an object to which it refers pins the right one and
stands in the list. -/
def PinsRight (cluster : Cluster) : Prop :=
  ∀ workload, ∀ stored ∈ cluster.workloads workload, ∀ kind name,
    (kind, name) ∈ stored.template.spec.references → stored.pinned kind name ≠ "" →
      ∀ object ∈ cluster.objects kind, key object = (stored.ns, name) →
        stored.pinned kind name = object.currentVersion ∧ Registered object workload stored.name

/-- An object to which a workload refers without a pin has no version yet, and no other
workload refers to it. -/
def Unshared (cluster : Cluster) : Prop :=
  ∀ workload, ∀ stored ∈ cluster.workloads workload, ∀ kind name,
    (kind, name) ∈ stored.template.spec.references → stored.pinned kind name = "" →
      ∀ object ∈ cluster.objects kind, key object = (stored.ns, name) → object.currentVersion = "" ∧
        ∀ other, ∀ entry ∈ cluster.workloads other, entry.ns = stored.ns →
          (kind, name) ∈ entry.template.spec.references → other = workload ∧ entry.name = stored.name

section Complete

variable {entry other : Workload} {object : Object kind}

/-- A reference without a pin, to an object without a version, is taken by one workload. -/
theorem Progress.taken (progress : Progress start after)
    (settled : Supplied start after workload (key entry)) (member : entry ∈ start.workloads workload)
    (refers : (kind, name) ∈ entry.template.spec.references) (unpinned : entry.pinned kind name = "")
    (unversioned : Unversioned start kind entry.ns name) :
    ∃ holder owner, Taken start after kind entry.ns name holder owner := by
  rcases progress.objects kind entry.ns name with untouched | ⟨_, taken⟩
  · obtain ⟨object, found, filled⟩ := settled entry member rfl kind name refers unpinned
    obtain ⟨first, present, empty⟩ := unversioned
    have same := Option.some.inj (found.symm.trans (untouched.object.trans present))
    exact absurd (same ▸ empty) filled
  · exact taken

/-- Nobody but the one that took an object comes to pin its version. -/
theorem Taken.only {holder : WorkloadKind} {owner : Workload}
    (taken : Taken start after kind ns name holder owner) (progress : Progress start after)
    (complete : Complete after) (member : entry ∈ start.workloads workload) (inNs : entry.ns = ns)
    (refers : (kind, name) ∈ entry.template.spec.references) (unpinned : entry.pinned kind name = "") :
    workload = holder ∧ key entry = key owner := by
  by_contra different
  obtain ⟨next, stands, same, spec⟩ := progress.forth workload entry member
  obtain ⟨object, found, filled, _⟩ := taken.recorded
  obtain ⟨present, own⟩ := Table.find?_eq_some.mp found
  have unchanged := taken.others workload entry member next stands same inNs different
  have spaces : next.ns = ns := (congrArg Prod.fst same).trans inNs
  obtain ⟨pinned, _⟩ := complete workload next stands kind name (spec ▸ refers) object present
    (own.trans (by rw [spaces]))
  exact filled (pinned.symm.trans (unchanged.trans unpinned))

/-- Every reference is complete after the job if nobody shares an object without a version. -/
theorem Progress.complete (progress : Progress start after)
    (settled : ∀ workload, ∀ entry ∈ start.workloads workload, Supplied start after workload (key entry))
    (right : PinsRight start) (unshared : Unshared start) : Complete after := by
  intro workload next stands kind name refers object present own
  obtain ⟨entry, member, same, spec⟩ := progress.back workload next stands
  obtain ⟨spaces, names⟩ := Prod.mk.inj same
  rw [spec] at refers
  rw [spaces] at own
  rw [names]
  have found := Table.find?_eq_some.mpr ⟨present, own⟩
  rcases progress.objects kind entry.ns name with untouched | ⟨⟨first, was, empty⟩, holder, owner, taken⟩
  · obtain ⟨before, own⟩ := Table.find?_eq_some.mp (untouched.object.symm.trans found)
    have pins := untouched.pins workload entry member next stands same rfl nofun
    rw [pins]
    by_cases unpinned : entry.pinned kind name = ""
    · obtain ⟨empty, _⟩ := unshared workload entry member kind name refers unpinned object before own
      obtain ⟨other, again, filled⟩ := settled workload entry member entry member rfl kind name refers unpinned
      obtain rfl := Option.some.inj (again.symm.trans found)
      exact absurd empty filled
    · exact right workload entry member kind name refers unpinned object before own
  · obtain ⟨before, firstKey⟩ := Table.find?_eq_some.mp was
    have unpinned : entry.pinned kind name = "" := by
      by_contra pinned
      have wrong := right workload entry member kind name refers pinned first before firstKey
      exact pinned (wrong.1.trans empty)
    obtain ⟨_, alone⟩ := unshared workload entry member kind name refers unpinned first before firstKey
    obtain ⟨rfl, sameName⟩ := alone holder owner taken.member taken.inNs taken.refers
    obtain ⟨recorded, again, _, registered, pinned⟩ := taken.recorded
    obtain rfl := Option.some.inj (again.symm.trans found)
    have ownerKey : key next = key owner := same.trans (Prod.ext taken.inNs.symm sameName.symm)
    exact ⟨pinned next stands ownerKey, sameName ▸ registered⟩

/-- If every reference is complete after the job, nobody shares an object without a version. -/
theorem Progress.unshared (progress : Progress start after)
    (settled : ∀ workload, ∀ entry ∈ start.workloads workload, Supplied start after workload (key entry))
    (right : PinsRight start) (complete : Complete after) : Unshared start := by
  intro workload entry member kind name refers unpinned object before own
  have found := Table.find?_eq_some.mpr ⟨before, own⟩
  have empty : object.currentVersion = "" := by
    by_contra filled
    have versioned : Versioned start kind entry.ns name := ⟨object, found, filled⟩
    rcases progress.objects kind entry.ns name with untouched | ⟨unversioned, _⟩
    · obtain ⟨next, stands, same, spec⟩ := progress.forth workload entry member
      obtain ⟨present, _⟩ := Table.find?_eq_some.mp (untouched.object.trans found)
      have spaces : next.ns = entry.ns := congrArg Prod.fst same
      obtain ⟨pinned, _⟩ := complete workload next stands kind name (spec ▸ refers) object present
        (own.trans (by rw [spaces]))
      have pins := untouched.pins workload entry member next stands same rfl nofun
      exact filled (pinned.symm.trans (pins.trans unpinned))
    · exact versioned.not_unversioned unversioned
  refine ⟨empty, fun other entry' member' inNs refers' => ?_⟩
  obtain ⟨holder, owner, taken⟩ := progress.taken (settled workload entry member) member refers unpinned
    ⟨object, found, empty⟩
  have unpinned' : entry'.pinned kind name = "" := by
    by_contra pinned
    have wrong := right other entry' member' kind name refers' pinned object before (own.trans (by rw [inNs]))
    exact pinned (wrong.1.trans empty)
  obtain ⟨rfl, one⟩ := taken.only progress complete member rfl refers unpinned
  obtain ⟨rfl, two⟩ := taken.only progress complete member' inNs refers' unpinned'
  exact ⟨rfl, congrArg Prod.snd (two.trans one.symm)⟩

end Complete

/-- Where every pin is right, the job makes every workload complete exactly when the objects
that somebody refers to without a pin have no version and are not shared. -/
theorem complete_iff (listable : AllListable start)
    (placed : ∀ workload, ∀ stored ∈ start.workloads workload, stored.ns ∈ start.namespaces)
    (right : PinsRight start)
    (ran : Init.initController.run Cluster.serve start = (after, .returned ())) :
    Complete after ↔ Unshared start := by
  have swept : Sweeps start start after ∧ ∀ workload, ∀ entry ∈ start.workloads workload,
      entry.ns ∈ start.namespaces → Supplied start after workload (key entry) :=
    sweeps_namespaces listable start.namespaces (.refl start) ran
  have settled := fun workload entry member =>
    swept.2 workload entry member (placed workload entry member)
  constructor
  · intro complete
    exact swept.1.progress.unshared settled right complete
  · intro unshared
    exact swept.1.progress.complete settled right unshared

namespace Sample

/-- `settings` as a user has created it, and Deployments that refer to it. -/
def startingWith (deployments : Table Workload) : Cluster :=
  (shop ⟨[{ settings "red" "" 1 with annotations := .nil }], 1, by decide, by decide, by decide⟩
    .empty).withWorkloads .deployment deployments

def starting : Cluster :=
  startingWith ⟨[{ api with resourceVersion := 1 }], 1, by decide, by decide, by decide⟩

def startingBoth : Cluster :=
  startingWith ⟨[{ api with resourceVersion := 1 }, { api with name := "web", resourceVersion := 2 }], 2,
    by decide, by decide, by decide⟩

theorem starting_deployments {deployments : Table Workload} {workload : WorkloadKind} {stored : Workload}
    (member : stored ∈ (startingWith deployments).workloads workload) :
    workload = .deployment ∧ stored ∈ deployments := by
  cases workload with
  | deployment => exact ⟨rfl, member⟩
  | statefulSet => exact absurd member (Table.not_mem_empty stored)

theorem starting_complete : Complete (Init.initController.run Cluster.serve starting).1 := by
  have only : ∀ {workload stored}, stored ∈ starting.workloads workload →
      workload = .deployment ∧ stored = { api with resourceVersion := 1 } := by
    intro workload stored member
    obtain ⟨same, listed⟩ := starting_deployments member
    exact ⟨same, List.mem_singleton.mp listed⟩
  refine (complete_iff (fun workload stored member => ?_) (fun workload stored member => ?_)
    (fun workload stored member kind name _ pinned => absurd ?_ pinned) rfl).mpr ?_
  · obtain ⟨rfl, rfl⟩ := only member
    exact ⟨by decide, by decide⟩
  · obtain ⟨rfl, rfl⟩ := only member
    exact List.mem_singleton_self _
  · obtain ⟨rfl, rfl⟩ := only member
    rfl
  · intro workload stored member kind name refers _ object present _
    obtain ⟨rfl, rfl⟩ := only member
    obtain ⟨rfl, rfl⟩ := Prod.mk.inj (List.mem_singleton.mp refers)
    obtain rfl := List.mem_singleton.mp present
    refine ⟨rfl, fun other entry listed _ _ => ?_⟩
    obtain ⟨rfl, rfl⟩ := only listed
    exact ⟨rfl, rfl⟩

/-- The second workload that refers to `settings` gets neither a pin nor a place in its list. -/
theorem startingBoth_incomplete : AllListable startingBoth ∧
    (∀ workload, ∀ stored ∈ startingBoth.workloads workload, stored.ns ∈ startingBoth.namespaces ∧
      ∀ kind name, (kind, name) ∈ stored.template.spec.references →
        ((startingBoth.objects kind).find? (stored.ns, name)).isSome) ∧
    PinsRight startingBoth ∧ (Init.initController.run Cluster.serve startingBoth).2 = .returned () ∧
    ¬ Complete (Init.initController.run Cluster.serve startingBoth).1 := by
  have only : ∀ {workload stored}, stored ∈ startingBoth.workloads workload →
      workload = .deployment ∧ (stored = { api with resourceVersion := 1 } ∨
        stored = { api with name := "web", resourceVersion := 2 }) := by
    intro workload stored member
    obtain ⟨same, listed⟩ := starting_deployments member
    refine ⟨same, (List.mem_cons.mp listed).imp_right List.mem_singleton.mp⟩
  refine ⟨fun workload stored member => ?_, fun workload stored member => ⟨?_, fun kind name refers => ?_⟩,
    fun workload stored member kind name refers pinned => absurd ?_ pinned, rfl, fun complete => ?_⟩
  · rcases only member with ⟨rfl, rfl | rfl⟩ <;> exact ⟨by decide, by decide⟩
  · rcases only member with ⟨rfl, rfl | rfl⟩ <;> exact List.mem_singleton_self _
  · rcases only member with ⟨rfl, rfl | rfl⟩ <;>
      (obtain ⟨rfl, rfl⟩ := Prod.mk.inj (List.mem_singleton.mp refers); rfl)
  · rcases only member with ⟨rfl, rfl | rfl⟩ <;> rfl
  · have web := complete .deployment { api with name := "web", resourceVersion := 2 }
      (List.mem_cons_of_mem _ (List.mem_singleton_self _)) .configMap "settings" (List.mem_singleton_self _)
      (stamp 2 (Init.introduce .deployment "api" "bbbbb" "settings-bbbbb"
        { settings "red" "" 1 with annotations := .nil })) (List.mem_singleton_self _) rfl
    exact absurd web.1 (by decide)

end Sample

end Configurator
