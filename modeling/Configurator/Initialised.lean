import Configurator.Idempotence
import Configurator.Startup
import Configurator.Templates

namespace Configurator

open Resource

variable {kind : Kind} {workload : WorkloadKind} {ns name : String} {cluster before middle after : Cluster}
  {stored : Workload} {α β : Type}

/-- Every reference is pinned by the template, or its object has a version. -/
def Workload.Settled (stored : Workload) (cluster : Cluster) : Prop :=
  ∀ kind name, (kind, name) ∈ stored.template.spec.references → stored.pinned kind name = "" →
    Versioned cluster kind stored.ns name

/-- That holds of the workloads of a kind in a namespace. -/
def SettledIn (cluster : Cluster) (workload : WorkloadKind) (ns : String) : Prop :=
  ∀ stored ∈ cluster.workloads workload, stored.ns = ns → stored.Settled cluster

/-- And of all workloads that the job can see. -/
def Initialised (cluster : Cluster) : Prop :=
  ∀ ns ∈ cluster.namespaces, ∀ workload, SettledIn cluster workload ns

section Matures

/-- The version of an object is not taken away. -/
def Object.Ripens (object next : Object kind) : Prop :=
  object.currentVersion ≠ "" → next.currentVersion ≠ ""

/-- The references of a workload stay, and no pin is taken away. -/
structure Workload.Ripens (stored next : Workload) : Prop where
  spec : next.template.spec = stored.template.spec
  pinned : ∀ kind name, next.pinned kind name = "" → stored.pinned kind name = ""

/-- What the job does to a cluster in any number of calls. -/
structure Matures (before after : Cluster) : Prop where
  namespaces : after.namespaces = before.namespaces
  objects : ∀ kind, (before.objects kind).Evolves Object.Ripens (after.objects kind)
  workloads : ∀ workload, (before.workloads workload).Evolves Workload.Ripens (after.workloads workload)
  later : ∀ workload, (before.workloads workload).Later (after.workloads workload)

theorem Object.Ripens.refl (object : Object kind) : object.Ripens object := id

theorem Workload.Ripens.refl (stored : Workload) : stored.Ripens stored := ⟨rfl, fun _ _ => id⟩

theorem Workload.Ripens.trans {first second third : Workload} (earlier : first.Ripens second)
    (later : second.Ripens third) : first.Ripens third :=
  ⟨later.spec.trans earlier.spec, fun kind name empty => earlier.pinned kind name (later.pinned kind name empty)⟩

theorem Workload.ripens_stamp (clock : Nat) (stored : Workload) : stored.Ripens (stamp clock stored) where
  spec := rfl
  pinned kind name empty := by
    simpa [Workload.pinned, stamp] using empty

namespace Matures

theorem of_same (namespaces : after.namespaces = before.namespaces) (objects : after.objects = before.objects)
    (workloads : after.workloads = before.workloads) : Matures before after where
  namespaces := namespaces
  objects _ := objects ▸ .refl Object.Ripens.refl _
  workloads _ := workloads ▸ .refl Workload.Ripens.refl _
  later _ := workloads ▸ .refl _

theorem refl (cluster : Cluster) : Matures cluster cluster := .of_same rfl rfl rfl

theorem trans (earlier : Matures before middle) (later : Matures middle after) : Matures before after where
  namespaces := later.namespaces.trans earlier.namespaces
  objects kind := (earlier.objects kind).trans (fun one two => two ∘ one) (later.objects kind)
  workloads workload := (earlier.workloads workload).trans Workload.Ripens.trans (later.workloads workload)
  later workload := (earlier.later workload).trans (later.later workload)

theorem of_object {object sent updated : Object kind} {objects : Table (Object kind)}
    (member : object ∈ cluster.objects kind) (own : key object = key sent) (filled : sent.currentVersion ≠ "")
    (written : (cluster.objects kind).Written sent updated objects) :
    Matures cluster (cluster.withObjects kind objects) where
  namespaces := rfl
  objects := by
    intro other
    by_cases same : other = kind
    · subst same
      rw [Cluster.withObjects_objects]
      refine written.evolves Object.Ripens.refl member own fun _ => ?_
      rw [written.answered, Object.currentVersion_stamp]
      exact filled
    · simp only [Cluster.withObjects, Function.update_of_ne same]
      exact .refl Object.Ripens.refl _
  workloads _ := .refl Workload.Ripens.refl _
  later _ := .refl _

theorem of_workload {sent updated : Workload} {workloads : Table Workload}
    (member : stored ∈ cluster.workloads workload) (own : key stored = key sent) (ripens : stored.Ripens sent)
    (written : (cluster.workloads workload).Written sent updated workloads) :
    Matures cluster (cluster.withWorkloads workload workloads) where
  namespaces := rfl
  objects _ := .refl Object.Ripens.refl _
  workloads := by
    intro other
    by_cases same : other = workload
    · subst same
      rw [Cluster.withWorkloads_workloads]
      refine written.evolves Workload.Ripens.refl member own ?_
      rw [written.answered]
      exact ripens.trans (Workload.ripens_stamp _ sent)
    · simp only [Cluster.withWorkloads, Function.update_of_ne same]
      exact .refl Workload.Ripens.refl _
  later := by
    intro other
    by_cases same : other = workload
    · subst same
      rw [Cluster.withWorkloads_workloads]
      exact written.later
    · simp only [Cluster.withWorkloads, Function.update_of_ne same]
      exact .refl _

theorem versioned (matures : Matures before after) (versioned : Versioned before kind ns name) :
    Versioned after kind ns name := by
  obtain ⟨object, found, filled⟩ := versioned
  obtain ⟨member, own⟩ := Table.find?_eq_some.mp found
  obtain ⟨next, stands, same, ripens⟩ := (matures.objects kind).forth object member
  exact ⟨next, Table.find?_eq_some.mpr ⟨stands, same.trans own⟩, ripens filled⟩

theorem settled (matures : Matures before after) (settled : stored.Settled before) : stored.Settled after :=
  fun kind name refers unpinned => matures.versioned (settled kind name refers unpinned)

theorem settledIn (matures : Matures before after)
    (settled : ∀ stored ∈ before.workloads workload, stored.ns = ns → stored.Settled after) :
    SettledIn after workload ns := by
  intro next stands inNs kind name refers unpinned
  obtain ⟨entry, member, same, ripens⟩ := (matures.workloads workload).back next stands
  have spaces : next.ns = entry.ns := congrArg Prod.fst same
  rw [spaces]
  exact settled entry member (spaces.symm.trans inNs) kind name (ripens.spec ▸ refers)
    (ripens.pinned kind name unpinned)

theorem stillSettledIn (matures : Matures before after) (settled : SettledIn before workload ns) :
    SettledIn after workload ns :=
  matures.settledIn fun stored member inNs => matures.settled (settled stored member inNs)

end Matures

end Matures

/-- If a run of the program returns, the cluster has matured and the postcondition holds. -/
abbrev Ripening (holds : α → Cluster → Prop) (program : Client α) (cluster : Cluster) : Prop :=
  program.Safe soloRules
    (fun after outcome => ∀ value, outcome = .returned value → Matures cluster after ∧ holds value after) cluster

section Runs

variable {holds : α → Cluster → Prop}

theorem ripening_ret {value : α} (ends : holds value cluster) : Ripening holds (Program.ret value) cluster := by
  rintro _ rfl other same
  cases same
  exact ⟨.refl cluster, ends⟩

theorem ripening_fail {error : ApiError} : Ripening holds (Program.fail error) cluster :=
  fun _ _ => nofun

theorem Ripening.since {program : Client α} (matures : Matures before cluster)
    (ripening : Ripening holds program cluster) : program.Safe soloRules
      (fun after outcome => ∀ value, outcome = .returned value → Matures before after ∧ holds value after) cluster :=
  Program.Safe.mono (fun _ _ post value same => (post value same).imp_left matures.trans) ripening

theorem Ripening.mono {weaker : α → Cluster → Prop} {program : Client α}
    (ripening : Ripening holds program cluster)
    (implies : ∀ value after, Matures cluster after → holds value after → weaker value after) :
    Ripening weaker program cluster :=
  Program.Safe.mono (fun after _ post value same =>
    ⟨(post value same).1, implies value after (post value same).1 (post value same).2⟩) ripening

theorem Ripening.bind {program : Client β} {next : β → Client α} {between : β → Cluster → Prop}
    (ripening : Ripening between program cluster)
    (continues : ∀ value world, Matures cluster world → between value world → Ripening holds (next value) world) :
    Ripening holds (program >>= next) cluster :=
  Program.Safe.bind ripening
    (fun value world post =>
      (continues value world (post value rfl).1 (post value rfl).2).since (post value rfl).1)
    (fun _ _ _ => nofun) (fun _ _ => nofun) fun _ => rfl

theorem ripening_call {request : Call} {next : Answer request → Client α}
    (served : ∀ after answer, cluster.serve request = (after, answer) →
      Matures cluster after ∧ Ripening holds (next answer) after) :
    Ripening holds (Program.call request next) cluster := by
  rintro _ rfl after answer reacts
  obtain ⟨matures, continues⟩ := served after answer reacts
  exact ⟨trivial, continues.since matures⟩

/-- The body of the loops leaves the object of its reference with a version. -/
theorem ripening_version {owner : String} (cluster : Cluster) :
    Ripening (fun answer after => Versioned after kind ns name ∧ answer ≠ some "")
      (Init.version? workload ns owner kind name) cluster := by
  refine ripening_call fun after answer served => ?_
  obtain ⟨rfl, ⟨error, rfl⟩ | ⟨object, member, own, rfl⟩⟩ := Cluster.getObject_cases served
  · exact ⟨.refl after, ripening_fail⟩
  refine ⟨.refl after, ?_⟩
  show Ripening _ (if object.currentVersion = "" then _ else _) after
  split
  swap
  · rename_i versioned
    exact ripening_ret ⟨⟨object, Table.find?_eq_some.mpr ⟨member, own⟩, versioned⟩, nofun⟩
  refine ripening_call fun seeded draws served => ?_
  obtain ⟨rfl, -⟩ := Prod.mk.inj served
  refine ⟨.of_same rfl rfl rfl, ripening_call fun made answer served => ?_⟩
  rcases Cluster.createRevision_cases served with ⟨rfl, refusal, _, rfl⟩ | ⟨created, revisions, _, rfl, rfl⟩
  · exact ⟨.refl _, ripening_fail⟩
  refine ⟨.of_same rfl rfl rfl, ripening_call fun last answer served => ?_⟩
  rcases Cluster.updateObject_cases served with ⟨rfl, refusal, _, rfl⟩ | ⟨updated, objects, accepted, rfl, rfl⟩
  · exact ⟨.refl _, ripening_fail⟩
  have written := (Table.written_of_update accepted).2
  have sameKey := Object.key_introduce workload owner (randomSequence draws 5) created.name object
  have filled : (Init.introduce workload owner (randomSequence draws 5) created.name object).currentVersion ≠ "" := by
    rw [Object.currentVersion_introduce]
    exact randomSequence_ne_empty draws 4
  refine ⟨.of_object member sameKey.symm filled written, ripening_ret ⟨⟨updated, ?_, ?_⟩, ?_⟩⟩
  · rw [Cluster.withObjects_objects]
    exact Table.find?_eq_some.mpr ⟨written.mem, written.key_eq.trans (sameKey.trans own)⟩
  · rw [written.answered, Object.currentVersion_stamp]
    exact filled
  · intro empty
    exact randomSequence_ne_empty draws 4 (Option.some.inj empty)

/-- After the loops every object that the workload does not pin has a version, and the new
annotations are versions. -/
theorem ripening_annotations (references : List (Kind × String)) (made : GoMap String)
    (versions : ∀ label, made.lookup label ≠ some "") (cluster : Cluster) :
    Ripening (fun added after => (∀ label, added.lookup label ≠ some "") ∧
      ∀ kind name, (kind, name) ∈ references → stored.pinned kind name = "" → Versioned after kind ns name)
      (Init.annotations workload ns stored references made) cluster := by
  induction references generalizing made cluster with
  | nil => exact ripening_ret ⟨versions, fun _ _ => nofun⟩
  | cons reference rest ih =>
    obtain ⟨kind, name⟩ := reference
    unfold Init.annotations
    split
    · refine (ripening_version cluster).bind fun answer world _ read => ?_
      obtain ⟨versioned, filled⟩ := read
      have visited : ∀ made, (∀ label, GoMap.lookup made label ≠ some "") →
          Ripening (fun added after => (∀ label, added.lookup label ≠ some "") ∧
            ∀ other reference, (other, reference) ∈ (kind, name) :: rest → stored.pinned other reference = "" →
              Versioned after other ns reference) (Init.annotations workload ns stored rest made) world := by
        intro made versions
        refine (ih made versions world).mono fun added after matures done => ⟨done.1, ?_⟩
        exact forall_references_cons (fun _ => matures.versioned versioned) done.2
      cases answer with
      | none => exact visited made versions
      | some version =>
        refine visited _ fun label => ?_
        rw [GoMap.lookup_put]
        split
        · exact filled
        · exact versions label
    · rename_i pinned
      refine (ih made versions cluster).mono fun added after _ done => ⟨done.1, ?_⟩
      exact forall_references_cons (fun unpinned => absurd unpinned pinned) done.2

/-- A visit of the job leaves the workload settled. That the update goes through says that the
workload is stored as it was listed. -/
theorem ripening_workload (seen : (cluster.workloads workload).Seen stored) :
    Ripening (fun _ after => stored.Settled after) (Init.initWorkload workload stored.ns stored) cluster := by
  have versions : ∀ label, (GoMap.make (∅ : Finmap fun _ : String => String)).lookup label ≠ some "" := by
    intro label
    simp [GoMap.lookup]
  refine (ripening_annotations stored.template.spec.references (.make ∅) versions cluster).bind
    fun added world matures done => ?_
  obtain ⟨versions, settled⟩ := done
  dsimp only
  split
  swap
  · exact ripening_ret settled
  have lookups := lookup_merged added stored.template.annotations
  generalize (if stored.template.annotations.isEmpty = true then added
    else GoMap.overlay added stored.template.annotations) = merged at lookups
  have ripens : stored.Ripens { stored with template := { stored.template with annotations := merged } } := by
    refine ⟨rfl, fun kind name empty => ?_⟩
    have none : added.lookup (kind.tag ++ name) = none := by
      by_contra found
      obtain ⟨version, found⟩ := Option.ne_none_iff_exists'.mp found
      refine versions (kind.tag ++ name) (found.trans (congrArg some ?_))
      simpa [Workload.pinned, GoMap.index, lookups, found] using empty
    simpa [Workload.pinned, GoMap.index, lookups, none] using empty
  refine ripening_call fun after answer served => ?_
  rcases Cluster.updateWorkload_cases served with ⟨rfl, refusal, _, rfl⟩ | ⟨updated, workloads, accepted, rfl, rfl⟩
  · exact ⟨.refl _, ripening_fail⟩
  obtain ⟨⟨entry, member, sameKey, sameVersion⟩, written⟩ := Table.written_of_update accepted
  obtain rfl : entry = stored := (seen.later (matures.later workload)).same member sameKey sameVersion
  have repinned : Matures world (world.withWorkloads workload workloads) := .of_workload member sameKey ripens written
  exact ⟨repinned, ripening_ret (repinned.settled settled)⟩

theorem ripening_workloads (list : List Workload)
    (seen : ∀ stored ∈ list, (cluster.workloads workload).Seen stored ∧ stored.ns = ns) :
    Ripening (fun _ after => ∀ stored ∈ list, stored.Settled after) (Init.initWorkloads workload ns list) cluster := by
  induction list generalizing cluster with
  | nil => exact ripening_ret nofun
  | cons stored rest ih =>
    obtain ⟨first, rfl⟩ := seen stored List.mem_cons_self
    refine (ripening_workload first).bind fun _ world matures settled => ?_
    have later := ih fun next member =>
      (seen next (List.mem_cons_of_mem _ member)).imp_left fun seen => seen.later (matures.later workload)
    exact later.mono fun _ after further others => List.forall_mem_cons.mpr ⟨further.settled settled, others⟩

theorem ripening_kind (cluster : Cluster) :
    Ripening (fun _ after => SettledIn after workload ns) (do
      let list ← listWorkloads workload ns
      Init.initWorkloads workload ns list) cluster := by
  refine ripening_call fun after answer served => ?_
  obtain ⟨rfl, rfl⟩ := Prod.mk.inj served
  refine ⟨.refl cluster, (ripening_workloads _ fun stored member => ?_).mono fun _ after matures settled => ?_⟩
  · obtain ⟨present, inNs⟩ := Table.mem_select.mp member
    exact ⟨.of_mem present, by simpa using inNs⟩
  · exact matures.settledIn fun stored present inNs =>
      settled stored (Table.mem_select.mpr ⟨present, by simpa using inNs⟩)

theorem ripening_namespaces (namespaces : List String) (cluster : Cluster) :
    Ripening (fun _ after => ∀ ns ∈ namespaces, ∀ workload, SettledIn after workload ns)
      (Init.initNamespaces namespaces) cluster := by
  induction namespaces generalizing cluster with
  | nil => exact ripening_ret nofun
  | cons ns rest ih =>
    have parts : Init.initNamespaces (ns :: rest) = (do
        (do let list ← listWorkloads .deployment ns; Init.initWorkloads .deployment ns list)
        (do let list ← listWorkloads .statefulSet ns; Init.initWorkloads .statefulSet ns list)
        Init.initNamespaces rest) := by
      simp only [Init.initNamespaces, bind_assoc]
    rw [parts]
    refine (ripening_kind cluster).bind fun _ middle _ deployments => ?_
    refine (ripening_kind middle).bind fun _ last further statefulSets => ?_
    refine (ih last).mono fun _ after matures others => List.forall_mem_cons.mpr ⟨fun workload => ?_, others⟩
    cases workload with
    | deployment => exact (further.trans matures).stillSettledIn deployments
    | statefulSet => exact matures.stillSettledIn statefulSets

/-- A completed run of the job leaves nothing to do. -/
theorem initialised_of_run (ran : Init.initController.run Cluster.serve cluster = (after, .returned ())) :
    Initialised after := by
  have ripening : Ripening (fun _ after => ∀ ns ∈ cluster.namespaces, ∀ workload, SettledIn after workload ns)
      Init.initController cluster := by
    refine ripening_call fun after answer served => ?_
    obtain ⟨rfl, rfl⟩ := Prod.mk.inj served
    exact ⟨.refl cluster, ripening_namespaces cluster.namespaces cluster⟩
  have ends := run_of_safe ripening
  rw [ran] at ends
  obtain ⟨matures, settled⟩ := ends () rfl
  intro ns listed
  rw [matures.namespaces] at listed
  exact settled ns listed

end Runs

/-- A run of the program returns the value and only reads. -/
structure Rests (program : Client α) (cluster : Cluster) (value : α) : Prop where
  run : program.run Cluster.serve cluster = (cluster, .returned value)
  reads : ∀ call ∈ program.calls Cluster.serve cluster, ¬ call.Writes

section Rests

theorem rests_ret (value : α) (cluster : Cluster) : Rests (Program.ret value) cluster value :=
  ⟨rfl, nofun⟩

theorem Rests.bind {program : Client β} {next : β → Client α} {value : β} {result : α}
    (rests : Rests program cluster value) (continues : Rests (next value) cluster result) :
    Rests (program >>= next) cluster result where
  run := by
    rw [Program.run_bind, rests.run]
    exact continues.run
  reads := by
    rw [Program.calls_bind, rests.run]
    intro call member
    rcases List.mem_append.mp member with earlier | later
    · exact rests.reads call earlier
    · exact continues.reads call later

theorem rests_version {owner : String} (versioned : Versioned cluster kind ns name) :
    Rests (Init.version? workload ns owner kind name) cluster none := by
  obtain ⟨object, found, filled⟩ := versioned
  constructor
  · simp [Init.version?, getObject, found, filled]
  · simp [Init.version?, getObject, found, filled, Call.Writes]

theorem rests_annotations {references : List (Kind × String)} (made : GoMap String)
    (settled : ∀ kind name, (kind, name) ∈ references → stored.pinned kind name = "" → Versioned cluster kind ns name) :
    Rests (Init.annotations workload ns stored references made) cluster made := by
  induction references with
  | nil => exact rests_ret made cluster
  | cons reference rest ih =>
    obtain ⟨kind, name⟩ := reference
    have others := ih fun other reference member => settled other reference (List.mem_cons_of_mem _ member)
    unfold Init.annotations
    split
    · rename_i unpinned
      exact (rests_version (settled kind name List.mem_cons_self unpinned)).bind others
    · exact others

theorem rests_workload (settled : stored.Settled cluster) :
    Rests (Init.initWorkload workload stored.ns stored) cluster () := by
  refine (rests_annotations (.make ∅) settled).bind ?_
  exact rests_ret () cluster

theorem rests_workloads {list : List Workload} (settled : ∀ stored ∈ list, stored.ns = ns ∧ stored.Settled cluster) :
    Rests (Init.initWorkloads workload ns list) cluster () := by
  induction list with
  | nil => exact rests_ret () cluster
  | cons stored rest ih =>
    obtain ⟨⟨rfl, own⟩, others⟩ := List.forall_mem_cons.mp settled
    exact (rests_workload own).bind (ih others)

theorem rests_list (workload : WorkloadKind) (ns : String) (cluster : Cluster) :
    Rests (listWorkloads workload ns) cluster
      ((cluster.workloads workload).select fun stored => decide (stored.ns = ns)) := by
  refine ⟨rfl, fun call member => ?_⟩
  obtain rfl := List.mem_singleton.mp member
  exact id

theorem rests_namespaces {namespaces : List String}
    (settled : ∀ ns ∈ namespaces, ∀ workload, SettledIn cluster workload ns) :
    Rests (Init.initNamespaces namespaces) cluster () := by
  induction namespaces with
  | nil => exact rests_ret () cluster
  | cons ns rest ih =>
    obtain ⟨own, others⟩ := List.forall_mem_cons.mp settled
    have listed : ∀ workload, ∀ stored ∈ (cluster.workloads workload).select (fun stored => decide (stored.ns = ns)),
        stored.ns = ns ∧ stored.Settled cluster := by
      intro workload stored member
      obtain ⟨present, inNs⟩ := Table.mem_select.mp member
      exact ⟨by simpa using inNs, own workload stored present (by simpa using inNs)⟩
    refine (rests_list .deployment ns cluster).bind ((rests_workloads (listed .deployment)).bind ?_)
    exact (rests_list .statefulSet ns cluster).bind ((rests_workloads (listed .statefulSet)).bind (ih others))

/-- In an initialised cluster the job only reads. -/
theorem rests_of_initialised (initialised : Initialised cluster) : Rests Init.initController cluster () := by
  have lists : Rests listNamespaces cluster cluster.namespaces := by
    refine ⟨rfl, fun call member => ?_⟩
    obtain rfl := List.mem_singleton.mp member
    exact id
  exact lists.bind (rests_namespaces initialised)

/-- The initialised clusters are those in which the job returns without a write. -/
theorem initialised_iff : Initialised cluster ↔ Rests Init.initController cluster () :=
  ⟨rests_of_initialised, fun rests => initialised_of_run rests.run⟩

end Rests

/-- A second run of the job, after one that has returned, returns and writes nothing. -/
theorem initController_idempotent (ran : Init.initController.run Cluster.serve cluster = (after, .returned ())) :
    Init.initController.run Cluster.serve after = (after, .returned ()) ∧
      ∀ call ∈ Init.initController.calls Cluster.serve after, ¬ call.Writes := by
  have rests : Rests Init.initController after () := initialised_iff.mp (initialised_of_run ran)
  exact ⟨rests.run, rests.reads⟩

namespace Sample

/-- `web` shares `settings` with `api` and stays without a pin; a second run leaves it so. -/
theorem startingBoth_initialised :
    Init.initController.run Cluster.serve (Init.initController.run Cluster.serve startingBoth).1 =
        ((Init.initController.run Cluster.serve startingBoth).1, .returned ()) ∧
      ∀ call ∈ Init.initController.calls Cluster.serve (Init.initController.run Cluster.serve startingBoth).1,
        ¬ call.Writes :=
  initController_idempotent (Prod.ext rfl rfl)

end Sample

end Configurator
