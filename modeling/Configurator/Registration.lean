import Configurator.Reconciliation
import Configurator.Registry

namespace Configurator

open Resource

variable {kind : Kind} {ns name : String} {α : Type}

namespace Job

/-- The name that a job may add can stand in a list. -/
def Listable : Job → Prop
  | .admission .deployment _ sent => Configurator.Listable sent.name
  | _ => True

end Job

/-- Every party runs its job again and again. A call is served or fails. -/
def registering (jobs : Nat → Job) :
    System Cluster Call Answer ApiError (List PatchOperation) Nat where
  react _ := Cluster.Reacts
  environment _ _ := False
  starts party program := program = (jobs party).program

/-- The rules by which every job is safe. -/
def growRules : Rules Cluster Call Answer where
  react := Cluster.Reacts
  rely := Grows
  guarantee before _ after := Grows before after

/-- The Deployment stands in the list of the object. -/
def Listed (cluster : Cluster) (kind : Kind) (ns name deployment : String) : Prop :=
  ∃ object ∈ cluster.objects kind, key object = (ns, name) ∧ deployment ∈ object.deployments

theorem Listed.later {before after : Cluster} {deployment : String} (grows : Grows before after)
    (listed : Listed before kind ns name deployment) : Listed after kind ns name deployment := by
  obtain ⟨object, member, own, present⟩ := listed
  obtain ⟨next, stored, same, grown⟩ := (grows.evolves kind).forth object member
  exact ⟨next, stored, same.trans own, grown.kept.subset present⟩

/-- The program ends with listable names, whatever it returns. -/
abbrev SafeGrowth (program : Client α) (cluster : Cluster) : Prop :=
  program.Safe growRules (fun after _ => NamesListable after) cluster

/-- The calls that a program makes with an object that it has read. -/
inductive Sends (object : Object kind) : Call → Prop
  | spares {call : Call} (spares : call.SparesObjects) : Sends object call
  | rewrites {sent : Object kind} (rewrites : object.Rewrites sent) :
    Sends object (.updateObject kind sent)

/-- An object has been read, and the names of the Deployments are listable. -/
structure Holding (object : Object kind) (cluster : Cluster) : Prop where
  seen : (cluster.objects kind).Seen object
  listable : NamesListable cluster

theorem Holding.later {object : Object kind} {before after : Cluster} (grows : Grows before after)
    (holding : Holding object before) : Holding object after :=
  ⟨holding.seen.later (grows.later kind), grows.listable holding.listable⟩

section Safety

variable {cluster : Cluster} {object : Object kind}

theorem safe_growth_of_spares {program : Client α} (emits : program.Emits Call.SparesObjects)
    (listable : NamesListable cluster) : SafeGrowth program cluster := by
  refine Program.Safe.of_emits emits Grows.listable listable ?_ fun _ _ => id
  intro before request after answer spares holds reacts
  have grows := Grows.of_spares spares reacts
  exact ⟨grows, grows.listable holds⟩

theorem safe_growth_of_sends {program : Client α} (emits : program.Emits (Sends object))
    (holding : Holding object cluster) : SafeGrowth program cluster := by
  refine Program.Safe.of_emits emits Holding.later holding ?_ fun _ _ => Holding.listable
  intro before request after answer sends holds reacts
  have grows : Grows before after := by
    cases sends with
    | spares spares => exact .of_spares spares reacts
    | rewrites rewrites => exact .of_rewrites holds.seen rewrites reacts
  exact ⟨grows, holds.later grows⟩

/-- A program that reads an object and then works with it. -/
theorem safe_growth_get (next : Except ApiError (Object kind) → Client α)
    (listable : NamesListable cluster) (refused : ∀ error, (next (.error error)).Emits Call.SparesObjects)
    (reads : ∀ object, (next (.ok object)).Emits (Sends object)) :
    SafeGrowth (ask (.getObject kind ns name) >>= next) cluster := by
  refine Program.Safe.call NamesListable Grows.listable listable ?_
  intro before after answer holds reacts
  obtain ⟨rfl, ⟨error, rfl⟩ | ⟨object, member, _, rfl⟩⟩ := reacts.getObject
  · exact ⟨.refl after, safe_growth_of_spares (refused error) holds⟩
  · exact ⟨.refl after, safe_growth_of_sends (reads object) ⟨.of_mem member, holds⟩⟩

theorem safe_growth_bind {β : Type} {program : Client α} {next : α → Client β}
    (safe : SafeGrowth program cluster)
    (continues : ∀ value world, NamesListable world → SafeGrowth (next value) world) :
    SafeGrowth (program >>= next) cluster :=
  Program.Safe.bind safe continues (fun _ _ => id) (fun _ => id) Grows.refl

theorem safe_growth_ret {value : α} (listable : NamesListable cluster) :
    SafeGrowth (.ret value : Client α) cluster :=
  fun _ grows => grows.listable listable

theorem sends_spares (call : Call) : call.SparesObjects → Sends object call := .spares

theorem safe_reconcile_growth (listable : NamesListable cluster) :
    SafeGrowth (reconcile kind ns name) cluster := by
  refine safe_growth_get _ listable (fun error => trivial) fun object => ?_
  exact emits_reconciled sends_spares (fun version name => .rewrites (object.rewrites_annotate version name))
    fun revision restored copied => .rewrites (Object.rewrites_restore copied)

theorem relabels_sends (call : Call) (relabels : call.Relabels) : Sends object call :=
  .spares (by rintro _ _ rfl; exact relabels)

theorem sends_checkReference (pod : Pod) (name : String) :
    (checkReference pod name object).Emits (Sends object) := by
  refine emits_checkReference relabels_sends pod name ?_
  intro annotations revision restored assigned copied
  refine .rewrites (Object.Rewrites.trans ?_ (Object.rewrites_podRestore copied))
  refine .of_registered rfl rfl ?_
  have other : kind.versionKey ≠ WorkloadKind.deployment.registry := kind.versionKey_ne_registry _
  simp [Object.registered, GoMap.eq_put_of_assign? assigned, other.symm]

theorem safe_validateReference (pod : Pod) (listable : NamesListable cluster) :
    SafeGrowth (validateReference pod kind name) cluster := by
  refine safe_growth_get _ listable (fun error => ?_) fun object => sends_checkReference pod name
  dsimp only
  split
  · exact emits_checkReference_empty pod name
  · trivial

theorem safe_validateReferences (pod : Pod) (references : List (Kind × String))
    (listable : NamesListable cluster) : SafeGrowth (validateReferences pod references) cluster := by
  induction references generalizing cluster with
  | nil => exact safe_growth_ret listable
  | cons reference rest ih =>
    obtain ⟨kind, name⟩ := reference
    refine safe_growth_bind (safe_validateReference pod listable) fun answer world holds => ?_
    cases answer with
    | some message => exact safe_growth_ret holds
    | none => exact ih holds

theorem safe_configValidation (pod : Pod) (listable : NamesListable cluster) :
    SafeGrowth (configValidation pod) cluster := by
  unfold configValidation
  split
  · exact safe_validateReferences pod _ listable
  · exact safe_growth_ret listable

end Safety

section Admission

variable {cluster : Cluster} {workload : WorkloadKind} {sent : Workload}

def Admits (workload : WorkloadKind) (sent : Workload) : Prop :=
  workload = .deployment → Listable sent.name

/-- A Deployment that an admission returns for stands in the list of every object it
refers to without naming a version. -/
def Enlists {α : Type} (workload : WorkloadKind) (sent : Workload) (references : List (Kind × String))
    (cluster : Cluster) (outcome : Outcome ApiError α) : Prop :=
  NamesListable cluster ∧ (workload = .deployment → ∀ value, outcome = .returned value →
    ∀ kind name, (kind, name) ∈ references → sent.template.annotations.index (kind.tag ++ name) = "" →
      Listed cluster kind sent.ns name sent.name)

theorem safe_enlists_ret {references : List (Kind × String)} {value : α}
    (enlists : Enlists workload sent references cluster (.returned value : Outcome ApiError α)) :
    (Program.ret value : Client α).Safe growRules (Enlists workload sent references) cluster :=
  fun _ grows => ⟨grows.listable enlists.1, fun kinds value returned kind name member unpinned =>
    (enlists.2 kinds value returned kind name member unpinned).later grows⟩

theorem safe_pin (admits : Admits workload sent) (listable : NamesListable cluster) :
    (pin workload sent kind name).Safe growRules (Enlists workload sent [(kind, name)]) cluster := by
  refine Program.Safe.call NamesListable Grows.listable listable ?_
  intro before after answer holds reacts
  obtain ⟨rfl, ⟨error, rfl⟩ | ⟨object, member, own, rfl⟩⟩ := reacts.getObject
  · exact ⟨.refl after, fun later grows => ⟨grows.listable holds, fun _ _ => nofun⟩⟩
  · refine ⟨.refl after, ?_⟩
    refine Program.Safe.call (Holding object) Holding.later ⟨.of_mem member, holds⟩ ?_
    intro middle next answer holding reacts
    have rewrites := object.rewrites_register workload admits
    have grows := Grows.of_rewrites holding.seen rewrites reacts
    refine ⟨grows, ?_⟩
    rcases reacts.updateObject with ⟨rfl, error, rfl⟩ | ⟨stored, objects, accepted, rfl, rfl⟩
    · exact fun later grows => ⟨grows.listable holding.listable, fun _ _ => nofun⟩
    · refine safe_enlists_ret ⟨grows.listable holding.listable, ?_⟩
      rintro rfl _ _ kind name member _
      obtain ⟨rfl, rfl⟩ := Prod.mk.inj (List.mem_singleton.mp member)
      have written := (Table.written_of_update accepted).2
      refine ⟨stored, by simpa using written.mem, ?_, ?_⟩
      · exact written.key_eq.trans (rewrites.key_eq.trans own)
      · rw [written.answered, Object.deployments_stamp]
        exact Object.mem_deployments_register (admits rfl) object

theorem safe_newAnnotations (admits : Admits workload sent) (references : List (Kind × String))
    (added : GoMap String) (listable : NamesListable cluster) :
    (newAnnotations workload sent references added).Safe growRules
      (Enlists workload sent references) cluster := by
  induction references generalizing added cluster with
  | nil => exact safe_enlists_ret ⟨listable, nofun⟩
  | cons reference rest ih =>
    obtain ⟨kind, name⟩ := reference
    unfold newAnnotations
    split
    · refine Program.Safe.bind (safe_pin admits listable) (fun value world pinned => ?_)
        (fun error world failed => ⟨failed.1, fun _ _ => nofun⟩)
        (fun world panicked => ⟨panicked.1, fun _ _ => nofun⟩) Grows.refl
      let head (world : Cluster) := workload = .deployment →
        sent.template.annotations.index (kind.tag ++ name) = "" →
          Listed world kind sent.ns name sent.name
      have listed : head world := fun kinds unpinned =>
        pinned.2 kinds _ rfl kind name (List.mem_singleton_self _) unpinned
      have later : ∀ {before after}, Grows before after → head before → head after :=
        fun grows holds kinds unpinned => (holds kinds unpinned).later grows
      have safe := (ih (added.put value.1 value.2) pinned.1).frame head later later listed
      refine safe.mono fun after outcome ⟨rested, holds⟩ => ⟨rested.1, ?_⟩
      intro kinds value returned
      exact forall_references_cons (fun unpinned => holds kinds unpinned) (rested.2 kinds value returned)
    · rename_i named
      refine (ih added listable).mono fun after outcome rested => ⟨rested.1, ?_⟩
      intro kinds value returned
      exact forall_references_cons (fun unpinned => absurd unpinned named) (rested.2 kinds value returned)

end Admission

section Start

variable {cluster : Cluster} {workload : WorkloadKind}

theorem safe_growth_read {next : Object kind → Client α} (listable : NamesListable cluster)
    (reads : ∀ object, (next object).Emits (Sends object)) :
    SafeGrowth (getObject kind ns name >>= next) cluster :=
  safe_growth_get (fun answer => Program.ofExcept answer >>= next) listable
    (fun _ => trivial) reads

theorem safe_version {owner : String} (admits : workload = .deployment → Listable owner)
    (listable : NamesListable cluster) :
    SafeGrowth (Init.version? workload ns owner kind name) cluster := by
  refine safe_growth_read listable fun object => ?_
  split
  · refine (emits_newCustomResource relabels_sends object).bind fun made => ?_
    refine (emits_createRevision sends_spares _).bind fun created => ?_
    have introduced := object.rewrites_introduce workload admits made.2 created.name
    exact (emits_updateObject (.rewrites introduced)).bind fun _ => trivial
  · trivial

theorem safe_annotations {stored : Workload} (admits : Admits workload stored)
    (references : List (Kind × String)) (made : GoMap String) (listable : NamesListable cluster) :
    SafeGrowth (Init.annotations workload ns stored references made) cluster := by
  induction references generalizing made cluster with
  | nil => exact safe_growth_ret listable
  | cons reference rest ih =>
    obtain ⟨kind, name⟩ := reference
    unfold Init.annotations
    split
    · refine safe_growth_bind (safe_version admits listable) fun version world holds => ?_
      cases version <;> exact ih _ holds
    · exact ih made listable

theorem safe_initWorkload {stored : Workload} (admits : Admits workload stored)
    (listable : NamesListable cluster) : SafeGrowth (Init.initWorkload workload ns stored) cluster := by
  refine safe_growth_bind (safe_annotations admits _ _ listable) fun made world holds => ?_
  refine safe_growth_of_spares ?_ holds
  split
  · exact Program.Emits.bind ⟨nofun, fun answer => by cases answer <;> trivial⟩ fun _ => trivial
  · trivial

theorem safe_initWorkloads (found : List Workload) (admits : ∀ stored ∈ found, Admits workload stored)
    (listable : NamesListable cluster) : SafeGrowth (Init.initWorkloads workload ns found) cluster := by
  induction found generalizing cluster with
  | nil => exact safe_growth_ret listable
  | cons stored rest ih =>
    refine safe_growth_bind (safe_initWorkload (admits stored List.mem_cons_self) listable) ?_
    intro _ world holds
    exact ih (fun other member => admits other (List.mem_cons_of_mem _ member)) holds

theorem safe_initListed (listable : NamesListable cluster) :
    SafeGrowth (listWorkloads workload ns >>= Init.initWorkloads workload ns) cluster := by
  refine Program.Safe.call NamesListable Grows.listable listable ?_
  intro before after answer holds reacts
  obtain ⟨rfl, ⟨error, rfl⟩ | ⟨found, rfl, members⟩⟩ := reacts.listWorkloads
  · exact ⟨.refl after, fun _ grows => grows.listable holds⟩
  · refine ⟨.refl after, safe_initWorkloads found (fun stored member => ?_) holds⟩
    rintro rfl
    exact holds stored (members stored member)

theorem safe_initNamespaces (namespaces : List String) (listable : NamesListable cluster) :
    SafeGrowth (Init.initNamespaces namespaces) cluster := by
  induction namespaces generalizing cluster with
  | nil => exact safe_growth_ret listable
  | cons ns rest ih =>
    have parts : Init.initNamespaces (ns :: rest) =
        (listWorkloads .deployment ns >>= Init.initWorkloads .deployment ns) >>= fun _ =>
          (listWorkloads .statefulSet ns >>= Init.initWorkloads .statefulSet ns) >>= fun _ =>
            Init.initNamespaces rest := by
      simp only [Init.initNamespaces, bind_assoc]
    rw [parts]
    refine safe_growth_bind (safe_initListed listable) fun _ world holds => ?_
    exact safe_growth_bind (safe_initListed holds) fun _ world holds => ih holds

theorem safe_initController (listable : NamesListable cluster) :
    SafeGrowth Init.initController cluster := by
  refine Program.Safe.call NamesListable Grows.listable listable ?_
  intro before after answer holds reacts
  have spares : Call.SparesObjects .listNamespaces := nofun
  have grows := Grows.of_spares spares reacts
  refine ⟨grows, ?_⟩
  cases answer with
  | error error => exact fun _ later => later.listable (grows.listable holds)
  | ok namespaces => exact safe_initNamespaces namespaces (grows.listable holds)

end Start

namespace Job

def post : Job → Cluster → Outcome ApiError (List PatchOperation) → Prop
  | .admission workload _ sent => Enlists workload sent sent.template.spec.references
  | _ => fun cluster _ => NamesListable cluster

theorem post_listable {job : Job} {cluster : Cluster} {outcome : Outcome ApiError (List PatchOperation)}
    (holds : job.post cluster outcome) : NamesListable cluster := by
  cases job with
  | admission => exact holds.1
  | podAdmission | reconcile | start => exact holds

theorem safe_admission {workload : WorkloadKind} {order : Iteration} {sent : Workload} {cluster : Cluster}
    (admits : Admits workload sent) (listable : NamesListable cluster) :
    (createPatch workload order sent).Safe growRules
      (Enlists workload sent sent.template.spec.references) cluster := by
  refine Program.Safe.bind (safe_newAnnotations admits _ _ listable) (fun added world enlists => ?_)
    (fun error world failed => ⟨failed.1, fun _ _ => nofun⟩)
    (fun world panicked => ⟨panicked.1, fun _ _ => nofun⟩) Grows.refl
  exact safe_enlists_ret ⟨enlists.1, fun kinds _ _ => enlists.2 kinds added rfl⟩

theorem safe {job : Job} {cluster : Cluster} (fits : job.Listable) (listable : NamesListable cluster) :
    job.program.Safe growRules job.post cluster := by
  have ends : ∀ {value : List PatchOperation} {world : Cluster}, NamesListable world →
      SafeGrowth (.ret value : Client (List PatchOperation)) world := fun holds => safe_growth_ret holds
  cases job with
  | admission workload order sent =>
    cases workload with
    | deployment => exact safe_admission (fun _ => fits) listable
    | statefulSet => exact safe_admission nofun listable
  | podAdmission pod =>
    exact safe_growth_bind (safe_configValidation pod listable) fun _ _ holds => ends holds
  | reconcile kind ns name =>
    exact safe_growth_bind (safe_reconcile_growth listable) fun _ _ holds => ends holds
  | start => exact safe_growth_bind (safe_initController listable) fun _ _ holds => ends holds

end Job

/-- Whatever the jobs, every list of Deployments only grows. -/
def registeringOutline {jobs : Nat → Job} (fits : ∀ party, (jobs party).Listable) :
    (registering jobs).Outline where
  rely _ := Grows
  guarantee _ before _ after := Grows before after
  ready _ := NamesListable
  post party := (jobs party).post
  reflexive _ := Grows.refl
  transitive _ := Grows.trans
  environment _ _ _ moves := moves.elim
  others _ _ _ _ grows := grows
  stable _ := Grows.listable
  safe {party _} begins _ listable := begins ▸ Job.safe (fits party) listable
  settles _ _ _ := Job.post_listable

/-- Along every interleaving no name stands twice in the list of Deployments and no name
leaves it, and every Deployment whose admission has returned stands in the list of every
object that it refers to without naming a version. -/
theorem deployments_kept {jobs : Nat → Job} {cluster : Cluster}
    {pool later : Pool Cluster Call Answer ApiError (List PatchOperation) Nat}
    (fits : ∀ party, (jobs party).Listable) (listable : NamesListable cluster)
    (distinct : ∀ object ∈ cluster.objects kind, key object = (ns, name) → object.deployments.Nodup)
    (run : (registering jobs).Reaches (System.idle cluster) pool)
    (more : (registering jobs).Reaches pool later) :
    (∀ object ∈ later.world.objects kind, key object = (ns, name) → object.deployments.Nodup) ∧
      (∀ object ∈ pool.world.objects kind, key object = (ns, name) →
        ∃ next ∈ later.world.objects kind, key next = (ns, name) ∧
          object.deployments <+: next.deployments) ∧
      ∀ party order sent patch, jobs party = .admission .deployment order sent →
        pool.threads party = some (.ret patch) → sent.ns = ns →
        (kind, name) ∈ sent.template.spec.references →
        sent.template.annotations.index (kind.tag ++ name) = "" →
        Listed later.world kind ns name sent.name := by
  let outline := registeringOutline fits
  have start : outline.Holds (System.idle cluster) := fun _ => listable
  have holds : outline.Holds pool := System.Outline.reaches start run
  have grows : ∀ {first next : Pool Cluster Call Answer ApiError (List PatchOperation) Nat},
      outline.Holds first → (registering jobs).Reaches first next → Grows first.world next.world :=
    fun holds run => System.Outline.moves Grows.refl Grows.trans (fun moves => False.elim moves)
      (fun guaranteed => guaranteed) holds run
  have since := grows holds more
  have whole := (grows start run).trans since
  refine ⟨?_, ?_, ?_⟩
  · intro object member own
    obtain ⟨first, present, same, grown⟩ := (whole.evolves kind).back object member
    exact grown.distinct (distinct first present (same.symm.trans own))
  · intro object member own
    obtain ⟨next, stored, same, grown⟩ := (since.evolves kind).forth object member
    exact ⟨next, stored, same.trans own, grown.kept⟩
  · rintro party order sent patch job flight rfl member unpinned
    have ended : outline.Fits party pool.world (some (.ret patch)) := flight ▸ holds party
    have enlisted := ended pool.world (Grows.refl _)
    have post : (Job.admission .deployment order sent).post pool.world (.returned patch) :=
      job ▸ enlisted
    exact (post.2 rfl patch rfl kind name member unpinned).later since

namespace Sample

def admitted : Cluster × Client (List PatchOperation) :=
  (createDeploymentPatch apiOrder api).after Cluster.serve 2 synced

theorem api_listed : Listed admitted.1 .configMap "shop" "settings" "api" :=
  have started : (registering admitApi).Reaches (System.idle synced) _ :=
    System.Reaches.started .refl 0 _ rfl rfl
  have run := started.calls 0 (fun _ _ => Or.inl rfl) 2 rfl
  have fits : ∀ party, (admitApi party).Listable := fun _ => show Listable "api" by decide
  have listable : NamesListable synced := fun _ member => absurd member (Table.not_mem_empty _)
  have distinct : ∀ object ∈ synced.objects .configMap, key object = ("shop", "settings") →
      object.deployments.Nodup := fun object member _ => by
    obtain rfl : object = settings "red" "aaaaa" 1 := List.mem_singleton.mp member
    decide
  have kept := deployments_kept fits listable distinct run .refl
  kept.2.2 0 _ api _ rfl rfl rfl (by decide) (by decide)

end Sample

end Configurator
