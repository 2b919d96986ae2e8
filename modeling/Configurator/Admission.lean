import Configurator.Reconciliation
import Configurator.Registry

namespace Configurator

open Resource

variable {kind : Kind} {workload : WorkloadKind} {cluster : Cluster} {sent : Workload} {name : String}

theorem run_pin_missing (missing : (cluster.objects kind).find? (sent.ns, name) = none) :
    (pin workload sent kind name).run Cluster.serve cluster =
      (cluster, .failed (.notFound kind.plural name)) := by
  simp [pin, getObject, missing]

theorem run_pin (workload : WorkloadKind) {object : Object kind} (member : object ∈ cluster.objects kind)
    (own : key object = (sent.ns, name)) : ∃ stored objects,
      (cluster.objects kind).update (register workload sent.name object) = .ok (stored, objects) ∧
      (pin workload sent kind name).run Cluster.serve cluster =
        (cluster.withObjects kind objects, .returned (kind.tag ++ stored.name, stored.currentVersion)) := by
  obtain ⟨stored, objects, accepted, _⟩ := Table.update_of_current (register workload sent.name object) member
    (key_register workload sent.name object).symm (version_register workload sent.name object).symm
  refine ⟨stored, objects, accepted, ?_⟩
  simp [pin, getObject, updateObject, Table.find?_eq_some.mpr ⟨member, own⟩, accepted]

/-- An object that lists the workload already is not written. -/
theorem run_pin_listed {object : Object kind} (member : object ∈ cluster.objects kind)
    (own : key object = (sent.ns, name)) (listed : register workload sent.name object = object) :
    (pin workload sent kind name).run Cluster.serve cluster =
      (cluster, .returned (kind.tag ++ object.name, object.currentVersion)) := by
  obtain ⟨stored, objects, accepted, ran⟩ := run_pin workload member own
  rw [listed, Table.update_self member, Except.ok.injEq, Prod.mk.injEq] at accepted
  obtain ⟨rfl, rfl⟩ := accepted
  rw [ran]
  simp [Cluster.withObjects]

/-- A relation that every registration respects holds between the ends of the loops. -/
theorem run_newAnnotations {related : Cluster → Cluster → Prop} (reflexive : ∀ world, related world world)
    (transitive : ∀ {first second third},
      related first second → related second third → related first third)
    {references : List (Kind × String)} (step : ∀ world kind name, (kind, name) ∈ references →
      related world ((pin workload sent kind name).run Cluster.serve world).1)
    (added : GoMap String) (world : Cluster) :
    related world ((newAnnotations workload sent references added).run Cluster.serve world).1 := by
  induction references generalizing added world with
  | nil => exact reflexive world
  | cons reference rest ih =>
    obtain ⟨kind, name⟩ := reference
    have later := ih fun world kind name member => step world kind name (List.mem_cons_of_mem _ member)
    unfold newAnnotations
    split
    · have moved := step world kind name List.mem_cons_self
      rw [Program.run_bind]
      generalize (pin workload sent kind name).run Cluster.serve world = result at moved
      obtain ⟨middle, outcome⟩ := result
      cases outcome with
      | returned pinned => exact transitive moved (later (added.put pinned.1 pinned.2) middle)
      | failed | panicked => exact moved
    · exact later added world

theorem run_createPatch (workload : WorkloadKind) (order : Iteration) (sent : Workload) (cluster : Cluster) :
    ∃ patch : GoMap String → List PatchOperation, (createPatch workload order sent).run Cluster.serve cluster =
      match (newAnnotations workload sent sent.template.spec.references (.make ∅)).run Cluster.serve
        cluster with
      | (after, .returned added) => (after, .returned (patch added))
      | (after, .failed error) => (after, .failed error)
      | (after, .panicked) => (after, .panicked) := by
  refine ⟨fun added => updateAnnotation (order sent.keptAnnotations)
    (order (added.put "config-sync-controller" "configurator")) (order sent.droppedAnnotations), ?_⟩
  unfold createPatch
  rw [Program.run_bind]
  generalize (newAnnotations workload sent _ _).run Cluster.serve cluster = result
  obtain ⟨after, _ | _ | _⟩ := result <;> rfl

theorem run_createPatch_of_loops {after : Cluster} {added : GoMap String}
    (loops : (newAnnotations workload sent sent.template.spec.references (.make ∅)).run Cluster.serve cluster =
      (after, .returned added)) (order : Iteration) :
    (createPatch workload order sent).run Cluster.serve cluster = (after, .returned <| updateAnnotation
      (order sent.keptAnnotations) (order (added.put "config-sync-controller" "configurator"))
      (order sent.droppedAnnotations)) := by
  rw [createPatch, Program.run_bind, loops]
  rfl

theorem returned_createPatch {order : Iteration} {after : Cluster} {patch : List PatchOperation}
    (ran : (createPatch workload order sent).run Cluster.serve cluster = (after, .returned patch)) :
    ∃ added, (newAnnotations workload sent sent.template.spec.references (.make ∅)).run Cluster.serve cluster =
        (after, .returned added) ∧
      patch = updateAnnotation (order sent.keptAnnotations)
        (order (added.put "config-sync-controller" "configurator")) (order sent.droppedAnnotations) := by
  obtain ⟨middle, added, loops, ends⟩ := Program.returned_bind ran
  obtain ⟨rfl, same⟩ := Prod.mk.inj ends
  exact ⟨added, loops, (Outcome.returned.inj same).symm⟩

theorem PodSpec.mentions_of_references {spec : PodSpec} (member : (kind, name) ∈ spec.references) :
    name ∈ spec.mentions kind := by
  have source : ∀ {source : Kind → Option String}, reference? source = some (kind, name) →
      source kind = some name := by
    intro source refers
    unfold reference? at refers
    split at refers
    · rename_i found first
      cases refers
      exact first
    · obtain ⟨found, second, same⟩ := Option.map_eq_some_iff.mp refers
      cases same
      exact second
  simp only [references, List.mem_append, List.mem_filterMap] at member
  simp only [mentions, List.mem_append, List.mem_filterMap]
  rcases member with (⟨volume, present, refers⟩ | ⟨env, present, refers⟩) | ⟨env, present, refers⟩
  · exact Or.inl (Or.inl ⟨volume, present, source refers⟩)
  · exact Or.inl (Or.inr ⟨env, present, source refers⟩)
  · exact Or.inr ⟨env, present, source refers⟩

/-- The cluster with the pod specs of the Deployments as they were last admitted. -/
structure Admitted where
  cluster : Cluster
  specs : ObjectKey → Option PodSpec

namespace Admitted

/-- The Deployment was last admitted with a reference to the object. -/
def Refers (state : Admitted) (deployment : String) (object : Object kind) : Prop :=
  ∃ spec, state.specs (object.ns, deployment) = some spec ∧ object.name ∈ spec.mentions kind

/-- Every Deployment that an object lists refers to it, and is listed once. -/
def Fresh (state : Admitted) : Prop :=
  ∀ kind, ∀ object ∈ state.cluster.objects kind, object.deployments.Nodup ∧
    ∀ deployment ∈ object.deployments, state.Refers deployment object

/-- The Deployment drops no reference to an object that lists it. -/
def KeepsReferences (cluster : Cluster) (sent : Workload) : Prop :=
  ∀ kind, ∀ object ∈ cluster.objects kind, object.ns = sent.ns → sent.name ∈ object.deployments →
    object.name ∈ sent.template.spec.mentions kind

/-- One admission of a Deployment without a failure. -/
inductive Admits (meets : Cluster → Workload → Prop) : Admitted → Admitted → Prop
  | mk {state : Admitted} (order : Iteration) (sent : Workload) {after : Cluster}
    {patch : List PatchOperation} (listable : Listable sent.name) (met : meets state.cluster sent)
    (ran : (createDeploymentPatch order sent).run Cluster.serve state.cluster = (after, .returned patch)) :
    Admits meets state
      ⟨after, Function.update state.specs (sent.ns, sent.name) (some sent.template.spec)⟩

end Admitted

/-- Each object lists what it listed before, and the sent workload if that refers to it. -/
def Registers (sent : Workload) (references : List (Kind × String)) (before after : Cluster) : Prop :=
  ∀ kind, ∀ object ∈ after.objects kind, ∃ old ∈ before.objects kind, key old = key object ∧
    (old.deployments.Nodup → object.deployments.Nodup) ∧ ∀ deployment ∈ object.deployments,
      deployment ∈ old.deployments ∨
        deployment = sent.name ∧ object.ns = sent.ns ∧ (kind, object.name) ∈ references

namespace Registers

variable {references : List (Kind × String)}

theorem refl (cluster : Cluster) : Registers sent references cluster cluster :=
  fun _ object member => ⟨object, member, rfl, id, fun _ => Or.inl⟩

theorem trans {first second third : Cluster} (earlier : Registers sent references first second)
    (later : Registers sent references second third) : Registers sent references first third := by
  intro kind object member
  obtain ⟨middle, present, same, distinct, listed⟩ := later kind object member
  obtain ⟨old, was, again, before, since⟩ := earlier kind middle present
  refine ⟨old, was, again.trans same, distinct ∘ before, fun deployment own => ?_⟩
  rcases listed deployment own with inMiddle | added
  · rcases since deployment inMiddle with inOld | ⟨rfl, inNs, refers⟩
    · exact Or.inl inOld
    · obtain ⟨spaces, names⟩ := Prod.mk.inj same
      exact Or.inr ⟨rfl, spaces ▸ inNs, names ▸ refers⟩
  · exact Or.inr added

theorem of_pin (listable : Listable sent.name) (refers : (kind, name) ∈ references) (world : Cluster) :
    Registers sent references world ((pin .deployment sent kind name).run Cluster.serve world).1 := by
  cases found : (world.objects kind).find? (sent.ns, name) with
  | none =>
    rw [run_pin_missing found]
    exact refl world
  | some read =>
    obtain ⟨member, own⟩ := Table.find?_eq_some.mp found
    obtain ⟨stored, objects, accepted, ran⟩ := run_pin .deployment member own
    have written := (Table.written_of_update accepted).2
    have grown := (Object.rewrites_register .deployment (fun _ => listable) read).grown.distinct
    have keys : key stored = key read := written.key_eq.trans (key_register _ _ _)
    intro other object present
    rw [ran] at present
    by_cases same : other = kind
    · subst same
      rw [Cluster.withObjects_objects] at present
      rcases (written.members object).mp present with rfl | ⟨was, _⟩
      · have list : object.deployments = (register .deployment sent.name read).deployments := by
          rw [written.answered, Object.deployments_stamp]
        refine ⟨read, member, keys.symm, fun distinct => list ▸ grown distinct, fun deployment listed => ?_⟩
        rw [list, Object.deployments_register listable] at listed
        split at listed
        · exact Or.inl listed
        · rcases List.mem_append.mp listed with before | added
          · exact Or.inl before
          · obtain ⟨spaces, names⟩ := Prod.mk.inj (keys.trans own)
            exact Or.inr ⟨List.mem_singleton.mp added, spaces, names ▸ refers⟩
      · exact ⟨object, was, rfl, id, fun _ => Or.inl⟩
    · simp only [Cluster.withObjects, Function.update_of_ne same] at present
      exact ⟨object, present, rfl, id, fun _ => Or.inl⟩

theorem of_createPatch (listable : Listable sent.name) (order : Iteration) (world : Cluster) :
    Registers sent sent.template.spec.references world
      ((createDeploymentPatch order sent).run Cluster.serve world).1 := by
  have registers : Registers sent sent.template.spec.references world _ := run_newAnnotations refl trans
    (fun world _ _ member => of_pin listable member world) (.make ∅) world
  obtain ⟨patch, ran⟩ := run_createPatch .deployment order sent world
  rw [createDeploymentPatch, ran]
  generalize (newAnnotations .deployment sent _ _).run Cluster.serve world = result at registers ⊢
  obtain ⟨after, _ | _ | _⟩ := result <;> exact registers

end Registers

namespace Admitted

variable {state next : Admitted}

/-- An admission that drops no reference leaves no stale name behind. -/
theorem Fresh.admits (fresh : state.Fresh) (admits : Admits KeepsReferences state next) : next.Fresh := by
  obtain ⟨order, sent, listable, keeps, ran⟩ := admits
  have registers := Registers.of_createPatch listable order state.cluster
  rw [ran] at registers
  intro kind object member
  obtain ⟨old, was, same, distinct, listed⟩ := registers kind object member
  obtain ⟨once, refers⟩ := fresh kind old was
  obtain ⟨spaces, names⟩ := Prod.mk.inj same
  refine ⟨distinct once, fun deployment own => ?_⟩
  show ∃ spec, Function.update state.specs (sent.ns, sent.name) (some sent.template.spec)
    (object.ns, deployment) = some spec ∧ _
  by_cases admitted : (object.ns, deployment) = (sent.ns, sent.name)
  · rw [admitted, Function.update_self]
    obtain ⟨inNs, rfl⟩ := Prod.mk.inj admitted
    refine ⟨_, rfl, ?_⟩
    rcases listed sent.name own with before | ⟨_, _, reference⟩
    · exact names ▸ keeps kind old was (spaces.trans inNs) before
    · exact PodSpec.mentions_of_references reference
  · rw [Function.update_of_ne admitted]
    rcases listed deployment own with before | ⟨rfl, inNs, _⟩
    · obtain ⟨spec, found, mentions⟩ := refers deployment before
      exact ⟨spec, spaces ▸ found, names ▸ mentions⟩
    · exact absurd (congrArg (·, sent.name) inNs) admitted

/-- A roll-out refused for sharing finds two Deployments in the list. -/
theorem shared_cases {object : Object kind} {version : String}
    (shared : rollOut .deployment object version = .fail (.badRequest sharedText)) :
    ∃ first second others, object.deployments = first :: second :: others := by
  unfold rollOut at shared
  split_ifs at shared with filled method
  · split at shared
    · cases shared
    · cases shared
    · rename_i first second others list
      exact ⟨first, second, others, (if_neg filled).trans list⟩

/-- Along every sequence of admissions that drop no reference, every Deployment that an
object lists was last admitted with a reference to it; an object to which only one
Deployment refers is not treated as shared. -/
theorem registry_fresh {start : Admitted} (fresh : start.Fresh)
    (run : Relation.ReflTransGen (Admits KeepsReferences) start state) {object : Object kind}
    (member : object ∈ state.cluster.objects kind) :
    (∀ deployment ∈ object.deployments, state.Refers deployment object) ∧
      ∀ only, (∀ deployment, state.Refers deployment object → deployment = only) → ∀ version,
        rollOut .deployment object version ≠ .fail (.badRequest sharedText) := by
  have kept : state.Fresh := by
    clear member
    induction run with
    | refl => exact fresh
    | tail _ admits ih => exact ih.admits admits
  obtain ⟨distinct, refers⟩ := kept kind object member
  refine ⟨refers, fun only sole version shared => ?_⟩
  obtain ⟨first, second, others, list⟩ := shared_cases shared
  rw [list] at distinct refers
  have one := sole first (refers first List.mem_cons_self)
  have other := sole second (refers second (List.mem_cons_of_mem _ List.mem_cons_self))
  exact (List.nodup_cons.mp distinct).1 (one.trans other.symm ▸ List.mem_cons_self)

end Admitted

namespace Sample

def web : Workload := { api with name := "web" }

/-- The Deployment `api` once it takes its environment from nowhere. -/
def apiAlone : Workload := { api with template := ⟨.nil, ⟨[], [⟨[]⟩], []⟩⟩ }

def unadmitted : Admitted := ⟨synced, fun _ => none⟩

theorem unadmitted_fresh : unadmitted.Fresh := by
  intro kind object member
  cases kind with
  | configMap =>
    obtain rfl : object = settings "red" "aaaaa" 1 := List.mem_singleton.mp member
    have none : (settings "red" "aaaaa" 1).deployments = [] := by decide
    exact ⟨none ▸ List.nodup_nil, fun deployment listed => absurd (none ▸ listed) List.not_mem_nil⟩
  | secret => exact absurd member List.not_mem_nil

def admitting (sent : Workload) (cluster : Cluster) : Cluster :=
  ((createDeploymentPatch apiOrder sent).run Cluster.serve cluster).1

def apiAdmitted : Admitted :=
  ⟨admitting api synced, Function.update (fun _ => none) ("shop", "api") (some api.template.spec)⟩

theorem admits_api {meets : Cluster → Workload → Prop} (met : meets synced api) :
    Admitted.Admits meets unadmitted apiAdmitted :=
  .mk apiOrder api (by decide) met rfl

/-- The ConfigMap with the Deployments that it lists. -/
def listing (names : String) (written : Nat) : Object .configMap :=
  { settings "red" "aaaaa" written with
    annotations := (settings "red" "aaaaa" written).annotations.put "deployments" names }

/-- The Deployment `api` once it mounts `settings` instead. -/
def apiMounting : Workload := { api with template := ⟨.nil, ⟨[⟨some "settings", none⟩], [⟨[]⟩], []⟩⟩ }

def apiReadmitted : Admitted :=
  ⟨admitting apiMounting (admitting api synced),
    Function.update apiAdmitted.specs ("shop", "api") (some apiMounting.template.spec)⟩

/-- After the change the Deployment that `settings` lists still refers to it. -/
theorem apiReadmitted_fresh : apiReadmitted.Refers "api" (listing "api" 2) := by
  have first : Admitted.KeepsReferences synced api := by
    intro kind object member _ _
    cases kind with
    | configMap =>
      obtain rfl : object = settings "red" "aaaaa" 1 := List.mem_singleton.mp member
      decide
    | secret => exact absurd member List.not_mem_nil
  have second : Admitted.KeepsReferences (admitting api synced) apiMounting := by
    intro kind object member _ _
    cases kind with
    | configMap =>
      obtain rfl : object = listing "api" 2 := List.mem_singleton.mp member
      decide
    | secret => exact absurd member List.not_mem_nil
  have run : Relation.ReflTransGen (Admitted.Admits Admitted.KeepsReferences) unadmitted apiReadmitted :=
    (Relation.ReflTransGen.single (admits_api first)).tail (.mk apiOrder apiMounting (by decide) second rfl)
  exact (Admitted.registry_fresh unadmitted_fresh run (List.mem_singleton_self (listing "api" 2))).1
    "api" (by decide)

/-- What has been admitted once `settings` has been moved from `api` to `web`. -/
def settingsMoved : Admitted :=
  ⟨admitting web (admitting apiAlone (admitting api synced)),
    Function.update (Function.update apiAdmitted.specs ("shop", "api") (some apiAlone.template.spec))
      ("shop", "web") (some web.template.spec)⟩

/-- The list keeps the Deployment that has dropped its reference, and the next roll-out is
refused as if `settings` were shared. -/
theorem settingsMoved_stale : unadmitted.Fresh ∧
    Relation.ReflTransGen (Admitted.Admits fun _ _ => True) unadmitted settingsMoved ∧
    ∃ object ∈ settingsMoved.cluster.objects .configMap, "api" ∈ object.deployments ∧
      ¬ settingsMoved.Refers "api" object ∧
      ∀ version, rollOut .deployment object version = .fail (.badRequest sharedText) := by
  have run : Relation.ReflTransGen (Admitted.Admits fun _ _ => True) unadmitted settingsMoved :=
    ((Relation.ReflTransGen.single (admits_api trivial)).tail
      (.mk apiOrder apiAlone (by decide) trivial rfl)).tail (.mk apiOrder web (by decide) trivial rfl)
  refine ⟨unadmitted_fresh, run, listing "api,web" 3, List.mem_singleton_self _, by decide, ?_, fun _ => rfl⟩
  rintro ⟨spec, found, mentioned⟩
  obtain rfl : apiAlone.template.spec = spec := Option.some.inj found
  exact absurd mentioned (by decide)

end Sample

end Configurator
