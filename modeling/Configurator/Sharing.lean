import Configurator.Commit
import Configurator.Library.Trace
import Configurator.Rollout

/-! The roll-out of a new version where an object is shared. Each of the two roll-outs looks at the list of its
own kind of workload, and the first one has written by the time the second one looks. -/
namespace Configurator

open Resource

variable {kind : Kind} {cluster : Cluster} {object : Object kind} {workload : WorkloadKind} {version : String}

/-- The workloads of a kind that an object lists. -/
def Object.listed (workload : WorkloadKind) (object : Object kind) : List String :=
  if object.registered workload = "" then [] else split (object.registered workload) ','

theorem Object.listed_eq_singleton {name : String} :
    object.listed workload = [name] ↔
      object.registered workload ≠ "" ∧ split (object.registered workload) ',' = [name] := by
  by_cases empty : object.registered workload = "" <;> simp [listed, empty]

/-- The workloads of both kinds that an object lists. -/
def Object.sharers (object : Object kind) : List (WorkloadKind × String) :=
  (object.listed .deployment).map (fun name => (.deployment, name)) ++
    (object.listed .statefulSet).map fun name => (.statefulSet, name)

def Call.written? : Call → Option (WorkloadKind × Workload)
  | .updateWorkload workload sent => some (workload, sent)
  | _ => none

def Call.Served (call : Call) (answer : Answer call) : Prop :=
  ∀ error, call.failure error ≠ some answer

def templateWrites {α : Type} (program : Client α) (cluster : Cluster) : List (WorkloadKind × Workload) :=
  program.gather Cluster.serve Call.written? cluster

/-- No call of the program fails. -/
def Smooth {α : Type} (program : Client α) (cluster : Cluster) : Prop :=
  program.Answered Cluster.serve Call.Served cluster

section Roll

variable {name : String} {stored : Workload}

theorem templateWrites_bind {α β : Type} (program : Client α) (next : α → Client β) (cluster : Cluster) :
    templateWrites (program >>= next) cluster = templateWrites program cluster ++
      match program.run Cluster.serve cluster with
      | (after, .returned value) => templateWrites (next value) after
      | _ => [] := by
  unfold templateWrites
  rw [Program.gather_bind]
  generalize program.run Cluster.serve cluster = result
  obtain ⟨after, _ | _ | _⟩ := result <;> rfl

theorem rollOut_listed (method : object.annotations.index "updateMethod" = "ignoreWhenShared") :
    rollOut workload object version =
      match object.listed workload with
      | [] => Program.ret ()
      | [name] => do
        let stored ← getWorkload workload object.ns name
        let annotations ← Program.orPanic
          (stored.template.annotations.assign? (kind.tag ++ object.name) version)
        let _ ← updateWorkload workload
          { stored with template := { stored.template with annotations := annotations } }
      | _ :: _ :: _ => Program.fail (.badRequest sharedText) := by
  unfold rollOut Object.listed
  by_cases empty : object.registered workload = ""
  · simp only [empty, ne_eq, not_true_eq_false, if_false, if_true]
    rfl
  · simp only [empty, ne_eq, not_false_eq_true, if_true, method, if_false]
    cases names : split (object.registered workload) ',' with
    | nil => exact absurd names (split_ne_nil _ _)
    | cons name others => cases others <;> rfl

theorem rollOut_of_unlisted (none : object.listed workload = []) :
    rollOut workload object version = .ret () := by
  apply rollOut_unregistered
  by_contra filled
  rw [Object.listed, if_neg filled] at none
  exact split_ne_nil _ _ none

/-- A roll-out to a template without annotations panics before it writes. -/
theorem run_rollOut_nil (method : object.annotations.index "updateMethod" = "ignoreWhenShared")
    (listed : object.listed workload = [name]) (member : stored ∈ cluster.workloads workload)
    (own : key stored = (object.ns, name)) (bare : stored.template.annotations = .nil) :
    (rollOut workload object version).run Cluster.serve cluster = (cluster, .panicked) := by
  have found := Table.find?_eq_some.mpr ⟨member, own⟩
  rw [rollOut_listed method, listed]
  simp [getWorkload, found, bare, GoMap.assign?]

/-- What a roll-out without failures does: nothing where no workload is listed, one write where one is, and an
error where several are. -/
theorem rollOut_cases (method : object.annotations.index "updateMethod" = "ignoreWhenShared")
    (smooth : Smooth (rollOut workload object version) cluster) :
    object.listed workload = [] ∧ templateWrites (rollOut workload object version) cluster = [] ∧
      (rollOut workload object version).run Cluster.serve cluster = (cluster, .returned ()) ∨
    (∃ name, ∃ stored ∈ cluster.workloads workload, object.listed workload = [name] ∧
      key stored = (object.ns, name) ∧
      (stored.template.annotations = .nil ∧ templateWrites (rollOut workload object version) cluster = [] ∧
        (rollOut workload object version).run Cluster.serve cluster = (cluster, .panicked) ∨
      stored.template.annotations ≠ .nil ∧
        templateWrites (rollOut workload object version) cluster =
          [(workload, stored.carrying (kind.tag ++ object.name) version)] ∧
        ∃ workloads, (rollOut workload object version).run Cluster.serve cluster =
          (cluster.withWorkloads workload workloads, .returned ()))) ∨
    2 ≤ (object.listed workload).length ∧ templateWrites (rollOut workload object version) cluster = [] ∧
      (rollOut workload object version).run Cluster.serve cluster = (cluster, .failed (.badRequest sharedText)) := by
  cases listed : object.listed workload with
  | nil =>
    left
    rw [rollOut_of_unlisted listed]
    exact ⟨rfl, rfl, rfl⟩
  | cons name others =>
    cases others with
    | cons second more =>
      right
      right
      rw [rollOut_listed method, listed]
      exact ⟨by simp, rfl, rfl⟩
    | nil =>
      right
      left
      have rolls : rollOut workload object version = _ := rollOut_listed method
      rw [listed] at rolls
      rw [rolls] at smooth
      cases found : (cluster.workloads workload).find? (object.ns, name) with
      | none =>
        have failed := smooth.1
        simp only [Cluster.serve_getWorkload, found, Cluster.present_none] at failed
        exact absurd rfl (failed _)
      | some stored =>
        obtain ⟨member, own⟩ := Table.find?_eq_some.mp found
        refine ⟨name, stored, member, rfl, own, ?_⟩
        by_cases bare : stored.template.annotations = .nil
        · left
          refine ⟨bare, ?_, run_rollOut_nil method listed member own bare⟩
          rw [rolls]
          simp [templateWrites, Call.written?, getWorkload, found, bare, GoMap.assign?]
        · right
          obtain ⟨filled, sole⟩ := Object.listed_eq_singleton.mp listed
          obtain ⟨updated, workloads, ran, _⟩ := run_rollOut version filled method sole member own bare
          refine ⟨bare, ?_, workloads, ran⟩
          obtain ⟨_, _, accepted, _⟩ :=
            Table.update_of_current (stored.carrying (kind.tag ++ object.name) version) member rfl rfl
          simp only [Workload.carrying] at accepted
          rw [rolls]
          simp [templateWrites, Call.written?, getWorkload, updateWorkload, found, GoMap.assign?_eq_some bare,
            accepted, Workload.carrying]

end Roll

structure Renewed (object updated : Object kind) : Prop where
  key_eq : key updated = key object
  registered : ∀ workload, updated.registered workload = object.registered workload
  method : updated.annotations.index "updateMethod" = "ignoreWhenShared"

section Renewal

variable {current : Revision kind}

theorem Renewed.of_written {updated : Object kind} {table objects : Table (Object kind)} {made : String}
    (written : table.Written (object.annotate version made) updated objects) : Renewed object updated where
  key_eq := written.key_eq
  registered workload := by rw [written.answered, Object.registered_stamp, Object.registered_annotate]
  method := by
    rw [written.answered]
    simp [stamp, Object.annotate]

/-- The first calls of a program write no template, and the rest of it is left. -/
structure Leads {α : Type} (program : Client α) (cluster : Cluster) (rest : Client α) (world : Cluster) : Prop where
  run : program.run Cluster.serve cluster = rest.run Cluster.serve world
  writes : templateWrites program cluster = templateWrites rest world
  smooth : Smooth program cluster → Smooth rest world

section Leads

variable {α : Type} {rest : Client α} {world : Cluster}

theorem Leads.refl (program : Client α) (cluster : Cluster) : Leads program cluster program cluster :=
  ⟨rfl, rfl, id⟩

theorem Leads.of_eq {program : Client α} (same : program = rest) (here : cluster = world) :
    Leads program cluster rest world := by
  rw [same, here]
  exact .refl _ _

theorem Leads.trans {program middle : Client α} {between : Cluster} (first : Leads program cluster middle between)
    (second : Leads middle between rest world) : Leads program cluster rest world :=
  ⟨first.run.trans second.run, first.writes.trans second.writes, second.smooth ∘ first.smooth⟩

theorem Leads.call {request : Call} {next : Answer request → Client α} (silent : request.written? = none)
    (leads : Leads (next (cluster.serve request).2) (cluster.serve request).1 rest world) :
    Leads (Program.call request next) cluster rest world where
  run := leads.run
  writes := by
    rw [templateWrites, Program.gather_call, silent]
    exact leads.writes
  smooth smooth := leads.smooth smooth.2

theorem Leads.updateRevision {sent stored : Revision kind} {table : Table (Revision kind)}
    {next : Revision kind → Client α} (accepted : (cluster.revisions kind).update sent = .ok (stored, table))
    (leads : Leads (next stored) (cluster.withRevisions kind table) rest world) :
    Leads (updateRevision sent >>= next) cluster rest world := by
  refine .call rfl ?_
  rw [Cluster.serve_updateRevision, accepted]
  exact leads

theorem Leads.updateObject {sent stored : Object kind} {table : Table (Object kind)}
    {next : Object kind → Client α} (accepted : (cluster.objects kind).update sent = .ok (stored, table))
    (leads : Leads (next stored) (cluster.withObjects kind table) rest world) :
    Leads (updateObject sent >>= next) cluster rest world := by
  refine .call rfl ?_
  rw [Cluster.serve_updateObject, accepted]
  exact leads

theorem Leads.not_smooth {program : Client α} {request : Call} {next : Answer request → Client α}
    (leads : Leads program cluster (Program.call request next) world) (error : ApiError)
    (fails : request.failure error = some (world.serve request).2) : ¬ Smooth program cluster :=
  fun smooth => (leads.smooth smooth).1 error fails

end Leads

/-- Without failures the old revision loses its labels before the new one is asked for. -/
theorem createNew_leads {stripped retired first : Revision kind} {others : List (Revision kind)}
    {noCurrent noLatest : Table (Revision kind)}
    (strip : (cluster.revisions kind).update (current.unlabel "current") = .ok (stripped, noCurrent))
    (list : noCurrent.select (marked object.ns object.name "latest") = first :: others)
    (retire : noCurrent.update (first.unlabel "latest") = .ok (retired, noLatest)) :
    Leads (createNew object current) cluster
      (Program.call (.createRevision kind (newRevision object cluster.nextVersion)) fun
        | .error error => revert stripped (retired :: others) error
        | .ok created => publish object created cluster.nextVersion)
      (cluster.reseeded.withRevisions kind noLatest) := by
  have strips : Leads (createNew object current) cluster (addNew object stripped (retired :: others))
      (cluster.withRevisions kind noLatest) := by
    refine .updateRevision strip (.call rfl ?_)
    rw [Cluster.serve_listRevisions, Cluster.withRevisions_revisions, list]
    refine .call rfl ?_
    rw [Cluster.serve_updateRevision, Cluster.withRevisions_revisions, retire, Cluster.settle_ok,
      Cluster.withRevisions_withRevisions]
    exact .refl _ _
  refine strips.trans (.call rfl ?_)
  refine .of_eq (congrArg (Program.call _) (funext fun answer => ?_)) rfl
  cases answer <;> rfl

/-- Without failures a publication panics over missing annotations, or leads to the roll-outs. -/
theorem publish_ends {created : Revision kind} {version : String}
    (smooth : Smooth (publish object created version) cluster) :
    object.annotations = .nil ∧ publish object created version = Program.panic ∨
      ∃ updated objects, Renewed object updated ∧
        Leads (publish object created version) cluster (rollOuts updated version)
          (cluster.withObjects kind objects) := by
  by_cases made : object.annotations = .nil
  · refine Or.inl ⟨made, ?_⟩
    simp [publish, Object.annotate?, made, GoMap.assign?]
  · have annotates : publish object created version =
        (updateObject (object.annotate version created.name) >>= fun updated => rollOuts updated version) := by
      rw [publish, Object.annotate?_of_ne_nil made]
      rfl
    rw [annotates] at smooth ⊢
    cases update : (cluster.objects kind).update (object.annotate version created.name) with
    | error refusal =>
      refine absurd smooth ((Leads.refl _ _).not_smooth (refusal.error kind.plural object.name) ?_)
      rw [Cluster.serve_updateObject, update]
      rfl
    | ok result =>
      obtain ⟨updated, objects⟩ := result
      exact Or.inr ⟨updated, objects, .of_written (Table.written_of_update update).2,
        .updateObject update (.refl _ _)⟩

/-- What `createNew` does without failures: it panics, or its roll-outs follow. -/
theorem createNew_ends (member : current ∈ cluster.revisions kind)
    (smooth : Smooth (createNew object current) cluster) :
    ((cluster.revisions kind).select (marked object.ns object.name "latest") = [] ∨ object.annotations = .nil) ∧
      templateWrites (createNew object current) cluster = [] ∧
      ((createNew object current).run Cluster.serve cluster).2 = .panicked ∨
    (cluster.revisions kind).select (marked object.ns object.name "latest") ≠ [] ∧
      ∃ updated world, Renewed object updated ∧ world.workloads = cluster.workloads ∧
        Smooth (rollOuts updated cluster.nextVersion) world ∧
        templateWrites (createNew object current) cluster =
          templateWrites (rollOuts updated cluster.nextVersion) world ∧
        (createNew object current).run Cluster.serve cluster =
          (rollOuts updated cluster.nextVersion).run Cluster.serve world := by
  obtain ⟨stripped, noCurrent, strip, stripping⟩ := Table.update_of_current (current.unlabel "current") member rfl rfl
  have latests : noCurrent.select (marked object.ns object.name "latest") = [] ↔
      (cluster.revisions kind).select (marked object.ns object.name "latest") = [] :=
    latests_unlabel stripping member
  cases list : noCurrent.select (marked object.ns object.name "latest") with
  | nil =>
    have leads : Leads (createNew object current) cluster Program.panic (cluster.withRevisions kind noCurrent) := by
      refine .updateRevision strip (.call rfl ?_)
      rw [Cluster.serve_listRevisions, Cluster.withRevisions_revisions, list]
      exact .refl _ _
    exact Or.inl ⟨Or.inl (latests.mp list), leads.writes, congrArg Prod.snd leads.run⟩
  | cons first others =>
    have listed : first ∈ noCurrent :=
      (Table.mem_select.mp (list ▸ List.mem_cons_self : first ∈ noCurrent.select _)).1
    obtain ⟨retired, noLatest, retire, _⟩ := Table.update_of_current (first.unlabel "latest") listed rfl rfl
    have creates := createNew_leads strip list retire
    cases create : noLatest.create (newRevision object cluster.nextVersion) with
    | error refusal =>
      refine absurd smooth (creates.not_smooth
        (refusal.error kind.customPlural (newRevision object cluster.nextVersion).name) ?_)
      rw [Cluster.serve_createRevision, Cluster.withRevisions_revisions, create]
      rfl
    | ok result =>
      obtain ⟨created, withNew⟩ := result
      have publishes : Leads (createNew object current) cluster (publish object created cluster.nextVersion)
          (cluster.reseeded.withRevisions kind withNew) := by
        refine creates.trans (.call rfl ?_)
        rw [Cluster.serve_createRevision, Cluster.withRevisions_revisions, create, Cluster.settle_ok,
          Cluster.withRevisions_withRevisions]
        exact .refl _ _
      rcases publish_ends (publishes.smooth smooth) with ⟨made, bare⟩ | ⟨updated, objects, renewed, rolls⟩
      · rw [bare] at publishes
        exact Or.inl ⟨Or.inr made, publishes.writes, congrArg Prod.snd publishes.run⟩
      · have ends := publishes.trans rolls
        refine Or.inr ⟨?_, updated, (cluster.reseeded.withRevisions kind withNew).withObjects kind objects,
          renewed, rfl, ends.smooth smooth, ends.writes, ends.run⟩
        rw [Ne, ← latests, list]
        exact List.cons_ne_nil _ _

end Renewal

/-- The run writes the new version only into the template of the workload that alone shares the object; where
there is one, a run that returns has written it. -/
structure AllOrNothing (cluster : Cluster) (object : Object kind) (current : Revision kind) : Prop where
  sole : ∀ workload sent, (workload, sent) ∈ templateWrites (createNew object current) cluster →
    object.sharers = [(workload, sent.name)] ∧ sent.ns = object.ns
  written : ((createNew object current).run Cluster.serve cluster).2 = .returned () → ∀ workload name,
    object.sharers = [(workload, name)] → ∃ sent,
      templateWrites (createNew object current) cluster = [(workload, sent)] ∧ key sent = (object.ns, name) ∧
        sent.template.annotations.lookup (kind.tag ++ object.name) = some cluster.nextVersion

/-- A single Deployment shares the object with StatefulSets, and a roll-out reaches its template. -/
structure Splits (cluster : Cluster) (object : Object kind) : Prop where
  reached : (cluster.revisions kind).select (marked object.ns object.name "latest") ≠ []
  shared : object.listed .statefulSet ≠ []
  deployment : ∃ stored ∈ cluster.workloads .deployment, object.listed .deployment = [stored.name] ∧
    stored.ns = object.ns ∧ stored.template.annotations ≠ .nil

section Shares

variable {current : Revision kind} {updated : Object kind}

theorem Renewed.listed (renewed : Renewed object updated) (workload : WorkloadKind) :
    updated.listed workload = object.listed workload := by
  rw [Object.listed, Object.listed, renewed.registered]

theorem allOrNothing_of_sole {stored : Workload} (sharers : object.sharers = [(workload, stored.name)])
    (inNs : stored.ns = object.ns) (once : templateWrites (createNew object current) cluster =
      [(workload, stored.carrying (kind.tag ++ object.name) cluster.nextVersion)]) :
    AllOrNothing cluster object current where
  sole other sent member := by
    rw [once, List.mem_singleton, Prod.mk.injEq] at member
    obtain ⟨rfl, rfl⟩ := member
    exact ⟨sharers, inNs⟩
  written _ other name alone := by
    rw [sharers, List.cons.injEq, Prod.mk.injEq] at alone
    obtain ⟨⟨rfl, rfl⟩, _⟩ := alone
    refine ⟨_, once, Prod.ext inNs rfl, ?_⟩
    rw [Workload.carrying, GoMap.lookup_put, if_pos rfl]

theorem Renewed.sharers (renewed : Renewed object updated) : updated.sharers = object.sharers := by
  rw [Object.sharers, Object.sharers, renewed.listed, renewed.listed]

/-- The only Deployment that an object lists has a template with annotations. -/
def Deploys (cluster : Cluster) (object : Object kind) : Prop :=
  ∃ stored ∈ cluster.workloads .deployment, object.listed .deployment = [stored.name] ∧
    stored.ns = object.ns ∧ stored.template.annotations ≠ .nil

theorem Renewed.deploys {world : Cluster} (renewed : Renewed object updated)
    (workloads : world.workloads = cluster.workloads) : Deploys world updated ↔ Deploys cluster object := by
  have spaces : updated.ns = object.ns := congrArg Prod.fst renewed.key_eq
  rw [Deploys, Deploys, workloads, renewed.listed, spaces]

theorem Object.sharers_of_undeployed (none : object.listed .deployment = []) :
    object.sharers = (object.listed .statefulSet).map fun name => (.statefulSet, name) := by
  rw [Object.sharers, none]
  rfl

/-- A Deployment that shares an object alone shares it with no StatefulSet. -/
theorem Object.listed_of_sharers {name : String} {sharer : WorkloadKind × String}
    (listed : object.listed .deployment = [name]) (alone : object.sharers = [sharer]) :
    object.listed .statefulSet = [] := by
  rw [Object.sharers, listed] at alone
  exact List.map_eq_nil_iff.mp (List.cons.inj alone).2

/-- The two roll-outs without failures write nothing, the one workload that shares the object, or a Deployment that
shares it with StatefulSets. -/
theorem rollOuts_cases (method : object.annotations.index "updateMethod" = "ignoreWhenShared")
    (smooth : Smooth (rollOuts object version) cluster) :
    (templateWrites (rollOuts object version) cluster = [] ∧
      (object.listed .statefulSet ≠ [] → ¬ Deploys cluster object) ∧
      (((rollOuts object version).run Cluster.serve cluster).2 = .returned () → object.sharers = [])) ∨
    (∃ workload, ∃ stored ∈ cluster.workloads workload, object.sharers = [(workload, stored.name)] ∧
      stored.ns = object.ns ∧ templateWrites (rollOuts object version) cluster =
        [(workload, stored.carrying (kind.tag ++ object.name) version)]) ∨
    object.listed .statefulSet ≠ [] ∧ Deploys cluster object ∧
      ∃ stored, (.deployment, stored) ∈ templateWrites (rollOuts object version) cluster := by
  have parts := Program.answered_bind.mp smooth
  have writes : templateWrites (rollOuts object version) cluster = _ := templateWrites_bind
    (rollOut .deployment object version) (fun _ => rollOut .statefulSet object version) cluster
  have ran : (rollOuts object version).run Cluster.serve cluster = _ := Program.run_bind Cluster.serve
    (rollOut .deployment object version) (fun _ => rollOut .statefulSet object version) cluster
  rcases rollOut_cases method parts.1 with ⟨none, silent, ends⟩ |
    ⟨name, stored, there, sole, own, ⟨bare, silent, ends⟩ | ⟨made, once, after, ends⟩⟩ | ⟨many, silent, ends⟩
  · have undeployed : ¬ Deploys cluster object := by
      rintro ⟨_, _, listed, _⟩
      rw [none] at listed
      cases listed
    have sharers := Object.sharers_of_undeployed none
    have second : rollOuts object version = rollOut .statefulSet object version := by
      rw [rollOuts, rollOut_of_unlisted none]
      rfl
    rw [second] at smooth ⊢
    rcases rollOut_cases method smooth with ⟨nobody, quiet, _⟩ |
      ⟨name, stored, there, sole, own, ⟨_, quiet, ended⟩ | ⟨_, once, _, _⟩⟩ | ⟨_, quiet, ended⟩
    · refine Or.inl ⟨quiet, fun _ => undeployed, fun _ => ?_⟩
      rw [sharers, nobody]
      rfl
    · refine Or.inl ⟨quiet, fun _ => undeployed, fun returned => ?_⟩
      rw [ended] at returned
      cases returned
    · obtain ⟨inNs, rfl⟩ := Prod.mk.inj own
      refine Or.inr (Or.inl ⟨.statefulSet, stored, there, ?_, inNs, once⟩)
      rw [sharers, sole]
      rfl
    · refine Or.inl ⟨quiet, fun _ => undeployed, fun returned => ?_⟩
      rw [ended] at returned
      cases returned
  · rw [ends] at ran
    rw [silent, ends] at writes
    refine Or.inl ⟨writes, fun _ deploys => ?_, fun returned => ?_⟩
    · obtain ⟨other, inside, listed, inNs, made⟩ := deploys
      have same : other.name = name := (List.cons.inj (listed.symm.trans sole)).1
      obtain rfl := Table.unique inside there ((Prod.ext inNs same : key other = (object.ns, name)).trans own.symm)
      exact made bare
    · rw [ran] at returned
      cases returned
  · obtain ⟨inNs, rfl⟩ := Prod.mk.inj own
    rw [once, ends] at writes
    right
    cases others : object.listed .statefulSet with
    | nil =>
      left
      refine ⟨.deployment, stored, there, by rw [Object.sharers, sole, others]; rfl, inNs, ?_⟩
      rw [writes]
      dsimp only
      rw [rollOut_of_unlisted others]
      rfl
    | cons first more =>
      right
      refine ⟨List.cons_ne_nil _ _, ⟨stored, there, sole, inNs, made⟩,
        stored.carrying (kind.tag ++ object.name) version, ?_⟩
      rw [writes]
      exact List.mem_cons_self
  · rw [ends] at ran
    rw [silent, ends] at writes
    refine Or.inl ⟨writes, fun _ deploys => ?_, fun returned => ?_⟩
    · obtain ⟨_, _, listed, _⟩ := deploys
      rw [listed] at many
      exact absurd many (Nat.not_succ_le_self 1)
    · rw [ran] at returned
      cases returned

/-- A run that writes nothing, and returns only where nobody shares the object. -/
theorem allOrNothing_of_unwritten (none : templateWrites (createNew object current) cluster = [])
    (unshared : ((createNew object current).run Cluster.serve cluster).2 = .returned () → object.sharers = []) :
    AllOrNothing cluster object current where
  sole workload sent member := by
    rw [none] at member
    cases member
  written returned workload name alone := by
    rw [unshared returned] at alone
    cases alone

/-- A single Deployment is written whatever StatefulSets there are. -/
theorem allOrNothing_iff (member : current ∈ cluster.revisions kind)
    (smooth : Smooth (createNew object current) cluster) :
    AllOrNothing cluster object current ↔ ¬ Splits cluster object := by
  rcases createNew_ends member smooth with ⟨unreached, none, panics⟩ |
    ⟨reached, updated, world, renewed, workloads, smoothRolls, templates, run⟩
  · refine iff_of_true (allOrNothing_of_unwritten none (by rw [panics]; nofun)) fun splits => ?_
    rcases unreached with none | bare
    · exact splits.reached none
    · refine splits.shared ?_
      rw [Object.listed, Object.registered, bare]
      rfl
  · have names : updated.name = object.name := congrArg Prod.snd renewed.key_eq
    have spaces : updated.ns = object.ns := congrArg Prod.fst renewed.key_eq
    have cases := @rollOuts_cases _ _ _ cluster.nextVersion renewed.method smoothRolls
    rw [← templates, ← run, renewed.deploys workloads, renewed.listed, renewed.sharers, workloads, names,
      spaces] at cases
    rcases cases with ⟨none, unsplit, unshared⟩ | ⟨workload, stored, _, sole, inNs, once⟩ |
      ⟨shared, deploys, stored, written⟩
    · exact iff_of_true (allOrNothing_of_unwritten none unshared) fun splits => unsplit splits.shared splits.deployment
    · refine iff_of_true (allOrNothing_of_sole sole inNs once) fun splits => ?_
      obtain ⟨_, _, listed, _⟩ := splits.deployment
      exact splits.shared (Object.listed_of_sharers listed sole)
    · refine iff_of_false (fun whole => ?_) (not_not_intro ⟨reached, shared, deploys⟩)
      obtain ⟨_, _, listed, _⟩ := deploys
      exact shared (Object.listed_of_sharers listed (whole.sole .deployment stored written).1)

end Shares

namespace Sample

/-- The reconcile of `settings`, painted blue, makes its next revision. -/
def renewBlue : Client Unit :=
  createNew (enrolled "blue" "aaaaa" 2) (settingsCCM "red" "aaaaa" ["current", "latest"] 1)

theorem renewBlue_smooth : Smooth renewBlue rolledOutBlue := by
  refine ⟨?_, ?_, ?_, ?_, ?_, ?_, ?_, ?_, trivial⟩ <;> exact fun error same => nomatch same

theorem renewBlue_whole : AllOrNothing rolledOutBlue (enrolled "blue" "aaaaa" 2)
    (settingsCCM "red" "aaaaa" ["current", "latest"] 1) :=
  (allOrNothing_iff (List.mem_singleton_self _) renewBlue_smooth).mpr fun splits =>
    splits.shared (by decide)

/-- `settings`, painted blue, with the Deployment `api` and the StatefulSet `db`. -/
def sharedBlue : Object .configMap :=
  { enrolled "blue" "aaaaa" 2 with
    annotations := (enrolled "blue" "aaaaa" 2).annotations.put "statefulsets" "db" }

def dbAt (version : String) (written : Nat) : Workload := { apiAt version written with name := "db" }

def sharedByBoth : Cluster :=
  (rolledOut.withObjects .configMap ⟨[sharedBlue], 2, by decide, by decide, by decide⟩).withWorkloads
    .statefulSet ⟨[dbAt "aaaaa" 1], 1, by decide, by decide, by decide⟩

/-- Two workloads share `settings`, no call fails, and both templates get the new version. -/
theorem sharedByBoth_split :
    Smooth (createNew sharedBlue (settingsCCM "red" "aaaaa" ["current", "latest"] 1)) sharedByBoth ∧
      sharedBlue.sharers = [(.deployment, "api"), (.statefulSet, "db")] ∧
      ¬ AllOrNothing sharedByBoth sharedBlue (settingsCCM "red" "aaaaa" ["current", "latest"] 1) := by
  have sharers : sharedBlue.sharers = [(.deployment, "api"), (.statefulSet, "db")] := by decide
  refine ⟨?_, sharers, fun whole => ?_⟩
  · refine ⟨?_, ?_, ?_, ?_, ?_, ?_, ?_, ?_, ?_, ?_, trivial⟩ <;> exact fun error same => nomatch same
  · have templates : templateWrites (createNew sharedBlue (settingsCCM "red" "aaaaa" ["current", "latest"] 1))
        sharedByBoth = [(.deployment, apiAt "bbbbb" 1), (.statefulSet, dbAt "bbbbb" 1)] := by rfl
    have alone := (whole.sole .deployment (apiAt "bbbbb" 1) (by rw [templates]; exact List.mem_cons_self)).1
    rw [sharers] at alone
    cases alone

end Sample

end Configurator
