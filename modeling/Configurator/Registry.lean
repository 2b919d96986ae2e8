import Configurator.Library.Interference
import Configurator.Reactions
import Configurator.Rollback
import Configurator.Sends

namespace Configurator

open Resource

variable {kind : Kind} {ns name : String}

/-- A name that can stand in a list separated by commas. -/
def Listable (name : String) : Prop := name ≠ "" ∧ ',' ∉ name.toList

instance (name : String) : Decidable (Listable name) := inferInstanceAs (Decidable (_ ∧ _))

namespace Object

/-- The names in the annotation `deployments`. -/
def deployments (object : Object kind) : List String :=
  let list := object.registered .deployment
  if list = "" then [] else split list ','

@[simp] theorem deployments_stamp (written : Nat) (object : Object kind) :
    (stamp written object).deployments = object.deployments := by
  simp [deployments]

theorem deployments_congr {left right : Object kind}
    (same : left.registered .deployment = right.registered .deployment) :
    left.deployments = right.deployments := by
  simp [deployments, same]

/-- The list keeps its names in their order and gains no name that it has. -/
structure Grown (before after : Object kind) : Prop where
  kept : before.deployments <+: after.deployments
  distinct : before.deployments.Nodup → after.deployments.Nodup

theorem Grown.refl (object : Object kind) : object.Grown object := ⟨List.prefix_refl _, id⟩

theorem Grown.trans {first second third : Object kind} (earlier : first.Grown second)
    (later : second.Grown third) : first.Grown third :=
  ⟨earlier.kept.trans later.kept, later.distinct ∘ earlier.distinct⟩

/-- What may be sent in the place of an object that has been read. -/
structure Rewrites (held sent : Object kind) : Prop where
  key_eq : key sent = key held
  version_eq : version sent = version held
  grown : held.Grown sent

theorem Rewrites.of_registered {held sent : Object kind} (key_eq : key sent = key held)
    (version_eq : version sent = version held)
    (same : sent.registered .deployment = held.registered .deployment) : held.Rewrites sent := by
  have list := deployments_congr same
  exact ⟨key_eq, version_eq, list ▸ List.prefix_refl _, fun distinct => list ▸ distinct⟩

theorem rewrites_annotate (object : Object kind) (version name : String) :
    object.Rewrites (object.annotate version name) :=
  .of_registered rfl rfl (registered_annotate _ _ _ _)

/-- Copying a revision leaves the list of Deployments as it was read. -/
theorem rewrites_restore {object restored : Object kind} {revision : Revision kind}
    (copied : restore? object revision = some restored) : object.Rewrites restored := by
  have kept := restored_of_restore? copied
  exact .of_registered kept.key kept.version (kept.registered .deployment)

theorem rewrites_podRestore {object restored : Object kind} {revision : Revision kind}
    (copied : PodWebhook.restore? object revision = some restored) : object.Rewrites restored := by
  have kept := PodWebhook.restored_of_restore? copied
  exact .of_registered kept.key kept.version (kept.registered .deployment)

/-- The handler of Deployments adds a name once and at the end. -/
theorem deployments_register {workload : String} (listable : Listable workload) (object : Object kind) :
    (register .deployment workload object).deployments =
      if workload ∈ object.deployments then object.deployments
      else object.deployments ++ [workload] := by
  have written : ∀ list, ({ object with
      annotations := object.annotations.put WorkloadKind.deployment.registry list } :
        Object kind).registered .deployment = list := fun list => by simp [registered]
  dsimp only [register]
  by_cases empty : object.registered .deployment = ""
  · have none : object.deployments = [] := if_pos empty
    rw [if_pos empty, none, if_neg List.not_mem_nil]
    simp [deployments, written, listable.1, split_of_absent listable.2]
  · have list : object.deployments = split (object.registered .deployment) ',' := if_neg empty
    rw [if_neg empty, list]
    split_ifs
    · exact list
    · have filled : object.registered .deployment ++ "," ++ workload ≠ "" := by simp
      simp only [deployments, written, extendRegistry, if_neg filled]
      exact split_append listable.2

theorem mem_deployments_register {workload : String} (listable : Listable workload)
    (object : Object kind) : workload ∈ (register .deployment workload object).deployments := by
  rw [deployments_register listable]
  split <;> simp [*]

/-- Registering a workload of either kind grows the list of Deployments. -/
theorem rewrites_register (workload : WorkloadKind) {owner : String}
    (listable : workload = .deployment → Listable owner) (object : Object kind) :
    object.Rewrites (register workload owner object) := by
  have key_eq := key_register workload owner object
  have version_eq := version_register workload owner object
  cases workload with
  | deployment =>
    refine ⟨key_eq, version_eq, ?_, fun distinct => ?_⟩ <;>
      rw [deployments_register (listable rfl)] <;> split_ifs with present
    · exact List.prefix_refl _
    · exact List.prefix_append _ _
    · exact distinct
    · exact List.nodup_append.mpr ⟨distinct, List.nodup_singleton _, by
        rintro left member right here rfl
        exact present (List.mem_singleton.mp here ▸ member)⟩
  | statefulSet =>
    refine .of_registered key_eq version_eq ?_
    dsimp only [register]
    split_ifs <;> simp [registered, WorkloadKind.registry]

theorem Rewrites.trans {first second third : Object kind} (earlier : first.Rewrites second)
    (later : second.Rewrites third) : first.Rewrites third :=
  ⟨later.key_eq.trans earlier.key_eq, later.version_eq.trans earlier.version_eq,
    earlier.grown.trans later.grown⟩

theorem rewrites_enlist (workload : WorkloadKind) {owner : String}
    (listable : workload = .deployment → Listable owner) (object : Object kind) :
    object.Rewrites (Init.enlist workload owner object) := by
  cases workload with
  | deployment => exact rewrites_register .deployment listable object
  | statefulSet =>
    refine .of_registered ?_ ?_ ?_ <;> dsimp only [Init.enlist] <;> split_ifs <;>
      first | rfl | simp [registered, WorkloadKind.registry]

theorem rewrites_introduce (workload : WorkloadKind) {owner : String}
    (listable : workload = .deployment → Listable owner) (version name : String) (object : Object kind) :
    object.Rewrites (Init.introduce workload owner version name object) :=
  (rewrites_annotate object version name).trans (rewrites_enlist workload listable _)

@[simp] theorem currentVersion_enlist (workload : WorkloadKind) (owner : String) (object : Object kind) :
    (Init.enlist workload owner object).currentVersion = object.currentVersion := by
  dsimp only [Init.enlist]
  split_ifs <;> simp [currentVersion, kind.versionKey_ne_registry workload]

theorem currentVersion_introduce (workload : WorkloadKind) (owner version name : String)
    (object : Object kind) :
    (Init.introduce workload owner version name object).currentVersion = version := by
  rw [Init.introduce, currentVersion_enlist]
  exact currentVersion_annotate object version name

theorem key_introduce (workload : WorkloadKind) (owner version name : String) (object : Object kind) :
    key (Init.introduce workload owner version name object) = key object := by
  dsimp only [Init.introduce, Init.enlist]
  split_ifs <;> rfl

theorem version_introduce (workload : WorkloadKind) (owner made name : String) (object : Object kind) :
    version (Init.introduce workload owner made name object) = version object := by
  dsimp only [Init.introduce, Init.enlist]
  split_ifs <;> rfl

end Object

def NamesListable (cluster : Cluster) : Prop :=
  ∀ workload ∈ cluster.workloads .deployment, Listable workload.name

theorem NamesListable.serve {cluster : Cluster} (listable : NamesListable cluster) (request : Call) :
    NamesListable (cluster.serve request).1 := by
  by_cases spares : ∀ kind sent, request ≠ .updateWorkload kind sent
  · intro workload member
    rw [Cluster.serve_workloads request spares] at member
    exact listable workload member
  · simp only [ne_eq, not_forall, not_not] at spares
    obtain ⟨kind, sent, rfl⟩ := spares
    obtain ⟨⟨after, answer⟩, served⟩ : ∃ result, cluster.serve (.updateWorkload kind sent) = result :=
      ⟨_, rfl⟩
    rw [served]
    rcases Cluster.updateWorkload_cases served with
      ⟨rfl, _⟩ | ⟨stored, workloads, accepted, rfl, _⟩
    · exact listable
    · obtain ⟨⟨entry, present, sameKey, _⟩, written⟩ := Table.written_of_update accepted
      cases kind with
      | statefulSet =>
        exact fun workload member => listable workload (by simpa [Cluster.withWorkloads] using member)
      | deployment =>
        intro workload member
        rw [Cluster.withWorkloads_workloads] at member
        rcases (written.members workload).mp member with rfl | ⟨was, _⟩
        · have names : entry.name = workload.name :=
            congrArg Prod.snd (sameKey.trans written.key_eq.symm)
          exact names ▸ listable entry present
        · exact listable workload was

/-- What no call of a program undoes. -/
structure Grows (before after : Cluster) : Prop where
  later : ∀ kind, (before.objects kind).Later (after.objects kind)
  evolves : ∀ kind, (before.objects kind).Evolves Object.Grown (after.objects kind)
  listable : NamesListable before → NamesListable after

namespace Grows

theorem refl (cluster : Cluster) : Grows cluster cluster :=
  ⟨fun _ => .refl _, fun _ => .refl Object.Grown.refl _, id⟩

theorem trans {first second third : Cluster} (earlier : Grows first second)
    (later : Grows second third) : Grows first third where
  later kind := (earlier.later kind).trans (later.later kind)
  evolves kind := (earlier.evolves kind).trans Object.Grown.trans (later.evolves kind)
  listable := later.listable ∘ earlier.listable

theorem of_spares {before after : Cluster} {request : Call} {answer : Answer request}
    (spares : request.SparesObjects) (reacts : before.Reacts request after answer) :
    Grows before after := by
  rcases reacts with served | ⟨rfl, _⟩
  · have objects : (before.serve request).1.objects = before.objects := Cluster.serve_objects request spares
    have listable := fun holds : NamesListable before => holds.serve request
    rw [served] at objects listable
    exact ⟨fun kind => objects ▸ .refl _, fun kind => objects ▸ .refl Object.Grown.refl _, listable⟩
  · exact refl after

theorem of_rewrites {before after : Cluster} {held sent : Object kind}
    {answer : Except ApiError (Object kind)} (seen : (before.objects kind).Seen held)
    (rewrites : held.Rewrites sent) (reacts : before.Reacts (.updateObject kind sent) after answer) :
    Grows before after := by
  rcases reacts.updateObject with ⟨rfl, _⟩ | ⟨stored, objects, accepted, rfl, _⟩
  · exact refl after
  · obtain ⟨⟨entry, present, sameKey, sameVersion⟩, written⟩ := Table.written_of_update accepted
    obtain rfl : entry = held :=
      seen.same present (sameKey.trans rewrites.key_eq) (sameVersion.trans rewrites.version_eq)
    have grown : entry.Grown stored := by
      rw [written.answered]
      exact ⟨by simpa using rewrites.grown.kept, by simpa using rewrites.grown.distinct⟩
    have evolves := written.evolves Object.Grown.refl present sameKey grown
    refine ⟨fun other => ?_, fun other => ?_, id⟩ <;> by_cases same : other = kind
    · subst same
      simpa using written.later
    · simpa [Cluster.withObjects, Function.update_of_ne same] using Table.Later.refl _
    · subst same
      simpa using evolves
    · simpa [Cluster.withObjects, Function.update_of_ne same] using
        Table.Evolves.refl Object.Grown.refl _

end Grows

end Configurator
