import Configurator.Admission
import Configurator.Library.Symmetry
import Configurator.Sends

/-! The handler of StatefulSets beside the handler of Deployments. One is the other with the annotations
`deployments` and `statefulsets` exchanged, as long as no list has to grow: the handler of StatefulSets then
puts the name in the place of the list. -/
namespace Configurator

open Resource

variable {kind : Kind} {cluster after : Cluster} {sent : Workload} {name : String} {workload : WorkloadKind}

/-- `deployments` and `statefulsets` in each other's place. -/
def exchangedKeys : String ≃ String := Equiv.swap "deployments" "statefulsets"

namespace Object

/-- The object with its two lists exchanged. -/
def exchanged (object : Object kind) : Object kind :=
  { object with annotations := object.annotations.rename exchangedKeys }

@[simp] theorem registered_exchanged (object : Object kind) :
    object.exchanged.registered .deployment = object.registered .statefulSet := by
  simp only [registered, exchanged, GoMap.index_rename, WorkloadKind.registry, exchangedKeys, Equiv.symm_swap,
    Equiv.swap_apply_left]

theorem currentVersion_exchanged (object : Object kind) :
    object.exchanged.currentVersion = object.currentVersion := by
  have apart : exchangedKeys kind.versionKey = kind.versionKey := by
    cases kind <;> exact Equiv.swap_apply_of_ne_of_ne (by decide) (by decide)
  rw [currentVersion, exchanged, GoMap.index_rename, exchangedKeys, Equiv.symm_swap, ← exchangedKeys, apart,
    currentVersion]

/-- The StatefulSets that the object lists. -/
def statefulsets (object : Object kind) : List String :=
  if object.registered .statefulSet = "" then [] else split (object.registered .statefulSet) ','

/-- The object lists no StatefulSet, or this one already. -/
def HasRoom (name : String) (object : Object kind) : Prop :=
  object.registered .statefulSet = "" ∨ name ∈ split (object.registered .statefulSet) ','

theorem exchanged_injective : Function.Injective (exchanged : Object kind → Object kind) := by
  intro left right same
  have annotations := GoMap.rename_injective exchangedKeys (congrArg Object.annotations same)
  cases left
  cases right
  simp only [exchanged, mk.injEq] at same ⊢
  exact ⟨same.1, same.2.1, annotations, same.2.2.2.1, same.2.2.2.2⟩

/-- The store does not notice the exchange. -/
def exchange (kind : Kind) : Symmetry (Object kind) where
  apply := exchanged
  injective := exchanged_injective
  key_apply _ := rfl
  version_apply _ := rfl
  stamp_apply _ object := by
    simp only [stamp, exchanged, GoMap.omitEmpty_rename]

theorem exchanged_put (object : Object kind) (list : String) :
    exchanged { object with annotations := object.annotations.put "statefulsets" list } =
      { object.exchanged with annotations := object.exchanged.annotations.put "deployments" list } := by
  simp only [exchanged, GoMap.rename_put, exchangedKeys, Equiv.swap_apply_right]

theorem exchanged_register {object : Object kind} (room : object.HasRoom name) :
    (register .statefulSet name object).exchanged = register .deployment name object.exchanged := by
  simp only [register, registered_exchanged]
  split
  · exact exchanged_put object name
  · rename_i filled
    rw [if_pos (room.resolve_left filled), if_pos (room.resolve_left filled)]

end Object

theorem registry_register (workload : WorkloadKind) (name : String) (object : Object kind) :
    (register workload name object).registered workload =
      if object.registered workload = "" then name
      else if name ∈ split (object.registered workload) ',' then object.registered workload
      else extendRegistry workload (object.registered workload) name := by
  dsimp only [register]
  split_ifs
  · simp [Object.registered]
  · rfl
  · simp [Object.registered]

def Cluster.exchanged (cluster : Cluster) : Cluster :=
  { cluster with objects := fun kind => (cluster.objects kind).changed (Object.exchange kind) }

theorem exchanged_withObjects (cluster : Cluster) (objects : Table (Object kind)) :
    (cluster.withObjects kind objects).exchanged =
      cluster.exchanged.withObjects kind (objects.changed (Object.exchange kind)) := by
  simp only [Cluster.exchanged, Cluster.withObjects]
  congr 1
  funext other
  by_cases same : other = kind
  · subst same
    simp only [Function.update_self]
  · simp only [Function.update_of_ne same]

section Outcome

/-- Both clusters have the same objects at the same versions. -/
def SameVersions (left right : Cluster) : Prop :=
  ∀ kind wanted, ((left.objects kind).find? wanted).map Object.currentVersion =
    ((right.objects kind).find? wanted).map Object.currentVersion

theorem SameVersions.symm {left right : Cluster} (same : SameVersions left right) : SameVersions right left :=
  fun kind wanted => (same kind wanted).symm

theorem SameVersions.trans {first second third : Cluster} (earlier : SameVersions first second)
    (later : SameVersions second third) : SameVersions first third :=
  fun kind wanted => (earlier kind wanted).trans (later kind wanted)

theorem sameVersions_exchanged (cluster : Cluster) : SameVersions cluster.exchanged cluster := by
  intro kind wanted
  rw [Cluster.exchanged, Table.find?_changed, Option.map_map]
  congr 1
  funext object
  exact object.currentVersion_exchanged

/-- What a registration answers depends on the version alone, and leaves the versions. -/
theorem run_pin_of_versions (workload : WorkloadKind) (sent : Workload) (kind : Kind) (name : String)
    (cluster : Cluster) :
    ((pin workload sent kind name).run Cluster.serve cluster).2 =
        (match ((cluster.objects kind).find? (sent.ns, name)).map Object.currentVersion with
          | none => .failed (.notFound kind.plural name)
          | some version => .returned (kind.tag ++ name, version)) ∧
      SameVersions ((pin workload sent kind name).run Cluster.serve cluster).1 cluster := by
  cases found : (cluster.objects kind).find? (sent.ns, name) with
  | none =>
    rw [run_pin_missing found]
    exact ⟨rfl, fun _ _ => rfl⟩
  | some object =>
    obtain ⟨member, own⟩ := Table.find?_eq_some.mp found
    obtain ⟨stored, objects, accepted, ran⟩ := run_pin workload member own
    have written := (Table.written_of_update accepted).2
    have keys : key stored = (sent.ns, name) :=
      written.key_eq.trans ((key_register workload sent.name object).trans own)
    have version : stored.currentVersion = object.currentVersion := by
      rw [written.answered, Object.currentVersion_stamp, currentVersion_register]
    rw [ran]
    constructor
    · rw [show stored.name = name from congrArg Prod.snd keys, version]
      rfl
    · intro other wanted
      by_cases same : other = kind
      · subst same
        rw [Cluster.withObjects_objects, written.find?]
        split
        · rename_i its
          rw [its, key_register, own, found, Option.map_some, Option.map_some, version]
        · rfl
      · simp only [Cluster.withObjects, Function.update_of_ne same]

/-- Both handlers answer alike wherever the versions are the same. -/
theorem run_newAnnotations_of_versions (first second : WorkloadKind) (sent : Workload)
    (references : List (Kind × String)) (added : GoMap String) {left right : Cluster}
    (same : SameVersions left right) :
    ((newAnnotations first sent references added).run Cluster.serve left).2 =
      ((newAnnotations second sent references added).run Cluster.serve right).2 := by
  induction references generalizing added left right with
  | nil => rfl
  | cons reference rest ih =>
    obtain ⟨kind, name⟩ := reference
    unfold newAnnotations
    split
    · obtain ⟨one, before⟩ := run_pin_of_versions first sent kind name left
      obtain ⟨other, beside⟩ := run_pin_of_versions second sent kind name right
      rw [same kind (sent.ns, name), ← other] at one
      rw [Program.run_bind, Program.run_bind]
      generalize (pin first sent kind name).run Cluster.serve left = result at one before
      generalize (pin second sent kind name).run Cluster.serve right = twin at one beside
      obtain ⟨middle, outcome⟩ := result
      obtain ⟨between, answer⟩ := twin
      obtain rfl : outcome = answer := one
      cases outcome with
      | returned pinned => exact ih _ (before.trans (same.trans beside.symm))
      | failed | panicked => rfl
    · exact ih added same

end Outcome

/-- Before the first missing object, each object that the StatefulSet is to be registered on has room for it. -/
def HaveRoom (cluster : Cluster) (sent : Workload) : List (Kind × String) → Prop
  | [] => True
  | (kind, name) :: rest =>
    if sent.template.annotations.index (kind.tag ++ name) = "" then
      match (cluster.objects kind).find? (sent.ns, name) with
      | none => True
      | some object => object.HasRoom sent.name ∧ HaveRoom cluster sent rest
    else HaveRoom cluster sent rest

def KeepsStatefulsets (before after : Cluster) : Prop :=
  ∀ kind, ∀ object ∈ before.objects kind, ∃ next ∈ after.objects kind, key next = key object ∧
    ∀ listed ∈ object.statefulsets, listed ∈ next.statefulsets

namespace KeepsStatefulsets

theorem refl (cluster : Cluster) : KeepsStatefulsets cluster cluster :=
  fun _ object member => ⟨object, member, rfl, fun _ => id⟩

theorem trans {first second third : Cluster} (earlier : KeepsStatefulsets first second)
    (later : KeepsStatefulsets second third) : KeepsStatefulsets first third := by
  intro kind object member
  obtain ⟨middle, between, same, kept⟩ := earlier kind object member
  obtain ⟨last, stored, again, still⟩ := later kind middle between
  exact ⟨last, stored, again.trans same, fun listed inside => still listed (kept listed inside)⟩

end KeepsStatefulsets

section Registration

variable {object stored : Object kind} {objects : Table (Object kind)} {references : List (Kind × String)}

theorem hasRoom_register (room : object.HasRoom name) (plain : ',' ∉ name.toList) :
    (register .statefulSet name object).HasRoom name := by
  rw [Object.HasRoom, registry_register]
  split_ifs with empty listed
  · right
    rw [split_of_absent plain]
    exact List.mem_singleton_self name
  · exact Or.inr listed
  · exact absurd (room.resolve_left empty) listed

theorem statefulsets_register (room : object.HasRoom name) :
    ∀ listed ∈ object.statefulsets, listed ∈ (register .statefulSet name object).statefulsets := by
  intro listed inside
  have filled : object.registered .statefulSet ≠ "" := by
    intro empty
    rw [Object.statefulsets, if_pos empty] at inside
    cases inside
  have same : (register .statefulSet name object).registered .statefulSet = object.registered .statefulSet := by
    rw [registry_register, if_neg filled, if_pos (room.resolve_left filled)]
  rwa [Object.statefulsets, same]

variable (written : (cluster.objects kind).Written (register .statefulSet sent.name object) stored objects)
  (member : object ∈ cluster.objects kind) (room : object.HasRoom sent.name)

include written room

theorem keepsStatefulsets_of_room (member : object ∈ cluster.objects kind) :
    KeepsStatefulsets cluster (cluster.withObjects kind objects) := by
  intro other held inside
  by_cases kinds : other = kind
  · subst kinds
    rw [Cluster.withObjects_objects]
    by_cases own : key held = key object
    · obtain rfl := Table.unique inside member own
      refine ⟨stored, written.mem, written.key_eq.trans (key_register _ _ _), ?_⟩
      have list : stored.statefulsets = (register .statefulSet sent.name held).statefulsets := by
        rw [Object.statefulsets, Object.statefulsets, written.answered, Object.registered_stamp]
      rw [list]
      exact statefulsets_register room
    · refine ⟨held, written.mem_of_ne inside ?_, rfl, fun _ => id⟩
      rwa [key_register]
  · refine ⟨held, ?_, rfl, fun _ => id⟩
    simpa only [Cluster.withObjects, Function.update_of_ne kinds] using inside

/-- A registration where there is room changes nothing about the room of the others. -/
theorem haveRoom_iff (plain : ',' ∉ sent.name.toList) (own : (cluster.objects kind).find? (key object) = some object) :
    HaveRoom (cluster.withObjects kind objects) sent references ↔ HaveRoom cluster sent references := by
  have whole : ∀ other wanted,
      (((cluster.withObjects kind objects).objects other).find? wanted).map (Object.HasRoom sent.name) =
        ((cluster.objects other).find? wanted).map (Object.HasRoom sent.name) := by
    intro other wanted
    by_cases kinds : other = kind
    · subst kinds
      rw [Cluster.withObjects_objects, written.find?, key_register]
      split
      · rename_i its
        have roomy : stored.HasRoom sent.name := by
          rw [written.answered, Object.HasRoom, Object.registered_stamp]
          exact hasRoom_register room plain
        rw [its, own, Option.map_some, Option.map_some, eq_true roomy, eq_true room]
      · rfl
    · simp only [Cluster.withObjects, Function.update_of_ne kinds]
  induction references with
  | nil => exact Iff.rfl
  | cons reference rest ih =>
    obtain ⟨other, called⟩ := reference
    have here := whole other (sent.ns, called)
    unfold HaveRoom
    split
    · cases found : ((cluster.withObjects kind objects).objects other).find? (sent.ns, called) with
      | none =>
        rw [found, Option.map_none, eq_comm, Option.map_eq_none_iff] at here
        rw [here]
      | some one =>
        cases beside : (cluster.objects other).find? (sent.ns, called) with
        | none =>
          rw [found, beside] at here
          cases here
        | some two =>
          rw [found, beside, Option.map_some, Option.map_some, Option.some.injEq] at here
          simp only [here, ih]
    · exact ih

end Registration

/-- Where there is room, a registration by one handler is one by the other. -/
theorem run_pin_exchanged {object stored : Object kind} {objects : Table (Object kind)}
    (member : object ∈ cluster.objects kind) (own : key object = (sent.ns, name)) (room : object.HasRoom sent.name)
    (accepted : (cluster.objects kind).update (register .statefulSet sent.name object) = .ok (stored, objects)) :
    (pin .deployment sent kind name).run Cluster.serve cluster.exchanged =
      ((cluster.withObjects kind objects).exchanged, .returned (kind.tag ++ stored.name, stored.currentVersion)) := by
  have there : object.exchanged ∈ cluster.exchanged.objects kind :=
    (Table.mem_changed (Object.exchange kind)).mpr ⟨object, member, rfl⟩
  obtain ⟨answer, table, again, ran⟩ := run_pin .deployment there own
  have changed := Table.update_changed (Object.exchange kind) (cluster.objects kind)
    (register .statefulSet sent.name object)
  have alike : (Object.exchange kind).apply (register .statefulSet sent.name object) =
      register .deployment sent.name object.exchanged := Object.exchanged_register room
  rw [alike, accepted] at changed
  obtain ⟨rfl, rfl⟩ := Prod.mk.inj (Except.ok.inj (again.symm.trans changed))
  rw [ran, exchanged_withObjects]
  simp only [Object.exchange, Object.currentVersion_exchanged]
  rfl

/-- Where there is room, the loops of one handler do what those of the other do, and keep the lists. -/
theorem run_exchanged (plain : ',' ∉ sent.name.toList) {references : List (Kind × String)}
    (room : HaveRoom cluster sent references) (added : GoMap String) :
    (newAnnotations .deployment sent references added).run Cluster.serve cluster.exchanged =
        (((newAnnotations .statefulSet sent references added).run Cluster.serve cluster).1.exchanged,
          ((newAnnotations .statefulSet sent references added).run Cluster.serve cluster).2) ∧
      KeepsStatefulsets cluster ((newAnnotations .statefulSet sent references added).run Cluster.serve cluster).1 := by
  induction references generalizing added cluster with
  | nil => exact ⟨rfl, .refl cluster⟩
  | cons reference rest ih =>
    obtain ⟨kind, name⟩ := reference
    unfold HaveRoom at room
    unfold newAnnotations
    split at room
    · rename_i unpinned
      rw [if_pos unpinned, if_pos unpinned, Program.run_bind, Program.run_bind]
      cases found : (cluster.objects kind).find? (sent.ns, name) with
      | none =>
        have beside : (cluster.exchanged.objects kind).find? (sent.ns, name) = none := by
          rw [Cluster.exchanged, Table.find?_changed, found, Option.map_none]
        rw [run_pin_missing found, run_pin_missing beside]
        exact ⟨rfl, .refl cluster⟩
      | some object =>
        rw [found] at room
        obtain ⟨member, own⟩ := Table.find?_eq_some.mp found
        obtain ⟨stored, objects, accepted, ran⟩ := run_pin .statefulSet member own
        have written := (Table.written_of_update accepted).2
        have twin := run_pin_exchanged member own room.1 accepted
        have rest := ih ((haveRoom_iff written room.1 plain (own ▸ found)).mpr room.2)
          (added.put (kind.tag ++ stored.name) stored.currentVersion)
        rw [ran, twin]
        exact ⟨rest.1, (keepsStatefulsets_of_room written room.1 member).trans rest.2⟩
    · rename_i pinned
      rw [if_neg pinned, if_neg pinned]
      exact ih room added

/-- An object under this key that the predicate holds of is there still. -/
def Sustains (holds : Object kind → Prop) (wanted : ObjectKey) (before after : Cluster) : Prop :=
  (∃ object ∈ before.objects kind, key object = wanted ∧ holds object) →
    ∃ object ∈ after.objects kind, key object = wanted ∧ holds object

theorem persists {holds : Object kind → Prop} {wanted : ObjectKey}
    (stable : ∀ written object, holds object → holds (stamp written (register workload sent.name object)))
    (references : List (Kind × String)) (added : GoMap String) (cluster : Cluster) :
    Sustains holds wanted cluster ((newAnnotations workload sent references added).run Cluster.serve cluster).1 := by
  have reflexive : ∀ world, Sustains holds wanted world world := fun _ => id
  refine run_newAnnotations reflexive (fun earlier later => later ∘ earlier) ?_ added cluster
  intro world other name _ ⟨held, inside, own, fits⟩
  cases found : (world.objects other).find? (sent.ns, name) with
  | none =>
    rw [run_pin_missing found]
    exact ⟨held, inside, own, fits⟩
  | some object =>
    obtain ⟨member, its⟩ := Table.find?_eq_some.mp found
    obtain ⟨stored, objects, accepted, ran⟩ := run_pin workload member its
    have written := (Table.written_of_update accepted).2
    rw [ran]
    by_cases kinds : kind = other
    · subst kinds
      rw [Cluster.withObjects_objects]
      by_cases same : key held = key object
      · obtain rfl := Table.unique inside member same
        refine ⟨stored, written.mem, written.key_eq.trans ((key_register _ _ _).trans own), ?_⟩
        rw [written.answered]
        exact stable _ _ fits
      · refine ⟨held, written.mem_of_ne inside ?_, own, fits⟩
        rwa [key_register]
    · refine ⟨held, ?_, own, fits⟩
      simpa only [Cluster.withObjects, Function.update_of_ne kinds] using inside

theorem length_lt_extended (list name : String) : name.length < (list ++ "," ++ name).length := by
  have comma : ",".length = 1 := rfl
  rw [String.length_append, String.length_append]
  omega

/-- Without room the handlers write different lists. -/
theorem register_of_full {object : Object kind} (full : ¬ object.HasRoom name) :
    (register .statefulSet name object).registered .statefulSet = name ∧
      (register .deployment name object.exchanged).registered .deployment =
        object.registered .statefulSet ++ "," ++ name := by
  have filled : object.registered .statefulSet ≠ "" := fun empty => full (Or.inl empty)
  have unlisted : ¬ name ∈ split (object.registered .statefulSet) ',' := fun listed => full (Or.inr listed)
  constructor
  · rw [registry_register, if_neg filled, if_neg unlisted, extendRegistry]
  · rw [registry_register, Object.registered_exchanged, if_neg filled, if_neg unlisted, extendRegistry]

/-- Once its list is the name alone, it stays so. -/
theorem alone_stable (name : String) (written : Nat) (object : Object kind)
    (alone : object.registered .statefulSet = name) :
    (stamp written (register .statefulSet name object)).registered .statefulSet = name := by
  rw [Object.registered_stamp, registry_register]
  split_ifs
  · rfl
  · exact alone
  · rfl

/-- Once the list is longer than the name, it stays so. -/
theorem longer_stable (name : String) (written : Nat) (object : Object kind)
    (longer : name.length < (object.registered .deployment).length) :
    name.length < ((stamp written (register .deployment name object)).registered .deployment).length := by
  rw [Object.registered_stamp, registry_register]
  split_ifs with empty listed
  · rw [empty] at longer
    exact absurd longer (Nat.not_lt_zero _)
  · exact longer
  · exact length_lt_extended ..

/-- A list without room: one handler puts the name in its place, the other one adds it at the end. -/
structure Drift (cluster : Cluster) (sent : Workload) (left right : Cluster) (object : Object kind) : Prop where
  member : object ∈ cluster.objects kind
  full : ¬ object.HasRoom sent.name
  alone : ∃ next ∈ left.objects kind, key next = key object ∧ next.registered .statefulSet = sent.name
  longer : ∃ next ∈ right.objects kind, key next = key object ∧
    sent.name.length < (next.registered .deployment).length

/-- At the first object without room the handlers part. -/
theorem drifts (plain : ',' ∉ sent.name.toList) {references : List (Kind × String)}
    (full : ¬ HaveRoom cluster sent references) (added : GoMap String) : ∃ kind, ∃ object : Object kind,
    Drift cluster sent ((newAnnotations .statefulSet sent references added).run Cluster.serve cluster).1
      ((newAnnotations .deployment sent references added).run Cluster.serve cluster.exchanged).1 object := by
  induction references generalizing added cluster with
  | nil => exact absurd trivial full
  | cons reference rest ih =>
    obtain ⟨kind, name⟩ := reference
    unfold HaveRoom at full
    split at full
    · rename_i unpinned
      cases found : (cluster.objects kind).find? (sent.ns, name) with
      | none =>
        rw [found] at full
        exact absurd trivial full
      | some object =>
        rw [found] at full
        obtain ⟨member, own⟩ := Table.find?_eq_some.mp found
        obtain ⟨stored, objects, accepted, ran⟩ := run_pin .statefulSet member own
        have written := (Table.written_of_update accepted).2
        have there : object.exchanged ∈ cluster.exchanged.objects kind :=
          (Table.mem_changed (Object.exchange kind)).mpr ⟨object, member, rfl⟩
        obtain ⟨answer, table, also, twin⟩ := run_pin .deployment there own
        have beside := (Table.written_of_update also).2
        by_cases room : object.HasRoom sent.name
        · have later : ¬ HaveRoom (cluster.withObjects kind objects) sent rest := by
            rw [haveRoom_iff written room plain (own ▸ found)]
            exact fun others => full ⟨room, others⟩
          obtain ⟨other, held, drift⟩ := ih later (added.put (kind.tag ++ stored.name) stored.currentVersion)
          unfold newAnnotations
          rw [if_pos unpinned, if_pos unpinned, Program.run_bind, Program.run_bind, ran,
            run_pin_exchanged member own room accepted]
          refine ⟨other, held, ?_, drift.full, drift.alone, drift.longer⟩
          have inside := drift.member
          by_cases kinds : other = kind
          · subst kinds
            rw [Cluster.withObjects_objects] at inside
            rcases (written.members held).mp inside with rfl | ⟨was, _⟩
            · refine absurd ?_ drift.full
              rw [written.answered, Object.HasRoom, Object.registered_stamp]
              exact hasRoom_register room plain
            · exact was
          · simpa only [Cluster.withObjects, Function.update_of_ne kinds] using inside
        · refine ⟨kind, object, member, room, ?_, ?_⟩
          · unfold newAnnotations
            rw [if_pos unpinned, Program.run_bind, ran]
            apply persists (alone_stable sent.name)
            refine ⟨stored, ?_, written.key_eq.trans (key_register _ _ _), ?_⟩
            · rw [Cluster.withObjects_objects]
              exact written.mem
            · rw [written.answered]
              exact (Object.registered_stamp ..).trans (register_of_full room).1
          · unfold newAnnotations
            rw [if_pos unpinned, Program.run_bind, twin]
            apply persists (longer_stable sent.name)
            refine ⟨answer, ?_, beside.key_eq.trans (key_register _ _ _), ?_⟩
            · rw [Cluster.withObjects_objects]
              exact beside.mem
            · rw [beside.answered]
              show sent.name.length < (Object.registered (stamp _ _) .deployment).length
              rw [Object.registered_stamp, (register_of_full room).2]
              exact length_lt_extended ..
    · rename_i pinned
      unfold newAnnotations
      rw [if_neg pinned, if_neg pinned]
      exact ih full added

section Handlers

variable (order : Iteration)

/-- The handler of Deployments does with the exchanged cluster what the handler of StatefulSets does. -/
def Mirrored (cluster : Cluster) (sent : Workload) : Prop :=
  (createDeploymentPatch order sent).run Cluster.serve cluster.exchanged =
    (((createStatefulsetPatch order sent).run Cluster.serve cluster).1.exchanged,
      ((createStatefulsetPatch order sent).run Cluster.serve cluster).2)

/-- Both handlers give the same patch, or fail with the same error. -/
def SameAnswer (cluster : Cluster) (sent : Workload) : Prop :=
  ((createDeploymentPatch order sent).run Cluster.serve cluster.exchanged).2 =
    ((createStatefulsetPatch order sent).run Cluster.serve cluster).2

/-- The handler of StatefulSets keeps what the objects list. -/
def Keeps (cluster : Cluster) (sent : Workload) : Prop :=
  KeepsStatefulsets cluster ((createStatefulsetPatch order sent).run Cluster.serve cluster).1

/-- One StatefulSet is submitted after the other, and at each this holds of the cluster that it meets. -/
def Along (holds : Cluster → Workload → Prop) : Cluster → List Workload → Prop
  | _, [] => True
  | cluster, sent :: rest =>
    holds cluster sent ∧ Along holds ((createStatefulsetPatch order sent).run Cluster.serve cluster).1 rest

theorem fst_createPatch (workload : WorkloadKind) (sent : Workload) (cluster : Cluster) :
    ((createPatch workload order sent).run Cluster.serve cluster).1 =
      ((newAnnotations workload sent sent.template.spec.references (.make ∅)).run Cluster.serve cluster).1 := by
  obtain ⟨patch, ran⟩ := run_createPatch workload order sent cluster
  rw [ran]
  split <;> simp [*]

theorem snd_createPatch_congr {first second : WorkloadKind} {left right : Cluster}
    (same : ((newAnnotations first sent sent.template.spec.references (.make ∅)).run Cluster.serve left).2 =
      ((newAnnotations second sent sent.template.spec.references (.make ∅)).run Cluster.serve right).2) :
    ((createPatch first order sent).run Cluster.serve left).2 =
      ((createPatch second order sent).run Cluster.serve right).2 := by
  unfold createPatch
  rw [Program.run_bind, Program.run_bind]
  generalize (newAnnotations first sent _ _).run Cluster.serve left = result at same
  generalize (newAnnotations second sent _ _).run Cluster.serve right = twin at same
  obtain ⟨middle, outcome⟩ := result
  obtain ⟨between, answer⟩ := twin
  obtain rfl : outcome = answer := same
  cases outcome <;> rfl

theorem sameAnswer (cluster : Cluster) (sent : Workload) : SameAnswer order cluster sent :=
  snd_createPatch_congr order (run_newAnnotations_of_versions .deployment .statefulSet sent _ _
    (sameVersions_exchanged cluster))

theorem mirrored_iff (plain : ',' ∉ sent.name.toList) :
    Mirrored order cluster sent ↔ HaveRoom cluster sent sent.template.spec.references := by
  have answers : ((createDeploymentPatch order sent).run Cluster.serve cluster.exchanged).2 =
      ((createStatefulsetPatch order sent).run Cluster.serve cluster).2 := sameAnswer order cluster sent
  simp only [Mirrored, Prod.ext_iff, and_iff_left answers]
  rw [createDeploymentPatch, createStatefulsetPatch, fst_createPatch, fst_createPatch]
  constructor
  · intro same
    by_contra full
    obtain ⟨kind, object, drift⟩ := drifts plain full (.make ∅)
    rw [same] at drift
    obtain ⟨left, inLeft, own, alone⟩ := drift.alone
    obtain ⟨right, inRight, its, longer⟩ := drift.longer
    obtain ⟨twin, member, rfl⟩ := (Table.mem_changed (Object.exchange kind)).mp inRight
    obtain rfl : twin = left := Table.unique member inLeft (its.trans own.symm)
    have list : twin.exchanged.registered .deployment = sent.name := twin.registered_exchanged.trans alone
    rw [show (Object.exchange kind).apply twin = twin.exchanged from rfl, list] at longer
    exact absurd longer (Nat.lt_irrefl _)
  · intro room
    rw [(run_exchanged plain room (.make ∅)).1]

theorem keeps_iff_room (plain : ',' ∉ sent.name.toList) :
    Keeps order cluster sent ↔ HaveRoom cluster sent sent.template.spec.references := by
  rw [Keeps, createStatefulsetPatch, fst_createPatch]
  constructor
  · intro keeps
    by_contra full
    obtain ⟨kind, object, drift⟩ := drifts plain full (.make ∅)
    obtain ⟨left, inLeft, own, alone⟩ := drift.alone
    obtain ⟨next, stored, same, kept⟩ := keeps kind object drift.member
    obtain rfl : next = left := Table.unique stored inLeft (same.trans own.symm)
    have filled : object.registered .statefulSet ≠ "" := fun empty => drift.full (Or.inl empty)
    have unlisted : ¬ sent.name ∈ split (object.registered .statefulSet) ',' :=
      fun listed => drift.full (Or.inr listed)
    obtain ⟨first, inside⟩ := List.exists_mem_of_ne_nil _ (split_ne_nil (object.registered .statefulSet) ',')
    have still := kept first (by rwa [Object.statefulsets, if_neg filled])
    rw [Object.statefulsets, alone] at still
    split at still
    · cases still
    · rw [split_of_absent plain, List.mem_singleton] at still
      exact unlisted (still ▸ inside)
  · intro room
    exact (run_exchanged plain room (.make ∅)).2

variable {order}

theorem along_iff {first second : Cluster → Workload → Prop} {sents : List Workload}
    (same : ∀ cluster, ∀ sent ∈ sents, first cluster sent ↔ second cluster sent) :
    Along order first cluster sents ↔ Along order second cluster sents := by
  induction sents generalizing cluster with
  | nil => exact Iff.rfl
  | cons sent rest ih =>
    exact and_congr (same cluster sent List.mem_cons_self)
      (ih fun cluster sent member => same cluster sent (List.mem_cons_of_mem _ member))

theorem along_of_forall {holds : Cluster → Workload → Prop} (all : ∀ cluster sent, holds cluster sent)
    (cluster : Cluster) (sents : List Workload) : Along order holds cluster sents := by
  induction sents generalizing cluster with
  | nil => trivial
  | cons sent rest ih => exact ⟨all cluster sent, ih _⟩

/-- Whatever StatefulSets are submitted one after the other, the handler answers as the handler of Deployments
does. It writes the same objects, with the lists exchanged, exactly if each of them finds room in the lists, and
it keeps the names in the lists exactly then. -/
theorem statefulsets_mirrored_iff {sents : List Workload} (plain : ∀ sent ∈ sents, ',' ∉ sent.name.toList) :
    Along order (SameAnswer order) cluster sents ∧
    (Along order (Mirrored order) cluster sents ↔
      Along order (fun met sent => HaveRoom met sent sent.template.spec.references) cluster sents) ∧
    (Along order (Keeps order) cluster sents ↔
      Along order (fun met sent => HaveRoom met sent sent.template.spec.references) cluster sents) := by
  constructor
  · exact along_of_forall (sameAnswer order) cluster sents
  · constructor
    · exact along_iff fun _ sent member => mirrored_iff order (plain sent member)
    · exact along_iff fun _ sent member => keeps_iff_room order (plain sent member)

end Handlers

namespace Sample

/-- A StatefulSet that takes its environment from the ConfigMap `settings`. -/
def store (name : String) : Workload := { api with name := name }

/-- `settings` with the StatefulSets that it lists. -/
def storing (names : String) (written : Nat) : Object .configMap :=
  { settings "red" "aaaaa" written with
    annotations := (settings "red" "aaaaa" written).annotations.put "statefulsets" names }

/-- A StatefulSet of `settings` that is submitted twice is registered as a Deployment would be. -/
theorem resubmitted_mirrored : Along apiOrder (Mirrored apiOrder) synced [store "db", store "db"] ∧
    Along apiOrder (Keeps apiOrder) synced [store "db", store "db"] := by
  have plain : ∀ sent ∈ [store "db", store "db"], ',' ∉ sent.name.toList := by
    intro sent member
    obtain rfl : sent = store "db" := by simpa using member
    decide
  have first : HaveRoom synced (store "db") (store "db").template.spec.references := by
    show (settings "red" "aaaaa" 1).HasRoom "db" ∧ True
    exact ⟨Or.inl (by decide), trivial⟩
  have again : HaveRoom ((createStatefulsetPatch apiOrder (store "db")).run Cluster.serve synced).1 (store "db")
      (store "db").template.spec.references := by
    show (storing "db" 2).HasRoom "db" ∧ True
    exact ⟨Or.inr (by decide), trivial⟩
  obtain ⟨_, mirrored, keeps⟩ := statefulsets_mirrored_iff plain
  exact ⟨mirrored.mpr ⟨first, again, trivial⟩, keeps.mpr ⟨first, again, trivial⟩⟩

/-- The second StatefulSet takes the place of the first one in the list. -/
theorem second_store_dropped : ¬ Along apiOrder (Keeps apiOrder) synced [store "db", store "queue"] ∧
    ¬ Along apiOrder (Mirrored apiOrder) synced [store "db", store "queue"] := by
  have full : ¬ HaveRoom ((createStatefulsetPatch apiOrder (store "db")).run Cluster.serve synced).1 (store "queue")
      (store "queue").template.spec.references := by
    intro room
    change (storing "db" 2).HasRoom "queue" ∧ True at room
    rcases room.1 with empty | present
    · exact absurd empty (by decide)
    · exact absurd present (by decide)
  have plain : ',' ∉ (store "queue").name.toList := by decide
  constructor
  · intro along
    exact full ((keeps_iff_room apiOrder plain).mp along.2.1)
  · intro along
    exact full ((mirrored_iff apiOrder plain).mp along.2.1)

end Sample

end Configurator
