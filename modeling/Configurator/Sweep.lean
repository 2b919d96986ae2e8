import Configurator.Failsafe
import Configurator.Immutability

namespace Configurator

open Resource

variable {kind : Kind} {workload : WorkloadKind} {ns : String}

namespace Cluster

/-- The object of the revision registers a workload, and no history carries its version. -/
def Disused (cluster : Cluster) (revision : Revision kind) : Prop :=
  cluster.Tracks revision.ns revision ∧ ¬ cluster.Refers revision

/-- The same cluster without some revisions. -/
structure Swept (gone : AnyRevision → Prop) (before after : Cluster) : Prop where
  objects : after.objects = before.objects
  workloads : after.workloads = before.workloads
  histories : after.histories = before.histories
  namespaces : after.namespaces = before.namespaces
  entropy : after.entropy = before.entropy
  revisions : ∀ kind, ∀ revision : Revision kind,
    revision ∈ after.revisions kind ↔ revision ∈ before.revisions kind ∧ ¬ gone ⟨kind, revision⟩

variable {before middle after : Cluster} {gone also : AnyRevision → Prop}

theorem Swept.refl (cluster : Cluster) : Swept (fun _ => False) cluster cluster :=
  ⟨rfl, rfl, rfl, rfl, rfl, fun _ _ => by simp⟩

theorem Swept.trans (first : Swept gone before middle) (second : Swept also middle after) :
    Swept (fun any => gone any ∨ also any) before after where
  objects := second.objects.trans first.objects
  workloads := second.workloads.trans first.workloads
  histories := second.histories.trans first.histories
  namespaces := second.namespaces.trans first.namespaces
  entropy := second.entropy.trans first.entropy
  revisions kind revision := by
    rw [second.revisions, first.revisions, not_or, and_assoc]

theorem Swept.congr (swept : Swept gone before after)
    (same : ∀ kind, ∀ revision ∈ before.revisions kind, gone ⟨kind, revision⟩ ↔ also ⟨kind, revision⟩) :
    Swept also before after where
  objects := swept.objects
  workloads := swept.workloads
  histories := swept.histories
  namespaces := swept.namespaces
  entropy := swept.entropy
  revisions kind revision := by
    rw [swept.revisions]
    exact and_congr_right fun member => not_congr (same kind revision member)

theorem Swept.disused_iff (swept : Swept gone before after) (revision : Revision kind) :
    after.Disused revision ↔ before.Disused revision := by
  simp only [Disused, Tracks, Refers, listed, Carries, swept.objects, swept.workloads, swept.histories]

end Cluster

namespace Purge

variable {cluster : Cluster} {revision : Revision kind}

theorem run_checkWorkloads (found : List Workload) (check : Bool) : ∃ checked,
    (checkWorkloads workload ns revision found check).run Cluster.serve cluster = (cluster, .returned checked) ∧
      (checked = true ↔ check = true ∨ ∃ stored ∈ found, cluster.Carries workload ns stored.selector revision) := by
  induction found generalizing check with
  | nil => exact ⟨check, rfl, by simp⟩
  | cons stored rest ih =>
    obtain ⟨checked, ran, same⟩ := ih (check || (items (cluster.serve (.listHistories workload ns
      stored.selector)).2).any fun history => references revision history.template)
    refine ⟨checked, ran, ?_⟩
    have shows := @shows_iff kind workload ns revision cluster stored.selector
    rw [Shows, ← List.any_eq_true] at shows
    rw [same, Bool.or_eq_true, shows]
    simp [or_assoc]

theorem run_asks {α : Type} {request : Call} {next : Answer request → Client α} {after : Cluster}
    {answer : Answer request} (served : cluster.serve request = (after, answer)) :
    (ask request >>= next).run Cluster.serve cluster = (next answer).run Cluster.serve after := by
  show (next (cluster.serve request).2).run Cluster.serve (cluster.serve request).1 = _
  rw [served]

theorem swept_delete (own : ∀ other ∈ cluster.revisions kind, key other = key revision → other = revision) :
    cluster.Swept (fun any => any = ⟨kind, revision⟩)
      (cluster.serve (.deleteRevision kind revision.ns revision.name)).1 := by
  rcases Table.delete_cases (cluster.revisions kind) (revision.ns, revision.name) with
    ⟨refused, absent⟩ | ⟨table, accepted, _, rest⟩
  · simp only [Cluster.serve, refused]
    refine ⟨rfl, rfl, rfl, rfl, rfl, fun other found => ?_⟩
    refine (and_iff_left_of_imp fun member => ?_).symm
    rintro ⟨⟩
    exact absent revision member rfl
  · simp only [Cluster.serve, accepted]
    refine ⟨rfl, rfl, rfl, rfl, rfl, fun other found => ?_⟩
    by_cases same : other = kind
    · subst same
      rw [Cluster.withRevisions_revisions, rest]
      refine and_congr_right fun member => not_congr ⟨fun keys => ?_, ?_⟩
      · rw [own found member keys]
      · rintro ⟨⟩
        rfl
    · simp only [Cluster.withRevisions, Function.update_of_ne same]
      refine (and_iff_left_of_imp fun _ => ?_).symm
      rintro ⟨⟩
      exact same rfl

/-- The end of an examination deletes the revision, or it does nothing. -/
theorem run_judge (own : ∀ other ∈ cluster.revisions kind, key other = key revision → other = revision)
    (check : Bool) : ∃ after, (judge revision.ns revision check).run Cluster.serve cluster = (after, .returned ()) ∧
      cluster.Swept (fun any => any = ⟨kind, revision⟩ ∧ cluster.Tracks revision.ns revision ∧ check = false) after ∧
      (¬ (cluster.Tracks revision.ns revision ∧ check = false) → after = cluster) := by
  obtain ⟨⟨world, answer⟩, served⟩ : ∃ result,
      cluster.serve (.getObject kind revision.ns revision.spec.owner) = result := ⟨_, rfl⟩
  obtain ⟨rfl, _⟩ := Cluster.getObject_cases served
  have registers := @registers_iff kind revision.ns revision world
  rw [Registers, served] at registers
  have spared : ∀ {unmet : Prop}, ¬ unmet → world.Swept (fun any => any = ⟨kind, revision⟩ ∧ unmet) world :=
    fun never => (Cluster.Swept.refl world).congr fun _ _ _ => by simp [never]
  rw [judge, run_asks served]
  cases answer with
  | error error =>
    have untracked : ¬ world.Tracks revision.ns revision := by
      rw [← registers]
      rintro ⟨object, impossible, _⟩
      cases impossible
    exact ⟨world, rfl, spared fun doomed => untracked doomed.1, fun _ => rfl⟩
  | ok object =>
    have tracks : world.Tracks revision.ns revision ↔
        object.registered .deployment ≠ "" ∨ object.registered .statefulSet ≠ "" := by
      rw [← registers]
      constructor
      · rintro ⟨other, same, workload, filled⟩
        cases same
        cases workload
        · exact Or.inl filled
        · exact Or.inr filled
      · rintro (filled | filled)
        · exact ⟨object, rfl, .deployment, filled⟩
        · exact ⟨object, rfl, .statefulSet, filled⟩
    by_cases doomed : world.Tracks revision.ns revision ∧ check = false
    · obtain ⟨tracked, rfl⟩ := doomed
      refine ⟨(world.serve (.deleteRevision kind revision.ns revision.name)).1, ?_, ?_, fun spares => ?_⟩
      · simp [tracks.mp tracked, ask]
      · exact (swept_delete own).congr fun _ _ _ => by simp [tracked]
      · exact absurd ⟨tracked, rfl⟩ spares
    · refine ⟨world, ?_, spared doomed, fun _ => rfl⟩
      by_cases listed : object.registered .deployment ≠ "" ∨ object.registered .statefulSet ≠ ""
      · have checked : check = true := by simpa [tracks.mpr listed] using doomed
        simp [listed, checked]
      · simp [listed]

theorem run_examine (own : ∀ other ∈ cluster.revisions kind, key other = key revision → other = revision) :
    ∃ after, (examine revision.ns revision).run Cluster.serve cluster = (after, .returned ()) ∧
      cluster.Swept (fun any => any = ⟨kind, revision⟩ ∧ cluster.Disused revision) after ∧
      (¬ cluster.Disused revision → after = cluster) := by
  obtain ⟨first, searched, found⟩ := @run_checkWorkloads kind .deployment revision.ns cluster revision
    (cluster.listed .deployment revision.ns) false
  obtain ⟨second, again, whole⟩ := @run_checkWorkloads kind .statefulSet revision.ns cluster revision
    (cluster.listed .statefulSet revision.ns) first
  obtain ⟨after, judged, swept, spared⟩ := run_judge own second
  have refers : second = true ↔ cluster.Refers revision := by
    rw [whole, found, Cluster.Refers]
    constructor
    · rintro ((impossible | shown) | shown)
      · cases impossible
      · exact ⟨.deployment, shown⟩
      · exact ⟨.statefulSet, shown⟩
    · rintro ⟨workload, shown⟩
      cases workload
      · exact Or.inl (Or.inr shown)
      · exact Or.inr shown
  have doomed : cluster.Tracks revision.ns revision ∧ second = false ↔ cluster.Disused revision := by
    rw [Cluster.Disused, ← refers, Bool.not_eq_true]
  refine ⟨after, ?_, swept.congr fun _ _ _ => and_congr_right fun _ => doomed, fun used => spared (doomed.not.mpr used)⟩
  have deployments : cluster.serve (.listWorkloads .deployment revision.ns) =
      (cluster, .ok (cluster.listed .deployment revision.ns)) := rfl
  have statefulSets : cluster.serve (.listWorkloads .statefulSet revision.ns) =
      (cluster, .ok (cluster.listed .statefulSet revision.ns)) := rfl
  rw [examine_eq, run_asks deployments, Program.run_bind, items, searched]
  dsimp only
  rw [run_asks statefulSets, Program.run_bind, items, again]
  exact judged

theorem run_examineAll {start : Cluster} {gone : AnyRevision → Prop} (list : List (Revision kind))
    (stored : ∀ revision ∈ list, revision ∈ start.revisions kind ∧ revision.ns = ns)
    (so_far : start.Swept gone cluster) : ∃ after,
      (examineAll ns list).run Cluster.serve cluster = (after, .returned ()) ∧
      start.Swept (fun any => gone any ∨ ∃ revision ∈ list, any = ⟨kind, revision⟩ ∧ start.Disused revision) after ∧
      ((∀ revision ∈ list, ¬ start.Disused revision) → after = cluster) := by
  induction list generalizing cluster gone with
  | nil => exact ⟨cluster, rfl, so_far.congr fun _ _ _ => by simp, fun _ => rfl⟩
  | cons first rest ih =>
    rw [List.forall_mem_cons] at stored
    obtain ⟨⟨member, rfl⟩, others⟩ := stored
    have own : ∀ other ∈ cluster.revisions kind, key other = key first → other = first :=
      fun other present same => Table.unique ((so_far.revisions kind other).mp present).1 member same
    obtain ⟨middle, examined, swept, spared⟩ := run_examine own
    have next := so_far.trans swept
    obtain ⟨after, ran, last, rested⟩ := ih others next
    refine ⟨after, ?_, last.congr fun other revision _ => ?_, fun used => ?_⟩
    · rw [examineAll, Program.run_bind, examined]
      exact ran
    · rw [so_far.disused_iff]
      simp [or_assoc]
    · rw [List.forall_mem_cons] at used
      have same : middle = cluster := spared (mt (so_far.disused_iff first).mp used.1)
      exact (rested used.2).trans same

theorem run_examineListed {start : Cluster} {gone : AnyRevision → Prop} (kind : Kind) (ns : String)
    (so_far : start.Swept gone cluster) : ∃ after,
      (ask (.listRevisions kind ns []) >>= fun found => examineAll ns (items found)).run Cluster.serve cluster =
        (after, .returned ()) ∧
      start.Swept (fun any => gone any ∨ any.1 = kind ∧ any.2.ns = ns ∧ start.Disused any.2) after ∧
      ((∀ revision ∈ cluster.revisions kind, revision.ns = ns → ¬ start.Disused revision) → after = cluster) := by
  have listing : cluster.serve (.listRevisions kind ns []) =
      (cluster, .ok ((cluster.revisions kind).select fun revision => revision.matches ns [])) := rfl
  have listed : ∀ revision, revision ∈ (cluster.revisions kind).select (fun revision => revision.matches ns []) ↔
      revision ∈ cluster.revisions kind ∧ revision.ns = ns := by
    intro revision
    rw [Table.mem_select]
    simp [Revision.matches]
  obtain ⟨after, ran, swept, rested⟩ := run_examineAll _
    (fun revision member => ⟨((so_far.revisions kind revision).mp ((listed revision).mp member).1).1,
      ((listed revision).mp member).2⟩) so_far
  refine ⟨after, ?_, swept.congr fun other revision member => ?_, fun used => ?_⟩
  · rw [run_asks listing]
    exact ran
  · by_cases already : gone ⟨other, revision⟩
    · simp [already]
    · have still : revision ∈ cluster.revisions other := (so_far.revisions other revision).mpr ⟨member, already⟩
      simp only [already, false_or]
      constructor
      · rintro ⟨one, within, ⟨⟩, disused⟩
        exact ⟨rfl, ((listed one).mp within).2, disused⟩
      · rintro ⟨rfl, spaces, disused⟩
        exact ⟨revision, (listed revision).mpr ⟨still, spaces⟩, rfl, disused⟩
  · exact rested fun revision within => used revision ((listed revision).mp within).1 ((listed revision).mp within).2

theorem run_purgeNamespaces {start : Cluster} {gone : AnyRevision → Prop} (namespaces : List String)
    (so_far : start.Swept gone cluster) : ∃ after,
      (purgeNamespaces namespaces).run Cluster.serve cluster = (after, .returned ()) ∧
      start.Swept (fun any => gone any ∨ any.2.ns ∈ namespaces ∧ start.Disused any.2) after ∧
      ((∀ kind, ∀ revision ∈ cluster.revisions kind, revision.ns ∈ namespaces → ¬ start.Disused revision) →
        after = cluster) := by
  induction namespaces generalizing cluster gone with
  | nil => exact ⟨cluster, rfl, so_far.congr fun _ _ _ => by simp, fun _ => rfl⟩
  | cons ns rest ih =>
    have parts : purgeNamespaces (ns :: rest) =
        (ask (.listRevisions .configMap ns []) >>= fun found => examineAll ns (items found)) >>= fun _ =>
          (ask (.listRevisions .secret ns []) >>= fun found => examineAll ns (items found)) >>= fun _ =>
            purgeNamespaces rest := by
      simp only [purgeNamespaces, bind_assoc]
    obtain ⟨first, firstRan, firstSwept, firstRested⟩ := run_examineListed .configMap ns so_far
    obtain ⟨second, secondRan, secondSwept, secondRested⟩ := run_examineListed .secret ns firstSwept
    obtain ⟨after, ran, swept, rested⟩ := ih secondSwept
    refine ⟨after, ?_, swept.congr fun kind revision member => ?_, fun used => ?_⟩
    · rw [parts, Program.run_bind, firstRan]
      dsimp only
      rw [Program.run_bind, secondRan]
      exact ran
    · have either : kind = .configMap ∨ kind = .secret := by cases kind <;> simp
      simp only [List.mem_cons]
      tauto
    · have one : first = cluster := firstRested fun revision member spaces =>
        used .configMap revision member (spaces ▸ List.mem_cons_self)
      have two : second = cluster := (secondRested fun revision member spaces =>
        used .secret revision (one ▸ member) (spaces ▸ List.mem_cons_self)).trans one
      exact (rested fun kind revision member spaces =>
        used kind revision (two ▸ member) (List.mem_cons_of_mem _ spaces)).trans two

end Purge

/-- An undisturbed purge takes away exactly the revisions in listed namespaces whose objects register
a workload and whose versions no history carries, and changes nothing else. To purge again does nothing. -/
theorem purge_exact (cluster : Cluster) : ∃ after,
    Purge.purgeCCMAndCS.run Cluster.serve cluster = (after, .returned ()) ∧
    cluster.Swept (fun any => any.2.ns ∈ cluster.namespaces ∧ cluster.Disused any.2) after ∧
    Purge.purgeCCMAndCS.run Cluster.serve after = (after, .returned ()) := by
  have listing : ∀ cluster : Cluster, cluster.serve .listNamespaces = (cluster, .ok cluster.namespaces) :=
    fun _ => rfl
  obtain ⟨after, ran, swept, _⟩ := Purge.run_purgeNamespaces cluster.namespaces (.refl cluster)
  obtain ⟨again, reran, _, rested⟩ := Purge.run_purgeNamespaces after.namespaces (.refl after)
  have same : again = after := by
    refine rested fun kind revision member spaces disused => ?_
    refine ((swept.revisions kind revision).mp member).2 (Or.inr ⟨swept.namespaces ▸ spaces, ?_⟩)
    exact (swept.disused_iff revision).mp disused
  refine ⟨after, ?_, swept.congr fun _ _ _ => by simp, ?_⟩
  · rw [Purge.purgeCCMAndCS, Purge.run_asks (listing cluster)]
    exact ran
  · rw [Purge.purgeCCMAndCS, Purge.run_asks (listing after)]
    exact same ▸ reran

end Configurator
