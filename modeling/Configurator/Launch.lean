import Configurator.Readmission
import Configurator.Refusal
import Configurator.Scaling
import Configurator.Twins

namespace Configurator

open Json Resource

variable {kind : Kind} {workload : WorkloadKind} {cluster after later : Cluster} {sent : Workload} {pod : Pod}
  {name : String} {references : List (Kind × String)}

/-- The version that the object of this name names, if there is one. -/
def Cluster.inForce (cluster : Cluster) (kind : Kind) (wanted : ObjectKey) : Option String :=
  ((cluster.objects kind).find? wanted).map Object.currentVersion

section Pods

/-- The webhook lets the pod pass and does no more than to read the objects. -/
def Pod.Passes (pod : Pod) (references : List (Kind × String)) (cluster : Cluster) : Prop :=
  (validateReferences pod references).run Cluster.serve cluster = (cluster, .returned (.allowed [])) ∧
    (validateReferences pod references).calls Cluster.serve cluster =
      references.map fun reference => .getObject reference.1 pod.ns reference.2

/-- The pod webhook allows the pod and does no more than to read the objects that it refers to. -/
def Pod.Welcome (pod : Pod) (cluster : Cluster) : Prop :=
  (configValidation pod).run Cluster.serve cluster = (cluster, .returned (.allowed [])) ∧
    (configValidation pod).calls Cluster.serve cluster =
      pod.spec.references.map fun reference => .getObject reference.1 pod.ns reference.2

theorem welcome_iff (enrolled : pod.annotations.index "config-sync-controller" = "configurator") :
    pod.Welcome cluster ↔ pod.Passes pod.spec.references cluster := by
  rw [Pod.Welcome, configValidation, if_pos enrolled]
  exact Iff.rfl

/-- A reference that agrees with its object costs no further call. -/
theorem checkReference_same {object : Object kind}
    (same : pod.annotations.index (kind.tag ++ name) = object.currentVersion) :
    checkReference pod name object = .ret none := by
  rw [checkReference, run_matchVersion_same same]
  rfl

/-- One that does not makes the webhook panic or look for the revision. -/
theorem checkReference_other {object : Object kind}
    (other : pod.annotations.index (kind.tag ++ name) ≠ object.currentVersion) :
    checkReference pod name object = .panic ∨
      ∃ ns called next, checkReference pod name object = .call (.getRevision kind ns called) next := by
  unfold checkReference matchVersion
  rw [if_neg other]
  cases object.annotations.assign? kind.versionKey (pod.annotations.index (kind.tag ++ name)) with
  | none => exact Or.inl rfl
  | some annotations => exact Or.inr ⟨_, _, _, rfl⟩

/-- The first reference must agree with its object, and the others with theirs. -/
theorem passes_cons_iff (strict : pod.tolerated = false) :
    pod.Passes ((kind, name) :: references) cluster ↔
      cluster.inForce kind (pod.ns, name) = some (pod.annotations.index (kind.tag ++ name)) ∧
        pod.Passes references cluster := by
  unfold Cluster.inForce
  cases found : (cluster.objects kind).find? (pod.ns, name) with
  | none =>
    constructor
    · rintro ⟨ran, _⟩
      simp [validateReferences, validateReference, found, strict] at ran
    · rintro ⟨agrees, _⟩
      cases agrees
  | some object =>
    rw [Option.map_some, Option.some.injEq]
    by_cases same : pod.annotations.index (kind.tag ++ name) = object.currentVersion
    · rw [and_iff_right same.symm]
      simp [Pod.Passes, validateReferences, validateReference, found, checkReference_same same]
    · constructor
      · rintro ⟨ran, calls⟩
        rcases checkReference_other same with panics | ⟨ns, called, next, looks⟩
        · simp [validateReferences, validateReference, found, panics] at ran
        · cases references <;> simp [validateReferences, validateReference, found, looks] at calls
      · rintro ⟨agrees, _⟩
        exact absurd agrees.symm same

/-- A pod passes exactly if it pins each object at the version that this one names. -/
theorem passes_iff (strict : pod.tolerated = false) : pod.Passes references cluster ↔
    ∀ kind name, (kind, name) ∈ references →
      cluster.inForce kind (pod.ns, name) = some (pod.annotations.index (Kind.tag kind ++ name)) := by
  induction references with
  | nil => exact iff_of_true ⟨rfl, rfl⟩ fun _ _ member => absurd member List.not_mem_nil
  | cons reference rest ih =>
    obtain ⟨first, called⟩ := reference
    rw [passes_cons_iff strict, ih]
    constructor
    · rintro ⟨agrees, others⟩ kind name member
      rcases List.mem_cons.mp member with same | later
      · obtain ⟨rfl, rfl⟩ := Prod.mk.inj same
        exact agrees
      · exact others kind name later
    · intro all
      exact ⟨all first called List.mem_cons_self, fun kind name member => all kind name (List.mem_cons_of_mem _ member)⟩

end Pods

section Admission

variable {added result : GoMap String}

/-- The new annotations are versions in force. -/
def InForce (ns : String) (added : GoMap String) (cluster : Cluster) : Prop :=
  ∀ kind name version, added.lookup (Kind.tag kind ++ name) = some version →
    cluster.inForce kind (ns, name) = some version

/-- The loops over the references change no version, and they pin the ones in force. -/
theorem inForce_newAnnotations
    (ran : (newAnnotations workload sent references added).run Cluster.serve cluster = (after, .returned result))
    (inForce : InForce sent.ns added cluster) : SameVersions after cluster ∧ InForce sent.ns result after := by
  induction references generalizing added cluster with
  | nil =>
    obtain ⟨rfl, same⟩ := Prod.mk.inj ran
    obtain rfl := Outcome.returned.inj same
    exact ⟨fun _ _ => rfl, inForce⟩
  | cons reference rest ih =>
    obtain ⟨first, called⟩ := reference
    unfold newAnnotations at ran
    split at ran
    · obtain ⟨middle, made, registered, ran⟩ := Program.returned_bind ran
      obtain ⟨answer, unchanged⟩ := run_pin_of_versions workload sent first called cluster
      rw [registered] at answer unchanged
      have grown : InForce sent.ns (added.put made.1 made.2) middle := by
        intro kind name version found
        have still := unchanged kind (sent.ns, name)
        rw [GoMap.lookup_put] at found
        split at answer
        · cases answer
        · rename_i its seen
          obtain rfl := Outcome.returned.inj answer
          split at found
          · rename_i same
            obtain ⟨rfl, rfl⟩ := pin_inj same
            exact still.trans (seen.trans found)
          · exact still.trans (inForce kind name version found)
      obtain ⟨later, pins⟩ := ih ran grown
      exact ⟨later.trans unchanged, pins⟩
    · exact ih ran inForce

variable (loops : (newAnnotations workload sent sent.template.spec.references (.make ∅)).run Cluster.serve cluster =
    (after, .returned added))

/-- The template carried no annotation for the object, or one that the handler keeps and that is empty or pins
the version in force. -/
def Agreed (cluster : Cluster) (sent : Workload) (kind : Kind) (name : String) : Prop :=
  sent.template.annotations.lookup (kind.tag ++ name) = none ∨ (kind = .secret → contains name "ccm-" = false) ∧
    (sent.pinned kind name = "" ∨ cluster.inForce kind (sent.ns, name) = some (sent.pinned kind name))

theorem lookup_admitted_pin (sent : Workload) (added : GoMap String) (kind : Kind) (name : String) :
    (sent.admitted added).lookup (kind.tag ++ name) =
      if keepsAnnotation sent.template.spec (kind.tag ++ name) = true then
        (added.lookup (kind.tag ++ name)).or (sent.template.annotations.lookup (kind.tag ++ name))
      else if sent.template.annotations.lookup (kind.tag ++ name) = none then added.lookup (kind.tag ++ name)
      else none := by
  rw [sent.lookup_admitted, sent.lookup_dropped, GoMap.lookup_overlay, GoMap.lookup_put,
    if_neg (pin_ne_control kind name), sent.lookup_kept]
  by_cases kept : keepsAnnotation sent.template.spec (kind.tag ++ name) = true
  · simp only [kept, if_true]
  · simp only [kept, if_false, Option.or_none, Bool.false_eq_true]

include loops in
/-- The admitted template pins the version in force exactly if the sent one has agreed with it. -/
theorem admitted_inForce_iff (member : (kind, name) ∈ sent.template.spec.references)
    (there : Pinnable cluster kind sent.ns name) :
    after.inForce kind (sent.ns, name) = some ((sent.admitted added).index (kind.tag ++ name)) ↔
      Agreed cluster sent kind name := by
  obtain ⟨object, held, own, filled⟩ := there
  obtain ⟨unchanged, pins⟩ := inForce_newAnnotations loops fun _ _ _ found => nomatch found
  have force : cluster.inForce kind (sent.ns, name) = some object.currentVersion := by
    rw [Cluster.inForce, Table.find?_eq_some.mpr ⟨held, own⟩, Option.map_some]
  have still : after.inForce kind (sent.ns, name) = some object.currentVersion :=
    (unchanged kind (sent.ns, name)).trans force
  have value : ∀ version, added.lookup (kind.tag ++ name) = some version → object.currentVersion = version :=
    fun version found => Option.some.inj (still.symm.trans (pins kind name version found))
  -- the handler pins what the template leaves empty
  have pinned : sent.pinned kind name = "" →
      (added.lookup (kind.tag ++ name)) = some object.currentVersion := by
    intro empty
    have found := (lookup_newAnnotations loops (kind.tag ++ name)).mpr (Or.inr ⟨kind, name, member, rfl, empty⟩)
    obtain ⟨version, its⟩ := Option.ne_none_iff_exists'.mp found
    rw [its, value version its]
  have unpinned : sent.pinned kind name ≠ "" → added.lookup (kind.tag ++ name) = none := by
    intro filled
    by_contra found
    rcases (lookup_newAnnotations loops (kind.tag ++ name)).mp found with none | ⟨_, _, _, _, empty⟩
    · exact none rfl
    · exact filled empty
  have absent : sent.template.annotations.lookup (kind.tag ++ name) = none → sent.pinned kind name = "" := by
    intro none
    rw [Workload.pinned, GoMap.index, none]
    rfl
  rw [still, Agreed, force, Option.some.injEq, Option.some.injEq, GoMap.index, lookup_admitted_pin,
    ← keeps_pin_iff (PodSpec.mentions_of_references member)]
  by_cases kept : keepsAnnotation sent.template.spec (kind.tag ++ name) = true
  · rw [if_pos kept]
    by_cases empty : sent.pinned kind name = ""
    · rw [pinned empty]
      exact iff_of_true rfl (Or.inr ⟨kept, Or.inl empty⟩)
    · have index : (sent.template.annotations.lookup (kind.tag ++ name)).getD "" = sent.pinned kind name := rfl
      rw [unpinned empty, Option.none_or, index, or_iff_right (mt absent empty), and_iff_right kept,
        or_iff_right empty]
  · rw [if_neg kept]
    split
    · rename_i none
      rw [pinned (absent none)]
      exact iff_of_true rfl (Or.inl none)
    · rename_i some
      refine iff_of_false filled ?_
      rintro (none | ⟨itsKept, _⟩)
      · exact some none
      · exact kept itsKept

end Admission

/-- The objects that a workload refers to name the versions that they named before. -/
def Unmoved (sent : Workload) (before after : Cluster) : Prop :=
  ∀ kind name, (kind, name) ∈ sent.template.spec.references →
    after.inForce kind (sent.ns, name) = before.inForce kind (sent.ns, name)

/-- Once a workload has been admitted, and while the versions that it refers to stay in force, the pods of its
new template pass as they are: exactly if the template that was sent agreed with each of these versions. -/
theorem pods_pass_iff {order : Iteration} {document : Json} (orders : ∀ map, Enumerates (order map) map)
    (valid : ∀ key, sent.template.annotations.lookup key ≠ none → '~' ∉ key.toList)
    (spelled : ∀ kind name, (kind, name) ∈ sent.template.spec.references → '~' ∉ name.toList)
    (pinnable : ∀ kind name, (kind, name) ∈ sent.template.spec.references → Pinnable cluster kind sent.ns name)
    (kept : sent.keptAnnotations.isEmpty = false) (renders : Renders document sent.template.annotations) :
    ∃ after patch stored annotations,
      (createPatch workload order sent).run Cluster.serve cluster = (after, .returned patch) ∧
      applyPatch patch document = some stored ∧ Renders stored annotations ∧
      ∀ later called, Unmoved sent after later → contains called "configurator-controllerwebhook" = false →
        (((sent.annotated annotations).pod called).Welcome later ↔
          ∀ kind name, (kind, name) ∈ sent.template.spec.references → Agreed cluster sent kind name) := by
  obtain ⟨after, added, patch, stored, loops, _, ran, applied, shows⟩ :=
    @admits workload cluster sent order document valid spelled orders pinnable kept renders
  refine ⟨after, patch, stored, sent.admitted added, ran, applied, shows, fun later called unmoved ordinary => ?_⟩
  have enrolled : (sent.admitted added).index "config-sync-controller" = "configurator" := by
    rw [GoMap.index, lookup_admitted_control]
    rfl
  have strict : ((sent.annotated (sent.admitted added)).pod called).tolerated = false := ordinary
  rw [welcome_iff enrolled, passes_iff strict]
  refine forall_congr' fun kind => forall_congr' fun name => forall_congr' fun member => ?_
  rw [← admitted_inForce_iff loops member (pinnable kind name member), ← unmoved kind name member]
  exact Iff.rfl

namespace Sample

theorem teamApi_pods : ∃ order after patch stored annotations,
    (createPatch .deployment order teamApi).run Cluster.serve synced = (after, .returned patch) ∧
      applyPatch patch (documentOf (entry "team" "shop")) = some stored ∧ Renders stored annotations ∧
      ((teamApi.annotated annotations).pod "api-0").Welcome after := by
  obtain ⟨order, orders⟩ := exists_iteration
  have references : ∀ kind name, (kind, name) ∈ teamApi.template.spec.references →
      kind = .configMap ∧ name = "settings" := by
    intro kind name member
    exact Prod.mk.inj (List.mem_singleton.mp member)
  have spelled : ∀ kind name, (kind, name) ∈ teamApi.template.spec.references → '~' ∉ name.toList := by
    intro kind name member
    rw [(references kind name member).2]
    decide
  have pinnable : ∀ kind name, (kind, name) ∈ teamApi.template.spec.references →
      Pinnable synced kind teamApi.ns name := by
    intro kind name member
    obtain ⟨rfl, rfl⟩ := references kind name member
    exact ⟨settings "red" "aaaaa" 1, List.mem_singleton_self _, rfl, by decide⟩
  obtain ⟨after, patch, stored, annotations, ran, applied, shows, passes⟩ := @pods_pass_iff .deployment synced teamApi
    order (documentOf (entry "team" "shop")) orders valid_team spelled pinnable (kept_team api) (renders_documentOf _)
  refine ⟨order, after, patch, stored, annotations, ran, applied, shows, ?_⟩
  have unmoved : Unmoved teamApi after after := fun _ _ _ => rfl
  refine (passes after "api-0" unmoved (by decide)).mpr fun kind name member => Or.inl ?_
  obtain ⟨rfl, rfl⟩ := references kind name member
  exact lookup_entry "team" "shop" "ccm-settings"

end Sample

end Configurator
