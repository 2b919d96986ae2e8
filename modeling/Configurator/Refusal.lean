import Configurator.Admission

namespace Configurator

open Resource

variable {kind : Kind} {workload : WorkloadKind} {start cluster : Cluster} {sent : Workload} {pod : Pod}
  {name : String}

/-- An object is stored at a version that the start has not reached. -/
def Newer (start after : Cluster) : Prop :=
  ∃ kind, ∃ entry ∈ after.objects kind, (start.objects kind).clock < version entry

theorem Newer.written {sent answer : Object kind} {objects : Table (Object kind)}
    (newer : Newer start cluster) (written : (cluster.objects kind).Written sent answer objects) :
    Newer start (cluster.withObjects kind objects) := by
  obtain ⟨other, entry, member, later⟩ := newer
  refine ⟨other, ?_⟩
  by_cases same : other = kind
  · subst same
    rw [Cluster.withObjects_objects]
    by_cases own : key entry = key sent
    · refine ⟨answer, written.mem, ?_⟩
      by_contra aged
      -- An old answer would be the entry itself.
      have bound := Table.bound member
      have old := written.later.old answer written.mem (by omega)
      obtain rfl := Table.unique old member (written.key_eq.trans own.symm)
      exact aged later
    · exact ⟨entry, written.mem_of_ne member own, later⟩
  · simp only [Cluster.withObjects, Function.update_of_ne same]
    exact ⟨entry, member, later⟩

theorem Newer.serve (newer : Newer start cluster) (request : Call) :
    Newer start (cluster.serve request).1 := by
  by_cases spares : request.SparesObjects
  · simpa only [Newer, Cluster.serve_objects request spares] using newer
  · simp only [Call.SparesObjects, ne_eq, not_forall, not_not] at spares
    obtain ⟨kind, sent, rfl⟩ := spares
    cases updated : (cluster.objects kind).update sent with
    | error refusal => simpa [updated] using newer
    | ok result =>
      obtain ⟨answer, objects⟩ := result
      simpa [updated] using newer.written (Table.written_of_update updated).2

/-- No later call takes the new version back. -/
theorem Newer.run {α : Type} (program : Client α) (newer : Newer start cluster) :
    Newer start (program.run Cluster.serve cluster).1 := by
  induction program generalizing cluster with
  | ret | fail | panic => exact newer
  | call request next ih => exact ih _ (newer.serve request)

/-- Every ConfigMap, Secret, CustomConfigMap and CustomSecret is as before. -/
structure Traceless (before after : Cluster) : Prop where
  objects : ∀ kind, (after.objects kind).entries = (before.objects kind).entries
  revisions : ∀ kind, (after.revisions kind).entries = (before.revisions kind).entries

theorem Newer.not_traceless (newer : Newer start cluster) : ¬ Traceless start cluster := by
  intro traceless
  obtain ⟨kind, entry, member, later⟩ := newer
  have was : entry ∈ start.objects kind := by
    rw [Table.mem_def, ← traceless.objects kind]
    exact member
  exact absurd (Table.bound was) (Nat.not_le_of_lt later)

theorem newer_of_changed {stored sent : Object kind} (member : stored ∈ cluster.objects kind)
    (same : key stored = key sent) (current : version stored = version sent)
    (changed : stamp (version stored) sent ≠ stored) : ∃ answer objects,
      (cluster.objects kind).update sent = .ok (answer, objects) ∧
        Newer cluster (cluster.withObjects kind objects) := by
  obtain ⟨answer, objects, accepted, written, later⟩ := Table.update_of_changed member same current changed
  refine ⟨answer, objects, accepted, kind, answer, ?_, later⟩
  rw [Cluster.withObjects_objects]
  exact written.mem

section Workloads

theorem stamp_register {object : Object kind} (member : object ∈ cluster.objects kind)
    (workload : WorkloadKind) (owner : String) :
    stamp (version object) (register workload owner object) = register workload owner object := by
  have filled : ∀ list, (object.annotations.put workload.registry list).omitEmpty =
      object.annotations.put workload.registry list := by
    intro list
    refine GoMap.omitEmpty_of_not_isEmpty ?_
    rw [← Bool.not_eq_true, GoMap.isEmpty_iff]
    intro none
    simpa using none workload.registry
  have content := Object.stored_content member
  have annotations := Object.stored_annotations member
  dsimp only [register]
  split_ifs <;> simp only [stamp, content, filled, annotations] <;> rfl

/-- Before the first missing object the workload is listed by every object that it is to
be registered on. -/
def SparesAll (workload : WorkloadKind) (cluster : Cluster) (sent : Workload) : List (Kind × String) → Prop
  | [] => True
  | (kind, name) :: rest =>
    if sent.template.annotations.index (kind.tag ++ name) = "" then
      match (cluster.objects kind).find? (sent.ns, name) with
      | none => True
      | some object => register workload sent.name object = object ∧ SparesAll workload cluster sent rest
    else SparesAll workload cluster sent rest

variable {references : List (Kind × String)}

theorem run_of_sparesAll (spares : SparesAll workload cluster sent references) (added : GoMap String)
    {error : ApiError} (failed : ((newAnnotations workload sent references added).run Cluster.serve
      cluster).2 = .failed error) :
    ((newAnnotations workload sent references added).run Cluster.serve cluster).1 = cluster := by
  induction references generalizing added with
  | nil => rfl
  | cons reference rest ih =>
    obtain ⟨kind, name⟩ := reference
    unfold newAnnotations at failed ⊢
    unfold SparesAll at spares
    split at spares
    · rename_i unpinned
      rw [if_pos unpinned, Program.run_bind] at failed ⊢
      split at spares
      · rename_i missing
        rw [run_pin_missing missing]
      · rename_i object found
        obtain ⟨member, own⟩ := Table.find?_eq_some.mp found
        rw [run_pin_listed member own spares.1] at failed ⊢
        exact ih spares.2 _ failed
    · rename_i pinned
      rw [if_neg pinned] at failed ⊢
      exact ih spares _ failed

theorem newer_of_not_sparesAll (writes : ¬ SparesAll workload cluster sent references)
    (added : GoMap String) :
    Newer cluster ((newAnnotations workload sent references added).run Cluster.serve cluster).1 := by
  induction references generalizing added with
  | nil => exact absurd trivial writes
  | cons reference rest ih =>
    obtain ⟨kind, name⟩ := reference
    unfold newAnnotations
    unfold SparesAll at writes
    split at writes
    · rename_i unpinned
      rw [if_pos unpinned, Program.run_bind]
      split at writes
      · exact absurd trivial writes
      · rename_i object found
        obtain ⟨member, own⟩ := Table.find?_eq_some.mp found
        by_cases listed : register workload sent.name object = object
        · rw [run_pin_listed member own listed]
          exact ih (fun spares => writes ⟨listed, spares⟩) _
        · obtain ⟨stored, objects, accepted, ran⟩ := run_pin workload member own
          obtain ⟨answer, table, again, newer⟩ := newer_of_changed member
            (key_register workload sent.name object).symm (version_register workload sent.name object).symm
            (by rwa [stamp_register member])
          rw [accepted, Except.ok.injEq, Prod.mk.injEq] at again
          obtain ⟨rfl, rfl⟩ := again
          rw [ran]
          exact newer.run _
    · rename_i pinned
      rw [if_neg pinned]
      exact ih writes _

/-- What a refused workload leaves behind. -/
theorem traceless_workload_iff {order : Iteration} {message : String}
    (refused : ((mutate workload order sent).run Cluster.serve cluster).2 = .returned (.refused message)) :
    Traceless cluster ((mutate workload order sent).run Cluster.serve cluster).1 ↔
      SparesAll workload cluster sent sent.template.spec.references := by
  obtain ⟨patch, ran⟩ := run_createPatch workload order sent cluster
  unfold mutate at refused ⊢
  rw [Program.run_bind, Program.run_attempt, ran] at refused ⊢
  by_cases spares : SparesAll workload cluster sent sent.template.spec.references
  · have unmoved := @run_of_sparesAll workload cluster sent _ spares (.make ∅)
    generalize (newAnnotations workload sent _ _).run Cluster.serve cluster = result at refused unmoved ⊢
    obtain ⟨after, _ | error | _⟩ := result
    · cases refused
    · obtain rfl : after = cluster := unmoved rfl
      exact iff_of_true ⟨fun _ => rfl, fun _ => rfl⟩ spares
    · cases refused
  · have newer := newer_of_not_sparesAll spares (.make ∅)
    generalize (newAnnotations workload sent _ _).run Cluster.serve cluster = result at refused newer ⊢
    refine iff_of_false ?_ spares
    obtain ⟨after, _ | error | _⟩ := result <;> exact newer.not_traceless

end Workloads

section Pods

/-- Before the first reference that is refused every version agrees, and what refuses that
reference is a missing object or a missing revision. -/
def SparesPod (cluster : Cluster) (pod : Pod) : List (Kind × String) → Prop
  | [] => True
  | (kind, name) :: rest =>
    match (cluster.objects kind).find? (pod.ns, name) with
    | none => True
    | some object =>
      if pod.annotations.index (kind.tag ++ name) = object.currentVersion then SparesPod cluster pod rest
      else (cluster.revisions kind).find? (pod.ns, name ++ "-" ++
        pod.annotations.index (kind.tag ++ name)) = none

theorem tolerated_checkReference {object : Object kind} (tolerated : pod.tolerated = true)
    {message : Option String} (checked : ((checkReference pod name object).run Cluster.serve cluster).2 =
      .returned message) : message = none := by
  unfold checkReference at checked
  rw [Program.run_bind] at checked
  generalize (matchVersion pod name object).attempt.run Cluster.serve cluster = result at checked
  obtain ⟨after, (error | _) | _ | _⟩ := result
  · simpa [tolerated, eq_comm] using checked
  · simpa [eq_comm] using checked
  · cases checked
  · cases checked

theorem tolerated_validateReference (tolerated : pod.tolerated = true) {message : Option String}
    (validated : ((validateReference pod kind name).run Cluster.serve cluster).2 = .returned message) :
    message = none := by
  unfold validateReference at validated
  rw [ask, Program.request_bind, Program.run_call] at validated
  cases found : (cluster.objects kind).find? (pod.ns, name) with
  | none =>
    simp only [Cluster.serve_getObject, found, Cluster.present_none, tolerated, if_true] at validated
    exact tolerated_checkReference tolerated validated
  | some object =>
    simp only [Cluster.serve_getObject, found, Cluster.present_some] at validated
    exact tolerated_checkReference tolerated validated

theorem tolerated_not_refused (tolerated : pod.tolerated = true) (references : List (Kind × String))
    (message : String) (cluster : Cluster) :
    ((validateReferences pod references).run Cluster.serve cluster).2 ≠ .returned (.refused message) := by
  induction references generalizing cluster with
  | nil => nofun
  | cons reference rest ih =>
    obtain ⟨kind, name⟩ := reference
    have passes : ∀ answer, ((validateReference pod kind name).run Cluster.serve cluster).2 =
        .returned answer → answer = none := fun _ => tolerated_validateReference tolerated
    unfold validateReferences
    rw [Program.run_bind]
    generalize (validateReference pod kind name).run Cluster.serve cluster = result at passes
    obtain ⟨after, answer | _ | _⟩ := result
    · obtain rfl := passes answer rfl
      exact ih after
    · nofun
    · nofun

variable {object : Object kind} {references : List (Kind × String)} {message : String}

theorem run_matchVersion_same (same : pod.annotations.index (kind.tag ++ name) = object.currentVersion) :
    matchVersion pod name object = .ret () := by
  unfold matchVersion
  rw [if_pos same]
  rfl

/-- The roll-back to a revision that is missing ends before it writes. -/
theorem run_matchVersion_missing
    (different : pod.annotations.index (kind.tag ++ name) ≠ object.currentVersion)
    (missing : (cluster.revisions kind).find? (object.ns, object.name ++ "-" ++
      pod.annotations.index (kind.tag ++ name)) = none) :
    ((matchVersion pod name object).run Cluster.serve cluster).1 = cluster ∧
      ((matchVersion pod name object).run Cluster.serve cluster).2 ≠ .returned () := by
  unfold matchVersion
  dsimp only
  rw [if_neg different]
  cases assigned : object.annotations.assign? kind.versionKey
      (pod.annotations.index (kind.tag ++ name)) with
  | none => exact ⟨rfl, nofun⟩
  | some annotations =>
    have version : Object.currentVersion { object with annotations := annotations } =
        pod.annotations.index (kind.tag ++ name) := by
      simp [Object.currentVersion, GoMap.eq_put_of_assign? assigned]
    simp [PodWebhook.copyRevision, getRevision, version, missing]

/-- The roll-back to a stored revision panics or writes the object. -/
theorem newer_matchVersion {revision : Revision kind} (member : object ∈ cluster.objects kind)
    (different : pod.annotations.index (kind.tag ++ name) ≠ object.currentVersion)
    (found : (cluster.revisions kind).find? (object.ns, object.name ++ "-" ++
      pod.annotations.index (kind.tag ++ name)) = some revision) :
    ((matchVersion pod name object).run Cluster.serve cluster).2 = .panicked ∨
      Newer cluster ((matchVersion pod name object).run Cluster.serve cluster).1 := by
  unfold matchVersion
  dsimp only
  rw [if_neg different]
  cases assigned : object.annotations.assign? kind.versionKey
      (pod.annotations.index (kind.tag ++ name)) with
  | none => exact Or.inl rfl
  | some annotations =>
    have version : Object.currentVersion { object with annotations := annotations } =
        pod.annotations.index (kind.tag ++ name) := by
      simp [Object.currentVersion, GoMap.eq_put_of_assign? assigned]
    have got : cluster.serve (.getRevision kind object.ns (object.name ++ "-" ++
        Object.currentVersion { object with annotations := annotations })) = (cluster, .ok revision) := by
      simp [version, found]
    simp only [Program.orPanic_some, Program.ret_bind, PodWebhook.copyRevision, getRevision, ask,
      Program.request_bind, Program.call_bind, Program.run_call, got, Program.ofExcept_ok]
    cases copied : PodWebhook.restore? { object with annotations := annotations } revision with
    | none => exact Or.inl rfl
    | some restored =>
      right
      have kept := PodWebhook.restored_of_restore? copied
      have changed : stamp (Resource.version object) restored ≠ object := by
        intro same
        have current := congrArg Object.currentVersion same
        rw [Object.currentVersion_stamp, kept.current, version] at current
        exact different current
      obtain ⟨answer, objects, accepted, newer⟩ :=
        newer_of_changed member kept.key.symm kept.version.symm changed
      simp only [Program.orPanic_some, Program.ret_bind, updateObject, ask, Program.request_bind,
        Program.call_bind, Program.run_call, Cluster.serve_updateObject, accepted, Cluster.settle_ok]
      exact newer.run _

theorem run_validateReference (found : (cluster.objects kind).find? (pod.ns, name) = some object) :
    (validateReference pod kind name).run Cluster.serve cluster =
      (checkReference pod name object).run Cluster.serve cluster := by
  simp [validateReference, found]

theorem run_checkReference (refusable : pod.tolerated = false) :
    (checkReference pod name object).run Cluster.serve cluster =
      match (matchVersion pod name object).run Cluster.serve cluster with
      | (after, .returned ()) => (after, .returned none)
      | (after, .failed error) => (after, .returned (some error.text))
      | (after, .panicked) => (after, .panicked) := by
  unfold checkReference
  rw [Program.run_bind, Program.run_attempt]
  generalize (matchVersion pod name object).run Cluster.serve cluster = result
  obtain ⟨after, _ | _ | _⟩ := result <;> simp [refusable]

/-- What a refused pod leaves behind. -/
theorem traceless_pod_iff (refused : ((validateReferences pod references).run Cluster.serve cluster).2 =
      .returned (.refused message)) :
    Traceless cluster ((validateReferences pod references).run Cluster.serve cluster).1 ↔
      SparesPod cluster pod references := by
  have refusable : pod.tolerated = false := by
    by_contra tolerated
    exact tolerated_not_refused (by simpa using tolerated) references message cluster refused
  induction references with
  | nil => cases refused
  | cons reference rest ih =>
    obtain ⟨kind, name⟩ := reference
    unfold validateReferences at refused ⊢
    unfold SparesPod
    cases found : (cluster.objects kind).find? (pod.ns, name) with
    | none =>
      have ran : (validateReference pod kind name).run Cluster.serve cluster =
          (cluster, .returned (some (ApiError.notFound kind.plural name).text)) := by
        simp [validateReference, found, refusable]
      rw [Program.run_bind, ran]
      exact iff_of_true ⟨fun _ => rfl, fun _ => rfl⟩ trivial
    | some object =>
      obtain ⟨member, own⟩ := Table.find?_eq_some.mp found
      obtain ⟨spaces, names⟩ := Prod.mk.inj own
      rw [Program.run_bind, run_validateReference found, run_checkReference refusable] at refused ⊢
      by_cases same : pod.annotations.index (kind.tag ++ name) = object.currentVersion
      · simp only [run_matchVersion_same same, Program.run_ret, same, if_true] at refused ⊢
        exact ih refused
      simp only [same, if_false]
      subst names
      cases missing : (cluster.revisions kind).find? (pod.ns, object.name ++ "-" ++
          pod.annotations.index (kind.tag ++ object.name)) with
      | none =>
        have ends := run_matchVersion_missing same (spaces ▸ missing)
        generalize (matchVersion pod object.name object).run Cluster.serve cluster = result at refused ends ⊢
        obtain ⟨after, _ | error | _⟩ := result
        · exact absurd rfl ends.2
        · obtain rfl : after = cluster := ends.1
          exact iff_of_true ⟨fun _ => rfl, fun _ => rfl⟩ rfl
        · cases refused
      | some revision =>
        have writes := newer_matchVersion member same (spaces ▸ missing)
        generalize (matchVersion pod object.name object).run Cluster.serve cluster = result at refused writes ⊢
        refine iff_of_false ?_ nofun
        rcases writes with panicked | newer
        · obtain ⟨after, outcome⟩ := result
          obtain rfl : outcome = .panicked := panicked
          cases refused
        · obtain ⟨after, _ | error | _⟩ := result
          · exact (newer.run _).not_traceless
          · exact newer.not_traceless
          · cases refused

end Pods

/-- An admission review that has been decoded. -/
inductive Review where
  | deployment (order : Iteration) (sent : Workload)
  | statefulSet (order : Iteration) (sent : Workload)
  | pod (pod : Pod)

namespace Review

def respond : Review → Client AdmissionResponse
  | .deployment order sent => deployMutate order sent
  | .statefulSet order sent => statefulsetMutate order sent
  | .pod pod => configValidation pod

/-- No write comes before the reference at which the review is refused. -/
def Spares (cluster : Cluster) : Review → Prop
  | .deployment _ sent => SparesAll .deployment cluster sent sent.template.spec.references
  | .statefulSet _ sent => SparesAll .statefulSet cluster sent sent.template.spec.references
  | .pod pod => SparesPod cluster pod pod.spec.references

/-- A refused review leaves no trace exactly if no write comes before the reference at
which it is refused. -/
theorem traceless_iff {review : Review} {message : String}
    (refused : (review.respond.run Cluster.serve cluster).2 = .returned (.refused message)) :
    Traceless cluster (review.respond.run Cluster.serve cluster).1 ↔ review.Spares cluster := by
  cases review with
  | deployment order sent => exact traceless_workload_iff refused
  | statefulSet order sent => exact traceless_workload_iff refused
  | pod pod =>
    simp only [respond, configValidation] at refused ⊢
    split at refused
    · rename_i synced
      rw [if_pos synced]
      exact traceless_pod_iff refused
    · cases refused

end Review

namespace Sample

/-- The Deployment `api` with its environment from these ConfigMaps. -/
def apiFrom (names : List String) : Workload :=
  { api with template := ⟨.nil, ⟨[], [⟨names.map fun name => ⟨some name, none⟩⟩], []⟩⟩ }

def apiListed : Cluster := admitting api synced

/-- Refused at its second reference, a Deployment that the first one lists has left no trace. -/
theorem absentSecond_traceless : Traceless apiListed
    ((Review.deployment apiOrder (apiFrom ["settings", "absent"])).respond.run Cluster.serve apiListed).1 :=
  have refused : ((Review.deployment apiOrder (apiFrom ["settings", "absent"])).respond.run Cluster.serve
      apiListed).2 = .returned (.refused (ApiError.notFound "configmaps" "absent").text) := rfl
  have spares : SparesAll .deployment apiListed (apiFrom ["settings", "absent"])
      [(.configMap, "settings"), (.configMap, "absent")] := ⟨rfl, trivial⟩
  (Review.traceless_iff refused).mpr spares

/-- Where it is not listed yet it stays registered. -/
theorem absentSecond_registered :
    ((Review.deployment apiOrder (apiFrom ["settings", "absent"])).respond.run Cluster.serve synced).2 =
        .returned (.refused (ApiError.notFound "configmaps" "absent").text) ∧
      ¬ Traceless synced
        ((Review.deployment apiOrder (apiFrom ["settings", "absent"])).respond.run Cluster.serve synced).1 := by
  refine ⟨rfl, fun traceless => ?_⟩
  have entries : [listing "api" 2] = [settings "red" "aaaaa" 1] := traceless.objects .configMap
  exact absurd entries (by decide)

end Sample

end Configurator
