import Configurator.Keeping

namespace Configurator

open Json Resource

variable {kind : Kind} {workload : WorkloadKind} {cluster after : Cluster} {sent : Workload} {name key : String}
  {order : Iteration}

/-- The object exists and names a version. -/
def Pinnable (cluster : Cluster) (kind : Kind) (ns name : String) : Prop :=
  ∃ object ∈ cluster.objects kind, Resource.key object = (ns, name) ∧ object.currentVersion ≠ ""

/-- A registration keeps the objects and their versions, and answers with one of these. -/
theorem run_pin_versioned (workload : WorkloadKind) (there : Pinnable cluster kind sent.ns name) :
    ∃ after version, (pin workload sent kind name).run Cluster.serve cluster =
        (after, .returned (kind.tag ++ name, version)) ∧ version ≠ "" ∧
      ∀ other ns called, Pinnable cluster other ns called → Pinnable after other ns called := by
  obtain ⟨object, member, own, filled⟩ := there
  obtain ⟨stored, objects, accepted, ran⟩ := run_pin workload member own
  have written := (Table.written_of_update accepted).2
  have names : stored.name = name :=
    congrArg Prod.snd (written.key_eq.trans ((key_register workload sent.name object).trans own))
  have version : stored.currentVersion = object.currentVersion := by
    rw [written.answered, Object.currentVersion_stamp, currentVersion_register]
  rw [names, version] at ran
  refine ⟨_, _, ran, filled, fun other ns called present => ?_⟩
  obtain ⟨held, inside, its, named⟩ := present
  by_cases kinds : other = kind
  · subst kinds
    rw [Pinnable, Cluster.withObjects_objects]
    by_cases same : Resource.key held = Resource.key stored
    · have whole : held = object := Table.unique inside member
        (same.trans (written.key_eq.trans (key_register workload sent.name object)))
      exact ⟨stored, written.mem, same.symm.trans its, by rw [version]; exact filled⟩
    · refine ⟨held, (written.members held).mpr (Or.inr ⟨inside, ?_⟩), its, named⟩
      intro equal
      exact same (equal.trans written.key_eq.symm)
  · refine ⟨held, ?_, its, named⟩
    simpa only [Cluster.withObjects, Function.update_of_ne kinds] using inside

/-- With every reference versioned the loops return, and no new annotation is empty. -/
theorem run_newAnnotations_versioned (workload : WorkloadKind) (references : List (Kind × String))
    {added : GoMap String} (there : ∀ kind name, (kind, name) ∈ references → Pinnable cluster kind sent.ns name)
    (filled : ∀ key, added.lookup key ≠ none → added.index key ≠ "") :
    ∃ after result, (newAnnotations workload sent references added).run Cluster.serve cluster =
        (after, .returned result) ∧ ∀ key, result.lookup key ≠ none → result.index key ≠ "" := by
  induction references generalizing added cluster with
  | nil => exact ⟨cluster, added, rfl, filled⟩
  | cons reference rest ih =>
    obtain ⟨first, called⟩ := reference
    have later : ∀ kind name, (kind, name) ∈ rest → Pinnable cluster kind sent.ns name :=
      fun kind name member => there kind name (List.mem_cons_of_mem _ member)
    unfold newAnnotations
    split
    · obtain ⟨middle, version, ran, named, keeps⟩ :=
        run_pin_versioned workload (there first called List.mem_cons_self)
      rw [Program.run_bind, ran]
      apply ih
      · intro kind name member
        exact keeps kind sent.ns name (later kind name member)
      · intro key found
        rw [GoMap.lookup_put] at found
        rw [GoMap.index_put]
        split at found
        · rename_i same
          rwa [if_pos same]
        · rename_i other
          rw [if_neg other]
          exact filled key found
    · exact ih later filled

/-- With every reference pinned the loops do nothing. -/
theorem run_newAnnotations_pinned (workload : WorkloadKind) (references : List (Kind × String)) (added : GoMap String)
    (pinned : ∀ kind name, (kind, name) ∈ references →
      sent.template.annotations.index (Kind.tag kind ++ name) ≠ "") (cluster : Cluster) :
    (newAnnotations workload sent references added).run Cluster.serve cluster = (cluster, .returned added) := by
  induction references with
  | nil => rfl
  | cons reference rest ih =>
    obtain ⟨first, called⟩ := reference
    unfold newAnnotations
    rw [if_neg (pinned first called List.mem_cons_self)]
    exact ih fun kind name member => pinned kind name (List.mem_cons_of_mem _ member)

/-- The document has these annotations in its template. -/
def Renders (document : Json) (annotations : GoMap String) : Prop :=
  ∃ metadata, document.get? metadataPath = some (.object metadata) ∧ metadata "annotations" = annotations.json?

namespace Workload

/-- The workload with other annotations in its template. -/
def annotated (sent : Workload) (annotations : GoMap String) : Workload :=
  { sent with template := { sent.template with annotations := annotations } }

/-- What an admission makes of the annotations, given the new ones. -/
def admitted (sent : Workload) (added : GoMap String) : GoMap String :=
  ((added.put "config-sync-controller" "configurator").overlay sent.keptAnnotations).restrict fun key =>
    (sent.droppedAnnotations.lookup key).isNone

theorem lookup_admitted (sent : Workload) (added : GoMap String) (key : String) :
    (sent.admitted added).lookup key =
      if sent.droppedAnnotations.lookup key = none then
        ((added.put "config-sync-controller" "configurator").overlay sent.keptAnnotations).lookup key
      else none := by
  rw [admitted, GoMap.lookup_restrict]
  simp only [Option.isNone_iff_eq_none]

end Workload

/-- The workload is submitted again, as the document has it: the handler returns, its patch leaves the document
and no object is written. -/
def Settles (workload : WorkloadKind) (order : Iteration) (sent : Workload) (cluster : Cluster)
    (document : Json) : Prop :=
  ∃ after patch, (createPatch workload order sent).run Cluster.serve cluster = (after, .returned patch) ∧
    applyPatch patch document = some document ∧ after.objects = cluster.objects

section Admission

variable {document : Json} {added : GoMap String} {patch : List PatchOperation}

theorem tilde_notMem_pin (kind : Kind) (valid : '~' ∉ name.toList) : '~' ∉ (kind.tag ++ name).toList := by
  rw [String.toList_append, List.mem_append]
  intro member
  rcases member with inTag | inName
  · cases kind <;> exact absurd inTag (by decide)
  · exact valid inName

theorem tilde_notMem_added (loops : (newAnnotations workload sent sent.template.spec.references (.make ∅)).run
      Cluster.serve cluster = (after, .returned added))
    (spelled : ∀ kind name, (kind, name) ∈ sent.template.spec.references → '~' ∉ name.toList)
    (found : (added.put "config-sync-controller" "configurator").lookup key ≠ none) : '~' ∉ key.toList := by
  rw [GoMap.lookup_put] at found
  split at found
  · rename_i control
    subst control
    decide
  · rcases (lookup_newAnnotations loops key).mp found with none | ⟨kind, name, member, same, _⟩
    · exact absurd rfl none
    · rw [same]
      exact tilde_notMem_pin kind (spelled kind name member)

theorem annotates_createPatch {metadata : String → Option Json} (orders : ∀ map, Enumerates (order map) map)
    (valid : ∀ key, sent.template.annotations.lookup key ≠ none → '~' ∉ key.toList)
    (spelled : ∀ kind name, (kind, name) ∈ sent.template.spec.references → '~' ∉ name.toList)
    (kept : sent.keptAnnotations.isEmpty = false)
    (there : document.get? metadataPath = some (.object metadata))
    (rendered : metadata "annotations" = sent.template.annotations.json?)
    (loops : (newAnnotations workload sent sent.template.spec.references (.make ∅)).run Cluster.serve cluster =
      (after, .returned added)) :
    (Annotates <| updateAnnotation (order sent.keptAnnotations)
      (order (added.put "config-sync-controller" "configurator")) (order sent.droppedAnnotations)) document metadata
        (sent.admitted added) := by
  have keeps := orders sent.keptAnnotations
  have adds := orders (added.put "config-sync-controller" "configurator")
  have filled : order sent.keptAnnotations ≠ [] := by
    rw [Ne, keeps.eq_nil_iff, kept]
    exact Bool.false_ne_true
  have some : order (added.put "config-sync-controller" "configurator") ≠ [] := by
    intro none
    have empty := GoMap.isEmpty_iff.mp (adds.eq_nil_iff.mp none) "config-sync-controller"
    rw [GoMap.lookup_put, if_pos rfl] at empty
    cases empty
  have made : sent.template.annotations ≠ .nil := by
    obtain ⟨entry, member⟩ := List.exists_mem_of_ne_nil _ filled
    intro nil
    have found := sent.parts_annotations.kept (keeps.lookup_ne_none entry member)
    rw [nil] at found
    exact found rfl
  refine (annotates_iff there rendered some fun _ => made).mpr ?_
  have outcome := outcome_kept sent.parts_annotations valid
    (fun entry member => readKey_of_valid (tilde_notMem_added loops spelled (adds.lookup_ne_none entry member)))
    filled keeps adds (orders sent.droppedAnnotations)
  rw [outcome]
  congr 1
  funext key
  rw [GoMap.members, GoMap.members, sent.lookup_admitted]
  split <;> rfl

theorem applyPatch_self_iff {metadata : String → Option Json} {annotations next : GoMap String}
    (there : document.get? metadataPath = some (.object metadata))
    (rendered : metadata "annotations" = some annotations.json) (annotates : Annotates patch document metadata next) :
    applyPatch patch document = some document ↔ ∀ key, next.lookup key = annotations.lookup key := by
  have still : document.modify? (fun _ => some (.object metadata)) metadataPath = some document := modify?_self there
  have texts : next.json = annotations.json ↔ ∀ key, next.lookup key = annotations.lookup key := by
    rw [GoMap.json, GoMap.json, Json.object.injEq, funext_iff]
    apply forall_congr'
    intro key
    constructor
    · intro same
      exact Option.map_injective (fun _ _ => Json.text.inj) same
    · intro same
      rw [GoMap.members, same]
      rfl
  rw [← texts, annotates]
  constructor
  · intro same
    have equal := modify?_inj there (same.trans still.symm)
    have inside := congrFun (Json.object.inj (Option.some.inj equal)) "annotations"
    rw [Function.update_self, rendered] at inside
    exact Option.some.inj inside
  · intro same
    rw [same, ← rendered, Function.update_eq_self]
    exact still

end Admission

section Again

variable {again : Iteration} {document : Json} {added : GoMap String}

theorem keeps_control (spec : PodSpec) : keepsAnnotation spec "config-sync-controller" = true := by
  simp [contains, keepsAnnotation, List.infix_cons_iff]

theorem dropped_of_keeps (kept : keepsAnnotation sent.template.spec key = true) :
    sent.droppedAnnotations.lookup key = none := by
  rw [sent.lookup_dropped, if_pos kept]

theorem lookup_admitted_control (sent : Workload) (added : GoMap String) :
    (sent.admitted added).lookup "config-sync-controller" = some "configurator" := by
  rw [sent.lookup_admitted, if_pos (dropped_of_keeps (keeps_control _)), GoMap.lookup_overlay, GoMap.lookup_put,
    if_pos rfl]
  rfl

variable (loops : (newAnnotations workload sent sent.template.spec.references (.make ∅)).run Cluster.serve cluster =
    (after, .returned added))

include loops

/-- The pin of a reference that the handler takes for its own is there after an admission. -/
theorem admitted_pinned (filled : ∀ key, added.lookup key ≠ none → added.index key ≠ "")
    (member : (kind, name) ∈ sent.template.spec.references)
    (kept : keepsAnnotation sent.template.spec (kind.tag ++ name) = true) :
    (sent.admitted added).index (kind.tag ++ name) ≠ "" := by
  have its : (sent.admitted added).lookup (kind.tag ++ name) =
      (added.lookup (kind.tag ++ name)).or (sent.template.annotations.lookup (kind.tag ++ name)) := by
    rw [sent.lookup_admitted, if_pos (dropped_of_keeps kept), GoMap.lookup_overlay, GoMap.lookup_put,
      if_neg (pin_ne_control kind name), sent.lookup_kept, if_pos kept]
  by_cases pinned : sent.template.annotations.index (kind.tag ++ name) = ""
  · have found := (lookup_newAnnotations loops (kind.tag ++ name)).mpr (Or.inr ⟨kind, name, member, rfl, pinned⟩)
    have value := filled _ found
    obtain ⟨version, same⟩ := Option.ne_none_iff_exists'.mp found
    rw [GoMap.index, same] at value
    rw [GoMap.index, its, same]
    exact value
  · have absent : added.lookup (kind.tag ++ name) = none := by
      by_contra found
      rcases (lookup_newAnnotations loops (kind.tag ++ name)).mp found with none | ⟨_, _, _, _, empty⟩
      · exact none rfl
      · exact pinned empty
    rw [GoMap.index, its, absent, Option.none_or]
    exact pinned

/-- The pin of a reference that the handler takes for another's is there after an admission exactly if it was
not there before. -/
theorem admitted_unkept (member : (kind, name) ∈ sent.template.spec.references)
    (unkept : ¬ keepsAnnotation sent.template.spec (kind.tag ++ name) = true) :
    (sent.admitted added).lookup (kind.tag ++ name) = none ↔
      sent.template.annotations.lookup (kind.tag ++ name) ≠ none := by
  have its : (sent.admitted added).lookup (kind.tag ++ name) =
      if sent.template.annotations.lookup (kind.tag ++ name) = none then added.lookup (kind.tag ++ name) else none := by
    rw [sent.lookup_admitted, sent.lookup_dropped, if_neg unkept, GoMap.lookup_overlay, GoMap.lookup_put,
      if_neg (pin_ne_control kind name), sent.lookup_kept, if_neg unkept, Option.or_none]
  rw [its]
  split
  · rename_i absent
    have found := (lookup_newAnnotations loops (kind.tag ++ name)).mpr
      (Or.inr ⟨kind, name, member, rfl, by rw [GoMap.index, absent]; rfl⟩)
    exact ⟨fun none => absurd none found, fun present => absurd absent present⟩
  · rename_i present
    exact ⟨fun _ => present, fun _ => rfl⟩

/-- What an admission leaves is kept by the next one, if the pins of all references are. -/
theorem keeps_of_admitted (kept : ∀ kind name, (kind, name) ∈ sent.template.spec.references →
      keepsAnnotation sent.template.spec (Kind.tag kind ++ name) = true)
    (found : (sent.admitted added).lookup key ≠ none) : keepsAnnotation sent.template.spec key = true := by
  by_contra unkept
  rw [sent.lookup_admitted, sent.lookup_dropped, GoMap.lookup_overlay, sent.lookup_kept, if_neg unkept,
    if_neg unkept, Option.or_none, GoMap.lookup_put] at found
  split at found
  · split at found
    · rename_i control
      exact unkept (control ▸ keeps_control _)
    · rcases (lookup_newAnnotations loops key).mp found with none | ⟨kind, name, member, same, _⟩
      · exact none rfl
      · exact unkept (same ▸ kept kind name member)
  · exact found rfl

/-- The keys of an admitted template have no tilde. -/
theorem tilde_notMem_admitted (valid : ∀ key, sent.template.annotations.lookup key ≠ none → '~' ∉ key.toList)
    (spelled : ∀ kind name, (kind, name) ∈ sent.template.spec.references → '~' ∉ name.toList)
    (found : (sent.admitted added).lookup key ≠ none) : '~' ∉ key.toList := by
  rw [sent.lookup_admitted, GoMap.lookup_overlay] at found
  split at found
  · rw [Ne, Option.or_eq_none_iff, not_and_or] at found
    rcases found with new | kept
    · exact tilde_notMem_added loops spelled new
    · exact valid key (sent.parts_annotations.kept kept)
  · exact absurd rfl found

end Again

/-- The template that an admission leaves has something to keep. -/
theorem kept_admitted (sent : Workload) (added : GoMap String) :
    (sent.annotated (sent.admitted added)).keptAnnotations.isEmpty = false := by
  rw [← Bool.not_eq_true, GoMap.isEmpty_iff]
  intro empty
  have found := empty "config-sync-controller"
  rw [Workload.lookup_kept, if_pos (keeps_control _)] at found
  have marked := lookup_admitted_control sent added
  rw [Workload.annotated] at found
  rw [found] at marked
  cases marked

section Settling

variable {again : Iteration} {document stored : Json} {added : GoMap String}
  (valid : ∀ key, sent.template.annotations.lookup key ≠ none → '~' ∉ key.toList)
  (spelled : ∀ kind name, (kind, name) ∈ sent.template.spec.references → '~' ∉ name.toList)

include valid spelled

theorem admits (orders : ∀ map, Enumerates (order map) map)
    (pinnable : ∀ kind name, (kind, name) ∈ sent.template.spec.references → Pinnable cluster kind sent.ns name)
    (kept : sent.keptAnnotations.isEmpty = false) (renders : Renders document sent.template.annotations) :
    ∃ after added patch stored, (newAnnotations workload sent sent.template.spec.references (.make ∅)).run
        Cluster.serve cluster = (after, .returned added) ∧
      (∀ key, added.lookup key ≠ none → added.index key ≠ "") ∧
      (createPatch workload order sent).run Cluster.serve cluster = (after, .returned patch) ∧
      applyPatch patch document = some stored ∧ Renders stored (sent.admitted added) := by
  obtain ⟨metadata, there, rendered⟩ := renders
  have empty : ∀ key, (GoMap.make ∅ : GoMap String).lookup key ≠ none → (GoMap.make ∅).index key ≠ "" :=
    fun _ found => absurd rfl found
  obtain ⟨after, added, loops, filled⟩ := run_newAnnotations_versioned workload sent.template.spec.references
    pinnable empty
  have annotates := annotates_createPatch orders valid spelled kept there rendered loops
  cases made : document.modify? (fun _ => some (.object (Function.update metadata "annotations"
      (some (sent.admitted added).json)))) metadataPath with
  | none =>
    rw [modify?_eq_none there] at made
    cases made
  | some stored =>
    have now := get?_modify? there made
    have shows : Function.update metadata "annotations" (some (sent.admitted added).json) "annotations" =
        (sent.admitted added).json? := Function.update_self ..
    exact ⟨after, added, _, stored, loops, filled, run_createPatch_of_loops loops order, annotates.trans made,
      _, now, shows⟩

variable (others : ∀ map, Enumerates (again map) map)
  (loops : (newAnnotations workload sent sent.template.spec.references (.make ∅)).run Cluster.serve cluster =
    (after, .returned added)) (renders : Renders stored (sent.admitted added))

include others loops renders

/-- The next admission annotates the document with what it makes of the admitted annotations. -/
theorem applied_again_iff {middle last : Cluster} {next : GoMap String}
    (loopsAgain : (newAnnotations workload (sent.annotated (sent.admitted added))
      (sent.annotated (sent.admitted added)).template.spec.references (.make ∅)).run Cluster.serve middle =
        (last, .returned next)) :
    (applyPatch <| updateAnnotation (again (sent.annotated (sent.admitted added)).keptAnnotations)
        (again (next.put "config-sync-controller" "configurator"))
        (again (sent.annotated (sent.admitted added)).droppedAnnotations)) stored = some stored ↔
      ∀ key, ((sent.annotated (sent.admitted added)).admitted next).lookup key = (sent.admitted added).lookup key := by
  obtain ⟨metadata, now, shows⟩ := renders
  have validAgain : ∀ key, (sent.annotated (sent.admitted added)).template.annotations.lookup key ≠ none →
      '~' ∉ key.toList := fun key found => tilde_notMem_admitted loops valid spelled found
  exact applyPatch_self_iff now shows
    (annotates_createPatch others validAgain spelled (kept_admitted sent added) now shows loopsAgain)

/-- A pin that is taken for another's comes and goes with every admission. -/
theorem not_settles (member : (kind, name) ∈ sent.template.spec.references)
    (unkept : ¬ keepsAnnotation sent.template.spec (kind.tag ++ name) = true) (middle : Cluster) :
    ¬ Settles workload again (sent.annotated (sent.admitted added)) middle stored := by
  intro ⟨last, patch, ran, applied, _⟩
  obtain ⟨next, loopsAgain, rfl⟩ := returned_createPatch ran
  have same := (applied_again_iff valid spelled others loops renders loopsAgain).mp applied (kind.tag ++ name)
  have flips := @admitted_unkept kind workload middle last (sent.annotated (sent.admitted added)) name next loopsAgain
    member unkept
  rw [same] at flips
  exact (iff_not_self flips).elim

/-- Where every pin is taken for what it is, the next admission does nothing. -/
theorem settles (filled : ∀ key, added.lookup key ≠ none → added.index key ≠ "")
    (keeps : ∀ kind name, (kind, name) ∈ sent.template.spec.references →
      keepsAnnotation sent.template.spec (Kind.tag kind ++ name) = true) :
    Settles workload again (sent.annotated (sent.admitted added)) after stored := by
  let resent := sent.annotated (sent.admitted added)
  have loopsAgain : (newAnnotations workload resent resent.template.spec.references (.make ∅)).run Cluster.serve
      after = (after, .returned (.make ∅)) :=
    run_newAnnotations_pinned workload _ _
      (fun kind name member => admitted_pinned loops filled member (keeps kind name member)) after
  refine ⟨after, _, run_createPatch_of_loops loopsAgain again,
    (applied_again_iff valid spelled others loops renders loopsAgain).mpr fun key => ?_, rfl⟩
  have itsKeeps : (sent.admitted added).lookup key ≠ none → keepsAnnotation sent.template.spec key = true :=
    fun found => keeps_of_admitted loops keeps found
  have same : resent.keptAnnotations.lookup key = (sent.admitted added).lookup key := by
    rw [Workload.lookup_kept]
    split
    · rfl
    · rename_i unkept
      by_contra found
      exact unkept (itsKeeps (Ne.symm found))
  have nothing : resent.droppedAnnotations.lookup key = none := by
    rw [Workload.lookup_dropped]
    split
    · rfl
    · rename_i unkept
      by_contra found
      exact unkept (itsKeeps found)
  rw [Workload.lookup_admitted, if_pos nothing, GoMap.lookup_overlay, same, GoMap.lookup_put]
  split
  · rename_i control
    subst control
    exact (lookup_admitted_control sent added).symm
  · rfl

end Settling

/-- A workload whose template has something to keep is admitted, and submitting it again settles exactly if no
referenced Secret has the tag of ConfigMaps in its name. -/
theorem readmission_settles_iff {again : Iteration} {document : Json} (orders : ∀ map, Enumerates (order map) map)
    (others : ∀ map, Enumerates (again map) map)
    (valid : ∀ key, sent.template.annotations.lookup key ≠ none → '~' ∉ key.toList)
    (spelled : ∀ kind name, (kind, name) ∈ sent.template.spec.references → '~' ∉ name.toList)
    (pinnable : ∀ kind name, (kind, name) ∈ sent.template.spec.references → Pinnable cluster kind sent.ns name)
    (kept : sent.keptAnnotations.isEmpty = false) (renders : Renders document sent.template.annotations) :
    ∃ after patch stored annotations,
      (createPatch workload order sent).run Cluster.serve cluster = (after, .returned patch) ∧
      applyPatch patch document = some stored ∧ Renders stored annotations ∧
      (Settles workload again (sent.annotated annotations) after stored ↔
        ∀ name, (Kind.secret, name) ∈ sent.template.spec.references → contains name "ccm-" = false) := by
  obtain ⟨after, added, patch, stored, loops, filled, ran, applied, shows⟩ :=
    @admits workload cluster sent order document valid spelled orders pinnable kept renders
  refine ⟨after, patch, stored, sent.admitted added, ran, applied, shows, ?_⟩
  have keepsPin := fun {kind name} (member : (kind, name) ∈ sent.template.spec.references) =>
    keeps_pin_iff (PodSpec.mentions_of_references member)
  constructor
  · intro settled name member
    by_contra tagged
    exact not_settles valid spelled others loops shows member
      (fun kept => tagged ((keepsPin member).mp kept rfl)) after settled
  · intro clean
    refine settles valid spelled others loops shows filled fun kind name member => ?_
    refine (keepsPin member).mpr fun secret => ?_
    subst secret
    exact clean name member

namespace Sample

def teamApi : Workload := api.annotated (entry "team" "shop")

theorem renders_documentOf (annotations : GoMap String) : Renders (documentOf annotations) annotations :=
  ⟨_, there_documentOf annotations, annotations_metadataOf annotations⟩

theorem valid_team : ∀ key, (entry "team" "shop").lookup key ≠ none → '~' ∉ key.toList := by
  intro key found
  have same : key = "team" := by
    by_contra other
    rw [lookup_entry, if_neg other] at found
    exact found rfl
  rw [same]
  decide

theorem kept_team (sent : Workload) : (sent.annotated (entry "team" "shop")).keptAnnotations.isEmpty = false := by
  rw [← Bool.not_eq_true, GoMap.isEmpty_iff]
  intro empty
  have found := empty "team"
  have clean : keepsAnnotation sent.template.spec "team" = true := by
    simp [contains, keepsAnnotation, List.infix_cons_iff]
  rw [Workload.lookup_kept, Workload.annotated, if_pos clean, lookup_entry, if_pos rfl] at found
  cases found

theorem teamApi_settles : ∃ order after patch stored annotations,
    (createPatch .deployment order teamApi).run Cluster.serve synced = (after, .returned patch) ∧
      applyPatch patch (documentOf (entry "team" "shop")) = some stored ∧
      Settles .deployment order (teamApi.annotated annotations) after stored := by
  obtain ⟨order, orders⟩ := exists_iteration
  have references : ∀ kind name, (kind, name) ∈ teamApi.template.spec.references →
      kind = .configMap ∧ name = "settings" := by
    intro kind name member
    exact Prod.mk.inj (List.mem_singleton.mp member)
  have spelled : ∀ kind name, (kind, name) ∈ teamApi.template.spec.references → '~' ∉ name.toList := by
    intro kind name member
    rw [(references kind name member).2]
    decide
  have pinnable : ∀ kind name, (kind, name) ∈ teamApi.template.spec.references →
      Pinnable synced kind teamApi.ns name := by
    intro kind name member
    obtain ⟨rfl, rfl⟩ := references kind name member
    exact ⟨settings "red" "aaaaa" 1, List.mem_singleton_self _, rfl, by decide⟩
  obtain ⟨after, patch, stored, annotations, ran, applied, _, settles⟩ := @readmission_settles_iff .deployment synced
    teamApi order order (documentOf (entry "team" "shop")) orders orders valid_team spelled pinnable (kept_team api)
    (renders_documentOf _)
  refine ⟨order, after, patch, stored, annotations, ran, applied, settles.mpr fun name member => ?_⟩
  cases (references .secret name member).1

def ccmKey : Object .secret where
  ns := "shop"
  name := "ccm-key"
  annotations := entry "currentCustomSecretVersion" "aaaaa"
  resourceVersion := 1
  content := (⟨.nil, .nil, "Opaque"⟩ : SecretContent)

def vault : Cluster :=
  shop .empty .empty |>.withObjects .secret ⟨[ccmKey], 1, by decide, by decide, by decide⟩

/-- The Deployment `api` with the Secret `ccm-key` in its environment. -/
def vaultApi : Workload :=
  { api with template := ⟨entry "team" "shop", ⟨[], [⟨[⟨none, some "ccm-key"⟩]⟩], []⟩⟩ }

/-- The annotation `cs-ccm-key` that the first admission adds is removed by the second one. -/
theorem vaultApi_unsettled : Pinnable vault .secret "shop" "ccm-key" ∧
    vaultApi.template.spec.references = [(.secret, "ccm-key")] ∧ ∃ order after patch stored annotations,
      (createPatch .deployment order vaultApi).run Cluster.serve vault = (after, .returned patch) ∧
      applyPatch patch (documentOf (entry "team" "shop")) = some stored ∧ Renders stored annotations ∧
      ¬ Settles .deployment order (vaultApi.annotated annotations) after stored := by
  obtain ⟨order, orders⟩ := exists_iteration
  have references : vaultApi.template.spec.references = [(.secret, "ccm-key")] := rfl
  have member : (Kind.secret, "ccm-key") ∈ vaultApi.template.spec.references := List.mem_singleton_self _
  have spelled : ∀ kind name, (kind, name) ∈ vaultApi.template.spec.references → '~' ∉ name.toList := by
    intro kind name member
    rw [references, List.mem_singleton, Prod.mk.injEq] at member
    rw [member.2]
    decide
  have there : Pinnable vault .secret "shop" "ccm-key" := ⟨ccmKey, List.mem_singleton_self _, rfl, by decide⟩
  have pinnable : ∀ kind name, (kind, name) ∈ vaultApi.template.spec.references →
      Pinnable vault kind vaultApi.ns name := by
    intro kind name member
    rw [references, List.mem_singleton, Prod.mk.injEq] at member
    obtain ⟨rfl, rfl⟩ := member
    exact there
  obtain ⟨after, added, patch, stored, loops, _, ran, applied, shows⟩ := @admits .deployment vault vaultApi order
    (documentOf (entry "team" "shop")) valid_team spelled orders pinnable (kept_team vaultApi) (renders_documentOf _)
  refine ⟨there, references, order, after, patch, stored, _, ran, applied, shows, ?_⟩
  refine not_settles valid_team spelled orders loops shows member ?_ after
  intro kept
  have tagged : contains "ccm-key" "ccm-" = true := by simp [contains, List.infix_cons_iff]
  have clean := (keeps_pin_iff (PodSpec.mentions_of_references member)).mp kept rfl
  rw [tagged] at clean
  cases clean

end Sample

end Configurator
