import Configurator.Library.Provenance
import Configurator.Marks
import Configurator.Rollback
import Configurator.Sends

namespace Configurator

open Resource

variable {kind : Kind} {α : Type}

/-- A revision of either kind. -/
abbrev AnyRevision := (kind : Kind) × Revision kind

/-- A revision as it is sent back: with other labels, and with what becomes of a Secret's
annotations where its content has been copied. `marks` says whether the pod webhook sends it. -/
structure Derives (marks : Prop) (source sent : Revision kind) : Prop where
  key_eq : key sent = key source
  version_eq : version sent = version source
  spec : sent.spec = source.spec ∨ sent.spec = source.spec.untracked ∨
    marks ∧ sent.Labelled "current" "true" ∧ sent.spec = PodWebhook.keptSpec source

/-- The revision is a known one with other labels. -/
def Knows (known : Set AnyRevision) (revision : Revision kind) : Prop :=
  ∃ source : Revision kind, ⟨kind, source⟩ ∈ known ∧ key revision = key source ∧
    version revision = version source ∧ revision.spec = source.spec

/-- The revisions that an answer holds. -/
def answered : (request : Call) → Answer request → Set AnyRevision
  | .getRevision kind _ _, answer => {fact | ∃ revision, answer = .ok revision ∧ fact = ⟨kind, revision⟩}
  | .listRevisions kind _ _, answer =>
    {fact | ∃ revisions, answer = .ok revisions ∧ ∃ revision ∈ revisions, fact = ⟨kind, revision⟩}
  | .createRevision kind _, answer => {fact | ∃ revision, answer = .ok revision ∧ fact = ⟨kind, revision⟩}
  | .updateRevision kind _, answer => {fact | ∃ revision, answer = .ok revision ∧ fact = ⟨kind, revision⟩}
  | _, _ => ∅

/-- New revisions are snapshots, updates derive from a known revision, and nothing is deleted. -/
def Grounded (marks : Prop) (known : Set AnyRevision) : Call → Prop
  | .createRevision _ sent => ∃ object version, sent = newRevision object version
  | .updateRevision kind sent => ∃ source : Revision kind, ⟨kind, source⟩ ∈ known ∧ Derives marks source sent
  | .deleteRevision _ _ _ => False
  | _ => True

theorem Grounded.mono {marks : Prop} {known more : Set AnyRevision} {request : Call}
    (within : known ⊆ more) (grounded : Grounded marks known request) : Grounded marks more request := by
  cases request with
  | updateRevision kind sent =>
    obtain ⟨source, member, derives⟩ := grounded
    exact ⟨source, within member, derives⟩
  | _ => exact grounded

/-- The programs as readers and writers of revisions. -/
def revisionEvidence (marks : Prop) : Evidence Call Answer AnyRevision where
  tells := answered
  allows := Grounded marks
  mono := Grounded.mono

theorem Knows.mono {known more : Set AnyRevision} {revision : Revision kind} (within : known ⊆ more)
    (knows : Knows known revision) : Knows more revision := by
  obtain ⟨source, member, same⟩ := knows
  exact ⟨source, within member, same⟩

theorem Knows.of_mem {known : Set AnyRevision} {revision : Revision kind}
    (member : (⟨kind, revision⟩ : AnyRevision) ∈ known) : Knows known revision :=
  ⟨revision, member, rfl, rfl, rfl⟩

theorem Knows.unlabel {known : Set AnyRevision} {revision : Revision kind} (knows : Knows known revision)
    (label : String) : Knows known (revision.unlabel label) := knows

theorem Knows.label {known : Set AnyRevision} {revision labelled : Revision kind} {label : String}
    (knows : Knows known revision) (put : revision.label? label = some labelled) : Knows known labelled := by
  rw [Revision.label?_eq_some put]
  exact knows

abbrev Sourced (marks : Prop) (program : Client α) (known : Set AnyRevision) : Prop :=
  program.Informed (revisionEvidence marks) (fun _ _ => True) known

section Calls

variable {marks : Prop} {known : Set AnyRevision} {sent : Revision kind}

theorem Knows.grounded (knows : Knows known sent) : Grounded marks known (.updateRevision kind sent) := by
  obtain ⟨source, member, keys, versions, specs⟩ := knows
  exact ⟨source, member, keys, versions, Or.inl specs⟩

theorem informed_updateRevision (grounded : Grounded marks known (.updateRevision kind sent)) :
    (updateRevision sent).Informed (revisionEvidence marks) (fun more stored => Knows more stored) known :=
  ⟨grounded, fun _ => .ofExcept fun stored accepted => .of_mem (Or.inr ⟨stored, accepted, rfl⟩)⟩

theorem informed_getRevision (ns name : String) :
    (getRevision kind ns name).Informed (revisionEvidence marks)
      (fun more revision => (⟨kind, revision⟩ : AnyRevision) ∈ more) known :=
  ⟨trivial, fun _ => .ofExcept fun revision found => Or.inr ⟨revision, found, rfl⟩⟩

theorem informed_listRevisions (ns : String) (labels : List (String × String)) :
    (listRevisions kind ns labels).Informed (revisionEvidence marks)
      (fun more revisions => ∀ revision ∈ revisions, Knows more revision) known :=
  ⟨trivial, fun _ => .ofExcept fun revisions found revision member =>
    .of_mem (Or.inr ⟨revisions, found, revision, member, rfl⟩)⟩

theorem sourced_label {label : String} {next : Revision kind → Client α} (knows : Knows known sent)
    (continues : ∀ stored more, known ⊆ more → Knows more stored → Sourced marks (next stored) more) :
    Sourced marks (Program.orPanic (sent.label? label) >>= fun labelled =>
      updateRevision labelled >>= next) known := by
  cases put : sent.label? label with
  | none => trivial
  | some labelled => exact (informed_updateRevision (knows.label put).grounded).bind continues

theorem sourced_put {label : String} (knows : Knows known sent) :
    (do let labelled ← Program.orPanic (sent.label? label); let _ ← updateRevision labelled; pure none :
      Client (Option (List (Revision kind)))).Informed (revisionEvidence marks)
        (fun more result => ∀ latest, result = some latest → ∀ revision ∈ latest, Knows more revision)
        known := by
  cases put : sent.label? label with
  | none => trivial
  | some labelled =>
    refine (informed_updateRevision (knows.label put).grounded).bind fun _ _ _ _ latest returned => ?_
    cases returned

theorem sourced_of_spares {program : Client α} (spares : program.Emits Call.SparesRevisions) :
    Sourced marks program known := by
  refine Program.Informed.of_emits spares fun request known spares => ?_
  cases request with
  | createRevision | updateRevision | deleteRevision => exact spares.elim
  | _ => trivial

end Calls

section Reconcile

variable {marks : Prop} {known : Set AnyRevision} {object : Object kind} {current : Revision kind}

theorem sourced_revert {latest : List (Revision kind)} (error : ApiError) (knows : Knows known current)
    (listed : ∀ revision ∈ latest, Knows known revision) :
    Sourced marks (revert current latest error) known := by
  refine sourced_label knows fun _ more within _ => ?_
  cases latest with
  | nil => trivial
  | cons first others =>
    exact sourced_label ((listed first List.mem_cons_self).mono within) fun _ _ _ _ => trivial

theorem informed_stripLatest (knows : Knows known current) (rounds : Nat) {before : List (Revision kind)}
    (listed : ∀ revision ∈ before, Knows known revision) :
    (stripLatest object current rounds before).Informed (revisionEvidence marks)
      (fun more result => ∀ latest, result = some latest → ∀ revision ∈ latest, Knows more revision)
      known := by
  induction rounds generalizing before known with
  | zero =>
    intro latest returned
    obtain rfl := Option.some.inj returned
    exact listed
  | succ rounds ih =>
    refine Program.Informed.call trivial fun items more within told => ?_
    have found : ∀ revision ∈ itemsAfter before items, Knows more revision := by
      intro revision member
      cases items with
      | error error => exact (listed revision member).mono within
      | ok revisions => exact .of_mem (told ⟨revisions, rfl, revision, member, rfl⟩)
    dsimp only [Program.bind]
    revert found
    cases itemsAfter before items with
    | nil => exact fun _ => trivial
    | cons first others =>
      intro found
      have stripped : Knows more (first.unlabel "latest") := (found first List.mem_cons_self).unlabel _
      have rest : ∀ revision ∈ others, Knows more revision :=
        fun revision member => found revision (List.mem_cons_of_mem _ member)
      refine Program.Informed.call stripped.grounded fun answer last wider heard => ?_
      cases answer with
      | ok stored =>
        intro latest returned
        obtain rfl := Option.some.inj returned
        have own : Knows last stored := .of_mem (heard ⟨stored, rfl, rfl⟩)
        exact List.forall_mem_cons.mpr ⟨own, fun revision member => (rest revision member).mono wider⟩
      | error error =>
        have carried : ∀ revision ∈ first.unlabel "latest" :: others, Knows last revision :=
          List.forall_mem_cons.mpr
            ⟨stripped.mono wider, fun revision member => (rest revision member).mono wider⟩
        have still : Knows last current := knows.mono (within.trans wider)
        show Program.Informed _ _ (if contains error.text retryText then _ else _) last
        split
        · exact ih still carried
        · exact sourced_put still

theorem sourced_publish (created : Revision kind) (version : String) :
    Sourced marks (publish object created version) known := by
  refine sourced_of_spares ?_
  unfold publish
  refine (Program.Emits.orPanic _).bind fun annotated => ?_
  refine (emits_updateObject trivial).bind fun updated => ?_
  refine (emits_rollOuts updated version).mono fun request rolls => ?_
  cases request with
  | getWorkload | updateWorkload => trivial
  | _ => exact rolls.elim

/-- `CreateNewCCM` and `CreateNewCS`. -/
theorem sourced_createNew (knows : Knows known current) :
    Sourced marks (createNew object current) known := by
  refine (informed_updateRevision (knows.unlabel "current").grounded).bind fun stored more _ own => ?_
  refine (informed_stripLatest own 6 fun _ member => absurd member List.not_mem_nil).bind
    fun result later wider stripped => ?_
  cases result with
  | none => trivial
  | some latest =>
    refine Program.Informed.call trivial fun draws seeded first _ => ?_
    refine Program.Informed.call ⟨object, _, rfl⟩ fun answer last second _ => ?_
    cases answer with
    | ok created => exact sourced_publish created _
    | error error =>
      refine sourced_revert error (own.mono (wider.trans (first.trans second))) fun revision member => ?_
      exact (stripped latest rfl revision member).mono (first.trans second)

/-- `CopyCCMToCM` and `CopyCSToSecret` of the reconcilers. -/
theorem sourced_copyRevision : Sourced marks (copyRevision object) known := by
  refine (informed_getRevision _ _).bind fun revision more _ member => ?_
  cases restore? object revision with
  | none => trivial
  | some restored =>
    refine (sourced_of_spares (emits_updateObject trivial)).bind fun updated later within _ => ?_
    cases labelled : relabel? revision with
    | none => trivial
    | some sent =>
      rw [relabel?_eq_some labelled]
      refine (informed_updateRevision ?_).bind fun _ _ _ _ => trivial
      exact ⟨revision, within member, rfl, rfl, Or.inr (Or.inl rfl)⟩

theorem sourced_synchronize : Sourced marks (synchronize object) known := by
  refine (informed_listRevisions _ _).bind fun listed more _ found => ?_
  rcases listed with _ | ⟨current, _ | ⟨second, others⟩⟩
  · trivial
  · have knows := found current (List.mem_singleton_self _)
    dsimp only
    split_ifs
    · refine sourced_copyRevision.bind fun _ later within _ => ?_
      exact (informed_updateRevision ((knows.mono within).unlabel "current").grounded).bind
        fun _ _ _ _ => trivial
    · exact sourced_createNew knows
    · trivial
  · trivial

theorem sourced_adoptOrCreate : Sourced marks (adoptOrCreate object) known := by
  refine (informed_listRevisions _ _).bind fun listed more _ found => ?_
  rcases listed with _ | ⟨current, _ | ⟨second, others⟩⟩
  · refine ⟨trivial, fun draws => ⟨⟨object, _, rfl⟩, fun answer => ?_⟩⟩
    cases answer with
    | error error => trivial
    | ok created => exact (sourced_of_spares (emits_updateObject trivial)).bind fun _ _ _ _ => trivial
  · dsimp only
    split
    · exact sourced_createNew (found current (List.mem_singleton_self _))
    · exact (sourced_of_spares (emits_updateObject trivial)).bind fun _ _ _ _ => trivial
  · trivial

theorem sourced_reconcile (ns name : String) : Sourced marks (reconcile kind ns name) known := by
  refine ⟨trivial, fun answer => ?_⟩
  cases answer with
  | error error => trivial
  | ok object =>
    show Sourced marks (if object.currentVersion = "" then _ else _) _
    split
    · exact sourced_adoptOrCreate
    · exact sourced_synchronize

end Reconcile

section Requests

variable {known : Set AnyRevision} {object : Object kind} {marks : Prop}

/-- `CopyCCMToCM` and `CopyCSToSecret` of the pod webhook. -/
theorem sourced_podCopy : Sourced True (PodWebhook.copyRevision object) known := by
  refine (informed_getRevision _ _).bind fun revision more _ member => ?_
  cases PodWebhook.restore? object revision with
  | none => trivial
  | some restored =>
    refine (sourced_of_spares (emits_updateObject trivial)).bind fun updated later within _ => ?_
    refine Program.Informed.call trivial fun listed last wider heard => ?_
    rcases listed with error | _ | ⟨current, others⟩
    · trivial
    · trivial
    · have knows : Knows last current :=
        .of_mem (heard ⟨current :: others, rfl, current, List.mem_cons_self, rfl⟩)
      show Sourced True (updateRevision (current.unlabel "current") >>= _) last
      refine (informed_updateRevision (knows.unlabel "current").grounded).bind fun _ final further _ => ?_
      cases put : revision.label? "current" with
      | none => simp [PodWebhook.relabel?, put, Program.Informed]
      | some labelled =>
        have same := Revision.label?_eq_some put
        have sent : PodWebhook.relabel? revision =
            some { labelled with spec := PodWebhook.keptSpec revision } := by
          simp [PodWebhook.relabel?, put]
        rw [sent]
        refine (informed_updateRevision ?_).bind fun _ _ _ _ => trivial
        refine ⟨revision, further (wider (within member)), same ▸ rfl, same ▸ rfl, Or.inr (Or.inr ?_)⟩
        exact ⟨trivial, by simp [same, Revision.Labelled], rfl⟩

theorem sourced_checkReference (pod : Pod) (name : String) :
    Sourced True (checkReference pod name object) known := by
  have matching : Sourced True (matchVersion pod name object) known := by
    unfold matchVersion
    dsimp only
    split
    · trivial
    · cases object.annotations.assign? kind.versionKey (pod.annotations.index (kind.tag ++ name)) with
      | none => trivial
      | some annotations => exact sourced_podCopy
  refine matching.attempt.bind fun answer _ _ _ => ?_
  cases answer <;> trivial

theorem sourced_validateReferences (pod : Pod) (references : List (Kind × String)) :
    Sourced True (validateReferences pod references) known := by
  induction references generalizing known with
  | nil => trivial
  | cons reference rest ih =>
    obtain ⟨kind, name⟩ := reference
    have one : Sourced True (validateReference pod kind name) known := by
      refine Program.Informed.call trivial fun answer more _ _ => ?_
      cases answer with
      | ok object => exact sourced_checkReference pod name
      | error error =>
        show Sourced True (if pod.tolerated then _ else _) more
        split
        · exact sourced_checkReference pod name
        · trivial
    refine one.bind fun message more _ _ => ?_
    cases message with
    | none => exact ih
    | some text => trivial

theorem sourced_configValidation (pod : Pod) : Sourced True (configValidation pod) known := by
  unfold configValidation
  split
  · exact sourced_validateReferences pod _
  · trivial

theorem sourced_createPatch (workload : WorkloadKind) (order : Iteration) (sent : Workload) :
    Sourced marks (createPatch workload order sent) known := by
  have spares : ∀ references added,
      (newAnnotations workload sent references added).Emits Call.SparesRevisions := by
    intro references
    induction references with
    | nil => exact fun _ => trivial
    | cons reference rest ih =>
      intro added
      obtain ⟨kind, name⟩ := reference
      unfold newAnnotations
      split
      · refine Program.Emits.bind ?_ fun _ => ih _
        refine Program.Emits.bind ⟨trivial, fun _ => .ofExcept _⟩ fun object => ?_
        exact (emits_updateObject trivial).bind fun _ => trivial
      · exact ih added
  exact sourced_of_spares ((spares _ _).bind fun _ => trivial)

theorem sourced_version (workload : WorkloadKind) (ns owner : String) (kind : Kind) (name : String) :
    Sourced marks (Init.version? workload ns owner kind name) known := by
  refine Program.Informed.call trivial fun answer more _ _ => ?_
  cases answer with
  | error error => trivial
  | ok object =>
    show Sourced marks (if object.currentVersion = "" then _ else _) more
    split
    · refine Program.Informed.call trivial fun draws seeded _ _ => ?_
      refine Program.Informed.call ⟨object, _, rfl⟩ fun answer created _ _ => ?_
      cases answer with
      | error error => trivial
      | ok created => exact (sourced_of_spares (emits_updateObject trivial)).bind fun _ _ _ _ => trivial
    · trivial

theorem sourced_annotations (workload : WorkloadKind) (ns : String) (stored : Workload)
    (references : List (Kind × String)) (made : GoMap String) :
    Sourced marks (Init.annotations workload ns stored references made) known := by
  induction references generalizing made known with
  | nil => trivial
  | cons reference rest ih =>
    obtain ⟨kind, name⟩ := reference
    unfold Init.annotations
    split
    · refine (sourced_version workload ns stored.name kind name).bind fun version more _ _ => ?_
      cases version with
      | none => exact ih made
      | some version => exact ih _
    · exact ih made

theorem sourced_initWorkloads (workload : WorkloadKind) (ns : String) (list : List Workload) :
    Sourced marks (Init.initWorkloads workload ns list) known := by
  induction list generalizing known with
  | nil => trivial
  | cons stored rest ih =>
    have first : Sourced marks (Init.initWorkload workload ns stored) known := by
      refine (sourced_annotations workload ns stored _ _).bind fun made more _ _ => ?_
      split
      · refine Program.Informed.call trivial fun answer _ _ _ => ?_
        cases answer <;> trivial
      · trivial
    exact first.bind fun _ more _ _ => ih

theorem sourced_initNamespaces (namespaces : List String) :
    Sourced marks (Init.initNamespaces namespaces) known := by
  induction namespaces generalizing known with
  | nil => trivial
  | cons ns rest ih =>
    have lists : ∀ workload {known} {next : List Workload → Client Unit},
        (∀ list more, Sourced marks (next list) more) →
          Sourced marks (listWorkloads workload ns >>= next) known := by
      intro workload known next continues
      refine Program.Informed.call trivial fun answer more _ _ => ?_
      cases answer with
      | error error => trivial
      | ok list => exact continues list more
    refine lists .deployment fun list more => ?_
    refine (sourced_initWorkloads .deployment ns list).bind fun _ more _ _ => ?_
    refine lists .statefulSet fun list more => ?_
    exact (sourced_initWorkloads .statefulSet ns list).bind fun _ more _ _ => ih

theorem sourced_initController : Sourced marks Init.initController known := by
  refine Program.Informed.call trivial fun answer more _ _ => ?_
  cases answer with
  | error error => trivial
  | ok namespaces => exact sourced_initNamespaces namespaces

end Requests

namespace Job

def AdmitsPod (job : Job) : Prop :=
  ∃ pod, job = .podAdmission pod

/-- Every job writes only revisions that it has been answered. -/
theorem sourced (job : Job) : Sourced job.AdmitsPod job.program ∅ := by
  cases job with
  | admission workload order sent => cases workload <;> exact sourced_createPatch _ order sent
  | reconcile kind ns name => exact (sourced_reconcile ns name).bind fun _ _ _ _ => trivial
  | start => exact sourced_initController.bind fun _ _ _ _ => trivial
  | podAdmission pod =>
    have yes : (Job.podAdmission pod).AdmitsPod = True := eq_true ⟨pod, rfl⟩
    rw [yes]
    exact (sourced_configValidation pod).bind fun _ _ _ _ => trivial

end Job

/-- A Secret's revision holds none of the annotations that belong to the controller; none
that the controller makes does. -/
def Clean (revision : Revision kind) : Prop :=
  revision.spec.untracked = revision.spec

theorem untracked_of_absent {annotations : GoMap String}
    (absent : ∀ key ∈ trackingKeys, annotations.lookup key = none) : untracked annotations = annotations := by
  have gone : ∀ keys : List String, (∀ key ∈ keys, annotations.lookup key = none) →
      keys.foldl GoMap.delete annotations = annotations := by
    intro keys absent
    induction keys with
    | nil => rfl
    | cons key rest ih =>
      rw [List.foldl_cons, GoMap.delete_of_lookup (absent key List.mem_cons_self)]
      exact ih fun other member => absent other (List.mem_cons_of_mem _ member)
  exact gone trackingKeys absent

theorem clean_newRevision (written : Nat) (object : Object kind) (version : String) :
    Clean (stamp written (newRevision object version)) := by
  cases kind with
  | configMap => rfl
  | secret =>
    have absent : ∀ key ∈ trackingKeys,
        (untracked object.annotations).omitEmpty.lookup key = none := by
      intro key member
      rw [GoMap.lookup_omitEmpty, lookup_untracked, if_pos member]
    have same := untracked_of_absent absent
    simp only [Clean, stamp, newRevision, newSpec, Spec.stored, Spec.untracked, same]
    rfl

/-- The pod webhook leaves a clean revision as it is where the name is there already. -/
theorem keptSpec_of_marked {cs : Revision .secret} (clean : Clean cs)
    (marked : cs.spec.secretAnnotations.lookup "customConfigMap-name" = some cs.name) :
    PodWebhook.keptSpec cs = cs.spec := by
  have same : PodWebhook.keptSpec cs = cs.spec.untracked := by
    simp only [PodWebhook.keptSpec, GoMap.put_of_lookup marked]
    rfl
  exact same.trans clean

structure KeepsSpecs (before after : Cluster) : Prop where
  later : ∀ kind, (before.revisions kind).Later (after.revisions kind)
  kept : ∀ kind, ∀ revision ∈ before.revisions kind, ∃ next ∈ after.revisions kind,
    key next = key revision ∧ next.spec = revision.spec
  clean : (∀ kind, ∀ revision ∈ before.revisions kind, Clean revision) →
    ∀ kind, ∀ revision ∈ after.revisions kind, Clean revision

namespace KeepsSpecs

theorem of_same {before after : Cluster} (same : after.revisions = before.revisions) :
    KeepsSpecs before after := by
  refine ⟨fun kind => same ▸ .refl _, fun kind revision member => ?_, fun clean => same ▸ clean⟩
  exact ⟨revision, same ▸ member, rfl, rfl⟩

theorem refl (cluster : Cluster) : KeepsSpecs cluster cluster := of_same rfl

theorem trans {first second third : Cluster} (earlier : KeepsSpecs first second)
    (later : KeepsSpecs second third) : KeepsSpecs first third where
  later kind := (earlier.later kind).trans (later.later kind)
  kept kind revision member := by
    obtain ⟨middle, present, same, spec⟩ := earlier.kept kind revision member
    obtain ⟨next, stands, again, specAgain⟩ := later.kept kind middle present
    exact ⟨next, stands, again.trans same, specAgain.trans spec⟩
  clean := later.clean ∘ earlier.clean

theorem of_written {before : Cluster} {sent answer : Revision kind} {table : Table (Revision kind)}
    (written : (before.revisions kind).Written sent answer table)
    (same : ∀ entry ∈ before.revisions kind, key entry = key sent → answer.spec = entry.spec)
    (clean : (∀ entry ∈ before.revisions kind, Clean entry) → Clean answer) :
    KeepsSpecs before (before.withRevisions kind table) where
  later other := by
    by_cases own : other = kind
    · subst own
      simpa using written.later
    · simpa [Cluster.withRevisions, Function.update_of_ne own] using Table.Later.refl _
  kept other revision member := by
    by_cases own : other = kind
    · subst own
      rw [Cluster.withRevisions_revisions]
      by_cases keys : key revision = key sent
      · exact ⟨answer, written.mem, written.key_eq.trans keys.symm, same revision member keys⟩
      · exact ⟨revision, written.mem_of_ne member keys, rfl, rfl⟩
    · refine ⟨revision, ?_, rfl, rfl⟩
      simpa [Cluster.withRevisions, Function.update_of_ne own] using member
  clean all other revision member := by
    by_cases own : other = kind
    · subst own
      rw [Cluster.withRevisions_revisions] at member
      rcases (written.members revision).mp member with rfl | ⟨was, _⟩
      · exact clean (all other)
      · exact all other revision was
    · simp only [Cluster.withRevisions, Function.update_of_ne own] at member
      exact all other revision member

end KeepsSpecs

/-- A CustomSecret that an accepted call labels current already holds its own name under the
key of a ConfigMap, where the pod webhook writes it. -/
def LabelsMarked (cluster : Cluster) : Call → Prop
  | .updateRevision .secret sent => sent.Labelled "current" "true" →
      ∀ stored ∈ cluster.revisions .secret, key stored = key sent → version stored = version sent →
        stored.spec.secretAnnotations.lookup "customConfigMap-name" = some stored.name
  | _ => True

/-- A call fails, or it is served where it meets the condition. -/
def ReactsIf (meets : Cluster → Call → Prop) (cluster : Cluster) (request : Call) (after : Cluster)
    (answer : Answer request) : Prop :=
  cluster.Reacts request after answer ∧ (cluster.serve request = (after, answer) → meets cluster request)

/-- Jobs of every kind, whose calls may fail. Everything but the revisions may also change
on its own. -/
def writing (jobs : Nat → Job) (meets : Cluster → Call → Prop) :
    System Cluster Call Answer ApiError (List PatchOperation) Nat where
  react party := ReactsIf fun cluster request => (jobs party).AdmitsPod → meets cluster request
  environment before after := after.revisions = before.revisions
  starts party program := program = (jobs party).program

def AllClean (cluster : Cluster) : Prop :=
  ∀ kind, ∀ revision ∈ cluster.revisions kind, Clean revision

def ReadClean (fact : AnyRevision) (cluster : Cluster) : Prop :=
  (cluster.revisions fact.1).Seen fact.2 ∧ Clean fact.2

theorem mem_of_answered {before after : Cluster} {request : Call} {answer : Answer request}
    (reacts : before.Reacts request after answer) {fact : AnyRevision} (told : fact ∈ answered request answer) :
    fact.2 ∈ after.revisions fact.1 := by
  have failed : ∀ {β : Type} {error : ApiError} {result : Except ApiError β} {value : β},
      some (Except.error error) = some result → result ≠ .ok value := by
    intro β error result value same
    cases same
    nofun
  cases request with
  | getRevision kind ns name =>
    obtain ⟨revision, rfl, rfl⟩ := told
    rcases reacts with served | ⟨_, _, error⟩
    · obtain ⟨rfl, ⟨_, refused⟩ | ⟨found, member, _, same⟩⟩ := Cluster.getRevision_cases served
      · cases refused
      · cases same
        exact member
    · exact absurd rfl (failed error)
  | listRevisions kind ns labels =>
    obtain ⟨revisions, rfl, revision, member, rfl⟩ := told
    rcases reacts with served | ⟨_, _, error⟩
    · obtain ⟨rfl, same⟩ := Cluster.listRevisions_cases served
      cases same
      exact (Table.mem_select.mp member).1
    · exact absurd rfl (failed error)
  | createRevision kind sent =>
    obtain ⟨revision, rfl, rfl⟩ := told
    rcases reacts with served | ⟨_, _, error⟩
    · rcases Cluster.createRevision_cases served with ⟨_, _, _, refused⟩ | ⟨stored, table, accepted, rfl, same⟩
      · cases refused
      · cases same
        simpa using (Table.written_of_create accepted).mem
    · exact absurd rfl (failed error)
  | updateRevision kind sent =>
    obtain ⟨revision, rfl, rfl⟩ := told
    rcases reacts with served | ⟨_, _, error⟩
    · rcases Cluster.updateRevision_cases served with ⟨_, _, _, refused⟩ | ⟨stored, table, accepted, rfl, same⟩
      · cases refused
      · cases same
        simpa using (Table.written_of_update accepted).2.mem
    · exact absurd rfl (failed error)
  | _ => exact told.elim

section Steps

variable {marks : Prop} {known : Set AnyRevision} {before after : Cluster}

theorem spec_of_derives {source sent answer : Revision kind} {table : Table (Revision kind)}
    (read : ReadClean ⟨kind, source⟩ before) (derives : Derives marks source sent)
    (marked : marks → LabelsMarked before (.updateRevision kind sent))
    (updated : (before.revisions kind).update sent = .ok (answer, table)) :
    source ∈ before.revisions kind ∧ answer.spec = source.spec := by
  obtain ⟨⟨entry, member, keys, versions⟩, written⟩ := Table.written_of_update updated
  have same : entry = source :=
    read.1.same member (keys.trans derives.key_eq) (versions.trans derives.version_eq)
  subst same
  refine ⟨member, ?_⟩
  have sentSpec : sent.spec = entry.spec := by
    rcases derives.spec with kept | cleared | ⟨own, labelled, copied⟩
    · exact kept
    · exact cleared.trans read.2
    · cases kind with
      | configMap => exact copied
      | secret =>
        have name := marked own labelled entry member keys versions
        exact copied.trans (keptSpec_of_marked read.2 name)
  have stored : answer.spec = sent.spec.stored := congrArg Revision.spec written.answered
  rw [stored, sentSpec]
  exact Revision.stored_spec member

theorem keepsSpecs_of_grounded {request : Call} {answer : Answer request}
    (read : ∀ fact ∈ known, ReadClean fact before) (grounded : Grounded marks known request)
    (reacts : ReactsIf (fun cluster request => marks → LabelsMarked cluster request) before request after
      answer) : KeepsSpecs before after := by
  obtain ⟨served | ⟨rfl, _⟩, met⟩ := reacts
  swap
  · exact .refl after
  have marked := met served
  have spares : request.SparesRevisions → KeepsSpecs before after := by
    intro spares
    have same : (before.serve request).1.revisions = before.revisions := Cluster.serve_revisions request spares
    rw [served] at same
    exact .of_same same
  cases request with
  | createRevision kind sent =>
    obtain ⟨object, version, rfl⟩ := grounded
    rcases Cluster.createRevision_cases served with ⟨rfl, _⟩ | ⟨stored, table, accepted, rfl, _⟩
    · exact .refl after
    · have written := Table.written_of_create accepted
      refine .of_written written (fun entry member same => ?_) fun _ => ?_
      · exact absurd same (Table.free_of_create accepted entry member)
      · exact written.answered ▸ clean_newRevision _ object version
  | updateRevision kind sent =>
    obtain ⟨source, member, derives⟩ := grounded
    rcases Cluster.updateRevision_cases served with ⟨rfl, _⟩ | ⟨stored, table, accepted, rfl, _⟩
    · exact .refl after
    · obtain ⟨present, spec⟩ := spec_of_derives (read _ member) derives marked accepted
      refine .of_written (Table.written_of_update accepted).2 (fun entry was same => ?_) fun _ => ?_
      · rw [Table.unique was present (same.trans derives.key_eq)]
        exact spec
      · rw [Clean, spec]
        exact (read _ member).2
  | deleteRevision => exact grounded.elim
  | _ => exact spares trivial

end Steps

/-- What every job relies on and keeps. -/
def immutability (jobs : Nat → Job) : (writing jobs LabelsMarked).Outline where
  rely _ := KeepsSpecs
  guarantee _ before _ after := KeepsSpecs before after
  ready _ := AllClean
  post _ after _ := AllClean after
  reflexive _ := .refl
  transitive _ := .trans
  environment _ _ _ same := .of_same same
  others _ _ _ _ keeps := keeps
  stable _ _ _ keeps := keeps.clean
  safe := by
    rintro party program rfl world clean
    refine (jobs party).sourced.safe ReadClean ?_ ?_ ?_ clean
      (fun fact member => absurd member (Set.notMem_empty fact))
    · exact fun keeps => keeps.clean
    · exact fun keeps _ read => ⟨read.1.later (keeps.later _), read.2⟩
    · intro known before request after answer clean read grounded reacts
      have keeps := keepsSpecs_of_grounded read grounded reacts
      refine ⟨keeps, keeps.clean clean, ?_⟩
      rintro fact (member | told)
      · exact ⟨(read fact member).1.later (keeps.later _), (read fact member).2⟩
      · have stored := mem_of_answered reacts.1 told
        exact ⟨.of_mem stored, keeps.clean clean fact.1 fact.2 stored⟩
  settles _ _ _ clean := clean

/-- Along every run whose pod admissions label only marked CustomSecrets current, every
revision keeps the spec with which it was created. -/
theorem specs_kept {start : Cluster} (clean : AllClean start) {jobs : Nat → Job}
    {first pool : Pool Cluster Call Answer ApiError (List PatchOperation) Nat}
    (earlier : (writing jobs LabelsMarked).Reaches (System.idle start) first)
    (run : (writing jobs LabelsMarked).Reaches first pool) {revision : Revision kind}
    (member : revision ∈ first.world.revisions kind) :
    ∃ next ∈ pool.world.revisions kind, key next = key revision ∧ next.spec = revision.spec := by
  have begins : (immutability jobs).Holds (System.idle start) := fun _ => clean
  have holds := System.Outline.reaches begins earlier
  have keeps : KeepsSpecs first.world pool.world :=
    System.Outline.moves KeepsSpecs.refl KeepsSpecs.trans .of_same id holds run
  exact keeps.kept kind revision member

namespace Sample

/-- The Secret whose name stands in the selector of the pod webhook. -/
def multiEnvSecret : Object .secret where
  ns := "shop"
  name := "config-multi-env-files"
  annotations := (GoMap.make ∅).put "currentCustomSecretVersion" "bbbbb"
  resourceVersion := 1
  content := (⟨(GoMap.make ∅).put "password" [2], .nil, "Opaque"⟩ : SecretContent)

/-- A revision of it, with an annotation of the Secret's own. -/
def multiEnvCS (version : String) (password : UInt8) (labels : List String) (written : Nat) :
    Revision .secret where
  ns := "shop"
  name := "config-multi-env-files-" ++ version
  labels := labels.foldr (fun label map => map.put label "true")
    ((GoMap.make ∅).put "name" "config-multi-env-files")
  annotations := (GoMap.make ∅).put "customSecretVersion" version
  resourceVersion := written
  spec := (⟨"config-multi-env-files", (GoMap.make ∅).put "password" [password], "Opaque",
    (GoMap.make ∅).put "team" "shop"⟩ : CustomSecretSpec)

def multiEnvSecrets : Cluster :=
  (synced.withObjects .secret ⟨[multiEnvSecret], 1, by decide, by decide, by decide⟩).withRevisions .secret
    ⟨[multiEnvCS "aaaaa" 1 [] 1, multiEnvCS "bbbbb" 2 ["current", "latest"] 2], 2,
      by decide, by decide, by decide⟩

/-- A pod whose template pins the older revision. -/
def podPinningSecret : Pod where
  ns := "shop"
  name := "web-1"
  annotations := ((GoMap.make ∅).put "config-sync-controller" "configurator").put
    "cs-config-multi-env-files" "aaaaa"
  spec := ⟨[⟨none, some "config-multi-env-files"⟩], [], []⟩

theorem clean_multiEnvSecrets : AllClean multiEnvSecrets := by
  intro kind revision member
  cases kind with
  | configMap => rfl
  | secret =>
    have own : untracked ((GoMap.make ∅).put "team" "shop") = (GoMap.make ∅).put "team" "shop" :=
      untracked_of_absent (by decide)
    rcases List.mem_cons.mp member with rfl | member
    · simp only [Clean, multiEnvCS, Spec.untracked, own]
      rfl
    · obtain rfl := List.mem_singleton.mp member
      simp only [Clean, multiEnvCS, Spec.untracked, own]
      rfl

/-- The admission of the pod writes the name of the revision into its annotations. -/
theorem multiEnvCS_changed : ∃ pool,
    (writing (fun _ => .podAdmission podPinningSecret) fun _ _ => True).Reaches
      (System.idle multiEnvSecrets) pool ∧ AllClean multiEnvSecrets ∧
    multiEnvCS "aaaaa" 1 [] 1 ∈ multiEnvSecrets.revisions .secret ∧
    ∀ next ∈ pool.world.revisions .secret, key next = key (multiEnvCS "aaaaa" 1 [] 1) →
      next.spec ≠ (multiEnvCS "aaaaa" 1 [] 1).spec := by
  have started : (writing (fun _ => .podAdmission podPinningSecret) fun _ _ => True).Reaches
      (System.idle multiEnvSecrets) _ :=
    System.Reaches.started .refl 0 (Job.podAdmission podPinningSecret).program rfl rfl
  have run := started.calls 0 (fun _ _ => ⟨Or.inl rfl, fun _ _ => trivial⟩) 6 rfl
  refine ⟨_, run, clean_multiEnvSecrets, List.mem_cons_self, fun next member same unchanged => ?_⟩
  have written : stamp 4 { multiEnvCS "aaaaa" 1 ["current"] 1 with
      spec := PodWebhook.keptSpec (multiEnvCS "aaaaa" 1 [] 1) } ∈
        (((Job.podAdmission podPinningSecret).program.after Cluster.serve 6 multiEnvSecrets).1.revisions
          .secret) := List.mem_cons_self
  obtain rfl := Table.unique member written same
  have names := congrArg (fun spec : CustomSecretSpec =>
    spec.secretAnnotations.lookup "customConfigMap-name") unchanged
  exact absurd names (by decide)

/-- The older revision once it holds its own name. -/
def markedCS : Revision .secret :=
  { multiEnvCS "aaaaa" 1 [] 1 with
    spec := (⟨"config-multi-env-files", (GoMap.make ∅).put "password" [1], "Opaque",
      (GoMap.make ∅).put "customConfigMap-name" "config-multi-env-files-aaaaa"⟩ : CustomSecretSpec) }

def markedSecrets : Cluster :=
  multiEnvSecrets.withRevisions .secret ⟨[markedCS, multiEnvCS "bbbbb" 2 ["current", "latest"] 2], 2,
    by decide, by decide, by decide⟩

theorem clean_markedSecrets : AllClean markedSecrets := by
  intro kind revision member
  cases kind with
  | configMap => rfl
  | secret =>
    have own : untracked ((GoMap.make ∅).put "customConfigMap-name" "config-multi-env-files-aaaaa") =
        (GoMap.make ∅).put "customConfigMap-name" "config-multi-env-files-aaaaa" :=
      untracked_of_absent (by decide)
    rcases List.mem_cons.mp member with rfl | member
    · simp only [Clean, markedCS, Spec.untracked, own]
      rfl
    · exact clean_multiEnvSecrets .secret revision (List.mem_cons_of_mem _ member)

/-- The admission of the pod labels the CustomSecret current and leaves its spec as it was. -/
theorem markedCS_kept : ∃ next ∈ ((Job.podAdmission podPinningSecret).program.after Cluster.serve 6
      markedSecrets).1.revisions .secret,
    key next = ("shop", "config-multi-env-files-aaaaa") ∧ next.spec = markedCS.spec := by
  have met : (Job.podAdmission podPinningSecret).program.Meets Cluster.serve LabelsMarked 6 markedSecrets := by
    refine ⟨trivial, trivial, trivial, trivial, fun labelled => ?_, fun _ stored member same _ => ?_, trivial⟩
    · exact absurd labelled (by decide)
    · obtain rfl := Table.unique member (List.mem_cons_self : markedCS ∈ _) same
      rfl
  have serves : ∀ world request, LabelsMarked world request →
      (writing (fun _ => .podAdmission podPinningSecret) LabelsMarked).react 0 world request
        (world.serve request).1 (world.serve request).2 :=
    fun _ _ meets => ⟨Or.inl rfl, fun _ _ => meets⟩
  have started : (writing (fun _ => .podAdmission podPinningSecret) LabelsMarked).Reaches
      (System.idle markedSecrets) _ :=
    System.Reaches.started .refl 0 (Job.podAdmission podPinningSecret).program rfl rfl
  have run := started.after 0 serves 6 rfl met
  exact specs_kept clean_markedSecrets .refl run (List.mem_cons_self : markedCS ∈ _)

end Sample

end Configurator
