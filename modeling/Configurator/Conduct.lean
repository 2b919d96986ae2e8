import Configurator.Library.Interference
import Configurator.Reactions
import Configurator.Reconciler

namespace Configurator

variable {kind : Kind}

/-- How a reconcile behaves while it only reads and writes revisions. `keeps` holds
throughout, and `held` of every revision that it has been answered. -/
structure Conduct (kind : Kind) (rules : Rules Cluster Call Answer) (keeps : Cluster → Prop)
    (held : Revision kind → Prop) : Prop where
  reflexive : ∀ world, rules.rely world world
  stable : ∀ {before after}, rules.rely before after → keeps before → keeps after
  seeds : ∀ {before after : Cluster} {draws : Draws}, keeps before →
    rules.react before .seedRandom after draws →
      rules.guarantee before .seedRandom after ∧ keeps after
  gets : ∀ {before after : Cluster} {ns name : String} {answer : Except ApiError (Revision kind)},
    keeps before → rules.react before (.getRevision kind ns name) after answer →
      rules.guarantee before (.getRevision kind ns name) after ∧ keeps after ∧
        ∀ revision, answer = .ok revision → held revision
  lists : ∀ {before after : Cluster} {ns : String} {labels : List (String × String)}
    {answer : Except ApiError (List (Revision kind))},
    keeps before → rules.react before (.listRevisions kind ns labels) after answer →
      rules.guarantee before (.listRevisions kind ns labels) after ∧ keeps after ∧
        ∀ revisions, answer = .ok revisions → ∀ revision ∈ revisions, held revision
  writes : ∀ {before after : Cluster} {sent : Revision kind} {answer : Except ApiError (Revision kind)},
    held sent → keeps before → rules.react before (.updateRevision kind sent) after answer →
      rules.guarantee before (.updateRevision kind sent) after ∧ keeps after ∧
        ∀ stored, answer = .ok stored → held stored
  unlabels : ∀ {revision : Revision kind} {label : String}, label ≠ "name" → held revision →
    held (revision.unlabel label)
  labels : ∀ {revision labelled : Revision kind} {label : String}, label ≠ "name" →
    revision.label? label = some labelled → held revision → held labelled
  untracks : ∀ {revision : Revision kind}, held revision →
    held { revision with spec := revision.spec.untracked }

/-- A revision of a new version may be created, and what follows a creation is safe. -/
def SafeCreation (rules : Rules Cluster Call Answer) (keeps final : Cluster → Prop)
    (object : Object kind) : Prop :=
  ∀ (before after : Cluster) (draws : Draws) (answer : Except ApiError (Revision kind)), keeps before →
    rules.react before (.createRevision kind (newRevision object (randomSequence draws 5))) after answer →
      rules.guarantee before (.createRevision kind (newRevision object (randomSequence draws 5))) after ∧
        (∀ error, answer = .error error → keeps after) ∧
        ∀ created, answer = .ok created →
          (publish object created (randomSequence draws 5)).Safe rules (fun after _ => final after) after

/-- The content of a revision may be copied back. -/
def SafeCopy (rules : Rules Cluster Call Answer) (keeps : Cluster → Prop) (held : Revision kind → Prop)
    (object : Object kind) : Prop :=
  ∀ (before after : Cluster) (revision : Revision kind) (restored : Object kind)
    (answer : Except ApiError (Object kind)), held revision → restore? object revision = some restored →
      keeps before → rules.react before (.updateObject kind restored) after answer →
        rules.guarantee before (.updateObject kind restored) after ∧ keeps after

/-- The function has not returned. -/
def Outcome.Aborts {Err α : Type} (outcome : Outcome Err α) : Prop :=
  ∀ value, outcome ≠ .returned value

namespace Conduct

variable {rules : Rules Cluster Call Answer} {keeps : Cluster → Prop} {held : Revision kind → Prop}
  {cluster : Cluster} {α : Type} {post : Cluster → Outcome ApiError α → Prop}

/-- Where the answers do not matter it is enough that these calls are harmless. -/
theorem of_relabels (reflexive : ∀ world, rules.rely world world)
    (stable : ∀ {before after}, rules.rely before after → keeps before → keeps after)
    (kept : ∀ before request after answer, request.Relabels → keeps before →
      rules.react before request after answer → rules.guarantee before request after ∧ keeps after) :
    Conduct kind rules keeps fun _ => True where
  reflexive := reflexive
  stable := stable
  seeds holds reacts := kept _ .seedRandom _ _ trivial holds reacts
  gets holds reacts :=
    have harmless := kept _ (.getRevision kind _ _) _ _ trivial holds reacts
    ⟨harmless.1, harmless.2, fun _ _ => trivial⟩
  lists holds reacts :=
    have harmless := kept _ (.listRevisions kind _ _) _ _ trivial holds reacts
    ⟨harmless.1, harmless.2, fun _ _ _ _ => trivial⟩
  writes _ holds reacts :=
    have harmless := kept _ (.updateRevision kind _) _ _ trivial holds reacts
    ⟨harmless.1, harmless.2, fun _ _ => trivial⟩
  unlabels _ _ := trivial
  labels _ _ _ := trivial
  untracks _ := trivial

section Parts

variable (conduct : Conduct kind rules keeps held)
  (aborts : ∀ world outcome, outcome.Aborts → keeps world → post world outcome)
include conduct aborts

theorem safe_fail {error : ApiError} (kept : keeps cluster) :
    (Program.fail error : Client α).Safe rules post cluster :=
  fun later moves => aborts later _ nofun (conduct.stable moves kept)

theorem safe_panic (kept : keeps cluster) : (Program.panic : Client α).Safe rules post cluster :=
  fun later moves => aborts later _ nofun (conduct.stable moves kept)

theorem safe_write {sent : Revision kind} {next : Revision kind → Client α} (kept : keeps cluster)
    (sound : held sent) (continues : ∀ stored world, held stored → keeps world →
      (next stored).Safe rules post world) :
    (updateRevision sent >>= next).Safe rules post cluster := by
  refine Program.Safe.call keeps conduct.stable kept ?_
  intro before after answer holds reacts
  obtain ⟨guaranteed, still, answered⟩ := conduct.writes sound holds reacts
  refine ⟨guaranteed, ?_⟩
  cases answer with
  | error error => exact conduct.safe_fail aborts still
  | ok stored => exact continues stored after (answered stored rfl) still

theorem safe_label {revision : Revision kind} {label : String} {next : Revision kind → Client α}
    (other : label ≠ "name") (kept : keeps cluster) (sound : held revision)
    (continues : ∀ stored world, held stored → keeps world → (next stored).Safe rules post world) :
    (Program.orPanic (revision.label? label) >>= fun labelled => updateRevision labelled >>= next).Safe
      rules post cluster := by
  cases labelled : revision.label? label with
  | none => exact conduct.safe_panic aborts kept
  | some entry => exact conduct.safe_write aborts kept (conduct.labels other labelled sound) continues

end Parts

/-- What the label loop leaves behind. -/
def Stripped (keeps : Cluster → Prop) (held : Revision kind → Prop) (cluster : Cluster)
    (outcome : Outcome ApiError (Option (List (Revision kind)))) : Prop :=
  keeps cluster ∧ ∀ latest, outcome = .returned (some latest) → ∀ revision ∈ latest, held revision

/-- The loop ends with revisions that it has been answered. -/
theorem safe_stripLatest (conduct : Conduct kind rules keeps held) {object : Object kind}
    {current : Revision kind} (sound : held current) (rounds : Nat) {before : List (Revision kind)}
    (sounds : ∀ revision ∈ before, held revision) (kept : keeps cluster) :
    (stripLatest object current rounds before).Safe rules (Stripped keeps held) cluster := by
  have returns : ∀ {world : Cluster} {latest : List (Revision kind)}, keeps world →
      (∀ revision ∈ latest, held revision) →
        (Program.ret (some latest) : Client _).Safe rules (Stripped keeps held) world := by
    intro world latest kept sounds later moves
    refine ⟨conduct.stable moves kept, fun other returned => ?_⟩
    obtain rfl : latest = other := by simpa using returned
    exact sounds
  have aborts : ∀ world (outcome : Outcome ApiError (Option (List (Revision kind)))),
      outcome.Aborts → keeps world → Stripped keeps held world outcome :=
    fun world outcome aborts kept => ⟨kept, fun latest returned => absurd returned (aborts _)⟩
  induction rounds generalizing before cluster with
  | zero => exact returns kept sounds
  | succ rounds ih =>
    refine Program.Safe.request keeps conduct.stable kept ?_
    intro listing listed items holds reacts
    obtain ⟨guaranteed, still, answered⟩ := conduct.lists holds reacts
    refine ⟨guaranteed, ?_⟩
    have found : ∀ revision ∈ itemsAfter before items, held revision := by
      cases items with
      | error error => exact sounds
      | ok revisions => exact answered revisions rfl
    revert found
    cases itemsAfter before items with
    | nil => exact fun _ => conduct.safe_panic aborts still
    | cons first others =>
      intro found
      have stripped : held (first.unlabel "latest") :=
        conduct.unlabels (by decide) (found first List.mem_cons_self)
      have rest : ∀ revision ∈ others, held revision :=
        fun revision member => found revision (List.mem_cons_of_mem _ member)
      refine Program.Safe.request keeps conduct.stable still ?_
      intro writing written answer holds reacts
      obtain ⟨guaranteed, still, answered⟩ := conduct.writes stripped holds reacts
      refine ⟨guaranteed, ?_⟩
      cases answer with
      | ok stored => exact returns still (List.forall_mem_cons.mpr ⟨answered stored rfl, rest⟩)
      | error error =>
        dsimp only
        split
        · exact ih (List.forall_mem_cons.mpr ⟨stripped, rest⟩) still
        · refine conduct.safe_label aborts (by decide) still sound fun _ world _ kept => ?_
          exact fun later moves => ⟨conduct.stable moves kept, nofun⟩

section Whole

variable {final : Cluster → Prop} {object : Object kind} (conduct : Conduct kind rules keeps held)
  (implies : ∀ world, keeps world → final world)
include conduct implies

theorem safe_ret {value : α} (kept : keeps cluster) :
    (Program.ret value : Client α).Safe rules (fun after _ => final after) cluster :=
  fun later moves => implies later (conduct.stable moves kept)

theorem safe_revert {current : Revision kind} {latest : List (Revision kind)} {error : ApiError}
    (kept : keeps cluster) (sound : held current) (sounds : ∀ revision ∈ latest, held revision) :
    (revert current latest error).Safe rules (fun after _ => final after) cluster := by
  have aborts : ∀ world (outcome : Outcome ApiError Unit), outcome.Aborts → keeps world → final world :=
    fun world _ _ => implies world
  refine conduct.safe_label aborts (by decide) kept sound fun _ world _ still => ?_
  cases latest with
  | nil => exact conduct.safe_panic aborts still
  | cons first others =>
    refine conduct.safe_label aborts (by decide) still (sounds first List.mem_cons_self) ?_
    exact fun _ world _ rest => conduct.safe_fail aborts rest

/-- `CreateNewCCM` and `CreateNewCS`, given what the creation of a revision leads to. -/
theorem safe_createNew (creates : SafeCreation rules keeps final object)
    {previous : Revision kind} (kept : keeps cluster) (sound : held previous) :
    (createNew object previous).Safe rules (fun after _ => final after) cluster := by
  have aborts : ∀ world (outcome : Outcome ApiError Unit), outcome.Aborts → keeps world → final world :=
    fun world _ _ => implies world
  refine conduct.safe_write aborts kept (conduct.unlabels (by decide) sound) ?_
  intro current world soundCurrent kept
  refine Program.Safe.bind (conduct.safe_stripLatest soundCurrent 6 nofun kept) ?_
    (fun _ world stripped => implies world stripped.1) (fun world stripped => implies world stripped.1)
    conduct.reflexive
  rintro (_ | latest) world ⟨kept, sounds⟩
  · exact conduct.safe_ret implies kept
  · refine Program.Safe.call keeps conduct.stable kept ?_
    intro seeding seeded draws holds reacts
    obtain ⟨guaranteed, still⟩ := conduct.seeds holds reacts
    refine ⟨guaranteed, ?_⟩
    refine Program.Safe.request keeps conduct.stable still ?_
    intro creating created answer holds reacts
    obtain ⟨guaranteed, refused, accepted⟩ := creates _ _ _ _ holds reacts
    refine ⟨guaranteed, ?_⟩
    cases answer with
    | error error => exact conduct.safe_revert implies (refused error rfl) soundCurrent (sounds latest rfl)
    | ok revision => exact accepted revision rfl

variable (copies : SafeCopy rules keeps held object)
include copies

theorem safe_copyRevision {next : Unit → Client α} (kept : keeps cluster)
    (continues : ∀ world, keeps world → (next ()).Safe rules (fun after _ => final after) world) :
    (copyRevision object >>= next).Safe rules (fun after _ => final after) cluster := by
  have aborts : ∀ world (outcome : Outcome ApiError α), outcome.Aborts → keeps world → final world :=
    fun world _ _ => implies world
  have parts : copyRevision object >>= next =
      getRevision kind object.ns (object.name ++ "-" ++ object.currentVersion) >>= fun revision =>
        Program.orPanic (restore? object revision) >>= fun restored => updateObject restored >>= fun _ =>
          Program.orPanic (relabel? revision) >>= fun labelled =>
            updateRevision labelled >>= fun _ => next () := by
    simp only [copyRevision, bind_assoc, pure_bind]
  rw [parts]
  refine Program.Safe.call keeps conduct.stable kept ?_
  intro getting got answer holds reacts
  obtain ⟨guaranteed, still, answered⟩ := conduct.gets holds reacts
  refine ⟨guaranteed, ?_⟩
  cases answer with
  | error error => exact conduct.safe_fail aborts still
  | ok revision =>
    have sound := answered revision rfl
    show (Program.orPanic (restore? object revision) >>= _).Safe rules _ got
    cases copied : restore? object revision with
    | none => exact conduct.safe_panic aborts still
    | some restored =>
      refine Program.Safe.call keeps conduct.stable still ?_
      intro writing written answer holds reacts
      obtain ⟨guaranteed, still⟩ := copies _ _ _ _ _ sound copied holds reacts
      refine ⟨guaranteed, ?_⟩
      cases answer with
      | error error => exact conduct.safe_fail aborts still
      | ok stored =>
        show (Program.orPanic (relabel? revision) >>= _).Safe rules _ written
        cases relabelled : relabel? revision with
        | none => exact conduct.safe_panic aborts still
        | some labelled =>
          simp only [relabel?, Option.bind_eq_bind, Option.bind_eq_some_iff, Option.pure_def,
            Option.some.injEq] at relabelled
          obtain ⟨current, put, rfl⟩ := relabelled
          have soundCurrent := conduct.untracks (conduct.labels (by decide) put sound)
          exact conduct.safe_write aborts still soundCurrent fun _ world _ kept => continues world kept

theorem safe_synchronize (creates : SafeCreation rules keeps final object) (kept : keeps cluster) :
    (synchronize object).Safe rules (fun after _ => final after) cluster := by
  have aborts : ∀ world (outcome : Outcome ApiError Unit), outcome.Aborts → keeps world → final world :=
    fun world _ _ => implies world
  refine Program.Safe.call keeps conduct.stable kept ?_
  intro listing listed answer holds reacts
  obtain ⟨guaranteed, still, answered⟩ := conduct.lists holds reacts
  refine ⟨guaranteed, ?_⟩
  rcases answer with error | _ | ⟨current, _ | ⟨second, others⟩⟩
  · exact conduct.safe_fail aborts still
  · exact conduct.safe_ret implies still
  · have sound : held current := answered [current] rfl current (List.mem_singleton_self _)
    show Program.Safe rules _ (if current.customVersion ≠ object.currentVersion then _ else _) listed
    split
    · refine conduct.safe_copyRevision implies copies still fun world kept => ?_
      refine conduct.safe_write aborts kept (conduct.unlabels (by decide) sound) ?_
      exact fun _ _ _ rest => conduct.safe_ret implies rest
    · split
      · exact conduct.safe_createNew implies creates still sound
      · exact conduct.safe_ret implies still
  · exact conduct.safe_ret implies still

end Whole

end Conduct

end Configurator
