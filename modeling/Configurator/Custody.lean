import Configurator.Immutability
import Configurator.Library.Diary
import Configurator.Retention
import Configurator.Service

namespace Configurator

open Resource

variable {kind : Kind} {α : Type}

/-- What a program may touch: objects by kind and key, whole namespaces, the versions that
it may put in force by itself, and whether it may delete revisions. -/
structure Scope where
  objects : Kind → ObjectKey → Prop
  namespaces : String → Prop
  pins : String → Prop
  deletes : Prop

/-- The scope reaches into the namespace. -/
def Scope.Reaches (scope : Scope) (ns : String) : Prop :=
  scope.namespaces ns ∨ ∃ kind name, scope.objects kind (ns, name)

/-- The calls that a program has made, each with its answer. -/
abbrev Known := Set (Exchange Call Answer)

/-- The object was read under a key of the scope. -/
def Holds (scope : Scope) (known : Known) (object : Object kind) : Prop :=
  ∃ ns name, scope.objects kind (ns, name) ∧ ⟨.getObject kind ns name, .ok object⟩ ∈ known

/-- The revision was in an answer. -/
def Recalls (known : Known) (revision : Revision kind) : Prop :=
  ∃ exchange ∈ known, (⟨kind, revision⟩ : AnyRevision) ∈ answered exchange.1 exchange.2

/-- The workload was in an answer about the namespace. -/
inductive Fetched (known : Known) (workload : WorkloadKind) (ns : String) (stored : Workload) : Prop where
  | got {name : String} (exchange : ⟨.getWorkload workload ns name, .ok stored⟩ ∈ known)
  | listed {found : List Workload} (exchange : ⟨.listWorkloads workload ns, .ok found⟩ ∈ known)
      (member : stored ∈ found)

/-- The namespace is in the scope, or an object in it was answered. -/
inductive Within (scope : Scope) (known : Known) (ns : String) : Prop where
  | given (covers : scope.namespaces ns)
  | held {kind : Kind} {object : Object kind} (holds : Holds scope known object) (same : object.ns = ns)
  | written {kind : Kind} {sent updated : Object kind}
      (exchange : ⟨.updateObject kind sent, .ok updated⟩ ∈ known) (same : updated.ns = ns)

/-- The ways in which an object is changed between being read and being sent. -/
inductive Object.Turns (scope : Scope) (known : Known) (held : Object kind) : Object kind → Prop where
  | published {version : String} {created : Revision kind}
      (exchange : ⟨.createRevision kind (newRevision held version), .ok created⟩ ∈ known) :
      Turns scope known held (held.annotate version created.name)
  | adopted {listed : List (Revision kind)} {current : Revision kind}
      (exchange : ⟨.listRevisions kind held.ns [("name", held.name), ("current", "true")], .ok listed⟩ ∈ known)
      (member : current ∈ listed) :
      Turns scope known held (held.annotate current.customVersion current.name)
  | registered (workload : WorkloadKind) (owner : String) : Turns scope known held (register workload owner held)
  | introduced {version : String} {created : Revision kind} (workload : WorkloadKind) (owner : String)
      (exchange : ⟨.createRevision kind (newRevision held version), .ok created⟩ ∈ known) :
      Turns scope known held (Init.introduce workload owner version created.name held)
  | restored {revision : Revision kind} {sent : Object kind}
      (exchange : ⟨.getRevision kind held.ns (held.name ++ "-" ++ held.currentVersion), .ok revision⟩ ∈ known)
      (copied : restore? held revision = some sent) : Turns scope known held sent
  | rolledBack {pinned : String} {annotations : GoMap String} {revision : Revision kind} {sent : Object kind}
      (pins : scope.pins pinned) (assigned : held.annotations.assign? kind.versionKey pinned = some annotations)
      (exchange : ⟨.getRevision kind held.ns (held.name ++ "-" ++ pinned), .ok revision⟩ ∈ known)
      (copied : PodWebhook.restore? { held with annotations := annotations } revision = some sent) :
      Turns scope known held sent

/-- A revision as it is sent back: with other labels `current` and `latest`, and with what
becomes of a Secret's annotations where its content has been copied. -/
structure Revision.Turns (source sent : Revision kind) : Prop where
  key_eq : key sent = key source
  version_eq : version sent = version source
  annotations : sent.annotations = source.annotations
  labels : ∀ label, sent.labels.lookup label = source.labels.lookup label ∨
    (label = "current" ∨ label = "latest") ∧
      (sent.labels.lookup label = none ∨ sent.labels.lookup label = some "true")
  spec : sent.spec = source.spec ∨ sent.spec = source.spec.untracked ∨ sent.spec = PodWebhook.keptSpec source

/-- The object has been written with the version: it was read under this key, or is answered with it. -/
inductive Enforced (known : Known) (kind : Kind) (ns name version : String) : Prop where
  | read {object sent stored : Object kind} (got : ⟨.getObject kind ns name, .ok object⟩ ∈ known)
      (written : ⟨.updateObject kind sent, .ok stored⟩ ∈ known) (same : key sent = key object)
      (names : sent.currentVersion = version)
  | answered {sent stored : Object kind} (written : ⟨.updateObject kind sent, .ok stored⟩ ∈ known)
      (called : key stored = (ns, name)) (names : sent.currentVersion = version)

/-- The entry is the pin of an object of the namespace, with a version that the object has been written with. -/
def Pins (known : Known) (ns label value : String) : Prop :=
  ∃ (kind : Kind) (name : String), label = kind.tag ++ name ∧ Enforced known kind ns name value

/-- A workload of the namespace as it is sent back: with such versions under the keys of pins. -/
structure Workload.Turns (known : Known) (ns : String) (source sent : Workload) : Prop where
  key_eq : key sent = key source
  version_eq : version sent = version source
  selector : sent.selector = source.selector
  spec : sent.template.spec = source.template.spec
  annotations : ∀ label, sent.template.annotations.lookup label = source.template.annotations.lookup label ∨
    ∃ value, sent.template.annotations.lookup label = some value ∧ Pins known ns label value

/-- The calls that are backed by what is known. -/
def Entitled (scope : Scope) (known : Known) : Call → Prop
  | .getObject kind ns name => scope.objects kind (ns, name)
  | .updateObject kind sent => ∃ held : Object kind, Holds scope known held ∧ held.Turns scope known sent
  | .getRevision _ ns _ => Within scope known ns
  | .listRevisions _ ns _ => Within scope known ns
  | .createRevision kind sent => ∃ (held : Object kind) (draws : Draws), Holds scope known held ∧
      ⟨.seedRandom, draws⟩ ∈ known ∧ sent = newRevision held (randomSequence draws 5)
  | .updateRevision kind sent => ∃ source : Revision kind, Recalls known source ∧ source.Turns sent
  | .deleteRevision kind ns name => scope.deletes ∧ ∃ labels revisions, ∃ revision ∈ revisions,
      ⟨.listRevisions kind ns labels, .ok revisions⟩ ∈ known ∧ name = revision.name
  | .getWorkload _ ns _ => Within scope known ns
  | .listWorkloads _ ns => Within scope known ns
  | .updateWorkload workload sent => ∃ ns source, Fetched known workload ns source ∧ source.Turns known ns sent
  | .listHistories _ ns _ => Within scope known ns
  | .listNamespaces => True
  | .seedRandom => True

section Mono

variable {scope : Scope} {known more : Known} {object held sent : Object kind} {revision : Revision kind}

theorem Holds.mono (within : known ⊆ more) (holds : Holds scope known object) : Holds scope more object := by
  obtain ⟨ns, name, covers, member⟩ := holds
  exact ⟨ns, name, covers, within member⟩

theorem Recalls.mono (within : known ⊆ more) (recalls : Recalls known revision) : Recalls more revision := by
  obtain ⟨exchange, member, told⟩ := recalls
  exact ⟨exchange, within member, told⟩

theorem Fetched.mono {workload : WorkloadKind} {ns : String} {stored : Workload} (within : known ⊆ more)
    (fetched : Fetched known workload ns stored) : Fetched more workload ns stored := by
  cases fetched with
  | got exchange => exact .got (within exchange)
  | listed exchange member => exact .listed (within exchange) member

theorem Within.mono {ns : String} (within : known ⊆ more) (inside : Within scope known ns) :
    Within scope more ns := by
  cases inside with
  | given covers => exact .given covers
  | held holds same => exact .held (holds.mono within) same
  | written exchange same => exact .written (within exchange) same

theorem Object.Turns.mono (within : known ⊆ more) (turns : held.Turns scope known sent) :
    held.Turns scope more sent := by
  cases turns with
  | published exchange => exact .published (within exchange)
  | adopted exchange member => exact .adopted (within exchange) member
  | registered workload owner => exact .registered workload owner
  | introduced workload owner exchange => exact .introduced workload owner (within exchange)
  | restored exchange copied => exact .restored (within exchange) copied
  | rolledBack pins assigned exchange copied => exact .rolledBack pins assigned (within exchange) copied

theorem Enforced.mono {ns name version : String} (within : known ⊆ more)
    (enforced : Enforced known kind ns name version) : Enforced more kind ns name version := by
  cases enforced with
  | read got written same names => exact .read (within got) (within written) same names
  | answered written called names => exact .answered (within written) called names

theorem Pins.mono {ns label value : String} (within : known ⊆ more) (pins : Pins known ns label value) :
    Pins more ns label value := by
  obtain ⟨kind, name, same, enforced⟩ := pins
  exact ⟨kind, name, same, enforced.mono within⟩

theorem Workload.Turns.mono {ns : String} {source sent : Workload} (within : known ⊆ more)
    (turns : source.Turns known ns sent) : source.Turns more ns sent where
  key_eq := turns.key_eq
  version_eq := turns.version_eq
  selector := turns.selector
  spec := turns.spec
  annotations label := by
    rcases turns.annotations label with same | ⟨value, found, pins⟩
    · exact Or.inl same
    · exact Or.inr ⟨value, found, pins.mono within⟩

theorem Entitled.mono {request : Call} (within : known ⊆ more) (entitled : Entitled scope known request) :
    Entitled scope more request := by
  cases request with
  | updateObject kind sent =>
    obtain ⟨held, holds, turns⟩ := entitled
    exact ⟨held, holds.mono within, turns.mono within⟩
  | createRevision kind sent =>
    obtain ⟨held, draws, holds, seeded, same⟩ := entitled
    exact ⟨held, draws, holds.mono within, within seeded, same⟩
  | updateRevision kind sent =>
    obtain ⟨source, recalls, turns⟩ := entitled
    exact ⟨source, recalls.mono within, turns⟩
  | deleteRevision kind ns name =>
    obtain ⟨deletes, labels, revisions, revision, member, exchange, same⟩ := entitled
    exact ⟨deletes, labels, revisions, revision, member, within exchange, same⟩
  | updateWorkload workload sent =>
    obtain ⟨ns, source, fetched, turns⟩ := entitled
    exact ⟨ns, source, fetched.mono within, turns.mono within⟩
  | getRevision | listRevisions | getWorkload | listWorkloads | listHistories => exact Within.mono within entitled
  | getObject | listNamespaces | seedRandom => exact entitled

end Mono

abbrev custody (scope : Scope) : Evidence Call Answer (Exchange Call Answer) :=
  transcript (Entitled scope) Entitled.mono

/-- Every call of the program is backed by its earlier exchanges. -/
abbrev Custodial (scope : Scope) (program : Client α) (known : Known) : Prop :=
  program.Informed (custody scope) (fun _ _ => True) known

/-- The revision is a known one, changed in the ways in which revisions are. -/
def Traces (known : Known) (revision : Revision kind) : Prop :=
  ∃ source, Recalls known source ∧ source.Turns revision

section Revisions

variable {known more : Known} {revision source sent : Revision kind} {label : String}

theorem Revision.Turns.refl (revision : Revision kind) : revision.Turns revision :=
  ⟨rfl, rfl, rfl, fun _ => Or.inl rfl, Or.inl rfl⟩

theorem Revision.Turns.unlabel (turns : source.Turns sent) (moving : label = "current" ∨ label = "latest") :
    source.Turns (sent.unlabel label) where
  key_eq := turns.key_eq
  version_eq := turns.version_eq
  annotations := turns.annotations
  labels other := by
    by_cases same : other = label
    · subst same
      exact Or.inr ⟨moving, Or.inl (by simp [Revision.unlabel])⟩
    · simpa [Revision.unlabel, same] using turns.labels other
  spec := turns.spec

theorem Revision.Turns.putLabel (turns : source.Turns sent) (moving : label = "current" ∨ label = "latest")
    {labelled : Revision kind} (put : sent.label? label = some labelled) : source.Turns labelled := by
  rw [Revision.label?_eq_some put]
  refine ⟨turns.key_eq, turns.version_eq, turns.annotations, fun other => ?_, turns.spec⟩
  by_cases same : other = label
  · subst same
    exact Or.inr ⟨moving, Or.inr (by simp)⟩
  · simpa [same] using turns.labels other

theorem turns_relabel (put : relabel? source = some sent) : source.Turns sent := by
  rw [relabel?_eq_some put]
  refine ⟨rfl, rfl, rfl, fun other => ?_, Or.inr (Or.inl rfl)⟩
  by_cases same : other = "current"
  · exact Or.inr ⟨Or.inl same, Or.inr (by simp [same])⟩
  · exact Or.inl (by simp [same])

theorem turns_podRelabel (put : PodWebhook.relabel? source = some sent) : source.Turns sent := by
  rw [PodWebhook.relabel?_eq_some put]
  refine ⟨rfl, rfl, rfl, fun other => ?_, Or.inr (Or.inr rfl)⟩
  by_cases same : other = "current"
  · exact Or.inr ⟨Or.inl same, Or.inr (by simp [same])⟩
  · exact Or.inl (by simp [same])

theorem Recalls.traces (recalls : Recalls known revision) : Traces known revision :=
  ⟨revision, recalls, .refl revision⟩

theorem Traces.mono (within : known ⊆ more) (traces : Traces known revision) : Traces more revision := by
  obtain ⟨source, recalls, turns⟩ := traces
  exact ⟨source, recalls.mono within, turns⟩

theorem Traces.unlabel (traces : Traces known revision) (moving : label = "current" ∨ label = "latest") :
    Traces known (revision.unlabel label) := by
  obtain ⟨source, recalls, turns⟩ := traces
  exact ⟨source, recalls, turns.unlabel moving⟩

theorem Traces.putLabel (traces : Traces known revision) (moving : label = "current" ∨ label = "latest")
    {labelled : Revision kind} (put : revision.label? label = some labelled) : Traces known labelled := by
  obtain ⟨source, recalls, turns⟩ := traces
  exact ⟨source, recalls, turns.putLabel moving put⟩

end Revisions

section Calls

variable {scope : Scope} {known : Known} {sent : Revision kind} {object : Object kind} {ns name : String}

theorem custody_updateRevision (traces : Traces known sent) :
    (updateRevision sent).Informed (custody scope) (fun more stored => Recalls more stored) known :=
  ⟨traces, fun _ => .ofExcept fun stored accepted =>
    ⟨_, Or.inr rfl, stored, accepted, rfl⟩⟩

theorem custody_getRevision (within : Within scope known ns) :
    (getRevision kind ns name).Informed (custody scope)
      (fun more revision => ⟨.getRevision kind ns name, .ok revision⟩ ∈ more) known :=
  ⟨within, fun _ => .ofExcept fun _ found => Or.inr (found ▸ rfl)⟩

theorem custody_listRevisions {labels : List (String × String)} (within : Within scope known ns) :
    (listRevisions kind ns labels).Informed (custody scope)
      (fun more revisions => ⟨.listRevisions kind ns labels, .ok revisions⟩ ∈ more) known :=
  ⟨within, fun _ => .ofExcept fun _ found => Or.inr (found ▸ rfl)⟩

theorem custody_updateObject {held : Object kind} (holds : Holds scope known held)
    (turns : held.Turns scope known object) :
    (updateObject object).Informed (custody scope)
      (fun more updated => ⟨.updateObject kind object, .ok updated⟩ ∈ more) known :=
  ⟨⟨held, holds, turns⟩, fun _ => .ofExcept fun _ accepted => Or.inr (accepted ▸ rfl)⟩

theorem custody_getObject (covers : scope.objects kind (ns, name)) :
    (getObject kind ns name).Informed (custody scope) (fun more object => Holds scope more object) known :=
  ⟨covers, fun _ => .ofExcept fun _ found => ⟨ns, name, covers, Or.inr (found ▸ rfl)⟩⟩

theorem custody_getWorkload {workload : WorkloadKind} (within : Within scope known ns) :
    (getWorkload workload ns name).Informed (custody scope)
      (fun more stored => Fetched more workload ns stored) known :=
  ⟨within, fun answer => .ofExcept fun stored found => by
    subst found
    exact .got (Or.inr rfl)⟩

theorem custody_label {label : String} {next : Revision kind → Client α} (traces : Traces known sent)
    (moving : label = "current" ∨ label = "latest")
    (continues : ∀ stored more, known ⊆ more → Recalls more stored → Custodial scope (next stored) more) :
    Custodial scope (Program.orPanic (sent.label? label) >>= fun labelled =>
      updateRevision labelled >>= next) known := by
  cases put : sent.label? label with
  | none => trivial
  | some labelled => exact (custody_updateRevision (traces.putLabel moving put)).bind continues

theorem custody_put {label : String} (traces : Traces known sent)
    (moving : label = "current" ∨ label = "latest") :
    (do let labelled ← Program.orPanic (sent.label? label); let _ ← updateRevision labelled; pure none :
      Client (Option (List (Revision kind)))).Informed (custody scope)
        (fun more result => ∀ latest, result = some latest → ∀ revision ∈ latest, Traces more revision)
        known := by
  cases put : sent.label? label with
  | none => trivial
  | some labelled =>
    refine (custody_updateRevision (traces.putLabel moving put)).bind fun _ _ _ _ latest returned => ?_
    cases returned

end Calls

section Reconcile

variable {scope : Scope} {known : Known} {object : Object kind} {current : Revision kind}

theorem custody_revert {latest : List (Revision kind)} (error : ApiError) (traces : Traces known current)
    (listed : ∀ revision ∈ latest, Traces known revision) :
    Custodial scope (revert current latest error) known := by
  refine custody_label traces (Or.inl rfl) fun _ more within _ => ?_
  cases latest with
  | nil => trivial
  | cons first others =>
    exact custody_label ((listed first List.mem_cons_self).mono within) (Or.inr rfl) fun _ _ _ _ => trivial

theorem custody_stripLatest (holds : Holds scope known object) (traces : Traces known current) (rounds : Nat)
    {before : List (Revision kind)} (listed : ∀ revision ∈ before, Traces known revision) :
    (stripLatest object current rounds before).Informed (custody scope)
      (fun more result => ∀ latest, result = some latest → ∀ revision ∈ latest, Traces more revision)
      known := by
  induction rounds generalizing before known with
  | zero =>
    intro latest returned
    obtain rfl := Option.some.inj returned
    exact listed
  | succ rounds ih =>
    refine Program.Informed.call (.held holds rfl) fun items more within told => ?_
    have found : ∀ revision ∈ itemsAfter before items, Traces more revision := by
      intro revision member
      cases items with
      | error error => exact (listed revision member).mono within
      | ok revisions => exact Recalls.traces ⟨_, told rfl, revisions, rfl, revision, member, rfl⟩
    dsimp only [Program.bind]
    revert found
    cases itemsAfter before items with
    | nil => exact fun _ => trivial
    | cons first others =>
      intro found
      have stripped : Traces more (first.unlabel "latest") :=
        (found first List.mem_cons_self).unlabel (Or.inr rfl)
      have rest : ∀ revision ∈ others, Traces more revision :=
        fun revision member => found revision (List.mem_cons_of_mem _ member)
      refine Program.Informed.call stripped fun answer last wider heard => ?_
      cases answer with
      | ok stored =>
        intro latest returned
        obtain rfl := Option.some.inj returned
        have own : Traces last stored := Recalls.traces ⟨_, heard rfl, stored, rfl, rfl⟩
        exact List.forall_mem_cons.mpr ⟨own, fun revision member => (rest revision member).mono wider⟩
      | error error =>
        have carried : ∀ revision ∈ first.unlabel "latest" :: others, Traces last revision :=
          List.forall_mem_cons.mpr
            ⟨stripped.mono wider, fun revision member => (rest revision member).mono wider⟩
        have still : Traces last current := traces.mono (within.trans wider)
        show Program.Informed _ _ (if contains error.text retryText then _ else _) last
        split
        · exact ih (holds.mono (within.trans wider)) still carried
        · exact custody_put still (Or.inl rfl)

/-- The roll-out writes the version under the pin of the object into the workload it has read. -/
theorem custody_rollOut {updated : Object kind} {sent : Object kind} (workload : WorkloadKind) (version : String)
    (exchange : ⟨.updateObject kind sent, .ok updated⟩ ∈ known) (names : sent.currentVersion = version) :
    Custodial scope (rollOut workload updated version) known := by
  unfold rollOut
  split_ifs
  · split
    · trivial
    · refine (custody_getWorkload (.written exchange rfl)).bind fun stored more within fetched => ?_
      cases assigned : stored.template.annotations.assign? (kind.tag ++ updated.name) version with
      | none => trivial
      | some annotations =>
        have turns : stored.Turns more updated.ns
            { stored with template := { stored.template with annotations := annotations } } := by
          refine ⟨rfl, rfl, rfl, rfl, fun label => ?_⟩
          rw [GoMap.eq_put_of_assign? assigned, GoMap.lookup_put]
          by_cases pin : label = kind.tag ++ updated.name
          · rw [if_pos pin]
            exact Or.inr ⟨version, rfl, kind, updated.name, pin, .answered (within exchange) rfl names⟩
          · exact Or.inl (if_neg pin)
        exact ⟨⟨updated.ns, stored, fetched, turns⟩, fun answer => by cases answer <;> trivial⟩
    · trivial
  · trivial
  · trivial

theorem custody_publish {created : Revision kind} {version : String} (holds : Holds scope known object)
    (exchange : ⟨.createRevision kind (newRevision object version), .ok created⟩ ∈ known) :
    Custodial scope (publish object created version) known := by
  unfold publish
  cases assigned : object.annotate? version created.name with
  | none => trivial
  | some annotated =>
    obtain ⟨_, rfl⟩ := Object.annotate?_eq_some assigned
    refine (custody_updateObject holds (.published exchange)).bind fun updated more _ told => ?_
    have names := Object.currentVersion_annotate object version created.name
    refine (custody_rollOut .deployment version told names).bind fun _ last within _ => ?_
    exact custody_rollOut .statefulSet version (within told) names

/-- `CreateNewCCM` and `CreateNewCS`. -/
theorem custody_createNew (holds : Holds scope known object) (traces : Traces known current) :
    Custodial scope (createNew object current) known := by
  refine (custody_updateRevision (traces.unlabel (Or.inl rfl))).bind fun stored more within own => ?_
  refine (custody_stripLatest (holds.mono within) own.traces 6 fun _ member => absurd member List.not_mem_nil).bind
    fun result later wider stripped => ?_
  cases result with
  | none => trivial
  | some latest =>
    refine Program.Informed.call trivial fun draws seeded first told => ?_
    have still := holds.mono ((within.trans wider).trans first)
    refine Program.Informed.call ⟨object, draws, still, told rfl, rfl⟩ fun answer last second heard => ?_
    cases answer with
    | ok created => exact custody_publish (still.mono second) (heard rfl)
    | error error =>
      refine custody_revert error (own.traces.mono (wider.trans (first.trans second))) fun revision member => ?_
      exact (stripped latest rfl revision member).mono (first.trans second)

/-- `CopyCCMToCM` and `CopyCSToSecret` of the reconcilers. -/
theorem custody_copyRevision (holds : Holds scope known object) :
    Custodial scope (copyRevision object) known := by
  refine (custody_getRevision (.held holds rfl)).bind fun revision more within found => ?_
  cases copied : restore? object revision with
  | none => trivial
  | some restored =>
    refine (custody_updateObject (holds.mono within) (.restored found copied)).bind fun _ later wider _ => ?_
    cases labelled : relabel? revision with
    | none => trivial
    | some sent =>
      refine (custody_updateRevision ⟨revision, ?_, turns_relabel labelled⟩).bind fun _ _ _ _ => trivial
      exact ⟨_, wider found, revision, rfl, rfl⟩

theorem custody_synchronize (holds : Holds scope known object) : Custodial scope (synchronize object) known := by
  refine (custody_listRevisions (.held holds rfl)).bind fun listed more within found => ?_
  rcases listed with _ | ⟨current, _ | ⟨second, others⟩⟩
  · trivial
  · have traces : Traces more current := Recalls.traces ⟨_, found, _, rfl, current, List.mem_singleton_self _, rfl⟩
    dsimp only
    split_ifs
    · refine (custody_copyRevision (holds.mono within)).bind fun _ later wider _ => ?_
      exact (custody_updateRevision ((traces.mono wider).unlabel (Or.inl rfl))).bind fun _ _ _ _ => trivial
    · exact custody_createNew (holds.mono within) traces
    · trivial
  · trivial

theorem custody_adoptOrCreate (holds : Holds scope known object) :
    Custodial scope (adoptOrCreate object) known := by
  refine (custody_listRevisions (.held holds rfl)).bind fun listed more within found => ?_
  have still := holds.mono within
  rcases listed with _ | ⟨current, _ | ⟨second, others⟩⟩
  · refine Program.Informed.call trivial fun draws seeded first told => ?_
    refine Program.Informed.call ⟨object, draws, still.mono first, told rfl, rfl⟩ fun answer last second heard => ?_
    cases answer with
    | error error => trivial
    | ok created =>
      exact (custody_updateObject ((still.mono first).mono second) (.published (heard rfl))).bind
        fun _ _ _ _ => trivial
  · dsimp only
    split
    · exact custody_createNew still (Recalls.traces ⟨_, found, _, rfl, current, List.mem_singleton_self _, rfl⟩)
    · exact (custody_updateObject still (.adopted found (List.mem_singleton_self _))).bind fun _ _ _ _ => trivial
  · trivial

theorem custody_reconcile {ns name : String} (covers : scope.objects kind (ns, name)) :
    Custodial scope (reconcile kind ns name) known := by
  refine Program.Informed.call covers fun answer more _ told => ?_
  cases answer with
  | error error => trivial
  | ok object =>
    have holds : Holds scope more object := ⟨ns, name, covers, told rfl⟩
    show Custodial scope (if object.currentVersion = "" then _ else _) _
    split
    · exact custody_adoptOrCreate holds
    · exact custody_synchronize holds

end Reconcile

section Requests

variable {scope : Scope} {known : Known} {object : Object kind}

theorem custody_pin {workload : WorkloadKind} {sent : Workload} {name : String}
    (covers : scope.objects kind (sent.ns, name)) : Custodial scope (pin workload sent kind name) known := by
  refine (custody_getObject covers).bind fun object more _ holds => ?_
  exact (custody_updateObject holds (.registered workload sent.name)).bind fun _ _ _ _ => trivial

theorem custody_newAnnotations {workload : WorkloadKind} {sent : Workload} (references : List (Kind × String))
    (covers : ∀ kind name, (kind, name) ∈ references → scope.objects kind (sent.ns, name)) (added : GoMap String) :
    Custodial scope (newAnnotations workload sent references added) known := by
  induction references generalizing known added with
  | nil => trivial
  | cons reference rest ih =>
    obtain ⟨kind, name⟩ := reference
    have others : ∀ kind name, (kind, name) ∈ rest → scope.objects kind (sent.ns, name) :=
      fun kind name member => covers kind name (List.mem_cons_of_mem _ member)
    unfold newAnnotations
    split
    · exact (custody_pin (covers kind name List.mem_cons_self)).bind fun _ _ _ _ => ih others _
    · exact ih others added

/-- `createDeploymentPatch` and `createStatefulsetPatch`. -/
theorem custody_createPatch {workload : WorkloadKind} {order : Iteration} {sent : Workload}
    (covers : ∀ kind name, (kind, name) ∈ sent.template.spec.references → scope.objects kind (sent.ns, name)) :
    Custodial scope (createPatch workload order sent) known :=
  (custody_newAnnotations _ covers _).bind fun _ _ _ _ => trivial

/-- `CopyCCMToCM` and `CopyCSToSecret` of the pod webhook, for an object that has been made to
name the pinned version. -/
theorem custody_podCopy {pinned : String} {annotations : GoMap String} (holds : Holds scope known object)
    (pins : scope.pins pinned) (assigned : object.annotations.assign? kind.versionKey pinned = some annotations) :
    Custodial scope (PodWebhook.copyRevision { object with annotations := annotations }) known := by
  have names : ({ object with annotations := annotations } : Object kind).currentVersion = pinned := by
    rw [GoMap.eq_put_of_assign? assigned]
    simp [Object.currentVersion]
  refine (custody_getRevision (.held holds rfl)).bind fun revision more within found => ?_
  rw [names] at found
  cases copied : PodWebhook.restore? { object with annotations := annotations } revision with
  | none => trivial
  | some restored =>
    have still := holds.mono within
    refine (custody_updateObject still (.rolledBack pins assigned found copied)).bind fun updated later wider _ => ?_
    refine Program.Informed.call (.held (still.mono wider) rfl) fun listed last further told => ?_
    rcases listed with error | _ | ⟨current, others⟩
    · trivial
    · trivial
    · have traces : Traces last current :=
        Recalls.traces ⟨_, told rfl, _, rfl, current, List.mem_cons_self, rfl⟩
      show Custodial scope (updateRevision (current.unlabel "current") >>= _) last
      refine (custody_updateRevision (traces.unlabel (Or.inl rfl))).bind fun _ final beyond _ => ?_
      cases labelled : PodWebhook.relabel? revision with
      | none => trivial
      | some sent =>
        refine (custody_updateRevision ⟨revision, ?_, turns_podRelabel labelled⟩).bind fun _ _ _ _ => trivial
        exact ⟨_, beyond (further (wider found)), revision, rfl, rfl⟩

theorem custody_checkReference {pod : Pod} {name : String} (holds : Holds scope known object)
    (pins : scope.pins (pod.annotations.index (kind.tag ++ name))) :
    Custodial scope (checkReference pod name object) known := by
  have matching : Custodial scope (matchVersion pod name object) known := by
    unfold matchVersion
    dsimp only
    split
    · trivial
    · cases assigned : object.annotations.assign? kind.versionKey (pod.annotations.index (kind.tag ++ name)) with
      | none => trivial
      | some annotations => exact custody_podCopy holds pins assigned
  refine matching.attempt.bind fun answer _ _ _ => ?_
  cases answer <;> trivial

theorem custody_validateReferences {pod : Pod} (pins : ∀ label, scope.pins (pod.annotations.index label))
    (references : List (Kind × String))
    (covers : ∀ kind name, (kind, name) ∈ references → scope.objects kind (pod.ns, name)) :
    Custodial scope (validateReferences pod references) known := by
  induction references generalizing known with
  | nil => trivial
  | cons reference rest ih =>
    obtain ⟨kind, name⟩ := reference
    have own := covers kind name List.mem_cons_self
    have one : Custodial scope (validateReference pod kind name) known := by
      refine Program.Informed.call own fun answer more _ told => ?_
      cases answer with
      | ok object => exact custody_checkReference ⟨pod.ns, name, own, told rfl⟩ (pins _)
      | error error =>
        show Custodial scope (if pod.tolerated then _ else _) more
        split
        · have silent : (checkReference pod name (Object.empty kind)).Emits fun _ => False :=
            emits_checkReference_empty pod name
          exact .of_emits silent fun _ _ => False.elim
        · trivial
    refine one.bind fun message more _ _ => ?_
    cases message with
    | none => exact ih fun kind name member => covers kind name (List.mem_cons_of_mem _ member)
    | some text => trivial

theorem custody_configValidation {pod : Pod} (pins : ∀ label, scope.pins (pod.annotations.index label))
    (covers : ∀ kind name, (kind, name) ∈ pod.spec.references → scope.objects kind (pod.ns, name)) :
    Custodial scope (configValidation pod) known := by
  unfold configValidation
  split
  · exact custody_validateReferences pins _ covers
  · trivial

end Requests

section Start

variable {scope : Scope} {known : Known} {workload : WorkloadKind} {ns name owner : String}

theorem custody_version (all : ∀ kind key, scope.objects kind key) :
    (Init.version? workload ns owner kind name).Informed (custody scope)
      (fun more result => ∀ version, result = some version → Enforced more kind ns name version) known := by
  refine Program.Informed.call (all kind (ns, name)) fun answer more _ got => ?_
  rcases answer with error | object
  · trivial
  have holds : Holds scope more object := ⟨ns, name, all _ _, got rfl⟩
  show Program.Informed _ _ (if object.currentVersion = "" then _ else _) more
  split
  · refine Program.Informed.call trivial fun draws seeded first told => ?_
    refine Program.Informed.call ⟨object, draws, holds.mono first, told rfl, rfl⟩ fun answer last second heard => ?_
    cases answer with
    | error error => trivial
    | ok created =>
      refine (custody_updateObject ((holds.mono first).mono second) (.introduced workload owner (heard rfl))).bind
        fun updated final third written version returned => ?_
      obtain rfl := Option.some.inj returned
      exact .read (third (second (first (got rfl)))) written (Object.key_introduce _ _ _ _ _)
        (Object.currentVersion_introduce _ _ _ _ _)
  · exact fun version returned => absurd returned (Option.some_ne_none _).symm

/-- The map holds nothing but pins. -/
def OnlyPins (known : Known) (ns : String) (made : GoMap String) : Prop :=
  ∀ label value, made.lookup label = some value → Pins known ns label value

theorem custody_annotations {stored : Workload} (all : ∀ kind key, scope.objects kind key)
    (references : List (Kind × String)) {made : GoMap String} (only : OnlyPins known ns made) :
    (Init.annotations workload ns stored references made).Informed (custody scope)
      (fun more made => OnlyPins more ns made ∧ known ⊆ more) known := by
  have from_ : ∀ before : Known, before ⊆ known → (Init.annotations workload ns stored references made).Informed
      (custody scope) (fun more made => OnlyPins more ns made ∧ before ⊆ more) known := by
    induction references generalizing known made with
    | nil => exact fun before within => ⟨only, within⟩
    | cons reference rest ih =>
      intro before within
      obtain ⟨kind, name⟩ := reference
      unfold Init.annotations
      split
      · refine (custody_version all).bind fun version more wider enforced => ?_
        have still : OnlyPins more ns made := fun label value found => (only label value found).mono wider
        cases version with
        | none => exact ih still before (within.trans wider)
        | some version =>
          refine ih (fun label value found => ?_) before (within.trans wider)
          rw [GoMap.lookup_put] at found
          split at found
          · rename_i pin
            obtain rfl := Option.some.inj found
            exact ⟨kind, name, pin, enforced version rfl⟩
          · exact still label value found
      · exact ih only before within
  exact from_ known (Set.Subset.refl known)

theorem custody_initWorkload {stored : Workload} (all : ∀ kind key, scope.objects kind key)
    (fetched : Fetched known workload ns stored) : Custodial scope (Init.initWorkload workload ns stored) known := by
  have empty : OnlyPins known ns (.make ∅) := fun _ _ found => absurd found (Option.some_ne_none _).symm
  refine (custody_annotations all _ empty).bind fun made more _ post => ?_
  obtain ⟨only, within⟩ := post
  split
  · refine ⟨⟨ns, stored, fetched.mono within, rfl, rfl, rfl, rfl, fun label => ?_⟩, fun answer => by
      cases answer <;> trivial⟩
    have merged : (made.lookup label).or (stored.template.annotations.lookup label) =
          stored.template.annotations.lookup label ∨
        ∃ value, (made.lookup label).or (stored.template.annotations.lookup label) = some value ∧
          Pins more ns label value := by
      cases found : made.lookup label with
      | none => exact Or.inl rfl
      | some value => exact Or.inr ⟨value, rfl, only label value found⟩
    dsimp only
    split
    · rename_i bare
      rw [GoMap.isEmpty_iff.mp bare label, Option.or_none] at merged
      rw [GoMap.isEmpty_iff.mp bare label]
      exact merged
    · rw [GoMap.lookup_overlay]
      exact merged
  · trivial

theorem custody_initWorkloads (all : ∀ kind key, scope.objects kind key) (list : List Workload)
    (fetched : ∀ stored ∈ list, Fetched known workload ns stored) :
    Custodial scope (Init.initWorkloads workload ns list) known := by
  induction list generalizing known with
  | nil => trivial
  | cons stored rest ih =>
    refine (custody_initWorkload all (fetched stored List.mem_cons_self)).bind fun _ more within _ => ?_
    exact ih fun other member => (fetched other (List.mem_cons_of_mem _ member)).mono within

theorem custody_listWorkloads (within : Within scope known ns) :
    (listWorkloads workload ns).Informed (custody scope)
      (fun more found => ∀ stored ∈ found, Fetched more workload ns stored) known :=
  ⟨within, fun answer => .ofExcept fun found listed stored member => by
    subst listed
    exact .listed (Or.inr rfl) member⟩

theorem custody_initNamespaces (all : ∀ kind key, scope.objects kind key) (every : ∀ ns, scope.namespaces ns)
    (namespaces : List String) : Custodial scope (Init.initNamespaces namespaces) known := by
  induction namespaces generalizing known with
  | nil => trivial
  | cons ns rest ih =>
    refine (custody_listWorkloads (.given (every ns))).bind fun deployments _ _ fetched => ?_
    refine (custody_initWorkloads all deployments fetched).bind fun _ _ _ _ => ?_
    refine (custody_listWorkloads (.given (every ns))).bind fun statefulSets _ _ fetched => ?_
    exact (custody_initWorkloads all statefulSets fetched).bind fun _ _ _ _ => ih

theorem custody_initController (all : ∀ kind key, scope.objects kind key) (every : ∀ ns, scope.namespaces ns) :
    Custodial scope Init.initController known := by
  refine Program.Informed.call trivial fun answer more _ _ => ?_
  cases answer with
  | error error => trivial
  | ok namespaces => exact custody_initNamespaces all every namespaces

end Start

section Purge

variable {scope : Scope} {known : Known} {ns : String}

theorem custody_checkWorkloads {workload : WorkloadKind} {revision : Revision kind} (within : Within scope known ns)
    (list : List Workload) (check : Bool) :
    Custodial scope (Purge.checkWorkloads workload ns revision list check) known := by
  induction list generalizing known check with
  | nil => trivial
  | cons stored rest ih => exact ⟨within, fun answer => ih (within.mono Set.subset_union_left) _⟩

theorem custody_examine {revision : Revision kind} {labels : List (String × String)} {found : List (Revision kind)}
    (every : ∀ ns, scope.namespaces ns) (all : ∀ kind key, scope.objects kind key) (deletes : scope.deletes)
    (exchange : ⟨.listRevisions kind ns labels, .ok found⟩ ∈ known) (member : revision ∈ found) :
    Custodial scope (Purge.examine ns revision) known := by
  refine Program.Informed.call (.given (every ns)) fun deployments first one _ => ?_
  refine (custody_checkWorkloads (.given (every ns)) _ _).bind fun check second two _ => ?_
  refine Program.Informed.call (.given (every ns)) fun statefulSets third three _ => ?_
  refine (custody_checkWorkloads (.given (every ns)) _ _).bind fun check fourth four _ => ?_
  refine Program.Informed.call (all _ _) fun answer fifth five _ => ?_
  cases answer with
  | error error => trivial
  | ok object =>
    have known := five (four (three (two (one exchange))))
    have deleting : Entitled scope fifth (.deleteRevision kind ns revision.name) :=
      ⟨deletes, labels, found, revision, member, known, rfl⟩
    show Custodial scope (if _ then (if _ then _ else _) else _) fifth
    split_ifs
    · exact ⟨deleting, fun _ => trivial⟩
    · trivial
    · trivial

theorem custody_examineAll {labels : List (String × String)} {found : List (Revision kind)}
    (every : ∀ ns, scope.namespaces ns) (all : ∀ kind key, scope.objects kind key) (deletes : scope.deletes)
    (list : List (Revision kind)) (exchange : ⟨.listRevisions kind ns labels, .ok found⟩ ∈ known)
    (listed : ∀ revision ∈ list, revision ∈ found) : Custodial scope (Purge.examineAll ns list) known := by
  induction list generalizing known with
  | nil => trivial
  | cons revision rest ih =>
    have own := listed revision List.mem_cons_self
    refine (custody_examine every all deletes exchange own).bind fun _ more within _ => ?_
    exact ih (within exchange) fun other member => listed other (List.mem_cons_of_mem _ member)

theorem custody_purgeNamespaces (every : ∀ ns, scope.namespaces ns) (all : ∀ kind key, scope.objects kind key)
    (deletes : scope.deletes) (namespaces : List String) :
    Custodial scope (Purge.purgeNamespaces namespaces) known := by
  have examined : ∀ (kind : Kind) (ns : String) {known : Known} {next : Client Unit},
      (∀ more, Custodial scope next more) → Custodial scope
        (ask (.listRevisions kind ns []) >>= fun answer => Purge.examineAll ns (Purge.items answer) >>= fun _ => next)
        known := by
    intro kind ns known next continues
    refine Program.Informed.call (.given (every ns)) fun answer more _ told => ?_
    cases answer with
    | error error => exact continues more
    | ok found =>
      exact (custody_examineAll every all deletes found (told rfl) fun _ => id).bind fun _ last _ _ => continues last
  induction namespaces generalizing known with
  | nil => trivial
  | cons ns rest ih => exact examined .configMap ns fun _ => examined .secret ns fun _ => ih

end Purge

/-- The job that an HTTP request asks for, if its body is read and decoded. -/
def HttpRequest.job? (decoders : Decoders) (request : HttpRequest) : Option Job :=
  let body := readBody request.received
  if body = [] ∨ (decoders.review body).2.isSome then none
  else (decoders.review body).1.request.bind fun asked =>
    match request.route with
    | .deploycontroller =>
      (decoders.workload .deployment asked.object).toOption.map (.admission .deployment request.order)
    | .stscontroller =>
      (decoders.workload .statefulSet asked.object).toOption.map (.admission .statefulSet request.order)
    | .podcontroller => (decoders.pod asked.object).toOption.map .podAdmission
    | _ => none

/-- Everything that runs against the cluster: the jobs that write, the purge, and the HTTP requests
to the webhook. -/
inductive Task where
  | job (one : Job)
  | purge
  | request (decoders : Decoders) (sent : HttpRequest)

/-- What a job is about. A request touches the objects that it refers to in its own
namespace, a reconcile touches one object, the start-up job touches all. -/
def Job.scope : Job → Scope
  | .admission _ _ sent =>
    ⟨fun kind key => key.1 = sent.ns ∧ (kind, key.2) ∈ sent.template.spec.references, fun _ => False,
      fun _ => False, False⟩
  | .podAdmission pod =>
    ⟨fun kind key => key.1 = pod.ns ∧ (kind, key.2) ∈ pod.spec.references, fun _ => False,
      fun version => ∃ label, version = pod.annotations.index label, False⟩
  | .reconcile kind ns name => ⟨fun other key => other = kind ∧ key = (ns, name), fun _ => False,
      fun _ => False, False⟩
  | .start => ⟨fun _ _ => True, fun _ => True, fun _ => False, False⟩

theorem custodial_configValidation (pod : Pod) :
    Custodial (Job.podAdmission pod).scope (configValidation pod) ∅ :=
  custody_configValidation (fun label => ⟨label, rfl⟩) fun _ _ member => ⟨rfl, member⟩

theorem custodial_createPatch (workload : WorkloadKind) (order : Iteration) (sent : Workload) :
    Custodial (Job.admission workload order sent).scope (createPatch workload order sent) ∅ :=
  custody_createPatch fun _ _ member => ⟨rfl, member⟩

/-- No job makes a call that its own exchanges do not back. -/
theorem Job.custodial (one : Job) : Custodial one.scope one.program ∅ := by
  cases one with
  | admission workload order sent =>
    cases workload <;> exact custodial_createPatch _ order sent
  | reconcile kind ns name =>
    refine (custody_reconcile ?_).bind fun _ _ _ _ => trivial
    exact ⟨rfl, rfl⟩
  | start => exact (custody_initController (fun _ _ => trivial) fun _ => trivial).bind fun _ _ _ _ => trivial
  | podAdmission pod => exact (custodial_configValidation pod).bind fun _ _ _ _ => trivial

section Http

variable {scope : Scope} {known : Known} {decoders : Decoders} {ar : AdmissionReview}

theorem custody_handleReview {received : Option (Except String Bytes)}
    {answer : AdmissionReview → Client ReviewResponse} {write : AdmissionReview → ReviewResponse → AdmissionReview}
    (answers : readBody received ≠ [] → (decoders.review (readBody received)).2 = none →
      Custodial scope (answer (decoders.review (readBody received)).1) known) :
    Custodial scope (handleReview decoders received answer write) known := by
  unfold handleReview
  dsimp only
  split
  · trivial
  · rename_i body
    cases failed : (decoders.review (readBody received)).2 with
    | some message => trivial
    | none => exact (answers body failed).bind fun _ _ _ _ => trivial

theorem custody_mutateReview {workload : WorkloadKind} {order : Iteration}
    (patches : ∀ asked sent, ar.request = some asked → decoders.workload workload asked.object = .ok sent →
      Custodial scope (createPatch workload order sent) known) :
    Custodial scope (mutateReview decoders workload order ar) known := by
  unfold mutateReview
  split
  · trivial
  · rename_i asked present
    split
    · trivial
    · rename_i sent decoded
      have mutates : Custodial scope (mutate workload order sent) known := by
        refine (patches asked sent present decoded).attempt.bind fun answer _ _ _ => ?_
        cases answer <;> trivial
      exact mutates.bind fun answer _ _ _ => by cases answer <;> trivial

theorem custody_validateReview
    (validates : ∀ asked pod, ar.request = some asked → decoders.pod asked.object = .ok pod →
      Custodial scope (configValidation pod) known) : Custodial scope (validateReview decoders ar) known := by
  unfold validateReview
  split
  · trivial
  · rename_i asked present
    split
    · trivial
    · rename_i pod decoded
      exact (validates asked pod present decoded).bind fun answer _ _ _ => by cases answer <;> trivial

end Http

namespace Task

def program : Task → Client (Option HttpResponse)
  | .job one => one.program >>= fun _ => pure none
  | .purge => purgeJob >>= fun _ => pure none
  | .request decoders sent => serveHttp decoders sent >>= fun response => pure (some response)

/-- The purge is about everything, and an HTTP request about what its job is about. -/
def scope : Task → Scope
  | .job one => one.scope
  | .purge => ⟨fun _ _ => True, fun _ => True, fun _ => False, True⟩
  | .request decoders sent =>
    match sent.job? decoders with
    | some one => one.scope
    | none => ⟨fun _ _ => False, fun _ => False, fun _ => False, False⟩

theorem custodial (task : Task) : Custodial task.scope task.program ∅ := by
  cases task with
  | job one => exact one.custodial.bind fun _ _ _ _ => trivial
  | purge =>
    have purges : Custodial (scope .purge) purgeJob ∅ := by
      refine Program.Informed.call trivial fun answer more _ _ => ?_
      exact (custody_purgeNamespaces (fun _ => trivial) (fun _ _ => trivial) trivial _).bind fun _ _ _ _ => trivial
    exact purges.bind fun _ _ _ _ => trivial
  | request decoders sent =>
    obtain ⟨route, received, order⟩ := sent
    have own : ∀ one, HttpRequest.job? decoders ⟨route, received, order⟩ = some one →
        scope (.request decoders ⟨route, received, order⟩) = one.scope := by
      intro one asked
      simp only [scope, asked]
    have serves : Custodial (scope (.request decoders ⟨route, received, order⟩))
        (serveHttp decoders ⟨route, received, order⟩) ∅ := by
      cases route with
      | status | other => trivial
      | deploycontroller =>
        dsimp only [serveHttp, deployController, statefulSetController, workloadController]
        refine custody_handleReview fun body read => custody_mutateReview fun asked sent present decoded => ?_
        rw [own (.admission .deployment order sent) (by
          simp [HttpRequest.job?, body, read, present, decoded, Except.toOption])]
        exact custodial_createPatch .deployment order sent
      | stscontroller =>
        dsimp only [serveHttp, deployController, statefulSetController, workloadController]
        refine custody_handleReview fun body read => custody_mutateReview fun asked sent present decoded => ?_
        rw [own (.admission .statefulSet order sent) (by
          simp [HttpRequest.job?, body, read, present, decoded, Except.toOption])]
        exact custodial_createPatch .statefulSet order sent
      | podcontroller =>
        dsimp only [serveHttp, podConfigController]
        refine custody_handleReview fun body read => custody_validateReview fun asked pod present decoded => ?_
        rw [own (.podAdmission pod) (by
          simp [HttpRequest.job?, body, read, present, decoded, Except.toOption])]
        exact custodial_configValidation pod
    exact serves.bind fun _ _ _ _ => trivial

end Task

end Configurator
