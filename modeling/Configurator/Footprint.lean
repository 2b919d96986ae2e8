import Configurator.Origins

namespace Configurator

open Resource

variable {kind : Kind} {workload : WorkloadKind}

/-- The annotations of an object that belong to the controller and the webhook. -/
def Kind.ownKeys : Kind → List String
  | .configMap =>
    ["currentCustomConfigMapVersion", "customConfigMap-name", "updateMethod", "deployments", "statefulsets"]
  | .secret => "customConfigMap-name" :: trackingKeys

namespace Cluster

/-- Both clusters hold the same objects in these places, and the same revisions and workloads in
these namespaces. -/
structure Agrees (places : Kind → ObjectKey → Prop) (spaces : String → Prop) (before after : Cluster) : Prop where
  objects : ∀ kind, ∀ object : Object kind, places kind (key object) →
    (object ∈ after.objects kind ↔ object ∈ before.objects kind)
  revisions : ∀ kind, ∀ revision : Revision kind, spaces revision.ns →
    (revision ∈ after.revisions kind ↔ revision ∈ before.revisions kind)
  workloads : ∀ workload, ∀ stored : Workload, spaces stored.ns →
    (stored ∈ after.workloads workload ↔ stored ∈ before.workloads workload)

variable {places : Kind → ObjectKey → Prop} {spaces : String → Prop} {before after : Cluster}

theorem Agrees.refl (cluster : Cluster) : Agrees places spaces cluster cluster :=
  ⟨fun _ _ _ => Iff.rfl, fun _ _ _ => Iff.rfl, fun _ _ _ => Iff.rfl⟩

theorem Agrees.trans {first second third : Cluster} (earlier : Agrees places spaces first second)
    (later : Agrees places spaces second third) : Agrees places spaces first third :=
  ⟨fun kind object place => (later.objects kind object place).trans (earlier.objects kind object place),
    fun kind revision space => (later.revisions kind revision space).trans (earlier.revisions kind revision space),
    fun workload stored space => (later.workloads workload stored space).trans
      (earlier.workloads workload stored space)⟩

theorem mem_of_written {α κ : Type} [Resource α κ] {table next : Table α} {sent answer entry : α}
    (written : table.Written sent answer next) (other : key entry ≠ key sent) : entry ∈ next ↔ entry ∈ table := by
  rw [written.members]
  refine ⟨fun member => ?_, fun member => Or.inr ⟨member, other⟩⟩
  rcases member with rfl | ⟨was, _⟩
  · exact absurd written.key_eq other
  · exact was

theorem agrees_objects {table : Table (Object kind)}
    (same : ∀ object : Object kind, places kind (key object) → (object ∈ table ↔ object ∈ before.objects kind)) :
    Agrees places spaces before (before.withObjects kind table) where
  objects other object place := by
    by_cases own : other = kind
    · subst own
      simpa using same object place
    · simp [withObjects, Function.update_of_ne own]
  revisions _ _ _ := Iff.rfl
  workloads _ _ _ := Iff.rfl

theorem agrees_revisions {table : Table (Revision kind)}
    (same : ∀ revision : Revision kind, spaces revision.ns →
      (revision ∈ table ↔ revision ∈ before.revisions kind)) :
    Agrees places spaces before (before.withRevisions kind table) where
  objects _ _ _ := Iff.rfl
  revisions other revision space := by
    by_cases own : other = kind
    · subst own
      simpa using same revision space
    · simp [withRevisions, Function.update_of_ne own]
  workloads _ _ _ := Iff.rfl

theorem agrees_workloads {table : Table Workload}
    (same : ∀ stored : Workload, spaces stored.ns → (stored ∈ table ↔ stored ∈ before.workloads workload)) :
    Agrees places spaces before (before.withWorkloads workload table) where
  objects _ _ _ := Iff.rfl
  revisions _ _ _ := Iff.rfl
  workloads other stored space := by
    by_cases own : other = workload
    · subst own
      simpa using same stored space
    · simp [withWorkloads, Function.update_of_ne own]

/-- A move changes nothing outside its scope. -/
theorem Moves.agrees {scope : Scope} {known : Known} (moves : before.Moves scope known after)
    (apart : ∀ kind key, places kind key → ¬ scope.objects kind key)
    (away : ∀ ns, spaces ns → ¬ scope.Reaches ns) : Agrees places spaces before after := by
  cases moves with
  | rested => exact .refl before
  | seeded => exact ⟨fun _ _ _ => Iff.rfl, fun _ _ _ => Iff.rfl, fun _ _ _ => Iff.rfl⟩
  | object present covers turns written =>
    refine agrees_objects fun object place => mem_of_written written fun same => ?_
    exact apart _ _ place (same.trans turns.key_eq ▸ covers)
  | @created kind held draws created table covers exchange free written =>
    refine agrees_revisions fun revision space => mem_of_written written fun same => ?_
    have spaces : revision.ns = held.ns := congrArg Prod.fst same
    exact away _ space (Or.inr ⟨kind, held.name, spaces ▸ covers⟩)
  | @revision kind source sent updated table present covers turns written =>
    refine agrees_revisions fun revision space => mem_of_written written fun same => ?_
    have spaces : revision.ns = source.ns := congrArg Prod.fst (same.trans turns.key_eq)
    exact away _ space (spaces ▸ covers)
  | @deleted kind ns name table deletes covers later rest =>
    refine agrees_revisions fun revision space => ?_
    rw [rest]
    refine ⟨And.left, fun member => ⟨member, fun same => ?_⟩⟩
    have spaces : revision.ns = ns := congrArg Prod.fst same
    exact away _ space (spaces ▸ covers)
  | @workload kind source sent updated table present covers turns written =>
    refine agrees_workloads fun stored space => mem_of_written written fun same => ?_
    have spaces : stored.ns = source.ns := congrArg Prod.fst (same.trans turns.key_eq)
    exact away _ space (spaces ▸ covers)

end Cluster

section Confined

variable {tasks : Nat → Task} {others : Cluster → Cluster → Prop} {start : Cluster}

/-- What no task has in its scope stays as it is in every run, whatever the tasks do elsewhere. -/
theorem outside_untouched (advances : ∀ {before after}, others before after → before.Advances after)
    {places : Kind → ObjectKey → Prop} {spaces : String → Prop}
    (apart : ∀ party kind key, places kind key → ¬ (tasks party).scope.objects kind key)
    (away : ∀ party ns, spaces ns → ¬ (tasks party).scope.Reaches ns)
    (leave : ∀ {before after}, others before after → before.Agrees places spaces after)
    {pool : Pool Cluster Call Answer ApiError (Option HttpResponse) Nat}
    (run : (everyone tasks others).Reaches (System.idle start) pool) : start.Agrees places spaces pool.world := by
  obtain ⟨entries, recorded⟩ := run.recorded
  have kept := (conforms_ledger advances).kept recorded
  refine kept.invariant (.refl start) (fun changes agrees => agrees.trans (leave changes)) ?_ _ (Diary.past_now _)
  intro diary party after past moves
  exact (past _ diary.past_now).trans (moves.agrees (apart party) (away party))

namespace Sample

/-- Everything but the settings of the shop. -/
def elsewhere (kind : Kind) (place : ObjectKey) : Prop := ¬ (kind = .configMap ∧ place = ("shop", "settings"))

theorem reconciled_elsewhere : painted.Agrees elsewhere (fun ns => ns ≠ "shop") reconciled.now := by
  obtain ⟨threads, run⟩ := reconciled_reached fun before after =>
    before.Advances after ∧ before.Agrees elsewhere (fun ns => ns ≠ "shop") after
  refine outside_untouched And.left (fun _ _ _ => id) (fun _ ns other reaches => ?_) And.right run.unrecorded
  rcases reaches with impossible | ⟨kind, name, _, same⟩
  · exact impossible
  · exact other (congrArg Prod.fst same)

end Sample

end Confined

/-- A Secret's type. -/
def Content.type? : {kind : Kind} → Content kind → Option String
  | .configMap, _ => none
  | .secret, content => some content.type

/-- The annotations that stand on an object once a revision has been copied into it: a Secret
takes those of the revision. -/
def Revision.brings : {kind : Kind} → Revision kind → Object kind → GoMap String
  | .configMap, _, configMap => configMap.annotations
  | .secret, cs, _ => cs.spec.secretAnnotations

section Objects

variable {scope : Scope} {diary : Chronicle} {held sent : Object kind}

private theorem registry_own (kind : Kind) (workload : WorkloadKind) : workload.registry ∈ kind.ownKeys := by
  cases kind <;> cases workload <;> decide

theorem lookup_register (workload : WorkloadKind) (owner : String) (object : Object kind) {label : String}
    (user : label ∉ kind.ownKeys) :
    (register workload owner object).annotations.lookup label = object.annotations.lookup label := by
  have other : label ≠ workload.registry := fun same => user (same ▸ registry_own kind workload)
  dsimp only [register]
  split_ifs <;> simp [other]

theorem lookup_annotate (object : Object kind) (version name : String) {label : String} (user : label ∉ kind.ownKeys) :
    (object.annotate version name).annotations.lookup label = object.annotations.lookup label := by
  have apart : label ≠ kind.versionKey ∧ label ≠ kind.nameKey ∧ label ≠ "updateMethod" := by
    refine ⟨?_, ?_, ?_⟩ <;> rintro rfl <;> revert user <;> cases kind <;> decide
  simp [Object.annotate, apart]

theorem lookup_introduce (workload : WorkloadKind) (owner version name : String) (object : Object kind)
    {label : String} (user : label ∉ kind.ownKeys) :
    (Init.introduce workload owner version name object).annotations.lookup label =
      object.annotations.lookup label := by
  have other : label ≠ workload.registry := fun same => user (same ▸ registry_own kind workload)
  have annotated := lookup_annotate object version name user
  dsimp only [Init.introduce, Init.enlist]
  split_ifs
  · rw [GoMap.lookup_put, if_neg other]
    exact annotated
  · exact annotated
  · rw [GoMap.lookup_put, if_neg other]
    exact annotated

theorem lookup_restored {restored : Object kind} {revision : Revision kind}
    (copied : restore? held revision = some restored) {label : String} (user : label ∉ kind.ownKeys) :
    restored.annotations.lookup label = (revision.brings held).lookup label := by
  cases kind with
  | configMap =>
    simp only [restore?, Option.some.injEq] at copied
    rw [← copied]
    rfl
  | secret =>
    by_cases nil : revision.spec.secretAnnotations = .nil
    · simp [restore?_secret_nil nil] at copied
    · rw [restore?_secret nil, Option.some.injEq] at copied
      rw [← copied]
      simp only [Kind.ownKeys, trackingKeys, List.mem_cons, List.not_mem_nil, or_false, not_or] at user
      simp [secretAnnotations, Revision.brings, user]

theorem lookup_podRestored {restored : Object kind} {revision : Revision kind}
    (copied : PodWebhook.restore? held revision = some restored) {label : String} (user : label ∉ kind.ownKeys) :
    restored.annotations.lookup label = (revision.brings held).lookup label := by
  cases kind with
  | configMap =>
    by_cases made : held.annotations = .nil
    · simp [PodWebhook.restore?, made, GoMap.assign?] at copied
    · rw [PodWebhook.restore?_configMap made, Option.some.injEq] at copied
      rw [← copied]
      simp only [Kind.ownKeys, List.mem_cons, List.not_mem_nil, or_false, not_or] at user
      simp [Revision.brings, user]
  | secret =>
    by_cases nil : revision.spec.secretAnnotations = .nil
    · simp [PodWebhook.restore?_secret_nil nil] at copied
    · rw [PodWebhook.restore?_secret nil, Option.some.injEq] at copied
      rw [← copied]
      simp only [Kind.ownKeys, trackingKeys, List.mem_cons, List.not_mem_nil, or_false, not_or] at user
      simp [PodWebhook.secretAnnotations, Revision.brings, user]

theorem type_restored {restored : Object kind} {revision : Revision kind}
    (copied : restore? held revision = some restored ∨ PodWebhook.restore? held revision = some restored) :
    Content.type? restored.content = Content.type? held.content := by
  cases kind with
  | configMap => rfl
  | secret =>
    by_cases nil : revision.spec.secretAnnotations = .nil
    · rcases copied with copied | copied
      · simp [restore?_secret_nil nil] at copied
      · simp [PodWebhook.restore?_secret_nil nil] at copied
    · rcases copied with copied | copied
      · rw [restore?_secret nil, Option.some.injEq] at copied
        rw [← copied]
        rfl
      · rw [PodWebhook.restore?_secret nil, Option.some.injEq] at copied
        rw [← copied]
        rfl

/-- What a task may leave of an object: its type, and either its data with its own annotations, or
the data and annotations of one revision that was stored in its namespace. -/
structure Object.Preserves (diary : Chronicle) (old new : Object kind) : Prop where
  type : Content.type? new.content = Content.type? old.content
  users : (new.payload = old.payload ∧
      ∀ label, label ∉ kind.ownKeys → new.annotations.lookup label = old.annotations.lookup label) ∨
    ∃ past, diary.Past past ∧ ∃ revision ∈ past.revisions kind, revision.ns = old.ns ∧
      new.payload = revision.payload ∧
      ∀ label, label ∉ kind.ownKeys → new.annotations.lookup label = (revision.brings old).lookup label

theorem Object.Preserves.refl (object : Object kind) : object.Preserves diary object :=
  ⟨rfl, Or.inl ⟨rfl, fun _ _ => rfl⟩⟩

theorem Object.Turns.preserves (present : held ∈ diary.now.objects kind)
    (turns : held.Turns scope diary.truths sent) (written : Nat) : held.Preserves diary (stamp written sent) := by
  have stored : held.content.stored = held.content := Object.stored_content present
  have types : ∀ content : Content kind, Content.type? content.stored = Content.type? content := by
    intro content
    cases kind <;> rfl
  have lookups : ∀ label, (stamp written sent).annotations.lookup label = sent.annotations.lookup label :=
    fun label => GoMap.lookup_omitEmpty _ label
  have kept : sent.content = held.content →
      (∀ label, label ∉ kind.ownKeys → sent.annotations.lookup label = held.annotations.lookup label) →
      held.Preserves diary (stamp written sent) := by
    intro content annotations
    refine ⟨(types _).trans (congrArg Content.type? content), Or.inl ⟨Object.payload_stamp stored content written, ?_⟩⟩
    exact fun label user => (lookups label).trans (annotations label user)
  have copied : ∀ (object : Object kind) (revision : Revision kind), object.content = held.content →
      (restore? object revision = some sent ∨ PodWebhook.restore? object revision = some sent) →
      Chronicle.Once diary (fun cluster => cluster.revisions kind) revision → revision.ns = held.ns →
      (∀ label, label ∉ kind.ownKeys → sent.annotations.lookup label = (revision.brings held).lookup label) →
      held.Preserves diary (stamp written sent) := by
    rintro object revision content copied ⟨past, was, member, _⟩ spaces annotations
    refine ⟨(types _).trans ((type_restored copied).trans (congrArg Content.type? content)),
      Or.inr ⟨past, was, revision, member, spaces, ?_, ?_⟩⟩
    · exact Object.payload_restored (content ▸ stored) (Revision.stored_spec member) copied written
    · exact fun label user => (lookups label).trans (annotations label user)
  cases turns with
  | published | adopted => exact kept rfl fun label user => lookup_annotate held _ _ user
  | registered workload owner =>
    refine kept ?_ fun label user => lookup_register workload owner held user
    dsimp only [register]
    split_ifs <;> rfl
  | introduced workload owner =>
    refine kept ?_ fun label user => lookup_introduce workload owner _ _ held user
    dsimp only [Init.introduce, Init.enlist]
    split_ifs <;> rfl
  | @restored revision sent exchange restored =>
    obtain ⟨keys, once⟩ := exchange revision rfl
    exact copied held revision rfl (Or.inl restored) once (congrArg Prod.fst keys)
      fun label user => lookup_restored restored user
  | @rolledBack pinned annotations revision sent pins assigned exchange restored =>
    obtain ⟨keys, once⟩ := exchange revision rfl
    refine copied { held with annotations := annotations } revision rfl (Or.inr restored) once
      (congrArg Prod.fst keys) fun label user => ?_
    rw [lookup_podRestored restored user]
    cases kind with
    | secret => rfl
    | configMap =>
      have other : label ≠ Kind.versionKey .configMap := by
        rintro rfl
        exact user (by decide)
      show annotations.lookup label = held.annotations.lookup label
      rw [GoMap.eq_put_of_assign? assigned, GoMap.lookup_put, if_neg other]

end Objects

/-- What a task may leave of a workload: all but versions under pins, each of which was in force in
the namespace. -/
structure Workload.Preserves (diary : Chronicle) (old new : Workload) : Prop where
  selector : new.selector = old.selector
  spec : new.template.spec = old.template.spec
  annotations : ∀ label, new.template.annotations.lookup label = old.template.annotations.lookup label ∨
    ∃ value, new.template.annotations.lookup label = some value ∧ diary.NamedOnce old.ns label value

theorem Workload.Turns.preserves {diary : Chronicle} {source sent : Workload}
    (turns : source.Turns diary.truths source.ns sent) (written : Nat) :
    source.Preserves diary (stamp written sent) where
  selector := turns.selector
  spec := turns.spec
  annotations label := by
    have lookups : (stamp written sent).template.annotations.lookup label = sent.template.annotations.lookup label :=
      GoMap.lookup_omitEmpty _ label
    rw [lookups]
    rcases turns.annotations label with same | ⟨value, found, pins⟩
    · exact Or.inl same
    · exact Or.inr ⟨value, found, Chronicle.namedOnce_of_pins pins⟩

/-- Objects and workloads stay under their keys, each preserved as tasks preserve it, and nothing but
revisions comes or goes. -/
structure Cluster.Preserves (diary : Chronicle) (before after : Cluster) : Prop where
  objects : ∀ kind, (before.objects kind).Evolves (Object.Preserves diary) (after.objects kind)
  workloads : ∀ workload, (before.workloads workload).Evolves (Workload.Preserves diary) (after.workloads workload)
  histories : after.histories = before.histories
  namespaces : after.namespaces = before.namespaces

theorem Workload.Preserves.refl {diary : Chronicle} (stored : Workload) : stored.Preserves diary stored :=
  ⟨rfl, rfl, fun _ => Or.inl rfl⟩

theorem Cluster.Preserves.of_same {diary : Chronicle} {before after : Cluster}
    (objects : after.objects = before.objects) (workloads : after.workloads = before.workloads)
    (histories : after.histories = before.histories) (namespaces : after.namespaces = before.namespaces) :
    before.Preserves diary after where
  objects _ := objects ▸ .refl Object.Preserves.refl _
  workloads _ := workloads ▸ .refl Workload.Preserves.refl _
  histories := histories
  namespaces := namespaces

theorem Cluster.Moves.preserves {scope : Scope} {diary : Chronicle} {after : Cluster}
    (moves : diary.now.Moves scope diary.truths after) : diary.now.Preserves diary after := by
  cases moves with
  | rested | seeded | created | revision | deleted => exact .of_same rfl rfl rfl rfl
  | @object kind held sent updated table present covers turns written =>
    have preserved : held.Preserves diary updated := written.answered ▸ turns.preserves present _
    refine ⟨fun other => ?_, fun workload => .refl Workload.Preserves.refl _, rfl, rfl⟩
    by_cases same : other = kind
    · subst same
      simpa using written.evolves Object.Preserves.refl present turns.key_eq.symm preserved
    · simpa [Cluster.withObjects, Function.update_of_ne same] using Table.Evolves.refl Object.Preserves.refl _
  | @workload workload source sent updated table present covers turns written =>
    have preserved : source.Preserves diary updated := written.answered ▸ turns.preserves _
    refine ⟨fun kind => .refl Object.Preserves.refl _, fun other => ?_, rfl, rfl⟩
    by_cases same : other = workload
    · subst same
      simpa using written.evolves Workload.Preserves.refl present turns.key_eq.symm preserved
    · simpa [Cluster.withWorkloads, Function.update_of_ne same] using Table.Evolves.refl Workload.Preserves.refl _

/-- Whatever a task changes at any point of any run, it preserves what users put there. -/
theorem users_preserved {tasks : Nat → Task} {others : Cluster → Cluster → Prop} {start : Cluster}
    (advances : ∀ {before after}, others before after → before.Advances after)
    {last : Pool Chronicle Call Answer ApiError (Option HttpResponse) Nat}
    (run : (everyone tasks others).recorded.Reaches (System.idle (.opened start)) last)
    {entry : Entry Cluster Nat} {recent older : List (Entry Cluster Nat)}
    (written : last.world.entries = recent ++ entry :: older) (inside : entry.author ≠ none) :
    entry.before.Preserves (entry.onto older) entry.after := by
  obtain ⟨_, follows⟩ := ((conforms_ledger advances).kept run).entry written
  obtain ⟨author, before, after⟩ := entry
  cases author with
  | none => exact absurd rfl inside
  | some party =>
    have moves : before.Moves (tasks party).scope (Chronicle.truths ⟨before, older⟩) after := follows
    exact moves.preserves

theorem Sample.renamed_preserves :
    renamed.before.Preserves (renamed.onto reconciled.entries.tail) renamed.after := by
  obtain ⟨threads, run⟩ := reconciled_reached Cluster.Advances
  have inside : renamed.author ≠ none := by decide
  exact users_preserved id run renamed_written inside

end Configurator
