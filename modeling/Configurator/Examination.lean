import Configurator.Library.Amid
import Configurator.Purge

namespace Configurator

open Resource

variable {World α : Type} {kind : Kind} {workload : WorkloadKind} {ns : String}

def Call.Deletes : Call → Prop
  | .deleteRevision _ _ _ => True
  | _ => False

namespace Purge

variable (serve : World → (request : Call) → World × Answer request)

/-- The workloads that a list call yields. -/
def yielded (world : World) (workload : WorkloadKind) (ns : String) : List Workload :=
  items (serve world (.listWorkloads workload ns)).2

/-- A history that a list call yields carries the version of the revision. -/
def Shows (world : World) (workload : WorkloadKind) (ns : String) (selector : LabelSelector)
    (revision : Revision kind) : Prop :=
  ∃ history ∈ items (serve world (.listHistories workload ns selector)).2,
    references revision history.template = true

/-- The object of the revision is read, and registers a workload. -/
def Registers (world : World) (ns : String) (revision : Revision kind) : Prop :=
  ∃ object, (serve world (.getObject kind ns revision.spec.owner)).2 = .ok object ∧
    ∃ workload, object.registered workload ≠ ""

/-- The course of an examination: the worlds in which the Deployments are listed, the histories of each of them,
the StatefulSets and theirs, in which the object is read, and in which the next call is served. -/
structure Course (ns : String) (worlds : List World) where
  listing : World
  deployments : List World
  relisting : World
  statefulSets : List World
  reading : World
  due : World
  later : List World
  split : worlds = listing :: (deployments ++ relisting :: (statefulSets ++ reading :: due :: later))
  each_deployment : deployments.length = (yielded serve listing .deployment ns).length
  each_statefulSet : statefulSets.length = (yielded serve relisting .statefulSet ns).length

theorem Course.reading_mem {worlds : List World} (course : Course serve ns worlds) : course.reading ∈ worlds := by
  obtain ⟨listing, deployments, relisting, statefulSets, reading, due, later, rfl, _, _⟩ := course
  simp

/-- One of the workloads shows the version when its histories are listed. -/
def ShownAmong (workload : WorkloadKind) (ns : String) (revision : Revision kind) (found : List Workload)
    (worlds : List World) : Prop :=
  ∃ pair ∈ found.zip worlds, Shows serve pair.2 workload ns pair.1.selector revision

variable {serve}

def Course.Finds {worlds : List World} (course : Course serve ns worlds) (revision : Revision kind) : Prop :=
  ShownAmong serve .deployment ns revision (yielded serve course.listing .deployment ns) course.deployments ∨
    ShownAmong serve .statefulSet ns revision (yielded serve course.relisting .statefulSet ns) course.statefulSets

variable {revision : Revision kind} {entry : World × Call} {worlds : List World}

/-- The end of an examination, after the histories. -/
def judge (ns : String) (revision : Revision kind) (check : Bool) : Client Unit := do
  match ← ask (.getObject kind ns revision.spec.owner) with
  | .error _ => pure ()
  | .ok object =>
    if object.registered .deployment ≠ "" ∨ object.registered .statefulSet ≠ "" then
      if !check then
        let _ ← ask (.deleteRevision kind ns revision.name)

theorem examine_eq (ns : String) (revision : Revision kind) : examine ns revision =
    ask (.listWorkloads .deployment ns) >>= fun deployments =>
      checkWorkloads .deployment ns revision (items deployments) false >>= fun check =>
        ask (.listWorkloads .statefulSet ns) >>= fun statefulSets =>
          checkWorkloads .statefulSet ns revision (items statefulSets) check >>= fun check =>
            judge ns revision check := rfl

/-- The loop over the workloads searches the histories of each in the next world. -/
theorem deletes_checkWorkloads (deletes : entry.2.Deletes) (found : List Workload) (check : Bool)
    (next : Bool → Client α) (worlds : List World) :
    entry ∈ (checkWorkloads workload ns revision found check >>= next).amid serve worlds ↔
      ∃ first later, worlds = first ++ later ∧ first.length = found.length ∧ ∃ checked,
        (checked = true ↔ check = true ∨ ShownAmong serve workload ns revision found first) ∧
          entry ∈ (next checked).amid serve later := by
  induction found generalizing check worlds with
  | nil =>
    constructor
    · intro member
      exact ⟨[], worlds, rfl, rfl, check, by simp [ShownAmong], member⟩
    · rintro ⟨first, later, rfl, empty, checked, same, member⟩
      obtain rfl := List.length_eq_zero_iff.mp empty
      have equal : checked = check := by
        rw [Bool.eq_iff_iff, same]
        simp [ShownAmong]
      exact equal ▸ member
  | cons stored rest ih =>
    cases worlds with
    | nil =>
      constructor
      · nofun
      · rintro ⟨first, later, nil, length, _⟩
        obtain ⟨rfl, rfl⟩ := List.append_eq_nil_iff.mp nil.symm
        simp at length
    | cons world later =>
      have head : entry ≠ (world, Call.listHistories workload ns stored.selector) := by
        rintro rfl
        exact deletes
      show entry ∈ (world, Call.listHistories workload ns stored.selector) :: (checkWorkloads workload ns revision
        rest (check || (items (serve world (.listHistories workload ns stored.selector)).2).any fun history =>
          references revision history.template) >>= next).amid serve later ↔ _
      rw [List.mem_cons, or_iff_right head, ih]
      have grows : ∀ {checked : Bool} {first : List World},
          (checked = true ↔ (check || (items (serve world (.listHistories workload ns stored.selector)).2).any
              fun history => references revision history.template) = true ∨
            ShownAmong serve workload ns revision rest first) ↔
          (checked = true ↔
            check = true ∨ ShownAmong serve workload ns revision (stored :: rest) (world :: first)) := by
        intro checked first
        rw [Bool.or_eq_true, List.any_eq_true]
        simp [ShownAmong, Shows, or_assoc]
      constructor
      · rintro ⟨first, others, rfl, length, checked, same, member⟩
        exact ⟨world :: first, others, rfl, by simp [length], checked, grows.mp same, member⟩
      · rintro ⟨_ | ⟨other, first⟩, others, same, length, checked, searched, member⟩
        · simp at length
        · obtain ⟨rfl, rfl⟩ := List.cons.inj same
          exact ⟨first, others, rfl, by simpa using length, checked, grows.mpr searched, member⟩

theorem deletes_judge (deletes : entry.2.Deletes) (check : Bool) :
    entry ∈ (judge ns revision check).amid serve worlds ↔
      ∃ reading due later, worlds = reading :: due :: later ∧
        entry = (due, .deleteRevision kind ns revision.name) ∧ Registers serve reading ns revision ∧
          check ≠ true := by
  cases worlds with
  | nil => exact ⟨nofun, nofun⟩
  | cons reading rest =>
    have head : entry ≠ (reading, Call.getObject kind ns revision.spec.owner) := by
      rintro rfl
      exact deletes
    cases found : (serve reading (.getObject kind ns revision.spec.owner)).2 with
    | error error =>
      constructor
      · intro member
        simp [judge, found, head] at member
      · rintro ⟨_, due, later, same, _, ⟨object, read, _⟩, _⟩
        obtain ⟨rfl, _⟩ := List.cons.inj same
        rw [found] at read
        cases read
    | ok object =>
      have registers : Registers serve reading ns revision ↔
          object.registered .deployment ≠ "" ∨ object.registered .statefulSet ≠ "" := by
        constructor
        · rintro ⟨other, read, workload, filled⟩
          obtain rfl : object = other := Except.ok.inj (found.symm.trans read)
          cases workload
          · exact Or.inl filled
          · exact Or.inr filled
        · rintro (filled | filled)
          · exact ⟨object, found, .deployment, filled⟩
          · exact ⟨object, found, .statefulSet, filled⟩
      constructor
      · intro member
        by_cases listed : object.registered .deployment ≠ "" ∨ object.registered .statefulSet ≠ ""
        · cases check with
          | true => simp [judge, found, head] at member
          | false =>
            cases rest with
            | nil => simp [judge, found, head, listed] at member
            | cons due later =>
              have last : entry = (due, .deleteRevision kind ns revision.name) := by
                simpa [judge, found, head, listed] using member
              exact ⟨reading, due, later, rfl, last, registers.mpr listed, nofun⟩
        · simp [judge, found, head, listed] at member
      · rintro ⟨_, due, later, same, rfl, listed, unchecked⟩
        obtain ⟨rfl, rfl⟩ := List.cons.inj same
        simp [judge, found, registers.mp listed, unchecked]

/-- An examination makes its only deletion when it is due, unless the version has been found or the object
registers no workload. -/
theorem deletes_examine (deletes : entry.2.Deletes) :
    entry ∈ (examine ns revision).amid serve worlds ↔
      ∃ course : Course serve ns worlds, entry = (course.due, .deleteRevision kind ns revision.name) ∧
        Registers serve course.reading ns revision ∧ ¬ course.Finds revision := by
  have lists : ∀ {world : World} {workload : WorkloadKind}, entry ≠ (world, Call.listWorkloads workload ns) := by
    rintro world workload rfl
    exact deletes
  rw [examine_eq]
  constructor
  · intro member
    match worlds, member with
    | listing :: worlds, member =>
      replace member := (List.mem_cons.mp member).resolve_left lists
      obtain ⟨deployments, worlds, rfl, each, first, searched, member⟩ :=
        (deletes_checkWorkloads deletes _ false _ worlds).mp member
      match worlds, member with
      | relisting :: worlds, member =>
        replace member := (List.mem_cons.mp member).resolve_left lists
        obtain ⟨statefulSets, worlds, rfl, every, second, again, member⟩ :=
          (deletes_checkWorkloads deletes _ first _ worlds).mp member
        obtain ⟨reading, due, later, rfl, rfl, registers, unchecked⟩ := (deletes_judge deletes second).mp member
        refine ⟨⟨listing, deployments, relisting, statefulSets, reading, due, later, rfl, each, every⟩, rfl,
          registers, fun found => unchecked (again.mpr ?_)⟩
        exact found.imp (fun found => searched.mpr (Or.inr found)) id
  · rintro ⟨course, same, registers, missed⟩
    obtain ⟨listing, deployments, relisting, statefulSets, reading, due, later, rfl, each, every⟩ := course
    dsimp only at same registers
    rw [Course.Finds, not_or] at missed
    refine List.mem_cons_of_mem _ ((deletes_checkWorkloads deletes _ false _ _).mpr
      ⟨deployments, _, rfl, each, false, ?_, ?_⟩)
    · exact ⟨nofun, fun found => absurd (found.resolve_left nofun) missed.1⟩
    · refine List.mem_cons_of_mem _ ((deletes_checkWorkloads deletes _ false _ _).mpr
        ⟨statefulSets, _, rfl, every, false, ?_, ?_⟩)
      · exact ⟨nofun, fun found => absurd (found.resolve_left nofun) missed.2⟩
      · exact (deletes_judge deletes false).mpr ⟨reading, due, later, rfl, same, registers, nofun⟩

section Whole

variable (serve) {good : World → Prop} {fits : (kind : Kind) → String → Revision kind → Prop}

/-- After so many calls of a program begins the examination of a revision. -/
def Begins (program : Client α) (worlds : List World) (count : Nat) (ns : String) (revision : Revision kind) :
    Prop :=
  ∃ next : Unit → Client α, Program.left serve count program worlds = examine ns revision >>= next

variable {serve}

theorem Begins.mem_amid {program : Client α} {count : Nat} (begins : Begins serve program worlds count ns revision)
    (member : entry ∈ (examine ns revision).amid serve (worlds.drop count)) :
    entry ∈ program.amid serve worlds := by
  obtain ⟨next, left⟩ := begins
  refine Program.amid_left count program worlds entry ?_
  rw [left, Program.amid_bind]
  exact List.mem_append_left _ member

variable (serve) (good) (fits)

def Examined (program : Client α) (worlds : List World) (entry : World × Call) : Prop :=
  ∃ (kind : Kind) (count : Nat) (ns : String) (revision : Revision kind), fits kind ns revision ∧
    Begins serve program worlds count ns revision ∧ entry ∈ (examine ns revision).amid serve (worlds.drop count)

/-- In good worlds all deletions of a program are those of its examinations. -/
def OnlyExamines (program : Client α) : Prop :=
  ∀ worlds entry, (∀ world ∈ worlds, good world) → entry.2.Deletes → entry ∈ program.amid serve worlds →
    Examined serve fits program worlds entry

variable {serve} {good} {fits}

theorem Examined.call {request : Call} {next : Answer request → Client α} {world : World}
    (examined : Examined serve fits (next (serve world request).2) worlds entry) :
    Examined serve fits (.call request next) (world :: worlds) entry := by
  obtain ⟨kind, count, ns, revision, fit, ⟨rest, left⟩, member⟩ := examined
  exact ⟨kind, count + 1, ns, revision, fit, ⟨rest, left⟩, member⟩

theorem OnlyExamines.ask {request : Call} {next : Answer request → Client α} (reads : ¬ request.Deletes)
    (continues : ∀ world, good world → OnlyExamines serve good fits (next (serve world request).2)) :
    OnlyExamines serve good fits (ask request >>= next) := by
  intro worlds entry all deletes member
  match worlds, member with
  | world :: later, member =>
    rcases List.mem_cons.mp member with rfl | rest
    · exact absurd deletes reads
    · rw [List.forall_mem_cons] at all
      exact (continues world all.1 later entry all.2 deletes rest).call

theorem OnlyExamines.examineAll (list : List (Revision kind)) (fit : ∀ revision ∈ list, fits kind ns revision)
    {next : Unit → Client α} (continues : OnlyExamines serve good fits (next ())) :
    OnlyExamines serve good fits (examineAll ns list >>= next) := by
  induction list with
  | nil => exact continues
  | cons first rest ih =>
    rw [List.forall_mem_cons] at fit
    have parts : Purge.examineAll ns (first :: rest) >>= next =
        examine ns first >>= fun _ => Purge.examineAll ns rest >>= next := by
      simp only [Purge.examineAll, bind_assoc]
    rw [parts]
    intro worlds entry all deletes member
    rw [Program.amid_bind, List.mem_append] at member
    rcases member with here | there
    · exact ⟨kind, 0, ns, first, fit.1, ⟨_, Program.left_zero _ _ _⟩, here⟩
    · cases finished : (examine ns first).finish serve worlds with
      | none => simp [finished] at there
      | some result =>
        obtain ⟨value, later⟩ := result
        rw [finished] at there
        obtain ⟨used, rfl, left⟩ := Program.left_bind (fun _ => Purge.examineAll ns rest >>= next) finished
        obtain ⟨other, count, space, revision, its, ⟨others, begins⟩, member⟩ :=
          ih fit.2 _ entry (fun world inside => all world (List.mem_of_mem_drop inside)) deletes there
        refine ⟨other, used + count, space, revision, its, ⟨others, (left count).trans begins⟩, ?_⟩
        rwa [← List.drop_drop]

variable (listed : ∀ world, good world → ∀ kind ns, ∀ revision ∈ items (serve world (.listRevisions kind ns [])).2,
  fits kind ns revision)

include listed

theorem onlyExamines_purgeNamespaces (namespaces : List String) {next : Unit → Client α}
    (continues : OnlyExamines serve good fits (next ())) :
    OnlyExamines serve good fits (purgeNamespaces namespaces >>= next) := by
  induction namespaces with
  | nil => exact continues
  | cons ns rest ih =>
    have parts : purgeNamespaces (ns :: rest) >>= next =
        ask (.listRevisions .configMap ns []) >>= fun configMaps => Purge.examineAll ns (items configMaps) >>= fun _ =>
          ask (.listRevisions .secret ns []) >>= fun secrets => Purge.examineAll ns (items secrets) >>= fun _ =>
            purgeNamespaces rest >>= next := by
      simp only [purgeNamespaces, bind_assoc]
    rw [parts]
    refine .ask id fun world fine => .examineAll _ (listed world fine .configMap ns) ?_
    exact .ask id fun world fine => .examineAll _ (listed world fine .secret ns) ih

/-- The purge deletes what its examinations delete. -/
theorem onlyExamines_purge {next : Unit → Client α} (continues : OnlyExamines serve good fits (next ())) :
    OnlyExamines serve good fits (purgeCCMAndCS >>= next) := by
  rw [purgeCCMAndCS, bind_assoc]
  exact .ask id fun world _ => onlyExamines_purgeNamespaces listed _ continues

end Whole

end Purge

end Configurator
