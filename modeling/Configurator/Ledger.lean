import Configurator.Custody

/-! The cluster as an abstract ledger: what a task does to it, call by call and however the
calls of all tasks interleave and fail, are changes of whole stored objects at one moment. -/
namespace Configurator

open Resource

variable {kind : Kind} {workload : WorkloadKind}

namespace Cluster

/-- The tables only move forward: what is stored at an old version was stored before. -/
structure Advances (before after : Cluster) : Prop where
  objects : ∀ kind, (before.objects kind).Later (after.objects kind)
  revisions : ∀ kind, (before.revisions kind).Later (after.revisions kind)
  workloads : ∀ workload, (before.workloads workload).Later (after.workloads workload)

/-- What others may do to the cluster: anything but to write revisions, which they may delete. -/
structure Outsiders (before after : Cluster) : Prop extends Advances before after where
  kept : ∀ kind, ∀ revision ∈ after.revisions kind, revision ∈ before.revisions kind

/-- One change of the cluster by a task with this scope that knows these exchanges: a read, or a
change of an object, a revision or a workload as it is stored now. -/
inductive Moves (scope : Scope) (known : Known) (before : Cluster) : Cluster → Prop where
  | rested : Moves scope known before before
  | seeded : Moves scope known before before.reseeded
  | object {kind : Kind} {held sent updated : Object kind} {table : Table (Object kind)}
      (present : held ∈ before.objects kind) (covers : scope.objects kind (key held))
      (turns : held.Turns scope known sent) (written : (before.objects kind).Written sent updated table) :
      Moves scope known before (before.withObjects kind table)
  | created {kind : Kind} {held : Object kind} {draws : Draws} {created : Revision kind}
      {table : Table (Revision kind)} (covers : scope.objects kind (key held))
      (exchange : ⟨.getObject kind held.ns held.name, .ok held⟩ ∈ known)
      (free : ∀ entry ∈ before.revisions kind, key entry ≠ key (newRevision held (randomSequence draws 5)))
      (written : (before.revisions kind).Written (newRevision held (randomSequence draws 5)) created table) :
      Moves scope known before (before.withRevisions kind table)
  | revision {kind : Kind} {source sent updated : Revision kind} {table : Table (Revision kind)}
      (present : source ∈ before.revisions kind) (covers : scope.Reaches source.ns) (turns : source.Turns sent)
      (written : (before.revisions kind).Written sent updated table) :
      Moves scope known before (before.withRevisions kind table)
  | deleted {kind : Kind} {ns name : String} {table : Table (Revision kind)} (deletes : scope.deletes)
      (covers : scope.Reaches ns) (later : (before.revisions kind).Later table)
      (rest : ∀ entry, entry ∈ table ↔ entry ∈ before.revisions kind ∧ key entry ≠ (ns, name)) :
      Moves scope known before (before.withRevisions kind table)
  | workload {workload : WorkloadKind} {source sent updated : Workload} {table : Table Workload}
      (present : source ∈ before.workloads workload) (covers : scope.Reaches source.ns)
      (turns : source.Turns known source.ns sent) (written : (before.workloads workload).Written sent updated table) :
      Moves scope known before (before.withWorkloads workload table)

theorem Advances.refl (cluster : Cluster) : cluster.Advances cluster :=
  ⟨fun _ => .refl _, fun _ => .refl _, fun _ => .refl _⟩

private theorem advances_objects {before : Cluster} {table : Table (Object kind)}
    (later : (before.objects kind).Later table) : before.Advances (before.withObjects kind table) where
  objects other := by
    by_cases same : other = kind
    · subst same
      simpa using later
    · simpa [withObjects, Function.update_of_ne same] using Table.Later.refl _
  revisions _ := .refl _
  workloads _ := .refl _

private theorem advances_revisions {before : Cluster} {table : Table (Revision kind)}
    (later : (before.revisions kind).Later table) : before.Advances (before.withRevisions kind table) where
  objects _ := .refl _
  revisions other := by
    by_cases same : other = kind
    · subst same
      simpa using later
    · simpa [withRevisions, Function.update_of_ne same] using Table.Later.refl _
  workloads _ := .refl _

private theorem advances_workloads {before : Cluster} {table : Table Workload}
    (later : (before.workloads workload).Later table) : before.Advances (before.withWorkloads workload table) where
  objects _ := .refl _
  revisions _ := .refl _
  workloads other := by
    by_cases same : other = workload
    · subst same
      simpa using later
    · simpa [withWorkloads, Function.update_of_ne same] using Table.Later.refl _

theorem Moves.advances {scope : Scope} {known : Known} {before after : Cluster}
    (moves : before.Moves scope known after) : before.Advances after := by
  cases moves with
  | rested => exact .refl _
  | seeded => exact ⟨fun _ => .refl _, fun _ => .refl _, fun _ => .refl _⟩
  | object _ _ _ written => exact advances_objects written.later
  | created _ _ _ written => exact advances_revisions written.later
  | revision _ _ _ written => exact advances_revisions written.later
  | deleted _ _ later => exact advances_revisions later
  | workload _ _ _ written => exact advances_workloads written.later

end Cluster

/-- The cluster with its past, written by the parties with these numbers and by others. -/
abbrev Chronicle := Diary Cluster Nat

namespace Chronicle

/-- The entry was in the table at some moment, from which the table has only moved forward. -/
def Once {α κ : Type} [Resource α κ] (diary : Chronicle) (part : Cluster → Table α) (entry : α) : Prop :=
  ∃ past, diary.Past past ∧ entry ∈ part past ∧ (part past).Later (part diary.now)

theorem Once.of_mem {α κ : Type} [Resource α κ] {diary : Chronicle} {part : Cluster → Table α} {entry : α}
    (member : entry ∈ part diary.now) : Once diary part entry :=
  ⟨diary.now, diary.past_now, member, .refl _⟩

theorem Once.write {α κ : Type} [Resource α κ] {diary : Chronicle} {part : Cluster → Table α} {entry : α}
    {author : Option Nat} {after : Cluster} (once : Once diary part entry)
    (later : (part diary.now).Later (part after)) : Once (diary.write author after) part entry := by
  obtain ⟨past, was, member, earlier⟩ := once
  exact ⟨past, Diary.past_write.mpr (Or.inr was), member, earlier.trans later⟩

theorem Once.seen {α κ : Type} [Resource α κ] {diary : Chronicle} {part : Cluster → Table α} {entry : α}
    (once : Once diary part entry) : (part diary.now).Seen entry := by
  obtain ⟨past, _, member, later⟩ := once
  exact ⟨part past, member, later⟩

/-- What the diary bears out: an answer holds what was stored under the key or the labels of
its request. -/
def Bears (diary : Chronicle) : Exchange Call Answer → Prop
  | ⟨.getObject kind ns name, answer⟩ => ∀ object, answer = .ok object →
      key object = (ns, name) ∧ Once diary (fun cluster => cluster.objects kind) object
  | ⟨.updateObject kind sent, answer⟩ => ∀ updated, answer = .ok updated →
      updated = stamp (version updated) sent ∧ Once diary (fun cluster => cluster.objects kind) updated
  | ⟨.getRevision kind ns name, answer⟩ => ∀ revision, answer = .ok revision →
      key revision = (ns, name) ∧ Once diary (fun cluster => cluster.revisions kind) revision
  | ⟨.listRevisions kind ns labels, answer⟩ => ∀ revisions, answer = .ok revisions → ∀ revision ∈ revisions,
      revision.matches ns labels = true ∧ Once diary (fun cluster => cluster.revisions kind) revision
  | ⟨.createRevision kind sent, answer⟩ => ∀ created, answer = .ok created →
      created = stamp (version created) sent ∧ Once diary (fun cluster => cluster.revisions kind) created
  | ⟨.updateRevision kind sent, answer⟩ => ∀ updated, answer = .ok updated →
      key updated = key sent ∧ Once diary (fun cluster => cluster.revisions kind) updated
  | ⟨.getWorkload workload ns name, answer⟩ => ∀ stored, answer = .ok stored →
      key stored = (ns, name) ∧ Once diary (fun cluster => cluster.workloads workload) stored
  | ⟨.listWorkloads workload ns, answer⟩ => ∀ found, answer = .ok found → ∀ stored ∈ found,
      stored.ns = ns ∧ Once diary (fun cluster => cluster.workloads workload) stored
  | _ => True

/-- All that the diary bears out. -/
def truths (diary : Chronicle) : Known := {exchange | diary.Bears exchange}

theorem Bears.write {diary : Chronicle} {author : Option Nat} {after : Cluster} {exchange : Exchange Call Answer}
    (bears : diary.Bears exchange) (advances : diary.now.Advances after) :
    Bears (diary.write author after) exchange := by
  obtain ⟨request, answer⟩ := exchange
  cases request with
  | getObject kind ns name =>
    exact fun object found => ⟨(bears object found).1, (bears object found).2.write (advances.objects kind)⟩
  | updateObject kind sent =>
    exact fun updated found => ⟨(bears updated found).1, (bears updated found).2.write (advances.objects kind)⟩
  | getRevision kind ns name =>
    exact fun revision found => ⟨(bears revision found).1, (bears revision found).2.write (advances.revisions kind)⟩
  | listRevisions kind ns labels =>
    exact fun revisions found revision member => ⟨(bears revisions found revision member).1,
      (bears revisions found revision member).2.write (advances.revisions kind)⟩
  | createRevision kind sent =>
    exact fun created found => ⟨(bears created found).1, (bears created found).2.write (advances.revisions kind)⟩
  | updateRevision kind sent =>
    exact fun updated found => ⟨(bears updated found).1, (bears updated found).2.write (advances.revisions kind)⟩
  | getWorkload workload ns name =>
    exact fun stored found => ⟨(bears stored found).1, (bears stored found).2.write (advances.workloads workload)⟩
  | listWorkloads workload ns =>
    exact fun found listed stored member => ⟨(bears found listed stored member).1,
      (bears found listed stored member).2.write (advances.workloads workload)⟩
  | deleteRevision | updateWorkload | listHistories | listNamespaces | seedRandom => exact trivial

theorem bears_failure {diary : Chronicle} {request : Call} {answer : Answer request} {error : ApiError}
    (failed : request.failure error = some answer) : diary.Bears ⟨request, answer⟩ := by
  cases request with
  | getObject | updateObject | getRevision | listRevisions | createRevision | updateRevision | getWorkload |
      listWorkloads =>
    obtain rfl := Option.some.inj failed
    intro value impossible
    cases impossible
  | deleteRevision | updateWorkload | listHistories | listNamespaces | seedRandom => exact trivial

/-- The answer of a call that has just been carried out is borne out. -/
theorem bears_serve {diary : Chronicle} {author : Option Nat} {request : Call} :
    Bears (diary.write author (diary.now.serve request).1) ⟨request, (diary.now.serve request).2⟩ := by
  obtain ⟨⟨after, answer⟩, served⟩ : ∃ result, diary.now.serve request = result := ⟨_, rfl⟩
  rw [served]
  cases request with
  | getObject kind ns name =>
    rintro object rfl
    obtain ⟨rfl, ⟨_, refused⟩ | ⟨found, member, same, answered⟩⟩ := Cluster.getObject_cases served
    · cases refused
    · cases answered
      exact ⟨same, .of_mem member⟩
  | getRevision kind ns name =>
    rintro revision rfl
    obtain ⟨rfl, ⟨_, refused⟩ | ⟨found, member, same, answered⟩⟩ := Cluster.getRevision_cases served
    · cases refused
    · cases answered
      exact ⟨same, .of_mem member⟩
  | getWorkload workload ns name =>
    rintro stored rfl
    obtain ⟨rfl, ⟨_, refused⟩ | ⟨found, member, same, answered⟩⟩ := Cluster.getWorkload_cases served
    · cases refused
    · cases answered
      exact ⟨same, .of_mem member⟩
  | listRevisions kind ns labels =>
    rintro revisions rfl revision member
    obtain ⟨rfl, listed⟩ := Cluster.listRevisions_cases served
    obtain rfl := Except.ok.inj listed
    exact ⟨(Table.mem_select.mp member).2, .of_mem (Table.mem_select.mp member).1⟩
  | listWorkloads workload ns =>
    rintro found rfl stored member
    obtain ⟨rfl, listed⟩ := Prod.mk.inj served
    obtain rfl := Except.ok.inj listed
    exact ⟨by simpa using (Table.mem_select.mp member).2, .of_mem (Table.mem_select.mp member).1⟩
  | updateObject kind sent =>
    rintro updated rfl
    rcases Cluster.updateObject_cases served with ⟨_, _, _, refused⟩ | ⟨stored, table, accepted, rfl, answered⟩
    · cases refused
    · cases answered
      have written := (Table.written_of_update accepted).2
      exact ⟨written.answered, .of_mem (by simpa using written.mem)⟩
  | createRevision kind sent =>
    rintro created rfl
    rcases Cluster.createRevision_cases served with ⟨_, _, _, refused⟩ | ⟨stored, table, accepted, rfl, answered⟩
    · cases refused
    · cases answered
      have written := Table.written_of_create accepted
      exact ⟨written.answered, .of_mem (by simpa using written.mem)⟩
  | updateRevision kind sent =>
    rintro updated rfl
    rcases Cluster.updateRevision_cases served with ⟨_, _, _, refused⟩ | ⟨stored, table, accepted, rfl, answered⟩
    · cases refused
    · cases answered
      have written := (Table.written_of_update accepted).2
      exact ⟨written.key_eq, .of_mem (by simpa using written.mem)⟩
  | deleteRevision | updateWorkload | listHistories | listNamespaces | seedRandom => exact trivial

/-- The entry is the pin of an object of the namespace, with a version that the object named at some moment. -/
def NamedOnce (diary : Chronicle) (ns label value : String) : Prop :=
  ∃ (kind : Kind) (name : String), label = kind.tag ++ name ∧
    ∃ past, diary.Past past ∧ ∃ object ∈ past.objects kind, key object = (ns, name) ∧ object.currentVersion = value

/-- A value under a pin is a version that was in force. -/
theorem namedOnce_of_pins {diary : Chronicle} {ns label value : String} (pins : Pins diary.truths ns label value) :
    diary.NamedOnce ns label value := by
  obtain ⟨kind, name, same, enforced⟩ := pins
  refine ⟨kind, name, same, ?_⟩
  have stored : ∀ sent stored : Object kind, ⟨.updateObject kind sent, .ok stored⟩ ∈ diary.truths →
      key stored = key sent ∧ stored.currentVersion = sent.currentVersion ∧
        ∃ past, diary.Past past ∧ stored ∈ past.objects kind := by
    intro sent stored written
    obtain ⟨answered, past, was, member, _⟩ := written stored rfl
    have keys : key stored = key sent := by rw [answered, Resource.key_stamp]
    have versions : stored.currentVersion = sent.currentVersion := by rw [answered, Object.currentVersion_stamp]
    exact ⟨keys, versions, past, was, member⟩
  cases enforced with
  | @read object sent updated got written called names =>
    obtain ⟨keys, versions, past, was, member⟩ := stored sent updated written
    exact ⟨past, was, updated, member, (keys.trans called).trans (got object rfl).1, versions.trans names⟩
  | @answered sent updated written called names =>
    obtain ⟨_, versions, past, was, member⟩ := stored sent updated written
    exact ⟨past, was, updated, member, called, versions.trans names⟩

end Chronicle

section Turns

variable {scope : Scope} {known : Known}

theorem Object.Turns.key_eq {held sent : Object kind} (turns : held.Turns scope known sent) :
    key sent = key held := by
  cases turns with
  | published | adopted => rfl
  | registered workload owner => exact key_register workload owner held
  | introduced workload owner => exact Object.key_introduce workload owner _ _ held
  | restored exchange copied => exact (restored_of_restore? copied).key
  | rolledBack pins assigned exchange copied => exact (PodWebhook.restored_of_restore? copied).key

theorem Object.Turns.version_eq {held sent : Object kind} (turns : held.Turns scope known sent) :
    version sent = version held := by
  cases turns with
  | published | adopted => rfl
  | registered workload owner => exact version_register workload owner held
  | introduced workload owner => exact Object.version_introduce workload owner _ _ held
  | restored exchange copied => exact (restored_of_restore? copied).version
  | rolledBack pins assigned exchange copied => exact (PodWebhook.restored_of_restore? copied).version

end Turns

/-- The call asks for things inside the scope. -/
def Call.Inside (scope : Scope) : Call → Prop
  | .getObject kind ns name => scope.objects kind (ns, name)
  | .updateObject kind sent => scope.objects kind (key sent)
  | .getRevision _ ns _ | .listRevisions _ ns _ | .deleteRevision _ ns _ | .getWorkload _ ns _
  | .listWorkloads _ ns | .listHistories _ ns _ => scope.Reaches ns
  | .createRevision _ sent => scope.Reaches sent.ns
  | .updateRevision _ sent => scope.Reaches sent.ns
  | .updateWorkload _ sent => scope.Reaches sent.ns
  | .listNamespaces | .seedRandom => True

namespace Chronicle

variable {diary : Chronicle} {scope : Scope} {known : Known}

/-- What a task knows of its exchanges: the request was inside its scope, and the answer is true. -/
def Knows (scope : Scope) (diary : Chronicle) (exchange : Exchange Call Answer) : Prop :=
  exchange.1.Inside scope ∧ diary.Bears exchange

section Known

variable (knows : ∀ exchange ∈ known, diary.Knows scope exchange)
include knows

theorem holds_known {held : Object kind} (holds : Holds scope known held) :
    scope.objects kind (key held) ∧ ⟨.getObject kind held.ns held.name, .ok held⟩ ∈ known ∧
      Once diary (fun cluster => cluster.objects kind) held := by
  obtain ⟨ns, name, covers, exchange⟩ := holds
  obtain ⟨same, once⟩ := (knows _ exchange).2 held rfl
  obtain ⟨rfl, rfl⟩ := Prod.mk.inj same
  exact ⟨covers, exchange, once⟩

theorem reaches_of_within {ns : String} (within : Within scope known ns) : scope.Reaches ns := by
  cases within with
  | given covers => exact Or.inl covers
  | @held kind object holds same =>
    subst same
    exact Or.inr ⟨kind, object.name, (holds_known knows holds).1⟩
  | @written kind sent updated exchange same =>
    subst same
    have inside : scope.objects kind (key sent) := (knows _ exchange).1
    have keys : key updated = key sent := by
      rw [((knows _ exchange).2 updated rfl).1, Resource.key_stamp]
    rw [← keys] at inside
    exact Or.inr ⟨kind, updated.name, inside⟩

theorem recalled {revision : Revision kind} (recalls : Recalls known revision) :
    scope.Reaches revision.ns ∧ Once diary (fun cluster => cluster.revisions kind) revision := by
  obtain ⟨⟨request, answer⟩, member, told⟩ := recalls
  obtain ⟨inside, bears⟩ := knows _ member
  cases request with
  | getRevision other ns name =>
    obtain ⟨found, rfl, same⟩ := told
    cases same
    obtain ⟨same, once⟩ := bears revision rfl
    obtain ⟨rfl, rfl⟩ := Prod.mk.inj same
    exact ⟨inside, once⟩
  | listRevisions other ns labels =>
    obtain ⟨revisions, rfl, found, listed, same⟩ := told
    cases same
    obtain ⟨selected, once⟩ := bears revisions rfl revision listed
    have spaces : revision.ns = ns := by
      simp only [Revision.matches, Bool.and_eq_true, decide_eq_true_eq] at selected
      exact selected.1
    exact ⟨spaces ▸ inside, once⟩
  | createRevision other sent =>
    obtain ⟨found, rfl, same⟩ := told
    cases same
    obtain ⟨stamped, once⟩ := bears revision rfl
    have spaces : revision.ns = sent.ns := by
      rw [stamped]
      rfl
    exact ⟨spaces ▸ inside, once⟩
  | updateRevision other sent =>
    obtain ⟨found, rfl, same⟩ := told
    cases same
    obtain ⟨keys, once⟩ := bears revision rfl
    have spaces : revision.ns = sent.ns := congrArg Prod.fst keys
    exact ⟨spaces ▸ inside, once⟩
  | _ => exact told.elim

theorem fetched {ns : String} {stored : Workload} (fetched : Fetched known workload ns stored) :
    stored.ns = ns ∧ scope.Reaches ns ∧ Once diary (fun cluster => cluster.workloads workload) stored := by
  cases fetched with
  | got exchange =>
    obtain ⟨same, once⟩ := (knows _ exchange).2 stored rfl
    exact ⟨congrArg Prod.fst same, (knows _ exchange).1, once⟩
  | listed exchange member =>
    obtain ⟨same, once⟩ := (knows _ exchange).2 _ rfl stored member
    exact ⟨same, (knows _ exchange).1, once⟩

/-- A call that is backed by true exchanges is inside the scope. -/
theorem inside_of_entitled {request : Call} (entitled : Entitled scope known request) :
    request.Inside scope := by
  cases request with
  | getObject kind ns name => exact entitled
  | updateObject kind sent =>
    obtain ⟨held, holds, turns⟩ := entitled
    show scope.objects kind (key sent)
    rw [turns.key_eq]
    exact (holds_known knows holds).1
  | createRevision kind sent =>
    obtain ⟨held, draws, holds, _, rfl⟩ := entitled
    exact Or.inr ⟨kind, held.name, (holds_known knows holds).1⟩
  | updateRevision kind sent =>
    obtain ⟨source, recalls, turns⟩ := entitled
    have spaces : sent.ns = source.ns := congrArg Prod.fst turns.key_eq
    show scope.Reaches sent.ns
    rw [spaces]
    exact (recalled knows recalls).1
  | deleteRevision kind ns name =>
    obtain ⟨_, labels, revisions, revision, member, exchange, _⟩ := entitled
    exact (knows _ exchange).1
  | updateWorkload workload sent =>
    obtain ⟨ns, source, met, turns⟩ := entitled
    obtain ⟨inNs, reaches, _⟩ := fetched knows met
    have spaces : sent.ns = source.ns := congrArg Prod.fst turns.key_eq
    show scope.Reaches sent.ns
    rw [spaces, inNs]
    exact reaches
  | getRevision | listRevisions | getWorkload | listWorkloads | listHistories => exact reaches_of_within knows entitled
  | listNamespaces | seedRandom => trivial

/-- A call that is backed by true exchanges, once it is carried out, is a move. -/
theorem moves_of_entitled {request : Call} (entitled : Entitled scope known request) :
    diary.now.Moves scope diary.truths (diary.now.serve request).1 := by
  have within : known ⊆ diary.truths := fun exchange member => (knows exchange member).2
  have inside := inside_of_entitled knows entitled
  obtain ⟨⟨after, answer⟩, served⟩ : ∃ result, diary.now.serve request = result := ⟨_, rfl⟩
  rw [served]
  cases request with
  | getObject kind ns name => exact (Cluster.getObject_cases served).1 ▸ .rested
  | getRevision kind ns name => exact (Cluster.getRevision_cases served).1 ▸ .rested
  | getWorkload workload ns name => exact (Cluster.getWorkload_cases served).1 ▸ .rested
  | listRevisions | listWorkloads | listHistories | listNamespaces =>
    obtain ⟨rfl, _⟩ := Prod.mk.inj served
    exact .rested
  | seedRandom =>
    obtain ⟨rfl, _⟩ := Prod.mk.inj served
    exact .seeded
  | updateObject kind sent =>
    obtain ⟨held, holds, turns⟩ := entitled
    obtain ⟨covers, _, once⟩ := holds_known knows holds
    rcases Cluster.updateObject_cases served with ⟨rfl, _⟩ | ⟨updated, table, accepted, rfl, _⟩
    · exact .rested
    · obtain ⟨present, written⟩ := once.seen.update turns.key_eq turns.version_eq accepted
      exact .object present covers (turns.mono within) written
  | createRevision kind sent =>
    obtain ⟨held, draws, holds, _, rfl⟩ := entitled
    obtain ⟨covers, exchange, _⟩ := holds_known knows holds
    rcases Cluster.createRevision_cases served with ⟨rfl, _⟩ | ⟨created, table, accepted, rfl, _⟩
    · exact .rested
    · exact .created covers (within exchange) (Table.free_of_create accepted) (Table.written_of_create accepted)
  | updateRevision kind sent =>
    obtain ⟨source, recalls, turns⟩ := entitled
    obtain ⟨covers, once⟩ := recalled knows recalls
    rcases Cluster.updateRevision_cases served with ⟨rfl, _⟩ | ⟨updated, table, accepted, rfl, _⟩
    · exact .rested
    · obtain ⟨present, written⟩ := once.seen.update turns.key_eq turns.version_eq accepted
      exact .revision present covers turns written
  | deleteRevision kind ns name =>
    rcases Table.delete_cases (diary.now.revisions kind) (ns, name) with
      ⟨refused, _⟩ | ⟨table, accepted, later, rest⟩
    · simp only [Cluster.serve, refused] at served
      obtain ⟨rfl, _⟩ := Prod.mk.inj served
      exact .rested
    · simp only [Cluster.serve, accepted] at served
      obtain ⟨rfl, _⟩ := Prod.mk.inj served
      exact .deleted entitled.1 inside later rest
  | updateWorkload workload sent =>
    obtain ⟨ns, source, met, turns⟩ := entitled
    obtain ⟨rfl, covers, once⟩ := fetched knows met
    rcases Cluster.updateWorkload_cases served with ⟨rfl, _⟩ | ⟨updated, table, accepted, rfl, _⟩
    · exact .rested
    · obtain ⟨present, written⟩ := once.seen.update turns.key_eq turns.version_eq accepted
      exact .workload present covers (turns.mono within) written

end Known

end Chronicle

section Members

variable {scope : Scope} {known : Known} {before after : Cluster}

theorem Cluster.mem_withObjects {other : Kind} {table : Table (Object other)} {object : Object kind}
    (member : object ∈ (before.withObjects other table).objects kind) :
    object ∈ before.objects kind ∧ kind ≠ other ∨ ∃ same : kind = other, same ▸ object ∈ table := by
  by_cases same : kind = other
  · subst same
    exact Or.inr ⟨rfl, by simpa using member⟩
  · exact Or.inl ⟨by simpa [withObjects, Function.update_of_ne same] using member, same⟩

theorem Cluster.mem_withRevisions {other : Kind} {table : Table (Revision other)} {revision : Revision kind}
    (member : revision ∈ (before.withRevisions other table).revisions kind) :
    revision ∈ before.revisions kind ∧ kind ≠ other ∨ ∃ same : kind = other, same ▸ revision ∈ table := by
  by_cases same : kind = other
  · subst same
    exact Or.inr ⟨rfl, by simpa using member⟩
  · exact Or.inl ⟨by simpa [withRevisions, Function.update_of_ne same] using member, same⟩

/-- After a move an object is as it was, or it has been changed from what it was. -/
theorem Cluster.Moves.object_cases (moves : before.Moves scope known after) {object : Object kind}
    (member : object ∈ after.objects kind) : object ∈ before.objects kind ∨
      ∃ held ∈ before.objects kind, scope.objects kind (key held) ∧
        ∃ sent, held.Turns scope known sent ∧ object = stamp (version object) sent := by
  cases moves with
  | rested | seeded | created | revision | deleted | workload => exact Or.inl member
  | @object other held sent updated table present covers turns written =>
    rcases mem_withObjects member with ⟨was, _⟩ | ⟨rfl, stands⟩
    · exact Or.inl was
    · rcases (written.members object).mp stands with rfl | ⟨was, _⟩
      · exact Or.inr ⟨held, present, covers, sent, turns, written.answered⟩
      · exact Or.inl was

/-- After a move a revision is as it was, or it has been changed or created. -/
theorem Cluster.Moves.revision_cases (moves : before.Moves scope known after) {revision : Revision kind}
    (member : revision ∈ after.revisions kind) : revision ∈ before.revisions kind ∨
      (∃ source ∈ before.revisions kind, scope.Reaches source.ns ∧
        ∃ sent, source.Turns sent ∧ revision = stamp (version revision) sent) ∨
      ∃ (held : Object kind) (draws : Draws), scope.objects kind (key held) ∧
        ⟨.getObject kind held.ns held.name, .ok held⟩ ∈ known ∧
        revision = stamp (version revision) (newRevision held (randomSequence draws 5)) := by
  cases moves with
  | rested | seeded | object | workload => exact Or.inl member
  | @created other held draws created table covers exchange free written =>
    rcases mem_withRevisions member with ⟨was, _⟩ | ⟨rfl, stands⟩
    · exact Or.inl was
    · rcases (written.members revision).mp stands with rfl | ⟨was, _⟩
      · exact Or.inr (Or.inr ⟨held, draws, covers, exchange, written.answered⟩)
      · exact Or.inl was
  | @revision other source sent updated table present covers turns written =>
    rcases mem_withRevisions member with ⟨was, _⟩ | ⟨rfl, stands⟩
    · exact Or.inl was
    · rcases (written.members revision).mp stands with rfl | ⟨was, _⟩
      · exact Or.inr (Or.inl ⟨source, present, covers, sent, turns, written.answered⟩)
      · exact Or.inl was
  | @deleted other ns name table deletes covers later rest =>
    rcases mem_withRevisions member with ⟨was, _⟩ | ⟨rfl, stands⟩
    · exact Or.inl was
    · exact Or.inl ((rest revision).mp stands).1

end Members

/-- All tasks together, each run by one party as often as it likes, with calls that may fail or
lose their answers, while others change the cluster in their own way. -/
def everyone (tasks : Nat → Task) (others : Cluster → Cluster → Prop) :
    System Cluster Call Answer ApiError (Option HttpResponse) Nat where
  react _ := Cluster.Delivers
  environment := others
  starts party program := program = (tasks party).program

/-- The moves of the parties, backed by what the diary bears out. -/
def Ledger (tasks : Nat → Task) (diary : Chronicle) (party : Nat) (after : Cluster) : Prop :=
  diary.now.Moves (tasks party).scope diary.truths after

theorem conforms_ledger {tasks : Nat → Task} {others : Cluster → Cluster → Prop}
    (advances : ∀ {before after}, others before after → before.Advances after) :
    (everyone tasks others).Conforms (fun party => Entitled (tasks party).scope) (Ledger tasks)
      (fun party => Chronicle.Knows (tasks party).scope) where
  mono := Entitled.mono
  informed := by
    rintro party program rfl
    exact (tasks party).custodial
  outside changes knows := ⟨knows.1, knows.2.write (advances changes)⟩
  moved moves knows := ⟨knows.1, knows.2.write moves.advances⟩
  step := by
    intro party diary known request after answer knows entitled delivers
    have inside := Chronicle.inside_of_entitled knows entitled
    have carried := Chronicle.moves_of_entitled knows entitled
    rcases delivers with (served | ⟨rfl, error, failed⟩) | ⟨rfl, error, failed⟩
    · obtain ⟨rfl, rfl⟩ := Prod.mk.inj served
      exact ⟨carried, inside, Chronicle.bears_serve⟩
    · exact ⟨.rested, inside, Chronicle.bears_failure failed⟩
    · exact ⟨carried, inside, Chronicle.bears_failure failed⟩

/-- Every run of all tasks, however interleaved, is a run of atomic moves. -/
theorem everyone_refines {tasks : Nat → Task} {others : Cluster → Cluster → Prop}
    (advances : ∀ {before after}, others before after → before.Advances after) {start : Cluster}
    {pool : Pool Chronicle Call Answer ApiError (Option HttpResponse) Nat}
    (run : (everyone tasks others).recorded.Reaches (System.idle (.opened start)) pool) :
    pool.world.Kept others (Ledger tasks) start :=
  (conforms_ledger advances).kept run

namespace Sample

/-- Every party reconciles the settings. -/
def reconcilesSettings (_ : Nat) : Task := .job (.reconcile .configMap "shop" "settings")

def painted : Cluster := synced.withObjects .configMap edited

/-- The first party's calls, written down. -/
def noted (diary : Chronicle) (request : Call) : Chronicle × Answer request :=
  (diary.write (some 0) (diary.now.serve request).1, (diary.now.serve request).2)

theorem noted_reached (tasks : Nat → Task) (others : Cluster → Cluster → Prop) (start : Cluster) (count : Nat) :
    ∃ threads, (everyone tasks others).recorded.Reaches (System.idle (.opened start))
        ⟨((tasks 0).program.after noted count (.opened start)).1, threads⟩ ∧
      threads 0 = some ((tasks 0).program.after noted count (.opened start)).2 := by
  have started : (everyone tasks others).recorded.Reaches (System.idle (.opened start)) _ :=
    System.Reaches.started .refl 0 (tasks 0).program rfl rfl
  have flight : Function.update (System.idle (.opened start) : Pool Chronicle Call Answer ApiError
      (Option HttpResponse) Nat).threads 0 (some (tasks 0).program) 0 = some (tasks 0).program :=
    Function.update_self _ _ _
  exact ⟨_, started.calls 0 (fun diary request => ⟨_, Or.inl (Or.inl rfl), rfl⟩) count flight,
    Function.update_self _ _ _⟩

def reconciled : Chronicle :=
  ((reconcilesSettings 0).program.after noted 8 (.opened painted)).1

theorem reconciled_reached (others : Cluster → Cluster → Prop) : ∃ threads,
    (everyone reconcilesSettings others).recorded.Reaches (System.idle (.opened painted)) ⟨reconciled, threads⟩ := by
  obtain ⟨threads, run, _⟩ := noted_reached reconcilesSettings others painted 8
  exact ⟨threads, run⟩

theorem reconciled_kept : reconciled.Kept Cluster.Advances (Ledger reconcilesSettings) painted := by
  obtain ⟨threads, run⟩ := reconciled_reached Cluster.Advances
  exact everyone_refines id run

end Sample

end Configurator
