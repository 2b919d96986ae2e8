import Configurator.Api

namespace Configurator

open Resource

/-- The call reads or rewrites stored revisions, or it seeds the generator. -/
def Call.Relabels : Call → Prop
  | .getRevision _ _ _ => True
  | .listRevisions _ _ _ => True
  | .updateRevision _ _ => True
  | .seedRandom => True
  | _ => False

/-- Such a call, or the creation of a revision. -/
def Call.OnRevisions : Call → Prop
  | .createRevision _ _ => True
  | call => call.Relabels

/-- The call writes no revision. -/
def Call.SparesRevisions : Call → Prop
  | .createRevision _ _ => False
  | .updateRevision _ _ => False
  | .deleteRevision _ _ _ => False
  | _ => True

theorem Call.Relabels.onRevisions {call : Call} (relabels : call.Relabels) : call.OnRevisions := by
  cases call <;> first | exact relabels.elim | trivial

namespace Cluster

variable {kind : Kind} {workload : WorkloadKind} {cluster after : Cluster} {ns name : String}

private theorem settle_cases {α β : Type} {store : β → Cluster} {result : Except Refusal (α × β)}
    {answer : Except ApiError α} (settled : settle ns name cluster store result = (after, answer)) :
    (after = cluster ∧ ∃ refusal, result = .error refusal ∧
      answer = .error (refusal.error ns name)) ∨
    ∃ stored table, result = .ok (stored, table) ∧ after = store table ∧ answer = .ok stored := by
  cases result with
  | error refusal =>
    rw [settle_error, Prod.mk.injEq] at settled
    exact Or.inl ⟨settled.1.symm, refusal, rfl, settled.2.symm⟩
  | ok result =>
    obtain ⟨stored, table⟩ := result
    rw [settle_ok, Prod.mk.injEq] at settled
    exact Or.inr ⟨stored, table, rfl, settled.1.symm, settled.2.symm⟩

private theorem present_cases {α κ : Type} [Resource α κ] [DecidableEq κ] {table : Table α} {wanted : κ}
    {answer : Except ApiError α}
    (presented : present ns name cluster (table.find? wanted) = (after, answer)) :
    after = cluster ∧ ((∃ error, answer = .error error) ∨
      ∃ found ∈ table, key found = wanted ∧ answer = .ok found) := by
  cases found : table.find? wanted with
  | none =>
    rw [found, present_none, Prod.mk.injEq] at presented
    exact ⟨presented.1.symm, Or.inl ⟨_, presented.2.symm⟩⟩
  | some entry =>
    rw [found, present_some, Prod.mk.injEq] at presented
    obtain ⟨member, same⟩ := Table.find?_eq_some.mp found
    exact ⟨presented.1.symm, Or.inr ⟨entry, member, same, presented.2.symm⟩⟩

theorem getObject_cases {answer : Except ApiError (Object kind)}
    (served : cluster.serve (.getObject kind ns name) = (after, answer)) :
    after = cluster ∧ ((∃ error, answer = .error error) ∨
      ∃ object ∈ cluster.objects kind, key object = (ns, name) ∧ answer = .ok object) :=
  present_cases served

theorem getRevision_cases {answer : Except ApiError (Revision kind)}
    (served : cluster.serve (.getRevision kind ns name) = (after, answer)) :
    after = cluster ∧ ((∃ error, answer = .error error) ∨
      ∃ revision ∈ cluster.revisions kind, key revision = (ns, name) ∧ answer = .ok revision) :=
  present_cases served

theorem getWorkload_cases {answer : Except ApiError Workload}
    (served : cluster.serve (.getWorkload workload ns name) = (after, answer)) :
    after = cluster ∧ ((∃ error, answer = .error error) ∨
      ∃ stored ∈ cluster.workloads workload, key stored = (ns, name) ∧ answer = .ok stored) :=
  present_cases served

theorem listRevisions_cases {labels : List (String × String)}
    {answer : Except ApiError (List (Revision kind))}
    (served : cluster.serve (.listRevisions kind ns labels) = (after, answer)) :
    after = cluster ∧
      answer = .ok ((cluster.revisions kind).select fun revision => revision.matches ns labels) := by
  rw [serve_listRevisions, Prod.mk.injEq] at served
  exact ⟨served.1.symm, served.2.symm⟩

theorem updateObject_cases {sent : Object kind} {answer : Except ApiError (Object kind)}
    (served : cluster.serve (.updateObject kind sent) = (after, answer)) :
    (after = cluster ∧ ∃ refusal, (cluster.objects kind).update sent = .error refusal ∧
      answer = .error (refusal.error kind.plural sent.name)) ∨
    ∃ stored objects, (cluster.objects kind).update sent = .ok (stored, objects) ∧
      after = cluster.withObjects kind objects ∧ answer = .ok stored :=
  settle_cases served

theorem updateRevision_cases {sent : Revision kind} {answer : Except ApiError (Revision kind)}
    (served : cluster.serve (.updateRevision kind sent) = (after, answer)) :
    (after = cluster ∧ ∃ refusal, (cluster.revisions kind).update sent = .error refusal ∧
      answer = .error (refusal.error kind.customPlural sent.name)) ∨
    ∃ stored revisions, (cluster.revisions kind).update sent = .ok (stored, revisions) ∧
      after = cluster.withRevisions kind revisions ∧ answer = .ok stored :=
  settle_cases served

theorem createRevision_cases {sent : Revision kind} {answer : Except ApiError (Revision kind)}
    (served : cluster.serve (.createRevision kind sent) = (after, answer)) :
    (after = cluster ∧ ∃ refusal, (cluster.revisions kind).create sent = .error refusal ∧
      answer = .error (refusal.error kind.customPlural sent.name)) ∨
    ∃ stored revisions, (cluster.revisions kind).create sent = .ok (stored, revisions) ∧
      after = cluster.withRevisions kind revisions ∧ answer = .ok stored :=
  settle_cases served

/-- A call is served, or it fails and changes nothing. -/
def Reacts (cluster : Cluster) (request : Call) (after : Cluster) (answer : Answer request) : Prop :=
  cluster.serve request = (after, answer) ∨
    after = cluster ∧ ∃ error, request.failure error = some answer

private theorem present_keeps {α : Type} (found : Option α) :
    (present ns name cluster found).1 = cluster := by
  cases found <;> rfl

private theorem settle_keeps {α β γ : Type} {store : β → Cluster} (part : Cluster → γ)
    (keeps : ∀ table, part (store table) = part cluster) (result : Except Refusal (α × β)) :
    part (settle ns name cluster store result).1 = part cluster := by
  rcases result with refusal | ⟨answer, table⟩
  · rfl
  · exact keeps table

namespace Reacts

theorem getObject {answer : Except ApiError (Object kind)}
    (reacts : cluster.Reacts (.getObject kind ns name) after answer) :
    after = cluster ∧ ((∃ error, answer = .error error) ∨
      ∃ object ∈ cluster.objects kind, key object = (ns, name) ∧ answer = .ok object) := by
  rcases reacts with served | ⟨rfl, error, failed⟩
  · exact getObject_cases served
  · exact ⟨rfl, Or.inl ⟨error, (Option.some.inj failed).symm⟩⟩

theorem updateObject {sent : Object kind} {answer : Except ApiError (Object kind)}
    (reacts : cluster.Reacts (.updateObject kind sent) after answer) :
    (after = cluster ∧ ∃ error, answer = .error error) ∨
    ∃ stored objects, (cluster.objects kind).update sent = .ok (stored, objects) ∧
      after = cluster.withObjects kind objects ∧ answer = .ok stored := by
  rcases reacts with served | ⟨rfl, error, failed⟩
  · rcases updateObject_cases served with ⟨rfl, _, _, refused⟩ | accepted
    · exact Or.inl ⟨rfl, _, refused⟩
    · exact Or.inr accepted
  · exact Or.inl ⟨rfl, error, (Option.some.inj failed).symm⟩

theorem listWorkloads {answer : Except ApiError (List Workload)}
    (reacts : cluster.Reacts (.listWorkloads workload ns) after answer) :
    after = cluster ∧ ((∃ error, answer = .error error) ∨
      ∃ found, answer = .ok found ∧ ∀ stored ∈ found, stored ∈ cluster.workloads workload) := by
  rcases reacts with served | ⟨rfl, error, failed⟩
  · obtain ⟨rfl, rfl⟩ := Prod.mk.inj served
    exact ⟨rfl, Or.inr ⟨_, rfl, fun stored listed => (Table.mem_select.mp listed).1⟩⟩
  · exact ⟨rfl, Or.inl ⟨error, (Option.some.inj failed).symm⟩⟩

end Reacts

theorem serve_objects (request : Call) (spares : ∀ kind sent, request ≠ .updateObject kind sent) :
    (cluster.serve request).1.objects = cluster.objects := by
  cases request with
  | updateObject kind sent => exact absurd rfl (spares kind sent)
  | getObject | getRevision | getWorkload => exact congrArg Cluster.objects (present_keeps _)
  | createRevision | updateRevision | updateWorkload =>
    exact settle_keeps Cluster.objects (fun _ => by rfl) _
  | deleteRevision kind ns name =>
    simp only [serve]
    cases (cluster.revisions kind).delete (ns, name) <;> rfl
  | listRevisions | listWorkloads | listHistories | listNamespaces | seedRandom => rfl

theorem serve_workloads (request : Call) (spares : ∀ kind sent, request ≠ .updateWorkload kind sent) :
    (cluster.serve request).1.workloads = cluster.workloads := by
  cases request with
  | updateWorkload kind sent => exact absurd rfl (spares kind sent)
  | getObject | getRevision | getWorkload => exact congrArg Cluster.workloads (present_keeps _)
  | createRevision | updateRevision | updateObject =>
    exact settle_keeps Cluster.workloads (fun _ => by rfl) _
  | deleteRevision kind ns name =>
    simp only [serve]
    cases (cluster.revisions kind).delete (ns, name) <;> rfl
  | listRevisions | listWorkloads | listHistories | listNamespaces | seedRandom => rfl

theorem serve_revisions (request : Call) (spares : request.SparesRevisions) :
    (cluster.serve request).1.revisions = cluster.revisions := by
  cases request with
  | createRevision | updateRevision | deleteRevision => exact spares.elim
  | getObject | getRevision | getWorkload => exact congrArg Cluster.revisions (present_keeps _)
  | updateObject | updateWorkload => exact settle_keeps Cluster.revisions (fun _ => by rfl) _
  | listRevisions | listWorkloads | listHistories | listNamespaces | seedRandom => rfl

theorem Reacts.onRevisions {request : Call} {answer : Answer request} (on : request.OnRevisions)
    (reacts : cluster.Reacts request after answer) :
    after.objects = cluster.objects ∧ after.workloads = cluster.workloads := by
  rcases reacts with served | ⟨rfl, _⟩
  · have objects : (cluster.serve request).1.objects = cluster.objects :=
      serve_objects request (by rintro _ _ rfl; exact on)
    have workloads : (cluster.serve request).1.workloads = cluster.workloads :=
      serve_workloads request (by rintro _ _ rfl; exact on)
    rw [served] at objects workloads
    exact ⟨objects, workloads⟩
  · exact ⟨rfl, rfl⟩

/-- A call is carried out, or it fails without effect, or it is carried out and its answer is lost. -/
def Delivers (cluster : Cluster) (request : Call) (after : Cluster) (answer : Answer request) : Prop :=
  cluster.Reacts request after answer ∨
    after = (cluster.serve request).1 ∧ ∃ error, request.failure error = some answer

namespace Delivers

theorem getObject {answer : Except ApiError (Object kind)}
    (delivers : cluster.Delivers (.getObject kind ns name) after answer) :
    after = cluster ∧ ((∃ error, answer = .error error) ∨
      ∃ object ∈ cluster.objects kind, key object = (ns, name) ∧ answer = .ok object) := by
  rcases delivers with reacts | ⟨rfl, error, failed⟩
  · exact reacts.getObject
  · exact ⟨present_keeps _, Or.inl ⟨error, (Option.some.inj failed).symm⟩⟩

theorem updateObject {sent : Object kind} {answer : Except ApiError (Object kind)}
    (delivers : cluster.Delivers (.updateObject kind sent) after answer) :
    (after = cluster ∧ ∃ error, answer = .error error) ∨
    ∃ stored objects, (cluster.objects kind).update sent = .ok (stored, objects) ∧
      after = cluster.withObjects kind objects ∧ (answer = .ok stored ∨ ∃ error, answer = .error error) := by
  rcases delivers with reacts | ⟨rfl, error, failed⟩
  · rcases reacts.updateObject with refused | ⟨stored, objects, accepted, rfl, rfl⟩
    · exact Or.inl refused
    · exact Or.inr ⟨stored, objects, accepted, rfl, Or.inl rfl⟩
  · have lost : ∃ error, answer = .error error := ⟨error, (Option.some.inj failed).symm⟩
    rcases updateObject_cases (Prod.ext rfl rfl : cluster.serve (.updateObject kind sent) = _) with
      ⟨same, _⟩ | ⟨stored, objects, accepted, written, _⟩
    · exact Or.inl ⟨same, lost⟩
    · exact Or.inr ⟨stored, objects, accepted, written, Or.inr lost⟩

/-- A call on revisions leaves objects and workloads alone, whether it is answered or not. -/
theorem onRevisions {request : Call} {answer : Answer request} (on : request.OnRevisions)
    (delivers : cluster.Delivers request after answer) :
    after.objects = cluster.objects ∧ after.workloads = cluster.workloads := by
  rcases delivers with reacts | ⟨rfl, _⟩
  · exact reacts.onRevisions on
  · exact Reacts.onRevisions on (Or.inl rfl)

end Delivers

theorem updateWorkload_cases {sent : Workload} {answer : Except ApiError Workload}
    (served : cluster.serve (.updateWorkload workload sent) = (after, answer)) :
    (after = cluster ∧ ∃ refusal, (cluster.workloads workload).update sent = .error refusal ∧
      answer = .error (refusal.error workload.plural sent.name)) ∨
    ∃ stored workloads, (cluster.workloads workload).update sent = .ok (stored, workloads) ∧
      after = cluster.withWorkloads workload workloads ∧ answer = .ok stored :=
  settle_cases served

end Cluster

end Configurator
