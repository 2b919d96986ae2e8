import Configurator.Independence
import Configurator.Library.Commuting

namespace Configurator

open Resource

/-- Reconcile the ConfigMaps of a queue one after the other, each with its own generator: the cluster in the
end, and how each of the runs has ended. -/
def Cluster.serveQueue (cluster : Cluster) : List (ObjectKey × Draws) → Cluster × List (Outcome ApiError Unit)
  | [] => (cluster, [])
  | (wanted, draws) :: rest =>
    let first := (cluster.drawing draws).reconcile .configMap wanted.1 wanted.2
    let others := first.1.serveQueue rest
    (others.1, first.2 :: others.2)

/-- The contents agree on a ConfigMap and on which of its versions are marked. -/
structure Contents.Agrees (contents other : Contents) (ns name : String) : Prop where
  object : contents.objects .configMap (ns, name) = other.objects .configMap (ns, name)
  marks : ∀ {label revision}, marked ns name label revision = true →
    (contents.revisions .configMap (key revision) = some revision ↔
      other.revisions .configMap (key revision) = some revision)

def Contents.after (contents : Contents) (party : Party) : Contents := party.apply contents

/-- The party finds what it found in the contents that the queue has started from. -/
structure Party.Ready (origin contents : Contents) (party : Party) : Prop where
  hosts : contents.Hosts party
  agrees : contents.Agrees origin party.ns party.name

section Parties

variable {origin contents other : Contents} {party another : Party}

/-- Two contents that agree on a ConfigMap agree on it after its reconcile. -/
theorem Contents.Agrees.after (agrees : contents.Agrees other party.ns party.name) :
    (contents.after party).Agrees (other.after party) party.ns party.name := by
  constructor
  · rw [Contents.after, Contents.after, party.apply_objects, party.apply_objects, Function.update_self,
      Function.update_self]
    apply Option.ext
    intro object
    exact overwrite_agrees (by rw [agrees.object])
  · intro label revision marks
    rw [Contents.after, Contents.after, party.apply_revisions, party.apply_revisions, Function.update_self,
      Function.update_self]
    exact overwrite_agrees (agrees.marks marks)

/-- The reconcile of one party changes nothing that another one starts from. -/
theorem Party.Apart.ready_after (apart : party.Apart another) (ready : party.Ready origin contents)
    (its : another.Ready origin contents) : another.Ready origin (contents.after party) := by
  have hosts : (contents.after party).Hosts another := apart.hosts_apply ready.hosts its.hosts
  refine ⟨hosts, ?_, fun {label revision} marks => ?_⟩
  · rw [← its.agrees.object, its.hosts.shows.object, hosts.shows.object]
  · rw [← its.agrees.marks marks]
    constructor
    · exact fun found => apart.revisions_marked ready.hosts found marks
    · intro stored
      obtain ⟨inNs, owned, _⟩ := marked_iff.mp marks
      rw [Contents.after, apart.revisions_eq ready.hosts its.hosts (.own inNs stored owned), stored]

theorem parties_independent (origin : Contents) :
    Independent Contents.after (fun contents party => party.Ready origin contents) Party.Apart where
  symm := Party.Apart.symm
  still ready its apart := apart.ready_after ready its
  comm ready its apart := apart.apply_comm ready.hosts its.hosts

end Parties

/-- The party is what the reconcile of the ConfigMap sees. -/
structure Represented (one : Object .configMap × Draws) (party : Party) : Prop where
  ns : party.ns = one.1.ns
  name : party.name = one.1.name
  version : party.version = randomSequence one.2 5
  sees : party.view.object = stamp 0 one.1
  made : party.view.object.annotations ≠ .nil

def Cluster.alone (cluster : Cluster) (one : Object .configMap × Draws) : Cluster × Outcome ApiError Unit :=
  (cluster.drawing one.2).reconcile .configMap one.1.ns one.1.name

/-- The queue as the reconciler gets it. -/
def requests (queue : List (Object .configMap × Draws)) : List (ObjectKey × Draws) :=
  queue.map fun one => ((one.1.ns, one.1.name), one.2)

section Queues

variable {cluster : Cluster} {origin : Contents} {queue again : List (Object .configMap × Draws)}
  {one other : Object .configMap × Draws} {party another : Party} {enrol : Object .configMap × Draws → Party}

theorem Reconcilable.exists_represented (reconcilable : Reconcilable cluster one.1 one.2) :
    ∃ party, Represented one party ∧ cluster.contents.Hosts party := by
  obtain ⟨party, ns, name, version, sees, hosts⟩ := reconcilable.exists_party
  refine ⟨party, ⟨ns, name, version, sees, ?_⟩, hosts⟩
  rw [sees, Object.stamp_of_mem reconcilable.held]
  exact reconcilable.made

theorem Represented.alone (represented : Represented one party) (hosts : cluster.contents.Hosts party) :
    (cluster.alone one).1.contents = cluster.contents.after party ∧
      (cluster.alone one).2 = (party.view.effect party.version).outcome := by
  have run := hosts.reconcile represented.made represented.version
  rwa [represented.ns, represented.name] at run

theorem Represented.strange (represented : Represented one party) (represents : Represented other another)
    (hosts : cluster.contents.Hosts party) (strange : NamesNoneOf cluster one.1 other.1) : party.Strange another := by
  intro target seen sameNs owned
  have found := hosts.shows.target.trans seen
  obtain ⟨stored, member, same, rfl⟩ := Table.content_eq_some.mp found
  rw [represented.sees, Object.currentVersion_stamp, represented.ns, represented.name] at same
  rw [Revision.labelled_stamp, represents.name] at owned
  exact strange stored member same (represented.ns.symm.trans (sameNs.trans represents.ns)) owned

theorem Represented.apart (represented : Represented one party) (represents : Represented other another)
    (hosts : cluster.contents.Hosts party) (others : cluster.contents.Hosts another)
    (different : (one.1.ns, one.1.name) ≠ (other.1.ns, other.1.name)) (strange : NamesNoneOf cluster one.1 other.1)
    (stranger : NamesNoneOf cluster other.1 one.1) : party.Apart another where
  different sameNs sameName := by
    apply different
    rw [← represented.ns, ← represents.ns, ← represented.name, ← represents.name, sameNs, sameName]
  strange := represented.strange represents hosts strange
  stranger := represents.strange represented others stranger

/-- The queue takes the changes of its parties, and each run ends as its party's does. -/
theorem serveQueue_parties (represented : ∀ one ∈ queue, Represented one (enrol one))
    (apart : (queue.map enrol).Pairwise Party.Apart)
    (ready : ∀ party ∈ queue.map enrol, party.Ready origin cluster.contents) :
    (cluster.serveQueue (requests queue)).1.contents = (queue.map enrol).foldl Contents.after cluster.contents ∧
      (cluster.serveQueue (requests queue)).2 =
        queue.map fun one => ((enrol one).view.effect (enrol one).version).outcome := by
  induction queue generalizing cluster with
  | nil => exact ⟨rfl, rfl⟩
  | cons first queue ih =>
    obtain ⟨itself, rest⟩ := List.forall_mem_cons.mp represented
    obtain ⟨contents, ends⟩ := itself.alone (ready _ List.mem_cons_self).hosts
    have left := (parties_independent origin).ready_rest apart ready
    rw [← contents] at left
    obtain ⟨last, others⟩ := ih rest apart.of_cons left
    constructor
    · exact last.trans (by rw [contents]; rfl)
    · exact congrArg₂ List.cons ends others

/-- The ConfigMaps of a queue with their parties, which are ready and apart. -/
theorem exists_parties (reconcilable : ∀ one ∈ queue, Reconcilable cluster one.1 one.2)
    (apart : queue.Pairwise fun one other => (one.1.ns, one.1.name) ≠ (other.1.ns, other.1.name) ∧
      NamesNoneOf cluster one.1 other.1 ∧ NamesNoneOf cluster other.1 one.1) :
    ∃ enrol, (∀ one ∈ queue, Represented one (enrol one)) ∧ (queue.map enrol).Pairwise Party.Apart ∧
      ∀ party ∈ queue.map enrol, party.Ready cluster.contents cluster.contents := by
  have exists_party : ∀ one, ∃ party, one ∈ queue → Represented one party ∧ cluster.contents.Hosts party := by
    intro one
    by_cases member : one ∈ queue
    · obtain ⟨party, represented⟩ := (reconcilable one member).exists_represented
      exact ⟨party, fun _ => represented⟩
    · exact ⟨⟨"", "", "", one.1, none, none, fun _ _ => none⟩, fun present => absurd present member⟩
  choose enrol represented using exists_party
  refine ⟨enrol, fun one member => (represented one member).1, ?_, fun party member => ?_⟩
  · refine List.pairwise_map.mpr (apart.imp_of_mem fun {one other} member present away => ?_)
    obtain ⟨different, strange, stranger⟩ := away
    obtain ⟨itself, hosts⟩ := represented one member
    obtain ⟨another, others⟩ := represented other present
    exact itself.apart another hosts others different strange stranger
  · obtain ⟨one, present, rfl⟩ := List.mem_map.mp member
    exact ⟨(represented one present).2, rfl, fun _ => Iff.rfl⟩

/-- Which order serves the queue does not matter: the cluster ends the same, each run ends as it would have
ended alone, and leaves its ConfigMap and the marks of its versions as it would have left them alone. -/
theorem queue_confluent (perm : queue.Perm again)
    (reconcilable : ∀ one ∈ queue, Reconcilable cluster one.1 one.2)
    (apart : queue.Pairwise fun one other => (one.1.ns, one.1.name) ≠ (other.1.ns, other.1.name) ∧
      NamesNoneOf cluster one.1 other.1 ∧ NamesNoneOf cluster other.1 one.1) :
    let served := cluster.serveQueue (requests queue)
    served.1.contents = (cluster.serveQueue (requests again)).1.contents ∧
      served.2 = queue.map (fun one => (cluster.alone one).2) ∧
      ∀ one ∈ queue, served.1.contents.Agrees (cluster.alone one).1.contents one.1.ns one.1.name := by
  obtain ⟨enrol, represented, parties, ready⟩ := exists_parties reconcilable apart
  have independent := parties_independent cluster.contents
  have hosts : ∀ one ∈ queue, cluster.contents.Hosts (enrol one) :=
    fun one member => (ready _ (List.mem_map_of_mem member)).hosts
  obtain ⟨contents, ends⟩ := serveQueue_parties represented parties ready
  refine ⟨?_, ?_, fun one member => ?_⟩
  · have reordered := perm.map enrol
    have others : ∀ party ∈ again.map enrol, party.Ready cluster.contents cluster.contents :=
      fun party member => ready party (reordered.mem_iff.mpr member)
    have last := serveQueue_parties (fun one member => represented one (perm.mem_iff.mpr member))
      (reordered.pairwise parties Party.Apart.symm) others
    rw [contents, last.1, independent.foldl_perm reordered parties ready]
  · rw [ends]
    exact List.map_congr_left fun one member => ((represented one member).alone (hosts one member)).2.symm
  · -- serve it last: it still finds what it would have found alone
    obtain ⟨before, itself, same⟩ := independent.foldl_last parties ready (List.mem_map_of_mem member)
    rw [contents, same, ((represented one member).alone (hosts one member)).1, ← (represented one member).ns,
      ← (represented one member).name]
    exact itself.agrees.after

end Queues

namespace Sample

/-- Beside the two ConfigMaps of `web` a third one, which has no version yet. -/
def threeOnWeb : Cluster :=
  sharedWeb.withObjects .configMap
    ⟨[onWeb "palette" "green" "ccccc", onWeb "settings" "blue" "aaaaa", onWeb "theme" "dark" "bbbbb"], 1,
      by decide, by decide, by decide⟩

def paletteJob : Object .configMap × Draws := (onWeb "palette" "green" "ccccc", drawE)

def settingsJob : Object .configMap × Draws := (onWeb "settings" "blue" "aaaaa", drawD)

def themeJob : Object .configMap × Draws := (onWeb "theme" "dark" "bbbbb", drawD)

theorem palette_threeOnWeb : Reconcilable threeOnWeb paletteJob.1 paletteJob.2 :=
  { palette_reconcilable with held := List.mem_cons_self }

theorem settings_threeOnWeb : Reconcilable threeOnWeb settingsJob.1 settingsJob.2 :=
  { settings_reconcilable with held := List.mem_cons_of_mem _ List.mem_cons_self }

theorem theme_threeOnWeb : Reconcilable threeOnWeb themeJob.1 themeJob.2 where
  held := List.mem_cons_of_mem _ (List.mem_cons_of_mem _ List.mem_cons_self)
  plain := by decide
  made := by decide
  lettered := by decide
  oneCurrent := same_of_select (by decide)
  oneLatest := by
    rintro ⟨revision, member, _, owned⟩
    rcases List.mem_pair.mp member with rfl | rfl
    · exact absurd owned (by decide)
    · exact absurd owned (by decide)
  unused := by
    intro revision member
    rcases List.mem_pair.mp member with rfl | rfl <;> decide

theorem threeOnWeb_apart : [paletteJob, settingsJob, themeJob].Pairwise fun one other =>
    (one.1.ns, one.1.name) ≠ (other.1.ns, other.1.name) ∧
      NamesNoneOf threeOnWeb one.1 other.1 ∧ NamesNoneOf threeOnWeb other.1 one.1 := by
  have strange : ∀ one ∈ [paletteJob, settingsJob, themeJob], ∀ other ∈ [paletteJob, settingsJob, themeJob],
      (one.1.ns, one.1.name) ≠ (other.1.ns, other.1.name) → NamesNoneOf threeOnWeb one.1 other.1 := by
    intro one member other present different revision stored same _
    revert revision one other
    decide
  have different : [paletteJob, settingsJob, themeJob].Pairwise fun one other =>
      (one.1.ns, one.1.name) ≠ (other.1.ns, other.1.name) := by decide
  refine different.imp_of_mem fun {one other} member present apart => ⟨apart, ?_, ?_⟩
  · exact strange one member other present apart
  · exact strange other present one member (Ne.symm apart)

/-- Each of the three starts from its own version, whichever comes first. -/
theorem threeOnWeb_confluent :
    let served := threeOnWeb.serveQueue (requests [paletteJob, settingsJob, themeJob])
    served.1.contents = (threeOnWeb.serveQueue (requests [themeJob, paletteJob, settingsJob])).1.contents ∧
      served.2 = [paletteJob, settingsJob, themeJob].map (fun one => (threeOnWeb.alone one).2) ∧
      ∀ one ∈ [paletteJob, settingsJob, themeJob],
        served.1.contents.Agrees (threeOnWeb.alone one).1.contents one.1.ns one.1.name := by
  have reconcilable : ∀ one ∈ [paletteJob, settingsJob, themeJob], Reconcilable threeOnWeb one.1 one.2 := by
    simp only [List.forall_mem_cons]
    exact ⟨palette_threeOnWeb, settings_threeOnWeb, theme_threeOnWeb, fun one member => absurd member List.not_mem_nil⟩
  have perm : [paletteJob, settingsJob, themeJob].Perm [themeJob, paletteJob, settingsJob] :=
    (List.perm_append_singleton themeJob [paletteJob, settingsJob])
  exact queue_confluent perm reconcilable threeOnWeb_apart

end Sample

end Configurator
