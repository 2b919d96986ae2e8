import Configurator.Effects

namespace Configurator

open Resource

/-- A ConfigMap about to be reconciled: what its reconcile sees, and the version that it would give next. -/
structure Party where
  ns : String
  name : String
  version : String
  view : View

/-- The names under which the reconcile may write a revision. -/
inductive Party.Touches (party : Party) (contents : Contents) (wanted : ObjectKey) : Prop
  | own {held : Revision .configMap} (inNs : wanted.1 = party.ns)
      (stored : contents.revisions .configMap wanted = some held) (owned : held.Labelled "name" party.name)
  | new (named : wanted = (party.ns, party.name ++ "-" ++ party.version))
  | target (named : wanted = (party.ns, party.name ++ "-" ++ party.view.object.currentVersion))

/-- The contents are those that the party has seen, and its next version is new to them. -/
structure Contents.Hosts (contents : Contents) (party : Party) : Prop where
  shows : contents.Shows party.ns party.name party.view
  keyed : key party.view.object = (party.ns, party.name)
  targeted : ∀ target, party.view.target = some target →
    key target = (party.ns, party.name ++ "-" ++ party.view.object.currentVersion)
  free : contents.revisions .configMap (party.ns, party.name ++ "-" ++ party.version) = none
  plain : Plain (party.name ++ "-" ++ party.version)
  fresh : '-' ∉ party.version.toList
  pinned : '-' ∉ party.view.object.currentVersion.toList

/-- The revision that one party names is not one of the other's. -/
def Party.Strange (party other : Party) : Prop :=
  ∀ target, party.view.target = some target → party.ns = other.ns → ¬ target.Labelled "name" other.name

section Writes

variable {contents : Contents} {party other : Party} {written : Revision .configMap} {wanted : ObjectKey}

theorem Party.Touches.inNs (touches : party.Touches contents wanted) : wanted.1 = party.ns := by
  cases touches with
  | own inNs => exact inNs
  | new named => exact congrArg Prod.fst named
  | target named => exact congrArg Prod.fst named

/-- What the party writes has a name of its own, and the label of its object or of the revision that it
names. -/
structure Party.Writes (party : Party) (contents : Contents) (written : Revision .configMap) : Prop where
  touches : party.Touches contents (key written)
  labelled : ∀ value, written.Labelled "name" value → value = party.name ∨
    ∃ target, party.view.target = some target ∧ target.Labelled "name" value

theorem Contents.Carries.writes {label lost : String} {revision : Revision .configMap}
    (carries : contents.Carries party.ns party.name label revision) :
    party.Writes contents (stamp 0 (revision.unlabel lost)) := by
  obtain ⟨stored, selected, _⟩ := carries
  obtain ⟨inNs, owned, _⟩ := marked_iff.mp selected
  refine ⟨.own inNs (by simpa using stored) owned, fun value labelled => Or.inl ?_⟩
  rw [Revision.labelled_stamp, Revision.labelled_unlabel] at labelled
  exact Option.some.inj (labelled.2.symm.trans owned)

theorem Contents.Hosts.writes_new (hosts : contents.Hosts party) :
    party.Writes contents (stamp 0 (newRevision party.view.object party.version)) := by
  have inNs : party.view.object.ns = party.ns := congrArg Prod.fst hosts.keyed
  have itsName : party.view.object.name = party.name := congrArg Prod.snd hosts.keyed
  constructor
  · apply Party.Touches.new
    rw [key_stamp]
    refine Prod.ext inNs ?_
    show nameValidation (party.view.object.name ++ "-" ++ party.version) = _
    rw [itsName, nameValidation_of_plain hosts.plain]
  · intro value labelled
    rw [Revision.labelled_stamp, Table.labelled_newRevision] at labelled
    obtain ⟨impossible, _⟩ | ⟨impossible, _⟩ | ⟨_, same⟩ := labelled
    · exact absurd impossible (by decide)
    · exact absurd impossible (by decide)
    · exact Or.inl (same.trans itsName)

theorem Contents.Hosts.writes_bareLatest (hosts : contents.Hosts party) {current latest : Revision .configMap}
    (marks : party.view.marks = some (current, latest)) : party.Writes contents (bareLatest current latest) := by
  have isCurrent := hosts.shows.isCurrent _ _ marks
  have isLatest := hosts.shows.isLatest _ _ marks
  unfold bareLatest
  split
  · obtain ⟨stored, selected, _⟩ := isCurrent
    obtain ⟨inNs, owned, _⟩ := marked_iff.mp selected
    refine ⟨.own inNs (by simpa using stored) owned, fun value labelled => Or.inl ?_⟩
    rw [Revision.labelled_stamp, Revision.labelled_unlabel, Revision.labelled_stamp,
      Revision.labelled_unlabel] at labelled
    exact Option.some.inj (labelled.2.2.symm.trans owned)
  · exact isLatest.writes

theorem Contents.Hosts.writes_renewal (hosts : contents.Hosts party) {current latest : Revision .configMap}
    (marks : party.view.marks = some (current, latest)) :
    ∀ written ∈ (party.view.renewal party.version current latest).revisions, party.Writes contents written := by
  intro written member
  simp only [View.renewal, List.mem_cons, List.not_mem_nil, or_false] at member
  rcases member with rfl | rfl | rfl
  · exact (hosts.shows.isCurrent _ _ marks).writes
  · exact hosts.writes_bareLatest marks
  · exact hosts.writes_new

theorem Contents.Hosts.writes_move (hosts : contents.Hosts party) {current latest : Revision .configMap}
    (marks : party.view.marks = some (current, latest)) :
    ∀ written ∈ (party.view.move current).revisions, party.Writes contents written := by
  intro written member
  unfold View.move at member
  cases seen : party.view.target with
  | none => simp [seen] at member
  | some target =>
    simp only [seen] at member
    split at member
    · simp at member
    · simp only [List.mem_cons, List.not_mem_nil, or_false] at member
      rcases member with rfl | rfl
      · refine ⟨.target ?_, fun value labelled => Or.inr ⟨target, seen, ?_⟩⟩
        · rw [key_stamp]
          exact hosts.targeted target seen
        · simpa [Revision.Labelled, stamp] using labelled
      · exact (hosts.shows.isCurrent _ _ marks).writes

theorem Contents.Hosts.writes (hosts : contents.Hosts party) :
    ∀ written ∈ (party.view.effect party.version).revisions, party.Writes contents written := by
  intro written member
  unfold View.effect at member
  cases marks : party.view.marks with
  | none =>
    simp only [marks] at member
    split at member
    · rw [List.mem_singleton] at member
      exact member ▸ hosts.writes_new
    · simp at member
  | some both =>
    obtain ⟨current, latest⟩ := both
    simp only [marks] at member
    split_ifs at member
    · exact hosts.writes_renewal marks written member
    · simp at member
    · exact hosts.writes_move marks written member
    · exact hosts.writes_renewal marks written member
    · simp at member

/-- The only object that it writes is its ConfigMap. -/
theorem Contents.Hosts.keys (hosts : contents.Hosts party) :
    ∀ written ∈ (party.view.effect party.version).objects, key written = (party.ns, party.name) := by
  have moved : ∀ current, ∀ written ∈ (party.view.move current).objects, key written = key party.view.object := by
    intro current written member
    unfold View.move at member
    split at member
    · simp at member
    · dsimp only at member
      split at member <;> (rw [List.mem_singleton] at member; exact member ▸ rfl)
  have renewed : ∀ current latest, ∀ written ∈ (party.view.renewal party.version current latest).objects,
      key written = key party.view.object := by
    intro current latest written member
    rw [View.renewal, List.mem_singleton] at member
    exact member ▸ rfl
  intro written member
  rw [← hosts.keyed]
  unfold View.effect at member
  split at member
  · split at member
    · rw [List.mem_singleton] at member
      exact member ▸ rfl
    · simp at member
  · split_ifs at member
    · exact renewed _ _ written member
    · rw [List.mem_singleton] at member
      exact member ▸ rfl
    · exact moved _ written member
    · exact renewed _ _ written member
    · simp at member

/-- A reconcile rolls out workloads only whose template has annotations. -/
theorem View.standing_of_painted {view : View} {version called : String} {workload : WorkloadKind}
    (painted : (view.effect version).painted workload = some called) :
    view.standing workload called = some true := by
  have rolled : ∀ workload called, (view.roll workload).1 = some called →
      view.standing workload called = some true := by
    intro workload called rolled
    unfold View.roll at rolled
    split at rolled
    · cases rolled
    · split at rolled
      · cases rolled
      · split at rolled
        · cases rolled
        · cases rolled
        · cases rolled
          assumption
      · cases rolled
  have renewed : ∀ called, view.rolls.1 workload = some called → view.standing workload called = some true := by
    intro called painted
    unfold View.rolls at painted
    split at painted
    · rename_i first both
      cases workload with
      | deployment => exact rolled .deployment called (by rw [both]; exact painted)
      | statefulSet => exact rolled .statefulSet called painted
    · cases painted
  unfold View.effect at painted
  split at painted
  · split at painted <;> cases painted
  · split_ifs at painted
    · exact renewed called painted
    · rw [view.unpainted_move] at painted
      cases painted
    · exact renewed called painted

end Writes

/-- The parties are different ConfigMaps, and neither names a revision of the other. -/
structure Party.Apart (party other : Party) : Prop where
  different : party.ns = other.ns → party.name ≠ other.name
  strange : party.Strange other
  stranger : other.Strange party

theorem Party.Apart.symm {party other : Party} (apart : party.Apart other) : other.Apart party where
  different same := fun named => apart.different same.symm named.symm
  strange := apart.stranger
  stranger := apart.strange

section Apart

variable {contents : Contents} {party other : Party} {written : Revision .configMap} {wanted : ObjectKey}

private theorem own_apart {held : Revision .configMap} (different : party.name ≠ other.name)
    (strange : ∀ target, other.view.target = some target → ¬ target.Labelled "name" party.name)
    (others : contents.Hosts other) (stored : contents.revisions .configMap wanted = some held)
    (owned : held.Labelled "name" party.name) : ¬ other.Touches contents wanted := by
  intro touches
  cases touches with
  | own _ again its =>
    obtain rfl := Option.some.inj (stored.symm.trans again)
    exact different (Option.some.inj (owned.symm.trans its))
  | new named =>
    rw [named, others.free] at stored
    cases stored
  | target named =>
    rw [named, others.shows.target] at stored
    exact strange held stored owned

theorem Party.Apart.touches (apart : party.Apart other) (hosts : contents.Hosts party)
    (others : contents.Hosts other) (touches : party.Touches contents wanted) :
    ¬ other.Touches contents wanted := by
  intro again
  have sameNs : party.ns = other.ns := touches.inNs.symm.trans again.inNs
  have different := apart.different sameNs
  have strange := fun target seen => apart.stranger target seen sameNs.symm
  have stranger := fun target seen => apart.strange target seen sameNs
  cases touches with
  | own _ stored owned => exact own_apart different strange others stored owned again
  | new named =>
    cases again with
    | own inNs stored owned => exact own_apart (Ne.symm different) stranger hosts stored owned (.new named)
    | new again =>
      exact different (dashed_inj_of_absent hosts.fresh others.fresh (congrArg Prod.snd (named.symm.trans again)))
    | target again =>
      exact different (dashed_inj_of_absent hosts.fresh others.pinned (congrArg Prod.snd (named.symm.trans again)))
  | target named =>
    cases again with
    | own inNs stored owned => exact own_apart (Ne.symm different) stranger hosts stored owned (.target named)
    | new again =>
      exact different (dashed_inj_of_absent hosts.pinned others.fresh (congrArg Prod.snd (named.symm.trans again)))
    | target again =>
      exact different (dashed_inj_of_absent hosts.pinned others.pinned (congrArg Prod.snd (named.symm.trans again)))

theorem Party.Apart.unmarked (apart : party.Apart other) (writes : party.Writes contents written) (label : String) :
    marked other.ns other.name label written = false := by
  rw [marked_eq_false]
  rintro ⟨inNs, owned, _⟩
  have sameNs : party.ns = other.ns := writes.touches.inNs.symm.trans inNs
  rcases writes.labelled other.name owned with same | ⟨target, seen, labelled⟩
  · exact apart.different sameNs same.symm
  · exact apart.strange target seen sameNs labelled

section Apply

variable (hosts : contents.Hosts party) (others : contents.Hosts other) (apart : party.Apart other)

abbrev Party.apply (party : Party) (contents : Contents) : Contents :=
  (party.view.effect party.version).apply party.ns party.name party.version contents

theorem Contents.paint_objects (ns annotation version : String) (workload : WorkloadKind) (called : Option String) :
    (contents.paint ns annotation version workload called).objects = contents.objects := by
  cases called <;> rfl

theorem Contents.paint_revisions (ns annotation version : String) (workload : WorkloadKind)
    (called : Option String) :
    (contents.paint ns annotation version workload called).revisions = contents.revisions := by
  cases called <;> rfl

theorem Party.apply_revisions (party : Party) (contents : Contents) :
    (party.apply contents).revisions = Function.update contents.revisions .configMap
      (overwrite (contents.revisions .configMap) (party.view.effect party.version).revisions) := by
  simp [Party.apply, Effect.apply, Contents.paint_revisions, Effect.write]

theorem Party.apply_objects (party : Party) (contents : Contents) :
    (party.apply contents).objects = Function.update contents.objects .configMap
      (overwrite (contents.objects .configMap) (party.view.effect party.version).objects) := by
  simp [Party.apply, Effect.apply, Contents.paint_objects, Effect.write]

include hosts others apart in
/-- A revision that the other one looks for stays as it is. -/
theorem Party.Apart.revisions_eq (touches : other.Touches contents wanted) :
    (party.apply contents).revisions .configMap wanted = contents.revisions .configMap wanted := by
  rw [party.apply_revisions, Function.update_self]
  refine overwrite_of_ne fun written member same => ?_
  exact apart.touches hosts others (same ▸ (hosts.writes written member).touches) touches

include hosts apart in
/-- A revision that counts as the other one's was there before. -/
theorem Party.Apart.revisions_marked {revision : Revision .configMap} {label : String}
    (found : (party.apply contents).revisions .configMap wanted = some revision)
    (marks : marked other.ns other.name label revision = true) :
    contents.revisions .configMap wanted = some revision := by
  rw [party.apply_revisions, Function.update_self] at found
  rcases overwrite_cases found with ⟨member, _⟩ | ⟨there, _⟩
  · rw [apart.unmarked (hosts.writes revision member) label] at marks
    cases marks
  · exact there

include hosts others apart in
theorem Party.Apart.carries {label : String} {revision : Revision .configMap}
    (carries : contents.Carries other.ns other.name label revision) :
    (party.apply contents).Carries other.ns other.name label revision := by
  obtain ⟨stored, selected, sole⟩ := carries
  obtain ⟨inNs, owned, _⟩ := marked_iff.mp selected
  refine ⟨?_, selected, fun wanted again found marks => ?_⟩
  · rw [apart.revisions_eq hosts others (.own inNs stored owned), stored]
  · exact sole wanted again (apart.revisions_marked hosts found marks) marks

theorem Party.apply_histories (party : Party) (contents : Contents) :
    (party.apply contents).histories = contents.histories := by
  unfold Party.apply Effect.apply
  cases (party.view.effect party.version).painted .deployment <;>
    cases (party.view.effect party.version).painted .statefulSet <;> rfl

theorem Party.apply_namespaces (party : Party) (contents : Contents) :
    (party.apply contents).namespaces = contents.namespaces := by
  unfold Party.apply Effect.apply
  cases (party.view.effect party.version).painted .deployment <;>
    cases (party.view.effect party.version).painted .statefulSet <;> rfl

/-- What the reconcile of a party makes of the workloads of a kind. -/
def Party.repaint (party : Party) (workload : WorkloadKind) (held : ObjectKey → Option Workload) :
    ObjectKey → Option Workload :=
  match (party.view.effect party.version).painted workload with
  | none => held
  | some called => modify held (party.ns, called) fun stored => stored.carrying ("ccm-" ++ party.name) party.version

theorem Party.apply_workloads (party : Party) (contents : Contents) (workload : WorkloadKind) :
    (party.apply contents).workloads workload = party.repaint workload (contents.workloads workload) := by
  unfold Party.apply Effect.apply Party.repaint Effect.write
  cases first : (party.view.effect party.version).painted .deployment <;>
    cases second : (party.view.effect party.version).painted .statefulSet <;>
      cases workload <;> simp [Contents.paint, first, second]

include hosts in
/-- No workload comes or goes, and none loses or gets its annotations. -/
theorem Contents.Hosts.standing_apply (ns : String) (workload : WorkloadKind) (called : String) :
    (party.apply contents).standing ns workload called = contents.standing ns workload called := by
  rw [Contents.standing, Contents.standing, party.apply_workloads, Party.repaint]
  cases painted : (party.view.effect party.version).painted workload with
  | none => rfl
  | some its =>
    have stands := (hosts.shows.standing workload its).trans (View.standing_of_painted painted)
    dsimp only
    rw [modify_apply]
    split
    · rename_i same
      rw [Contents.standing, ← same] at stands
      obtain ⟨stored, found, made⟩ := Option.map_eq_some_iff.mp stands
      rw [found, Option.map_some, Option.map_some, Option.map_some, made]
      simp [Workload.carrying]
    · rfl

include hosts others apart in
/-- After the reconcile of one party the other one still sees what it saw. -/
theorem Party.Apart.hosts_apply : (party.apply contents).Hosts other where
  shows :=
    { object := by
        rw [party.apply_objects, Function.update_self, overwrite_of_ne, others.shows.object]
        intro written member same
        have keys := (hosts.keys written member).symm.trans same
        exact apart.different (congrArg Prod.fst keys) (congrArg Prod.snd keys)
      unmarked := by
        intro none wanted revision found
        by_contra marks
        rw [Bool.not_eq_false] at marks
        have there := apart.revisions_marked hosts found marks
        rw [others.shows.unmarked none wanted revision there] at marks
        cases marks
      isCurrent := fun current latest marks => apart.carries hosts others (others.shows.isCurrent _ _ marks)
      isLatest := fun current latest marks => apart.carries hosts others (others.shows.isLatest _ _ marks)
      target := by rw [apart.revisions_eq hosts others (.target rfl), others.shows.target]
      standing := fun workload called =>
        (hosts.standing_apply other.ns workload called).trans (others.shows.standing workload called) }
  keyed := others.keyed
  targeted := others.targeted
  free := by rw [apart.revisions_eq hosts others (.new rfl), others.free]
  plain := others.plain
  fresh := others.fresh
  pinned := others.pinned

/-- Two versions are written into one template under different annotations. -/
theorem Workload.carrying_comm {first second : String} (different : first ≠ second) (one other : String)
    (workload : Workload) :
    (workload.carrying second other).carrying first one = (workload.carrying first one).carrying second other := by
  simp only [Workload.carrying, GoMap.put_comm different]

include apart in
theorem Party.Apart.repaint_comm (workload : WorkloadKind) (held : ObjectKey → Option Workload) :
    other.repaint workload (party.repaint workload held) = party.repaint workload (other.repaint workload held) := by
  unfold Party.repaint
  cases (party.view.effect party.version).painted workload with
  | none => rfl
  | some first =>
    cases (other.view.effect other.version).painted workload with
    | none => rfl
    | some second =>
      refine modify_comm fun same => Workload.carrying_comm ?_ _ _
      intro annotations
      exact apart.different (congrArg Prod.fst same) (String.append_right_inj "ccm-" |>.mp annotations)

include hosts others apart in
theorem Party.Apart.apply_comm :
    other.apply (party.apply contents) = party.apply (other.apply contents) := by
  have objects := @overwrite_comm _ _ _ _ (contents.objects .configMap)
    (party.view.effect party.version).objects (other.view.effect other.version).objects (by
      intro one written another rewritten same
      have keys := ((hosts.keys one written).symm.trans same).trans (others.keys another rewritten)
      exact apart.different (congrArg Prod.fst keys) (congrArg Prod.snd keys))
  have revisions := @overwrite_comm _ _ _ _ (contents.revisions .configMap)
    (party.view.effect party.version).revisions (other.view.effect other.version).revisions (by
      intro one written another rewritten same
      have again := (others.writes another rewritten).touches
      exact apart.touches hosts others (hosts.writes one written).touches (same ▸ again))
  refine Contents.ext ?_ ?_ (funext fun workload => ?_) ?_ ?_
  · simp only [Party.apply_objects, Function.update_self, Function.update_idem, objects]
  · simp only [Party.apply_revisions, Function.update_self, Function.update_idem, revisions]
  · simp only [Party.apply_workloads, apart.repaint_comm]
  · simp only [Party.apply_histories]
  · simp only [Party.apply_namespaces]

end Apply

end Apart

/-- The cluster with a generator in hand. -/
def Cluster.drawing (cluster : Cluster) (draws : Draws) : Cluster :=
  { cluster with entropy := fun _ => draws }

/-- Reconcile two ConfigMaps one after the other, each with its own generator: the cluster in the end,
and how each of the two runs has ended. -/
def Cluster.reconcileBoth (cluster : Cluster) (first second : ObjectKey × Draws) :
    Cluster × Outcome ApiError Unit × Outcome ApiError Unit :=
  let one := (cluster.drawing first.2).reconcile .configMap first.1.1 first.1.2
  let two := (one.1.drawing second.2).reconcile .configMap second.1.1 second.1.2
  (two.1, one.2, two.2)

/-- The text is over `a-z` and `0-9`. -/
def Lettered (text : String) : Prop := ∀ letter ∈ text.toList, letter ∈ letters

instance (text : String) : Decidable (Lettered text) :=
  List.decidableBAll (fun letter => letter ∈ letters) text.toList

/-- A ConfigMap with at most one current revision and one latest one, if it has any, and a generator
whose version is new. -/
structure Reconcilable (cluster : Cluster) (object : Object .configMap) (draws : Draws) : Prop where
  held : object ∈ cluster.objects .configMap
  plain : Plain object.name
  made : object.annotations ≠ .nil
  lettered : Lettered object.currentVersion
  oneCurrent : ∀ first ∈ cluster.revisions .configMap, ∀ second ∈ cluster.revisions .configMap,
    marked object.ns object.name "current" first = true → marked object.ns object.name "current" second = true →
      first = second
  oneLatest : (∃ revision ∈ cluster.revisions .configMap,
      revision.ns = object.ns ∧ revision.Labelled "name" object.name) →
    ∃ latest, (cluster.revisions .configMap).Sole (marked object.ns object.name "latest") latest
  unused : cluster.Unused .configMap object.ns object.name (randomSequence draws 5)

/-- The revision stored under the name of the ConfigMap and its version is not one of the other's. -/
def NamesNoneOf (cluster : Cluster) (object other : Object .configMap) : Prop :=
  ∀ revision ∈ cluster.revisions .configMap,
    key revision = (object.ns, object.name ++ "-" ++ object.currentVersion) → object.ns = other.ns →
      ¬ revision.Labelled "name" other.name

section Parties

variable {cluster : Cluster} {object x y : Object .configMap} {draws drawsX drawsY : Draws}

theorem Cluster.carries_of_sole {ns name label : String} {revision : Revision .configMap}
    (sole : (cluster.revisions .configMap).Sole (marked ns name label) revision) :
    cluster.contents.Carries ns name label (stamp 0 revision) := by
  refine ⟨Table.content_of_mem sole.1, by rw [marked_stamp, sole.2.1], fun wanted other found marks => ?_⟩
  obtain ⟨stored, member, _, rfl⟩ := Table.content_eq_some.mp found
  rw [marked_stamp] at marks
  rw [sole.2.2 stored member marks]

/-- The marks of a ConfigMap, as its reconcile sees them. -/
theorem Reconcilable.exists_marks (reconcilable : Reconcilable cluster object draws) :
    ∃ marks : Option (Revision .configMap × Revision .configMap),
      (marks = none → ∀ wanted revision, cluster.contents.revisions .configMap wanted = some revision →
        marked object.ns object.name "current" revision = false) ∧
      ∀ current latest, marks = some (current, latest) →
        cluster.contents.Carries object.ns object.name "current" current ∧
          cluster.contents.Carries object.ns object.name "latest" latest := by
  by_cases some : ∃ current ∈ cluster.revisions .configMap,
      marked object.ns object.name "current" current = true
  · obtain ⟨current, member, selected⟩ := some
    obtain ⟨inNs, owned, _⟩ := marked_iff.mp selected
    obtain ⟨latest, isLatest⟩ := reconcilable.oneLatest ⟨current, member, inNs, owned⟩
    have isCurrent : (cluster.revisions .configMap).Sole (marked object.ns object.name "current") current :=
      ⟨member, selected, fun other present marks =>
        reconcilable.oneCurrent other present current member marks selected⟩
    refine ⟨.some (stamp 0 current, stamp 0 latest), nofun, fun seenCurrent seenLatest same => ?_⟩
    cases same
    exact ⟨Cluster.carries_of_sole isCurrent, Cluster.carries_of_sole isLatest⟩
  · refine ⟨none, fun _ wanted revision found => ?_, nofun⟩
    obtain ⟨stored, member, _, rfl⟩ := Table.content_eq_some.mp found
    rw [marked_stamp]
    by_contra marks
    exact some ⟨stored, member, by simpa using marks⟩

theorem dash_notMem_of_lettered {text : String} (lettered : Lettered text) : '-' ∉ text.toList := by
  have undashed : '-' ∉ letters := by decide
  exact fun member => undashed (lettered '-' member)

theorem Reconcilable.exists_party (reconcilable : Reconcilable cluster object draws) :
    ∃ party : Party, party.ns = object.ns ∧ party.name = object.name ∧ party.version = randomSequence draws 5 ∧
      party.view.object = stamp 0 object ∧ cluster.contents.Hosts party := by
  obtain ⟨marks, unmarked, marked⟩ := reconcilable.exists_marks
  have plain : Plain (object.name ++ "-" ++ randomSequence draws 5) :=
    plain_append.mpr ⟨plain_append.mpr ⟨reconcilable.plain, by decide⟩, plain_randomSequence draws 5⟩
  have version : (stamp 0 object).currentVersion = object.currentVersion := Object.currentVersion_stamp 0 object
  refine ⟨⟨object.ns, object.name, randomSequence draws 5, {
    object := stamp 0 object
    marks
    target := cluster.contents.revisions .configMap (object.ns, object.name ++ "-" ++ object.currentVersion)
    standing := cluster.contents.standing object.ns }⟩, rfl, rfl, rfl, rfl, ?_⟩
  constructor
  · exact
      { object := Table.content_of_mem reconcilable.held
        unmarked
        isCurrent := fun current latest both => (marked current latest both).1
        isLatest := fun current latest both => (marked current latest both).2
        target := by rw [version]
        standing := fun _ _ => rfl }
  · rfl
  · intro target seen
    obtain ⟨stored, _, same, rfl⟩ := Table.content_eq_some.mp seen
    rw [key_stamp, same, version]
  · refine Table.content_eq_none.mpr fun revision member => ?_
    have unused := reconcilable.unused revision member
    rwa [nameValidation_of_plain plain] at unused
  · exact plain
  · exact dash_notMem_randomSequence draws 5
  · rw [version]
    exact dash_notMem_of_lettered reconcilable.lettered

theorem Contents.Hosts.reconcile {party : Party} (hosts : cluster.contents.Hosts party)
    (made : party.view.object.annotations ≠ .nil) (version : party.version = randomSequence draws 5) :
    ((cluster.drawing draws).reconcile .configMap party.ns party.name).1.contents = party.apply cluster.contents ∧
      ((cluster.drawing draws).reconcile .configMap party.ns party.name).2 =
        (party.view.effect party.version).outcome := by
  have unused : (cluster.drawing draws).Unused .configMap party.ns party.name (cluster.drawing draws).nextVersion := by
    intro revision member same
    have free := Table.content_eq_none.mp hosts.free revision member
    have drawn : (cluster.drawing draws).nextVersion = party.version := version.symm
    rw [drawn, nameValidation_of_plain hosts.plain] at same
    exact free same
  have performs := @reconcile_performs (cluster.drawing draws) party.ns party.name party.view hosts.shows made unused
  have drawn : (cluster.drawing draws).nextVersion = party.version := version.symm
  rw [drawn] at performs
  exact performs

theorem Contents.Hosts.reconcileBoth {party other : Party} (hosts : cluster.contents.Hosts party)
    (others : cluster.contents.Hosts other) (apart : party.Apart other)
    (made : party.view.object.annotations ≠ .nil) (alsoMade : other.view.object.annotations ≠ .nil)
    (version : party.version = randomSequence drawsX 5) (itsVersion : other.version = randomSequence drawsY 5) :
    let both := cluster.reconcileBoth ((party.ns, party.name), drawsX) ((other.ns, other.name), drawsY)
    both.1.contents = other.apply (party.apply cluster.contents) ∧
      both.2 = ((party.view.effect party.version).outcome, (other.view.effect other.version).outcome) := by
  obtain ⟨contents, ends⟩ := hosts.reconcile made version
  have still := apart.hosts_apply hosts others
  rw [← contents] at still
  obtain ⟨last, itsEnd⟩ := still.reconcile alsoMade itsVersion
  rw [contents] at last
  exact ⟨last, Prod.ext ends itsEnd⟩

/-- The reconciles of two different ConfigMaps commute, unless one of them names a revision of the other. -/
theorem reconcile_comm (reconcilableX : Reconcilable cluster x drawsX) (reconcilableY : Reconcilable cluster y drawsY)
    (different : (x.ns, x.name) ≠ (y.ns, y.name)) (strange : NamesNoneOf cluster x y)
    (stranger : NamesNoneOf cluster y x) :
    let xFirst := cluster.reconcileBoth ((x.ns, x.name), drawsX) ((y.ns, y.name), drawsY)
    let yFirst := cluster.reconcileBoth ((y.ns, y.name), drawsY) ((x.ns, x.name), drawsX)
    xFirst.1.contents = yFirst.1.contents ∧ xFirst.2.1 = yFirst.2.2 ∧ xFirst.2.2 = yFirst.2.1 := by
  obtain ⟨partyX, nsX, nameX, versionX, seesX, hostsX⟩ := reconcilableX.exists_party
  obtain ⟨partyY, nsY, nameY, versionY, seesY, hostsY⟩ := reconcilableY.exists_party
  have strangers : ∀ {object other : Object .configMap} {party another : Party}, party.ns = object.ns →
      party.name = object.name → another.ns = other.ns → another.name = other.name →
      party.view.object = stamp 0 object → cluster.contents.Hosts party → NamesNoneOf cluster object other →
        party.Strange another := by
    intro object other party another ns name otherNs otherName sees hosts strange target seen sameNs owned
    have found := hosts.shows.target.trans seen
    obtain ⟨stored, member, same, rfl⟩ := Table.content_eq_some.mp found
    rw [sees, Object.currentVersion_stamp, ns, name] at same
    rw [Revision.labelled_stamp, otherName] at owned
    exact strange stored member same (ns.symm.trans (sameNs.trans otherNs)) owned
  have apart : partyX.Apart partyY := by
    refine ⟨fun sameNs sameName => different (Prod.ext ?_ ?_),
      strangers nsX nameX nsY nameY seesX hostsX strange, strangers nsY nameY nsX nameX seesY hostsY stranger⟩
    · rw [← nsX, ← nsY, sameNs]
    · rw [← nameX, ← nameY, sameName]
  have madeX : partyX.view.object.annotations ≠ .nil := by
    rw [seesX, Object.stamp_of_mem reconcilableX.held]
    exact reconcilableX.made
  have madeY : partyY.view.object.annotations ≠ .nil := by
    rw [seesY, Object.stamp_of_mem reconcilableY.held]
    exact reconcilableY.made
  obtain ⟨contents, ends⟩ := hostsX.reconcileBoth hostsY apart madeX madeY versionX versionY
  obtain ⟨again, itsEnd⟩ := hostsY.reconcileBoth hostsX apart.symm madeY madeX versionY versionX
  rw [nsX, nameX, nsY, nameY] at contents ends again itsEnd
  intro xFirst yFirst
  refine ⟨contents.trans ((apart.apply_comm hostsX hostsY).trans again.symm), ?_, ?_⟩
  · exact (congrArg Prod.fst ends).trans (congrArg Prod.snd itsEnd).symm
  · exact (congrArg Prod.snd ends).trans (congrArg Prod.fst itsEnd).symm

end Parties

namespace Sample

theorem same_of_select {α κ : Type} [Resource α κ] {table : Table α} {selects : α → Bool}
    (short : (table.select selects).length ≤ 1) : ∀ first ∈ table, ∀ second ∈ table,
      selects first = true → selects second = true → first = second := by
  intro first member second present isFirst isSecond
  have one := Table.mem_select.mpr ⟨member, isFirst⟩
  have other := Table.mem_select.mpr ⟨present, isSecond⟩
  match listed : table.select selects, short with
  | [], _ => simp [listed] at one
  | [only], _ =>
    rw [listed, List.mem_singleton] at one other
    exact one.trans other.symm

def drawE : Draws := fun _ => ⟨4, by decide⟩

/-- A ConfigMap that registers the Deployment `web`. -/
def onWeb (name text version : String) : Object .configMap :=
  { configMap name text version 1 with
    annotations := (configMap name text version 1).annotations.put "deployments" "web" }

/-- Two edited ConfigMaps that one Deployment takes its environment from. -/
def sharedWeb : Cluster :=
  (shop ⟨[onWeb "palette" "green" "ccccc", onWeb "settings" "blue" "aaaaa"], 1,
      by decide, by decide, by decide⟩
    ⟨[ccm "palette" "white" "ccccc" ["current", "latest"] 1, ccm "settings" "red" "aaaaa" ["current", "latest"] 1], 1,
      by decide, by decide, by decide⟩).withWorkloads .deployment
    ⟨[{ ns := "shop", name := "web", selector := ⟨.nil, []⟩,
        template := ⟨((GoMap.make ∅).put "ccm-palette" "ccccc").put "ccm-settings" "aaaaa", ⟨[], [], []⟩⟩,
        resourceVersion := 1 }], 1, by decide, by decide, by decide⟩

theorem settings_reconcilable : Reconcilable sharedWeb (onWeb "settings" "blue" "aaaaa") drawD where
  held := List.mem_cons_of_mem _ (List.mem_singleton_self _)
  plain := by decide
  made := by decide
  lettered := by decide
  oneCurrent := same_of_select (by decide)
  oneLatest _ := ⟨ccm "settings" "red" "aaaaa" ["current", "latest"] 1, Table.select_eq_singleton.mp (by decide)⟩
  unused := by
    intro revision member
    rcases List.mem_pair.mp member with rfl | rfl <;> decide

theorem palette_reconcilable : Reconcilable sharedWeb (onWeb "palette" "green" "ccccc") drawE where
  held := List.mem_cons_self
  plain := by decide
  made := by decide
  lettered := by decide
  oneCurrent := same_of_select (by decide)
  oneLatest _ := ⟨ccm "palette" "white" "ccccc" ["current", "latest"] 1, Table.select_eq_singleton.mp (by decide)⟩
  unused := by
    intro revision member
    rcases List.mem_pair.mp member with rfl | rfl <;> decide

theorem sharedWeb_comm :
    let xFirst := sharedWeb.reconcileBoth (("shop", "settings"), drawD) (("shop", "palette"), drawE)
    let yFirst := sharedWeb.reconcileBoth (("shop", "palette"), drawE) (("shop", "settings"), drawD)
    xFirst.1.contents = yFirst.1.contents ∧ xFirst.2.1 = yFirst.2.2 ∧ xFirst.2.2 = yFirst.2.1 := by
  have settings : NamesNoneOf sharedWeb (onWeb "settings" "blue" "aaaaa") (onWeb "palette" "green" "ccccc") := by
    intro revision member same _
    rcases List.mem_pair.mp member with rfl | rfl
    · exact absurd same (by decide)
    · decide
  have palette : NamesNoneOf sharedWeb (onWeb "palette" "green" "ccccc") (onWeb "settings" "blue" "aaaaa") := by
    intro revision member same _
    rcases List.mem_pair.mp member with rfl | rfl
    · decide
    · exact absurd same (by decide)
  have comm := reconcile_comm settings_reconcilable palette_reconcilable (by decide) settings palette
  exact comm

/-- `settings` names a CustomConfigMap that carries the label of `palette`. -/
def strangers : Cluster :=
  shop ⟨[configMap "palette" "green" "ccccc" 1, settings "red" "bbbbb" 1], 1, by decide, by decide, by decide⟩
    ⟨[ccm "settings" "red" "aaaaa" ["current", "latest"] 1,
      { ccm "settings" "white" "bbbbb" ["latest"] 1 with
        labels := ((GoMap.make ∅).put "name" "palette").put "latest" "true" }], 1,
      by decide, by decide, by decide⟩

theorem strangers_reconcilable :
    Reconcilable strangers (settings "red" "bbbbb" 1) drawD ∧
      Reconcilable strangers (configMap "palette" "green" "ccccc" 1) drawE := by
  have settings : Reconcilable strangers (settings "red" "bbbbb" 1) drawD :=
    { held := List.mem_cons_of_mem _ (List.mem_singleton_self _)
      plain := by decide
      made := by decide
      lettered := by decide
      oneCurrent := same_of_select (by decide)
      oneLatest := fun _ => ⟨_, Table.select_eq_singleton.mp
        (show _ = [ccm "settings" "red" "aaaaa" ["current", "latest"] 1] by decide)⟩
      unused := by
        intro revision member
        rcases List.mem_pair.mp member with rfl | rfl <;> decide }
  have palette : Reconcilable strangers (configMap "palette" "green" "ccccc" 1) drawE :=
    { held := List.mem_cons_self
      plain := by decide
      made := by decide
      lettered := by decide
      oneCurrent := same_of_select (by decide)
      oneLatest := fun _ => ⟨_, Table.select_eq_singleton.mp
        (show _ = [{ ccm "settings" "white" "bbbbb" ["latest"] 1 with
          labels := ((GoMap.make ∅).put "name" "palette").put "latest" "true" }] by decide)⟩
      unused := by
        intro revision member
        rcases List.mem_pair.mp member with rfl | rfl <;> decide }
  exact ⟨settings, palette⟩

/-- Reconciling `settings` first makes the reconcile of `palette` fail. -/
theorem strangers_not_comm : ¬ ∀ (cluster : Cluster) (x y : Object .configMap) (drawsX drawsY : Draws),
    Reconcilable cluster x drawsX → Reconcilable cluster y drawsY → (x.ns, x.name) ≠ (y.ns, y.name) →
      (∀ revision ∈ cluster.revisions .configMap, Lettered revision.customVersion) →
      (∀ workload, ∀ stored ∈ cluster.workloads workload, stored.template.annotations ≠ .nil) →
      let xFirst := cluster.reconcileBoth ((x.ns, x.name), drawsX) ((y.ns, y.name), drawsY)
      let yFirst := cluster.reconcileBoth ((y.ns, y.name), drawsY) ((x.ns, x.name), drawsX)
      xFirst.1.contents = yFirst.1.contents ∧ xFirst.2.1 = yFirst.2.2 ∧ xFirst.2.2 = yFirst.2.1 := by
  intro commutes
  have lettered : ∀ revision ∈ strangers.revisions .configMap, Lettered revision.customVersion := by
    intro revision member
    rcases List.mem_pair.mp member with rfl | rfl <;> decide
  obtain ⟨_, _, same⟩ := commutes strangers (settings "red" "bbbbb" 1) (configMap "palette" "green" "ccccc" 1)
    drawD drawE strangers_reconcilable.1 strangers_reconcilable.2 (by decide) lettered
    (fun _ _ member => absurd member List.not_mem_nil)
  have fails : (strangers.reconcileBoth (("shop", "settings"), drawD) (("shop", "palette"), drawE)).2.2 =
      .failed (.notFound Kind.configMap.customPlural "palette-ccccc") := by rfl
  have returns : (strangers.reconcileBoth (("shop", "palette"), drawE) (("shop", "settings"), drawD)).2.1 =
      .returned () := by rfl
  cases fails.symm.trans (same.trans returns)

end Sample

end Configurator
