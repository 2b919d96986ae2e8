import Configurator.History

namespace Configurator

open Resource

namespace Represents

variable {ns name : String} {log : Log String (Spec .configMap)} {cluster : Cluster}
  {created : List (Revision .configMap)} {object : Object .configMap}

theorem committed (represents : Represents ns name log cluster created)
    (held : object ∈ cluster.objects .configMap) (inNs : object.ns = ns) (owner : object.name = name) :
    ∃ spec, (object.currentVersion, spec) ∈ log.commits ∧ object.content.data = spec.data ∧
      object.content.binaryData = spec.binaryData := by
  obtain ⟨synced, current, latest, present, inSynced, itsName, head, agrees, holds⟩ := represents.synced
  have same : synced = object :=
    Table.unique present held (Prod.ext (inSynced.trans inNs.symm) (itsName.trans owner.symm))
  subst same
  obtain ⟨inCurrent, owned, _⟩ := marked_iff.mp holds.isCurrent.2.1
  have known := holds.known current holds.isCurrent.1 inCurrent owned
  rw [holds.head, ← head] at known
  have contents : synced.content.data = current.spec.data ∧
      synced.content.binaryData = current.spec.binaryData := by
    simpa [differs] using agrees
  exact ⟨current.spec, known, contents⟩

end Represents

/-- After any rounds from a ConfigMap without CustomConfigMaps on, its content and its
version are a commit of the log that the API server holds. -/
theorem Untouched.represents {ns name : String} {cluster : Cluster} {start : Object .configMap}
    {after : Recorded} (untouched : Untouched ns name cluster start) (plain : Plain name)
    (run : Relation.TransGen (Round ns name) (cluster, []) after) :
    ∃ log, Represents ns name log after.1 after.2 := by
  obtain ⟨first, head, rest⟩ := Relation.TransGen.head'_iff.mp run
  obtain ⟨log, represents⟩ := Represents.first_round untouched head
  obtain ⟨next, _, represented⟩ := represents.rounds plain rest
  exact ⟨next, represented⟩

section Recall

variable {ns name : String} {log : Log String (Spec .configMap)} {cluster : Cluster}
  {created : List (Revision .configMap)} {edited : Object .configMap}
  {objects : Table (Object .configMap)}

/-- Naming another version of the log checks out its content. -/
theorem Represents.recalled (represents : Represents ns name log cluster created)
    (entropy : Nat → Draws) (plain : Plain name) (held : edited ∈ objects) (inNs : edited.ns = ns)
    (owner : edited.name = name)
    (other : edited.currentVersion ≠ log.head) {spec : Spec .configMap}
    (known : (edited.currentVersion, spec) ∈ log.commits) :
    let after := (cluster.changed objects entropy).reconcile .configMap ns name
    after.2 = .returned () ∧ createdSince ns name cluster after.1 = [] ∧
      (cluster.revisions .configMap).Keeps (after.1.revisions .configMap) ∧
      ∃ recalled ∈ after.1.objects .configMap, recalled.ns = ns ∧ recalled.name = name ∧
        recalled.currentVersion = edited.currentVersion ∧
        recalled.content.data = spec.data ∧ recalled.content.binaryData = spec.binaryData := by
  obtain ⟨_, current, latest, _, _, _, _, _, holds⟩ := represents.synced
  subst inNs owner
  have stored : edited ∈ (cluster.changed objects entropy).objects .configMap := by
    simpa using held
  obtain ⟨target, present, targetNs, owned, version, content⟩ := holds.stored _ known
  obtain ⟨named, filled⟩ := holds.named target present targetNs owned
  rw [version] at named filled
  have itsName : Plain (edited.name ++ "-" ++ edited.currentVersion) := by
    simp only [plain_append]
    exact ⟨⟨plain, by decide⟩, holds.plain _ (List.mem_map_of_mem known)⟩
  rw [nameValidation_of_plain itsName] at named
  have apartVersions : current.customVersion ≠ edited.currentVersion := by
    rw [holds.head]
    exact Ne.symm other
  obtain ⟨checkout⟩ := Checkout.exists_of_sole stored holds.isCurrent apartVersions present
    (Prod.ext targetNs named) version owned trivial
  have apart := checkout.apart version
  have kept : target.spec.untracked.stored = target.spec := Revision.stored_spec present
  intro after
  have ran : after = (checkout.moved, .returned ()) := Cluster.reconcile_checkout stored filled checkout
  have keeps := checkout.keeps kept holds.isCurrent.1 apart
  have stems := checkout.stems kept holds.isCurrent.1 apart
  have agrees : checkout.updated.content.data = checkout.promoted.spec.data ∧
      checkout.updated.content.binaryData = checkout.promoted.spec.binaryData := by
    simpa [differs] using checkout.agrees stored trivial
  rw [checkout.spec_promoted, kept, content] at agrees
  have sameKey := checkout.key_updated
  rw [ran]
  refine ⟨rfl, createdSince_of_stems (by simpa [Checkout.moved] using stems),
    by simpa [Checkout.moved] using keeps, checkout.updated,
    by simpa [Checkout.moved] using checkout.updating.mem, congrArg Prod.fst sameKey,
    congrArg Prod.snd sameKey, checkout.currentVersion_updated, agrees⟩

end Recall

/-- Naming a version that a ConfigMap had, and that is not the one in force, brings back the content
that it had under that version, whatever rounds have passed since and whatever content comes with
the change. No version is made for it and none is lost. -/
theorem history_recalled {ns name : String} {cluster : Cluster} {start old object edited : Object .configMap}
    {first middle : Recorded} {objects : Table (Object .configMap)} {entropy : Nat → Draws}
    {content : ConfigMapContent} (plain : Plain name) (untouched : Untouched ns name cluster start)
    (early : Relation.TransGen (Round ns name) (cluster, []) first)
    (was : old ∈ first.1.objects .configMap) (its : key old = (ns, name))
    (later : Relation.ReflTransGen (Round ns name) first middle)
    (held : object ∈ middle.1.objects .configMap) (same : key object = (ns, name))
    (other : object.currentVersion ≠ old.currentVersion)
    (accepted : (middle.1.objects .configMap).update
      ((UserEvent.choose old.currentVersion content).apply object) = .ok (edited, objects)) :
    let after := (middle.1.changed objects entropy).reconcile .configMap ns name
    after.2 = .returned () ∧ createdSince ns name middle.1 after.1 = [] ∧
      (middle.1.revisions .configMap).Keeps (after.1.revisions .configMap) ∧
      ∃ recalled ∈ after.1.objects .configMap, recalled.ns = ns ∧ recalled.name = name ∧
        recalled.currentVersion = old.currentVersion ∧ recalled.content.data = old.content.data ∧
        recalled.content.binaryData = old.content.binaryData := by
  obtain ⟨log, represents⟩ := untouched.represents plain early
  obtain ⟨spec, known, data, binaryData⟩ :=
    represents.committed was (congrArg Prod.fst its) (congrArg Prod.snd its)
  obtain ⟨grown, suffix, represented⟩ := represents.rounds plain later
  -- the commits since then are on top of the one that the old content is in
  have still : (old.currentVersion, spec) ∈ grown.commits := suffix.subset known
  obtain ⟨_, written⟩ := Table.written_of_update accepted
  have sameKey := (written.key_eq.trans (UserEvent.key_apply _ object)).trans same
  have version : edited.currentVersion = old.currentVersion := by
    rw [written.answered, Object.currentVersion_stamp, UserEvent.currentVersion_choose]
  obtain ⟨synced, _, _, present, inSynced, itsName, head, _, _⟩ := represented.synced
  have equal : synced = object :=
    Table.unique present held ((Prod.ext inSynced itsName : key synced = (ns, name)).trans same.symm)
  have elsewhere : edited.currentVersion ≠ grown.head := by
    rw [version, ← head, equal]
    exact Ne.symm other
  have recalled := represented.recalled entropy plain written.mem (congrArg Prod.fst sameKey)
    (congrArg Prod.snd sameKey) elsewhere (version ▸ still)
  rw [version, ← data, ← binaryData] at recalled
  exact recalled

namespace Sample

theorem blue_recalled :
    let after := (redSince.1.changed greenStored unversioned.entropy).reconcile .configMap "shop" "settings"
    after.2 = .returned () ∧ createdSince "shop" "settings" redSince.1 after.1 = [] ∧
      (redSince.1.revisions .configMap).Keeps (after.1.revisions .configMap) ∧
      ∃ recalled ∈ after.1.objects .configMap, recalled.ns = "shop" ∧ recalled.name = "settings" ∧
        recalled.currentVersion = "bbbbb" ∧ recalled.content.data = (GoMap.make ∅).put "colour" "blue" ∧
        recalled.content.binaryData = .nil :=
  history_recalled (by decide) untouched (.single blueOnce_round) blue_mem rfl (.single redSince_round)
    (List.mem_of_mem_head? (by rfl)) rfl (by decide) greenNamed_accepted

end Sample

end Configurator
