import Configurator.Keeping
import Configurator.Ledger
import Configurator.Scaling

namespace Configurator

open Resource

variable {kind : Kind} {workload : WorkloadKind} {known more : Known} {ns name : String}

section Programs

theorem hears_getObject : (getObject kind ns name).Informed listening
    (fun more object => ⟨.getObject kind ns name, .ok object⟩ ∈ more) known :=
  ⟨trivial, fun _ => .ofExcept fun _ found => Or.inr (found ▸ rfl)⟩

theorem hears_updateObject {sent : Object kind} : (updateObject sent).Informed listening
    (fun more stored => ⟨.updateObject kind sent, .ok stored⟩ ∈ more) known :=
  ⟨trivial, fun _ => .ofExcept fun _ accepted => Or.inr (accepted ▸ rfl)⟩

theorem hears_any {α : Type} (program : Client α) : program.Informed listening (fun _ _ => True) known := by
  induction program generalizing known with
  | ret | fail | panic => trivial
  | call request next ih => exact ⟨trivial, fun answer => ih answer⟩

/-- The object of this name was heard to name the version: it was read so, or written so. -/
inductive Named (known : Known) (kind : Kind) (ns name version : String) : Prop where
  | read {object : Object kind} (exchange : ⟨.getObject kind ns name, .ok object⟩ ∈ known)
      (names : object.currentVersion = version)
  | wrote {object sent stored : Object kind} (exchange : ⟨.getObject kind ns name, .ok object⟩ ∈ known)
      (written : ⟨.updateObject kind sent, .ok stored⟩ ∈ known) (same : key sent = key object)
      (names : sent.currentVersion = version)

theorem Named.mono {version : String} (within : known ⊆ more) (named : Named known kind ns name version) :
    Named more kind ns name version := by
  cases named with
  | read exchange names => exact .read (within exchange) names
  | wrote exchange written same names => exact .wrote (within exchange) (within written) same names

/-- A roll-back that succeeds has written the object with the version that it was given. -/
theorem hears_copyRevision {object : Object kind} :
    (PodWebhook.copyRevision object).Informed listening (fun more _ => ∃ sent stored : Object kind,
      ⟨.updateObject kind sent, .ok stored⟩ ∈ more ∧ key sent = key object ∧
        sent.currentVersion = object.currentVersion) known := by
  refine (hears_any (getRevision kind object.ns (object.name ++ "-" ++ object.currentVersion))).bind
    fun revision _ _ _ => ?_
  cases copied : PodWebhook.restore? object revision with
  | none => trivial
  | some restored =>
    have kept := PodWebhook.restored_of_restore? copied
    refine hears_updateObject.bind fun stored _ _ written => ?_
    refine (hears_any _).weaken fun _ last within _ => ?_
    exact ⟨restored, stored, within written, kept.key, kept.current⟩

theorem hears_matchVersion {pod : Pod} {object : Object kind}
    (exchange : ⟨.getObject kind pod.ns name, .ok object⟩ ∈ known) :
    (matchVersion pod name object).Informed listening
      (fun more _ => Named more kind pod.ns name (pod.annotations.index (kind.tag ++ name))) known := by
  unfold matchVersion
  dsimp only
  split
  · rename_i same
    exact .read exchange same.symm
  · cases assigned : object.annotations.assign? kind.versionKey (pod.annotations.index (kind.tag ++ name)) with
    | none => trivial
    | some annotations =>
      have names : ({ object with annotations := annotations } : Object kind).currentVersion =
          pod.annotations.index (kind.tag ++ name) := by
        rw [GoMap.eq_put_of_assign? assigned]
        simp [Object.currentVersion]
      refine hears_copyRevision.weaken fun _ more within post => ?_
      obtain ⟨sent, stored, written, keys, versions⟩ := post
      exact .wrote (within exchange) written keys (versions.trans names)

theorem hears_validateReference {pod : Pod} (strict : pod.tolerated = false) :
    (validateReference pod kind name).Informed listening (fun more message => message = none →
      Named more kind pod.ns name (pod.annotations.index (kind.tag ++ name))) known := by
  refine Program.Informed.call trivial fun answer more _ told => ?_
  cases answer with
  | error error =>
    show Program.Informed listening _ (if pod.tolerated then _ else _) more
    rw [strict]
    intro impossible
    cases impossible
  | ok object =>
    refine (hears_matchVersion (told rfl)).attempted.bind fun answer last _ post => ?_
    cases answer with
    | ok value => exact fun _ => post value rfl
    | error error =>
      show Program.Informed listening _ (pure (if pod.tolerated then none else some error.text)) last
      rw [strict]
      intro impossible
      cases impossible

theorem hears_validateReferences {pod : Pod} (strict : pod.tolerated = false) (references : List (Kind × String)) :
    (validateReferences pod references).Informed listening (fun more response => ∀ patch, response = .allowed patch →
      ∀ kind name, (kind, name) ∈ references →
        Named more kind pod.ns name (pod.annotations.index (kind.tag ++ name))) known := by
  induction references generalizing known with
  | nil => exact fun _ _ _ _ member => absurd member List.not_mem_nil
  | cons reference rest ih =>
    obtain ⟨kind, name⟩ := reference
    refine (hears_validateReference strict).bind fun message more _ post => ?_
    cases message with
    | some text =>
      intro patch impossible
      cases impossible
    | none =>
      refine ih.weaken fun response last within others patch allowed other otherName member => ?_
      rcases List.mem_cons.mp member with same | later
      · obtain ⟨rfl, rfl⟩ := Prod.mk.inj same
        exact (post rfl).mono within
      · exact others patch allowed other otherName later

/-- A pod that is allowed pins versions that its objects were heard to name. -/
theorem hears_configValidation {pod : Pod} (strict : pod.tolerated = false)
    (enrolled : pod.annotations.index "config-sync-controller" = "configurator") :
    (configValidation pod).Informed listening (fun more response => ∀ patch, response = .allowed patch →
      ∀ kind name, (kind, name) ∈ pod.spec.references →
        Named more kind pod.ns name (pod.annotations.index (kind.tag ++ name))) known := by
  unfold configValidation
  rw [if_pos enrolled]
  exact hears_validateReferences strict _

/-- A workload was registered on the object of this name, which was heard to be stored so. -/
def Enlisted (known : Known) (workload : WorkloadKind) (owner ns name : String) (stored : Object kind) : Prop :=
  ∃ object : Object kind, ⟨.getObject kind ns name, .ok object⟩ ∈ known ∧
    ⟨.updateObject kind (register workload owner object), .ok stored⟩ ∈ known

theorem Enlisted.mono {owner : String} {stored : Object kind} (within : known ⊆ more)
    (enlisted : Enlisted known workload owner ns name stored) : Enlisted more workload owner ns name stored := by
  obtain ⟨object, exchange, written⟩ := enlisted
  exact ⟨object, within exchange, within written⟩

/-- Each annotation is the pin of an object that the workload was registered on. -/
def Backed (known : Known) (workload : WorkloadKind) (sent : Workload) (added : GoMap String) : Prop :=
  ∀ label version, added.lookup label = some version → ∃ (kind : Kind) (name : String) (stored : Object kind),
    Enlisted known workload sent.name sent.ns name stored ∧ label = kind.tag ++ stored.name ∧
      version = stored.currentVersion

variable {sent : Workload} {added : GoMap String}

theorem Backed.mono (within : known ⊆ more) (backed : Backed known workload sent added) :
    Backed more workload sent added := by
  intro label version found
  obtain ⟨kind, name, stored, enlisted, same⟩ := backed label version found
  exact ⟨kind, name, stored, enlisted.mono within, same⟩

theorem hears_pin : (pin workload sent kind name).Informed listening (fun more answer => ∃ stored : Object kind,
    Enlisted more workload sent.name sent.ns name stored ∧
      answer = (kind.tag ++ stored.name, stored.currentVersion)) known := by
  refine hears_getObject.bind fun object _ _ exchange => ?_
  refine hears_updateObject.bind fun stored _ within written => ?_
  exact ⟨stored, ⟨object, within exchange, written⟩, rfl⟩

/-- What the loops of a handler add is backed, and nothing that they add gets lost. -/
theorem hears_newAnnotations (references : List (Kind × String)) (backed : Backed known workload sent added) :
    (newAnnotations workload sent references added).Informed listening (fun more made =>
      Backed more workload sent made ∧
      (∀ label, added.lookup label ≠ none → made.lookup label ≠ none) ∧
      ∀ kind name, (kind, name) ∈ references → sent.template.annotations.index (kind.tag ++ name) = "" →
        ∃ stored : Object kind, Enlisted more workload sent.name sent.ns name stored ∧
          made.lookup (kind.tag ++ stored.name) ≠ none) known := by
  induction references generalizing known added with
  | nil => exact ⟨backed, fun _ => id, fun _ _ member => absurd member List.not_mem_nil⟩
  | cons reference rest ih =>
    obtain ⟨kind, name⟩ := reference
    unfold newAnnotations
    split
    · refine hears_pin.bind fun answer more within post => ?_
      obtain ⟨stored, enlisted, rfl⟩ := post
      have grown : Backed more workload sent (added.put (kind.tag ++ stored.name) stored.currentVersion) := by
        intro label version found
        rw [GoMap.lookup_put] at found
        split_ifs at found with same
        · exact ⟨kind, name, stored, enlisted, same, (Option.some.inj found).symm⟩
        · exact backed.mono within label version found
      refine (ih grown).weaken fun made last wider post => ?_
      obtain ⟨all, kept, others⟩ := post
      refine ⟨all, fun label present => kept label ?_, fun other otherName member bare => ?_⟩
      · rw [GoMap.lookup_put]
        split_ifs
        · simp
        · exact present
      · rcases List.mem_cons.mp member with same | later
        · obtain ⟨rfl, rfl⟩ := Prod.mk.inj same
          exact ⟨stored, enlisted.mono wider, kept _ (by simp)⟩
        · exact others other otherName later bare
    · rename_i filled
      refine (ih backed).weaken fun made last _ post => ?_
      obtain ⟨all, kept, others⟩ := post
      refine ⟨all, kept, fun other otherName member bare => ?_⟩
      rcases List.mem_cons.mp member with same | later
      · obtain ⟨rfl, rfl⟩ := Prod.mk.inj same
        exact absurd bare filled
      · exact others other otherName later bare

/-- A patch of a handler whose pins are backed, and have one for each reference without a version. -/
def Stamps (known : Known) (workload : WorkloadKind) (order : Iteration) (sent : Workload)
    (patch : List PatchOperation) : Prop :=
  ∃ added, patch = updateAnnotation (order sent.keptAnnotations)
      (order (added.put "config-sync-controller" "configurator")) (order sent.droppedAnnotations) ∧
    Backed known workload sent added ∧
    ∀ kind name, (kind, name) ∈ sent.template.spec.references →
      sent.template.annotations.index (kind.tag ++ name) = "" → ∃ stored : Object kind,
        Enlisted known workload sent.name sent.ns name stored ∧ added.lookup (kind.tag ++ stored.name) ≠ none

theorem hears_mutate {order : Iteration} : (mutate workload order sent).Informed listening
    (fun more response => ∀ patch, response = .allowed patch → Stamps more workload order sent patch) known := by
  have empty : Backed known workload sent (.make ∅) := by
    intro label version impossible
    cases impossible
  have stamps : (createPatch workload order sent).Informed listening
      (fun more patch => Stamps more workload order sent patch) known := by
    refine (hears_newAnnotations _ empty).bind fun added _ _ post => ?_
    exact ⟨added, rfl, post.1, post.2.2⟩
  refine stamps.attempted.bind fun answer _ _ post => ?_
  cases answer with
  | error error =>
    intro patch impossible
    cases impossible
  | ok value =>
    intro patch same
    cases same
    exact post value rfl

end Programs

section Http

variable {decoders : Decoders} {received : Option (Except String Bytes)} {ar : AdmissionReview}
  {answer : AdmissionReview → Client ReviewResponse}

/-- A review that is written to a body that was decoded holds a reply, under the UID of the request. -/
theorem hears_handleReview (write : AdmissionReview → ReviewResponse → AdmissionReview)
    {tells : Known → ReviewResponse → Prop} (decoded : decoders.review (readBody received) = (ar, none))
    (tell : (answer ar).Informed listening tells known) :
    (handleReview decoders received answer write).Informed listening
      (fun more response => ∀ written, response = ⟨200, .review written⟩ →
        ∃ reply, written = write ar (reply.answering ar) ∧ tells more reply) known := by
  unfold handleReview
  dsimp only
  split
  · intro written impossible
    cases impossible
  · rw [decoded]
    refine tell.bind fun reply _ _ told written same => ?_
    cases same
    exact ⟨reply, rfl, told⟩

theorem hears_mutateReview {order : Iteration} {asked : AdmissionRequest} {sent : Workload}
    (requested : ar.request = some asked) (decodes : decoders.workload workload asked.object = .ok sent) :
    (mutateReview decoders workload order ar).Informed listening
      (fun more reply => reply.allowed = true → ∃ patch, reply.patch = some patch ∧
        Stamps more workload order sent patch) known := by
  simp only [mutateReview, requested, decodes]
  refine hears_mutate.bind fun response _ _ post => ?_
  cases response with
  | allowed patch => exact fun _ => ⟨patch, rfl, post patch rfl⟩
  | refused message =>
    intro impossible
    cases impossible

theorem hears_validateReview {asked : AdmissionRequest} {pod : Pod} (requested : ar.request = some asked)
    (decodes : decoders.pod asked.object = .ok pod) (strict : pod.tolerated = false)
    (enrolled : pod.annotations.index "config-sync-controller" = "configurator") :
    (validateReview decoders ar).Informed listening
      (fun more reply => reply.allowed = true → ∀ kind name, (kind, name) ∈ pod.spec.references →
        Named more kind pod.ns name (pod.annotations.index (kind.tag ++ name))) known := by
  simp only [validateReview, requested, decodes]
  refine (hears_configValidation strict enrolled).bind fun response _ _ post => ?_
  cases response with
  | allowed patch => exact fun _ => post patch rfl
  | refused message =>
    intro impossible
    cases impossible

/-- What `PodConfigController` says to a pod that is enrolled. -/
theorem hears_podConfigController {asked : AdmissionRequest} {pod : Pod}
    (decoded : decoders.review (readBody received) = (ar, none)) (requested : ar.request = some asked)
    (decodes : decoders.pod asked.object = .ok pod) (strict : pod.tolerated = false)
    (enrolled : pod.annotations.index "config-sync-controller" = "configurator") :
    (podConfigController decoders received).Informed listening
      (fun more response => ∀ written, response = ⟨200, .review written⟩ →
        ∃ reply : ReviewResponse, written = { ar with response := some (reply.answering ar) } ∧
          (reply.allowed = true → ∀ kind name, (kind, name) ∈ pod.spec.references →
            Named more kind pod.ns name (pod.annotations.index (kind.tag ++ name)))) known := by
  unfold podConfigController
  exact hears_handleReview (fun ar response => { ar with response := some response }) decoded
    (hears_validateReview requested decodes strict enrolled)

/-- What `DeployController` and `StatefulSetController` say to a workload. -/
theorem hears_workloadController {order : Iteration} {asked : AdmissionRequest} {sent : Workload}
    (decoded : decoders.review (readBody received) = (ar, none)) (requested : ar.request = some asked)
    (decodes : decoders.workload workload asked.object = .ok sent) :
    (workloadController workload decoders order received).Informed listening
      (fun more response => ∀ written, response = ⟨200, .review written⟩ →
        ∃ reply : ReviewResponse,
          written = ⟨"AdmissionReview", "admission.k8s.io/v1", none, some (reply.answering ar)⟩ ∧
          (reply.allowed = true → ∃ patch, reply.patch = some patch ∧
            Stamps more workload order sent patch)) known := by
  unfold workloadController
  exact hears_handleReview (fun _ response => ⟨"AdmissionReview", "admission.k8s.io/v1", none, some response⟩) decoded
    (hears_mutateReview requested decodes)

end Http

theorem registered_register_self {owner : String} (listable : Listable owner) (object : Object kind) :
    Registered (register workload owner object) workload owner := by
  have written : ∀ list, ({ object with annotations := object.annotations.put workload.registry list } :
      Object kind).registered workload = list := fun list => by simp [Object.registered]
  dsimp only [register]
  split_ifs with empty listed
  · rw [Registered, written, split_of_absent listable.2]
    exact ⟨listable.1, List.mem_singleton_self _⟩
  · exact ⟨empty, listed⟩
  · rw [Registered, written]
    cases workload with
    | deployment =>
      have appended : split (object.registered .deployment ++ "," ++ owner) ',' =
          split (object.registered .deployment) ',' ++ [owner] := split_append listable.2
      rw [extendRegistry, appended]
      exact ⟨by simp, List.mem_append_right _ (List.mem_singleton_self _)⟩
    | statefulSet =>
      rw [extendRegistry, split_of_absent listable.2]
      exact ⟨listable.1, List.mem_singleton_self _⟩

theorem puts_of_added {target added remove : List (String × String)} {key value : String}
    (member : (key, value) ∈ added) : (Puts <| updateAnnotation target added remove) key value := by
  have replaced : ∀ {entries : List (String × String)}, (key, value) ∈ entries →
      (⟨.replace, annotationPath key, .text value⟩ : PatchOperation) ∈
        entries.map fun entry => ⟨.replace, annotationPath entry.1, .text entry.2⟩ :=
    fun listed => List.mem_map.mpr ⟨_, listed, rfl⟩
  cases target with
  | cons first rest =>
    refine Or.inl (List.mem_append_left _ (List.mem_append_right _ ?_))
    exact replaced member
  | nil =>
    cases added with
    | nil => cases member
    | cons first rest =>
      rcases List.mem_cons.mp member with rfl | later
      · exact Or.inr ⟨_, List.mem_append_left _ (List.mem_append_right _ List.mem_cons_self),
          List.mem_singleton_self _⟩
      · exact Or.inl (List.mem_append_left _ (List.mem_append_right _ (List.mem_cons_of_mem _ (replaced later))))

section Moments

variable {tasks : Nat → Task} {others : Cluster → Cluster → Prop} {party : Nat} {base diary : Chronicle}

/-- At some moment that the party has lived through since then, an object in the cluster is like this. -/
def Witnessed (party : Nat) (base diary : Chronicle) (meets : Object kind → Prop) : Prop :=
  ∃ entry, base.Since diary entry ∧ entry.author = some party ∧ ∃ object ∈ entry.after.objects kind, meets object

theorem Cluster.Delivers.got {before after : Cluster} {object : Object kind}
    (delivers : before.Delivers (.getObject kind ns name) after (.ok object)) :
    object ∈ after.objects kind ∧ key object = (ns, name) := by
  obtain ⟨rfl, ⟨_, refused⟩ | ⟨found, member, same, answered⟩⟩ := delivers.getObject
  · cases refused
  · cases answered
    exact ⟨member, same⟩

theorem Cluster.Delivers.wrote {before after : Cluster} {sent stored : Object kind}
    (delivers : before.Delivers (.updateObject kind sent) after (.ok stored)) :
    stored ∈ after.objects kind ∧ stored = stamp (version stored) sent := by
  rcases delivers.updateObject with ⟨_, _, refused⟩ | ⟨written, table, accepted, rfl, answered | ⟨_, lost⟩⟩
  · cases refused
  · cases answered
    have wrote := (Table.written_of_update accepted).2
    exact ⟨by simpa using wrote.mem, wrote.answered⟩
  · cases lost

variable (made : ∀ exchange ∈ known, (everyone tasks others).Made party base diary exchange)
include made

theorem read_key {object : Object kind} (exchange : ⟨.getObject kind ns name, .ok object⟩ ∈ known) :
    key object = (ns, name) := by
  obtain ⟨entry, _, _, delivers⟩ := made _ exchange
  exact (Cluster.Delivers.got delivers).2

theorem witnessed_of_named {version : String} (named : Named known kind ns name version) :
    Witnessed party base diary fun object : Object kind =>
      key object = (ns, name) ∧ object.currentVersion = version := by
  cases named with
  | @read object exchange names =>
    obtain ⟨entry, since, author, delivers⟩ := made _ exchange
    obtain ⟨member, same⟩ := Cluster.Delivers.got delivers
    exact ⟨entry, since, author, object, member, same, names⟩
  | @wrote object sent stored exchange written same names =>
    obtain ⟨entry, since, author, delivers⟩ := made _ written
    obtain ⟨member, stamped⟩ := Cluster.Delivers.wrote delivers
    refine ⟨entry, since, author, stored, member, ?_, ?_⟩
    · rw [stamped, key_stamp, same]
      exact read_key made exchange
    · rw [stamped, Object.currentVersion_stamp, names]

theorem witnessed_of_enlisted {owner : String} (listable : Listable owner) {stored : Object kind}
    (enlisted : Enlisted known workload owner ns name stored) : key stored = (ns, name) ∧
      Witnessed party base diary fun object : Object kind => object = stored ∧ Registered object workload owner := by
  obtain ⟨object, exchange, written⟩ := enlisted
  obtain ⟨entry, since, author, delivers⟩ := made _ written
  obtain ⟨member, stamped⟩ := Cluster.Delivers.wrote delivers
  refine ⟨?_, entry, since, author, stored, member, rfl, ?_⟩
  · rw [stamped, key_stamp, key_register]
    exact read_key made exchange
  · rw [stamped, Registered, Object.registered_stamp]
    exact registered_register_self listable object

/-- What a backed patch puts under a pin was in force when the workload was registered. -/
theorem witnessed_of_stamps {order : Iteration} {sent : Workload} {patch : List PatchOperation}
    (orders : ∀ map, Enumerates (order map) map) (listable : Listable sent.name)
    (stamps : Stamps known workload order sent patch) (references : (kind, name) ∈ sent.template.spec.references)
    (bare : sent.template.annotations.index (kind.tag ++ name) = "") (spelled : Spelled name) :
    (∃ version, Puts patch (kind.tag ++ name) version) ∧ ∀ version, Puts patch (kind.tag ++ name) version →
      Witnessed party base diary fun object : Object kind => key object = (sent.ns, name) ∧
        object.currentVersion = version ∧ Registered object workload sent.name := by
  obtain ⟨added, rfl, backed, covers⟩ := stamps
  have iterates : Iterates order := fun map entry => ((orders map).entries entry.1 entry.2).mp
  constructor
  · obtain ⟨stored, enlisted, present⟩ := covers kind name references bare
    have called : stored.name = name := congrArg Prod.snd (witnessed_of_enlisted made listable enlisted).1
    rw [called] at present
    obtain ⟨version, found⟩ := Option.ne_none_iff_exists'.mp present
    refine ⟨version, puts_of_added (((orders _).entries _ _).mpr ?_)⟩
    rw [GoMap.lookup_put, if_neg (pin_ne_control kind name), found]
  · intro version puts
    obtain ⟨other, otherName, stored, enlisted, label, rfl⟩ :=
      backed _ _ (lookup_of_puts iterates spelled puts)
    obtain ⟨rfl, rfl⟩ := pin_inj label
    obtain ⟨place, entry, since, author, object, member, rfl, registered⟩ :=
      witnessed_of_enlisted made listable enlisted
    have space : object.ns = sent.ns := congrArg Prod.fst place
    exact ⟨entry, since, author, object, member, Prod.ext space rfl, rfl, registered⟩

end Moments

section Verdicts

variable {tasks : Nat → Task} {others : Cluster → Cluster → Prop} {party : Nat}
  {pool last : Pool Chronicle Call Answer ApiError (Option HttpResponse) Nat}
  {decoders : Decoders} {request : HttpRequest} {ar answer : AdmissionReview} {asked : AdmissionRequest}
  {response : ReviewResponse}

theorem uid_answering (reply : ReviewResponse) (requested : ar.request = some asked) :
    (reply.answering ar).uid = asked.uid ∧ (reply.answering ar).allowed = reply.allowed ∧
      (reply.answering ar).patch = reply.patch := by
  simp [ReviewResponse.answering, requested]

/-- What a response says, in a run in which the request was not in flight at first. -/
theorem heard_of_request {returns : Known → HttpResponse → Prop} (task : tasks party = .request decoders request)
    (serves : (serveHttp decoders request).Informed listening returns ∅) (idle : pool.threads party = none)
    (run : (everyone tasks others).recorded.Reaches pool last) {reply : HttpResponse}
    (answered : last.threads party = some (.ret (some reply))) : ∃ known, returns known reply ∧
      ∀ exchange ∈ known, (everyone tasks others).Made party pool.world last.world exchange := by
  have informed : ∀ program, (everyone tasks others).starts party program → program.Informed listening
      (fun more result => ∀ reply, result = some reply → returns more reply) ∅ := by
    rintro program rfl
    rw [task]
    refine serves.bind fun response _ _ post reply same => ?_
    cases same
    exact post
  obtain ⟨known, post, made⟩ := run.returned informed idle answered
  exact ⟨known, post reply rfl, made⟩

/-- A pod that the webhook allows pins versions that its objects named, each at some moment between
the request and the answer, whatever else ran and failed. -/
theorem pods_matched {pod : Pod} (routed : request.route = .podcontroller)
    (task : tasks party = .request decoders request)
    (decoded : decoders.review (readBody request.received) = (ar, none)) (requested : ar.request = some asked)
    (decodes : decoders.pod asked.object = .ok pod) (strict : pod.tolerated = false)
    (enrolled : pod.annotations.index "config-sync-controller" = "configurator")
    (idle : pool.threads party = none) (run : (everyone tasks others).recorded.Reaches pool last)
    (answered : last.threads party = some (.ret (some ⟨200, .review answer⟩)))
    (responds : answer.response = some response) (allowed : response.allowed = true) :
    response.uid = asked.uid ∧ ∀ kind name, (kind, name) ∈ pod.spec.references →
      Witnessed party pool.world last.world fun object : Object kind => key object = (pod.ns, name) ∧
        object.currentVersion = pod.annotations.index (kind.tag ++ name) := by
  have routes : serveHttp decoders request = podConfigController decoders request.received := by
    simp only [serveHttp, routed]
  have serves : (podConfigController decoders request.received).Informed listening _ ∅ :=
    hears_podConfigController decoded requested decodes strict enrolled
  rw [← routes] at serves
  obtain ⟨known, post, made⟩ := heard_of_request task serves idle run answered
  obtain ⟨reply, rfl, told⟩ := post answer rfl
  obtain rfl : reply.answering ar = response := Option.some.inj responds
  obtain ⟨uid, permits, _⟩ := uid_answering reply requested
  refine ⟨uid, fun kind name member => ?_⟩
  exact witnessed_of_named made (told (permits ▸ allowed) kind name member)

namespace Sample

def ascii (text : String) : Bytes := text.toList.map fun letter => letter.toNat.toUInt8

def reviewJson (object : Bytes) : Bytes :=
  ascii "\x7b\"kind\":\"AdmissionReview\",\"apiVersion\":\"admission.k8s.io/v1\"," ++
    ascii "\"request\":\x7b\"uid\":\"one\",\"object\":" ++ object ++ ascii "\x7d\x7d"

def podJson : Bytes :=
  ascii "\x7b\"metadata\":\x7b\"namespace\":\"shop\",\"name\":\"api-0\",\"annotations\":\x7b\"config-" ++
    ascii "sync-controller\":\"configurator\",\"ccm-settings\":\"aaaaa\"\x7d\x7d,\"spec\":\x7b\"contain" ++
    ascii "ers\":[\x7b\"envFrom\":[\x7b\"configMapRef\":\x7b\"name\":\"settings\"\x7d\x7d]\x7d]\x7d\x7d"

def apiJson : Bytes :=
  ascii "\x7b\"metadata\":\x7b\"namespace\":\"shop\",\"name\":\"api\"\x7d,\"spec\":\x7b\"template\":" ++
    ascii "\x7b\"spec\":\x7b\"containers\":[\x7b\"envFrom\":[\x7b\"configMapRef\":\x7b\"name\":\"settin" ++
    ascii "gs\"\x7d\x7d]\x7d]\x7d\x7d\x7d\x7d"

/-- A pod of the Deployment `api`, which pins the version in force. -/
def enrolledPod : Pod where
  ns := "shop"
  name := "api-0"
  annotations := ((GoMap.make ∅).put "config-sync-controller" "configurator").put "ccm-settings" "aaaaa"
  spec := ⟨[], [⟨[⟨some "settings", none⟩]⟩], []⟩

def reviewOf (object : Bytes) : AdmissionReview :=
  ⟨"AdmissionReview", "admission.k8s.io/v1", some ⟨"one", object⟩, none⟩

/-- Decoders that know one review and the objects that are sent here. -/
def decodersOf (object : Bytes) : Decoders where
  review _ := (reviewOf object, none)
  workload _ _ := .ok api
  pod _ := .ok enrolledPod

def reviewRequest (route : Route) (object : Bytes) (order : Iteration) : HttpRequest :=
  ⟨route, some (.ok (reviewJson object)), order⟩

theorem enrolledPod_matched : ∃ diary : Chronicle, Witnessed 0 (.opened painted) diary
    fun object : Object .configMap => key object = ("shop", "settings") ∧ object.currentVersion = "aaaaa" := by
  obtain ⟨threads, run, answered⟩ := noted_reached
    (fun _ => .request (decodersOf podJson) (reviewRequest .podcontroller podJson apiOrder)) Cluster.Advances painted 1
  have verdict := pods_matched rfl rfl rfl rfl rfl (by decide) (by decide) rfl run answered rfl rfl
  exact ⟨_, verdict.2 .configMap "settings" (by decide)⟩

end Sample

/-- The route at which the workloads of a kind are sent. -/
def WorkloadKind.route : WorkloadKind → Route
  | .deployment => .deploycontroller
  | .statefulSet => .stscontroller

/-- A patch with which the webhook allows a workload pins each object that the template refers to without
a version, at a version that the object named at some moment between the request and the answer, when
it listed the workload too. -/
theorem patches_honest {sent : Workload} (routed : request.route = workload.route)
    (task : tasks party = .request decoders request)
    (decoded : decoders.review (readBody request.received) = (ar, none)) (requested : ar.request = some asked)
    (decodes : decoders.workload workload asked.object = .ok sent) (listable : Listable sent.name)
    (orders : ∀ map, Enumerates (request.order map) map)
    (idle : pool.threads party = none) (run : (everyone tasks others).recorded.Reaches pool last)
    (answered : last.threads party = some (.ret (some ⟨200, .review answer⟩)))
    (responds : answer.response = some response) (allowed : response.allowed = true) :
    response.uid = asked.uid ∧ ∃ patch, response.patch = some patch ∧
      ∀ kind name, (kind, name) ∈ sent.template.spec.references →
        sent.template.annotations.index (kind.tag ++ name) = "" → Spelled name →
        (∃ version, Puts patch (kind.tag ++ name) version) ∧
        ∀ version, Puts patch (kind.tag ++ name) version →
          Witnessed party pool.world last.world fun object : Object kind => key object = (sent.ns, name) ∧
            object.currentVersion = version ∧ Registered object workload sent.name := by
  have routes : serveHttp decoders request = workloadController workload decoders request.order request.received := by
    simp only [serveHttp, routed]
    cases workload <;> rfl
  have serves : (workloadController workload decoders request.order request.received).Informed listening _ ∅ :=
    hears_workloadController decoded requested decodes
  rw [← routes] at serves
  obtain ⟨known, post, made⟩ := heard_of_request task serves idle run answered
  obtain ⟨reply, rfl, told⟩ := post answer rfl
  obtain rfl : reply.answering ar = response := Option.some.inj responds
  obtain ⟨uid, permits, patched⟩ := uid_answering reply requested
  obtain ⟨patch, same, stamps⟩ := told (permits ▸ allowed)
  refine ⟨uid, patch, patched.trans same, fun kind name member bare spelled => ?_⟩
  exact witnessed_of_stamps made orders listable stamps member bare spelled

namespace Sample

theorem api_stamped : ∃ (diary : Chronicle) (patch : List PatchOperation) (version : String),
    Puts patch "ccm-settings" version ∧ Witnessed 0 (.opened painted) diary fun object : Object .configMap =>
      key object = ("shop", "settings") ∧ object.currentVersion = version ∧ Registered object .deployment "api" := by
  obtain ⟨order, orders⟩ := exists_iteration
  obtain ⟨threads, run, answered⟩ := noted_reached
    (fun _ => .request (decodersOf apiJson) (reviewRequest .deploycontroller apiJson order)) Cluster.Advances painted 2
  have routed : (reviewRequest .deploycontroller apiJson order).route = WorkloadKind.deployment.route := rfl
  obtain ⟨_, patch, _, honest⟩ :=
    patches_honest routed rfl rfl rfl rfl (by decide) orders rfl run answered rfl rfl
  obtain ⟨⟨version, puts⟩, all⟩ := honest .configMap "settings" (by decide) (by decide) (by decide)
  exact ⟨_, patch, version, puts, all version puts⟩

end Sample

end Verdicts

end Configurator
