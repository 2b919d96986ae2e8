import Configurator.PodValidation

/-! The HTTP side of `controllerWebhook`: the routes of `main.go`, and the handlers that decode
a review, have it answered and write the answer back. -/
namespace Configurator

/-- An `AdmissionRequest`: the UID and the raw object under review. -/
structure AdmissionRequest where
  uid : String
  object : Bytes
  deriving DecidableEq

/-- An `AdmissionResponse` as it is written: with a patch of type `JSONPatch`, or with a status
that has a message. -/
structure ReviewResponse where
  uid : String
  allowed : Bool
  message : Option String
  patch : Option (List PatchOperation)
  deriving DecidableEq

structure AdmissionReview where
  kind : String
  apiVersion : String
  request : Option AdmissionRequest
  response : Option ReviewResponse
  deriving DecidableEq

/-- What the decoders of `apimachinery` and `encoding/json` make of bytes. `Decode` fills in a review
and may fail nevertheless. -/
structure Decoders where
  review : Bytes → AdmissionReview × Option String
  workload : WorkloadKind → Bytes → Except String Workload
  pod : Bytes → Except String Pod

/-- A body that is written: a text, or the JSON of a review. -/
inductive HttpBody where
  | text (value : String)
  | review (value : AdmissionReview)
  deriving DecidableEq

structure HttpResponse where
  status : Nat
  body : HttpBody
  deriving DecidableEq

/-- The patterns of the `ServeMux`. -/
inductive Route where
  | status
  | deploycontroller
  | podcontroller
  | stscontroller
  | other
  deriving DecidableEq

/-- The body of a request, if there is one and it can be read. -/
def readBody : Option (Except String Bytes) → Bytes
  | some (.ok body) => body
  | _ => []

namespace ReviewResponse

def refusal (message : String) : ReviewResponse := ⟨"", false, some message, none⟩

/-- The response with the UID of the request, if there is one. -/
def answering (response : ReviewResponse) (review : AdmissionReview) : ReviewResponse :=
  match review.request with
  | some request => { response with uid := request.uid }
  | none => response

end ReviewResponse

/-- `deployMutate` and `statefulsetMutate` on a review. A review without a request is a nil
dereference. -/
def mutateReview (decoders : Decoders) (workload : WorkloadKind) (order : Iteration) (ar : AdmissionReview) :
    Client ReviewResponse :=
  match ar.request with
  | none => Program.panic
  | some request =>
    match decoders.workload workload request.object with
    | .error message => pure (.refusal message)
    | .ok sent => do
      match ← mutate workload order sent with
      | .allowed patch => pure ⟨"", true, none, some patch⟩
      | .refused message => pure (.refusal message)

/-- `ConfigValidation` on a review. -/
def validateReview (decoders : Decoders) (ar : AdmissionReview) : Client ReviewResponse :=
  match ar.request with
  | none => Program.panic
  | some request =>
    match decoders.pod request.object with
    | .error message => pure (.refusal message)
    | .ok pod => do
      match ← configValidation pod with
      | .allowed _ => pure ⟨"", true, none, none⟩
      | .refused message => pure (.refusal message)

/-- The frame of the three handlers: what to say to a review, and what to write then. -/
def handleReview (decoders : Decoders) (received : Option (Except String Bytes))
    (answer : AdmissionReview → Client ReviewResponse) (write : AdmissionReview → ReviewResponse → AdmissionReview) :
    Client HttpResponse := do
  let body := readBody received
  if body = [] then pure ⟨400, .text "empty body\n"⟩
  else
    let ar := (decoders.review body).1
    let response ← match (decoders.review body).2 with
      | some message => pure (.refusal message)
      | none => answer ar
    pure ⟨200, .review (write ar (response.answering ar))⟩

/-- `DeployController` and `StatefulSetController` write a review of their own. -/
def workloadController (workload : WorkloadKind) (decoders : Decoders) (order : Iteration)
    (received : Option (Except String Bytes)) : Client HttpResponse :=
  handleReview decoders received (mutateReview decoders workload order) fun _ response =>
    ⟨"AdmissionReview", "admission.k8s.io/v1", none, some response⟩

def deployController : Decoders → Iteration → Option (Except String Bytes) → Client HttpResponse :=
  workloadController .deployment

def statefulSetController : Decoders → Iteration → Option (Except String Bytes) → Client HttpResponse :=
  workloadController .statefulSet

/-- `PodConfigController` writes the review that it was sent, with a response in it. -/
def podConfigController (decoders : Decoders) (received : Option (Except String Bytes)) : Client HttpResponse :=
  handleReview decoders received (validateReview decoders) fun ar response => { ar with response := some response }

def getControllerWebhookStatus : HttpResponse := ⟨200, .text "\x7b\"status\":\"Running\"\x7d"⟩

/-- An HTTP request, with the order in which its handler will meet the entries of maps. -/
structure HttpRequest where
  route : Route
  received : Option (Except String Bytes)
  order : Iteration

/-- The multiplexer of `main`. -/
def serveHttp (decoders : Decoders) (request : HttpRequest) : Client HttpResponse :=
  match request.route with
  | .status => pure getControllerWebhookStatus
  | .deploycontroller => deployController decoders request.order request.received
  | .podcontroller => podConfigController decoders request.received
  | .stscontroller => statefulSetController decoders request.order request.received
  | .other => pure ⟨404, .text "404 page not found\n"⟩

end Configurator
