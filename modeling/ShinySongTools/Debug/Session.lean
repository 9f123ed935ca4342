import ShinySongTools.Machine
import ShinySongTools.Custody
import ShinySongTools.Debug.Transport
import Mathlib.Logic.Function.Basic

/-!
# Debug sessions

The I/O worker with its one connection, the dispatch system, and the topics'
handler systems, interleaved. A lock is taken for one step; the dispatch
system reads the connection generation in one step and drains the inbox in
another.

`Conserved` says of every accepted request of the connection that was accepted
last where it is. `ReadsCurrent` is the condition on the drain step under
which that stays so.
-/

namespace ShinySongTools.Debug

variable {P : Type u}

/-- What the dispatch system knows of a topic; its channel is found under the
same index. -/
structure TopicView (P : Type u) where
  name : String
  decode : Json → Except String P

/-- A topic's channel and the requests its handler system holds: the drained
ones of a main-domain topic, the delivered ones of a callback-domain topic. -/
structure Topic (P : Type u) where
  channel : DebugTopicChannel Json P Nat
  inFlight : List (DebugQueuedRequest Json P)

def Topic.empty : Topic P := ⟨.empty, []⟩

inductive WorkerPc where
  | accepting
  | retain (generation : Nat)
  | clearIds (generation : Nat)
  | drain (generation : Nat)
  | writing (generation : Nat) (responses : List WireResponse)
  | reading (generation : Nat)

inductive DispatchPc where
  | idle
  | drainInbox (current : Nat)
  | routing (current : Nat) (requests : List WireRequest)
  | draining (current : Nat) (topics : List Nat)
  | returning (current : Nat) (responses : List (DebugResponse Json Nat)) (topics : List Nat)

structure Session (P : Type u) where
  transport : DebugTransport
  worker : WorkerPc
  dispatch : DispatchPc
  topics : Nat → Topic P
  nextSerial : Nat
  accepted : List Token
  /-- What was written, with the generation of the connection. -/
  written : List (Nat × Token)
  /-- What the worker held to write when the connection broke. -/
  cutOff : List Token
  /-- What was dropped as belonging to another connection. -/
  filtered : List Token

def Session.init : Session P :=
  { transport := .empty, worker := .accepting, dispatch := .idle, topics := fun _ => .empty
    nextSerial := 0, accepted := [], written := [], cutOff := [], filtered := [] }

/-- What routing one request looks up elsewhere: the introspection snapshot,
the transport's gate reader, the two of the channel. -/
structure Readings where
  introspected : Option Json
  runtimeOpen : Bool
  dispatchable : Bool

inductive HandlerOp where
  /-- `DebugHandlerSystem::run` takes the inbox. -/
  | drain
  /-- A response for the request that has waited longest. -/
  | answer (result : Except DebugWireError Json)
  /-- The main-domain handler panics. -/
  | panic
  /-- The relay puts a request in flight. -/
  | deliver
  /-- The relay answers a request that is not of the topic's type. -/
  | mismatch
  /-- `fail_pending_requests`. -/
  | retire

inductive Action where
  | accept
  | worker
  | writeFails
  | frame (bytes : List UInt8)
  | oversized
  | hangUp
  | dispatch (readings : Readings)
  | handler (topic : Nat) (op : HandlerOp)

-- ---------------------------------------------------------------------------
-- Handler systems
-- ---------------------------------------------------------------------------

def pluginUnavailable (message : String) : DebugWireError :=
  ⟨.serverError .pluginUnavailable, message⟩

def answerTo (q : DebugQueuedRequest Json P) (result : Except DebugWireError Json) :
    DebugResponse Json Nat :=
  ⟨q.id, result, q.generation, q.serial⟩

def Topic.run (t : Topic P) : HandlerOp → Option (Topic P)
  | .drain =>
    match t.inFlight with
    | [] => some { channel := { t.channel with inbox := [] }, inFlight := t.channel.inbox }
    | _ :: _ => none
  | .answer result =>
    match t.inFlight with
    | [] => none
    | q :: rest => some { channel := t.channel.answer (answerTo q result), inFlight := rest }
  | .panic =>
    match t.inFlight with
    | [] => none
    | q :: rest =>
      some {
        channel := { t.channel with inbox := rest ++ t.channel.inbox }.answer
          (answerTo q (.error (pluginUnavailable "debug handler panicked")))
        inFlight := [] }
  | .deliver =>
    match t.channel.inbox with
    | [] => none
    | q :: rest =>
      some { channel := { t.channel with inbox := rest }, inFlight := t.inFlight ++ [q] }
  | .mismatch =>
    match t.channel.inbox with
    | [] => none
    | q :: rest =>
      some { t with
        channel := { t.channel with inbox := rest }.answer
          (answerTo q (.error ⟨.serverError .internalError, "queued request type mismatch"⟩)) }
  | .retire =>
    some { t with
      channel := t.channel.inbox.foldl
        (fun c q => c.answer
          (answerTo q (.error (pluginUnavailable "plugin retired; request not delivered"))))
        { t.channel with inbox := [] } }

-- ---------------------------------------------------------------------------
-- Dispatch
-- ---------------------------------------------------------------------------

def mapWireCode : DebugWireErrorCode → Int
  | .methodNotFound => -32601
  | .invalidParams => -32602
  | .serverError _ => -32000

def wireReply (id : Json) (error : DebugWireError) : ErrorReply :=
  match error.code with
  | .serverError server => ⟨id, -32000, some server.codeName, error.message⟩
  | other => ⟨id, mapWireCode other, none, error.message⟩

/-- `views.find` together with the index of the channel. -/
def findTopic (method : String) : List (TopicView P) → Nat → Option (TopicView P × Nat)
  | [], _ => none
  | view :: rest, i => if view.name = method then some (view, i) else findTopic method rest (i + 1)

/-- The routing ladder of `run` for one request: a reply, or a topic. -/
def ladder (views : List (TopicView P)) (readings : Readings) (request : WireRequest) :
    Except ErrorReply (Sum Json (P × Nat)) :=
  match readings.introspected with
  | some payload => .ok (.inl payload)
  | none =>
    if readings.runtimeOpen = false then
      .error ⟨request.id, -32000, some DebugServerError.runtimeUnavailable.codeName,
        "runtime unavailable"⟩
    else
      match findTopic request.method views 0 with
      | none => .error ⟨request.id, -32601, none, "method not found"⟩
      | some (view, i) =>
        if readings.dispatchable = false then
          .error ⟨request.id, -32000, some DebugServerError.pluginUnavailable.codeName,
            "plugin unavailable"⟩
        else
          match view.decode request.params with
          | .error message =>
            .error ⟨request.id, -32602, none, "invalid params: " ++ message⟩
          | .ok payload => .ok (.inr (payload, i))

def Session.setTopic (s : Session P) (i : Nat) (topic : Topic P) : Session P :=
  { s with topics := Function.update s.topics i topic }

def route (views : List (TopicView P)) (s : Session P) (readings : Readings)
    (request : WireRequest) : Session P :=
  let refuse (reply : ErrorReply) : Session P :=
    { s with transport := s.transport.respondError reply request.generation request.serial }
  match ladder views readings request with
  | .error reply => refuse reply
  | .ok (.inl payload) =>
    { s with
      transport := s.transport.respondOk request.id payload request.generation request.serial }
  | .ok (.inr (payload, i)) =>
    let topic := s.topics i
    match topic.channel.enqueue ⟨request.serial, request.id, payload, request.generation⟩ with
    | (.error _, _) =>
      refuse ⟨request.id, -32000, some DebugServerError.queueFull.codeName,
        "topic pending capacity reached"⟩
    | (.ok _, channel) => s.setTopic i { topic with channel }

def DebugTransport.sendBack (t : DebugTransport) (response : DebugResponse Json Nat) :
    DebugTransport :=
  match response.result with
  | .ok value => t.respondOk response.id value response.generation response.origin
  | .error error =>
    t.respondError (wireReply response.id error) response.generation response.origin

def responseToken (r : DebugResponse Json Nat) : Token := ⟨r.origin, r.generation⟩

def dispatchStep (views : List (TopicView P)) (s : Session P) (readings : Readings) : Session P :=
  match s.dispatch with
  | .idle => { s with dispatch := .drainInbox s.transport.generation }
  | .drainInbox current =>
    let old := s.transport.inbox.filter (·.generation ≠ current)
    { s with
      transport := { s.transport with inbox := [] }
      dispatch := .routing current (s.transport.inbox.filter (·.generation = current))
      filtered := old.map WireRequest.token ++ s.filtered }
  | .routing current [] => { s with dispatch := .draining current (List.range views.length) }
  | .routing current (request :: rest) =>
    { route views s readings request with dispatch := .routing current rest }
  | .draining _ [] => { s with dispatch := .idle }
  | .draining current (i :: rest) =>
    let topic := s.topics i
    { s.setTopic i { topic with channel := { topic.channel with outbox := [] } } with
      dispatch := .returning current topic.channel.outbox rest }
  | .returning current [] rest => { s with dispatch := .draining current rest }
  | .returning current (response :: responses) rest =>
    if response.generation ≠ current then
      { s with
        dispatch := .returning current responses rest
        filtered := responseToken response :: s.filtered }
    else
      { s with
        transport := s.transport.sendBack response
        dispatch := .returning current responses rest }

-- ---------------------------------------------------------------------------
-- The worker
-- ---------------------------------------------------------------------------

def workerStep (render : Json → String) (s : Session P) : Option (Session P) :=
  match s.worker with
  | .accepting => none
  | .retain g =>
    let old := s.transport.outbox.filter (·.generation ≠ g)
    some { s with
      transport := { s.transport with outbox := s.transport.outbox.filter (·.generation = g) }
      worker := .clearIds g
      filtered := old.filterMap WireResponse.token ++ s.filtered }
  | .clearIds g =>
    some { s with transport := { s.transport with activeIds := [] }, worker := .drain g }
  | .drain g =>
    some { s with
      transport := { s.transport with outbox := [] }
      worker := .writing g s.transport.outbox }
  | .writing g [] => some { s with worker := .reading g }
  | .writing g (response :: rest) =>
    if response.generation ≠ g then
      some { s with
        worker := .writing g rest
        filtered := response.token.toList ++ s.filtered }
    else
      some { s with
        transport := s.transport.releaseId render response
        worker := .writing g rest
        written := response.token.toList.map (fun tok => (g, tok)) ++ s.written }
  -- nothing to read before the timeout
  | .reading g => some { s with worker := .drain g }

def step (parse : List UInt8 → Option Json) (render : Json → String) (views : List (TopicView P))
    (s : Session P) : Action → Option (Session P)
  | .accept =>
    match s.worker with
    | .accepting =>
      let generation := s.transport.generation + 1
      some { s with transport := { s.transport with generation }, worker := .retain generation }
    | _ => none
  | .worker => workerStep render s
  | .writeFails =>
    match s.worker with
    | .writing g (response :: rest) =>
      if response.generation = g then
        some { s with
          transport := s.transport.releaseId render response
          worker := .accepting
          cutOff := (response :: rest).filterMap WireResponse.token ++ s.cutOff }
      else none
    | _ => none
  | .frame bytes =>
    match s.worker with
    | .reading g =>
      match s.transport.handleFrame parse render bytes g s.nextSerial with
      | (transport, true) =>
        some { s with
          transport
          worker := .drain g
          nextSerial := s.nextSerial + 1
          accepted := ⟨s.nextSerial, g⟩ :: s.accepted }
      | (transport, false) => some { s with transport, worker := .drain g }
    | _ => none
  | .oversized =>
    match s.worker with
    | .reading g =>
      some { s with
        transport := s.transport.respondError ⟨.null, -32000,
          some DebugServerError.payloadTooLarge.codeName, "frame exceeds the payload limit"⟩ g none
        worker := .drain g }
    | _ => none
  | .hangUp =>
    match s.worker with
    | .reading _ => some { s with worker := .accepting }
    | _ => none
  | .dispatch readings => some (dispatchStep views s readings)
  | .handler i op => ((s.topics i).run op).map (s.setTopic i)

-- ---------------------------------------------------------------------------
-- Where requests are
-- ---------------------------------------------------------------------------

inductive Place where
  | transportInbox
  | routing
  | topicInbox (topic : Nat)
  | inFlight (topic : Nat)
  | topicOutbox (topic : Nat)
  | returning
  | transportOutbox
  | writing
  | written (connection : Nat)
  | cutOff
  | dropped
  | filtered
  deriving DecidableEq, Repr

def queuedToken (q : DebugQueuedRequest Json P) : Token := ⟨q.serial, q.generation⟩

def WorkerPc.responses : WorkerPc → List WireResponse
  | .writing _ responses => responses
  | _ => []

def DispatchPc.requests : DispatchPc → List WireRequest
  | .routing _ requests => requests
  | _ => []

def DispatchPc.responses : DispatchPc → List (DebugResponse Json Nat)
  | .returning _ responses _ => responses
  | _ => []

def Session.held (s : Session P) : Place → List Token
  | .transportInbox => s.transport.inbox.map WireRequest.token
  | .routing => s.dispatch.requests.map WireRequest.token
  | .topicInbox i => (s.topics i).channel.inbox.map queuedToken
  | .inFlight i => (s.topics i).inFlight.map queuedToken
  | .topicOutbox i => (s.topics i).channel.outbox.map responseToken
  | .returning => s.dispatch.responses.map responseToken
  | .transportOutbox => s.transport.outbox.filterMap WireResponse.token
  | .writing => s.worker.responses.filterMap WireResponse.token
  | .written g => (s.written.filter (·.1 = g)).map (·.2)
  | .cutOff => s.cutOff
  | .dropped => s.transport.dropped
  | .filtered => s.filtered

/-- The places a request may be in while its connection has not been replaced.
It is cut off only when that connection is broken. -/
def Place.Keeps (s : Session P) (tok : Token) : Place → Prop
  | .filtered => False
  | .written g => g = tok.generation
  | .cutOff => s.worker = .accepting
  | _ => True

/-- Every accepted request of the present connection is in one place. -/
def Conserved (s : Session P) : Prop :=
  ∀ tok ∈ s.accepted, tok.generation = s.transport.generation →
    ∃ p, p.Keeps s tok ∧ (s.held p).count tok = 1 ∧ ∀ q, q ≠ p → (s.held q).count tok = 0

/-- The generation the dispatch system has read is still the one of every
request it is about to drain whose connection has not been replaced. -/
def ReadsCurrent (s : Session P) : Action → Prop
  | .dispatch _ => ∀ current, s.dispatch = .drainInbox current →
      ∀ request ∈ s.transport.inbox, request.generation = s.transport.generation →
        s.transport.generation = current
  | _ => True

end ShinySongTools.Debug
