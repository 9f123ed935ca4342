import ShinySongTools.Debug.Session

/-!
# The fate of a frame

One frame body through `handle_frame` and, where its request is accepted,
through the dispatch run that picks it up: the drain of the inbox, which drops
what is not of the generation the run has read, and the request's turn in the
routing. `documented` is the order of checks as the documentation has it; the
code asks the runtime gate before it looks for the topic, and does not give the
id back of a request without a method.
-/

namespace ShinySongTools.Debug

variable {P : Type}

-- ---------------------------------------------------------------------------
-- The documented order
-- ---------------------------------------------------------------------------

/-- What the documentation fixes of an error reply. -/
structure Refusal where
  id : Json
  code : Int
  dataCode : Option String

def require (ok : Bool) (refusal : Refusal) : Except Refusal Unit :=
  if ok then .ok () else .error refusal

namespace Json

def isArr : Json → Bool
  | .arr _ => true
  | _ => false

def isObj : Json → Bool
  | .obj _ => true
  | _ => false

def versionOk (value : Json) : Bool := ((value.get "jsonrpc").bind asStr).any (· == "2.0")

def method (value : Json) : Option String := (value.get "method").bind asStr

def id (value : Json) : Option Json := value.get "id"

end Json

def orRefuse (refusal : Refusal) : Option α → Except Refusal α
  | some a => .ok a
  | none => .error refusal

/-- Parsing, envelope, active ids and the capacity of the transport; an id that
can be told is given back. -/
def documentedWorker (parse : List UInt8 → Option Json) (render : Json → String)
    (t : DebugTransport) (bytes : List UInt8) : Except Refusal (Json × String × Json) := do
  let value ← orRefuse ⟨.null, -32700, none⟩ (parse bytes)
  require (!value.isArr) ⟨.null, -32600, none⟩
  require value.isObj ⟨.null, -32600, none⟩
  require value.versionOk ⟨value.id.getD .null, -32600, none⟩
  let method ← orRefuse ⟨value.id.getD .null, -32600, none⟩ value.method
  let id ← orRefuse ⟨.null, -32600, none⟩ value.id
  require (!(trackableId render id).any fun key => t.activeIds.contains key) ⟨id, -32600, none⟩
  require (t.inbox.length < maxInboxRequests) ⟨id, -32000, some "queue_full"⟩
  return (id, method, (value.get "params").getD .null)

/-- The gates at a dispatch; every topic has its owner's. -/
structure Gates where
  runtime : Bool
  owner : Nat → Bool

/-- Topic, runtime gate, owner gate, params and the capacity of the topic; a
built-in topic is answered before all of them. -/
def documentedDispatch (views : List (TopicView P)) (s : Session P) (gates : Gates)
    (introspect : String → Option Json) (id : Json) (method : String) (params : Json) :
    Except Refusal (Sum Json (P × Nat)) :=
  match introspect method with
  | some payload => .ok (.inl payload)
  | none => do
    let (view, i) ← orRefuse ⟨id, -32601, none⟩ (findTopic method views 0)
    require gates.runtime ⟨id, -32000, some "runtime_unavailable"⟩
    require (gates.owner i) ⟨id, -32000, some "plugin_unavailable"⟩
    let payload ← orRefuse ⟨id, -32602, none⟩ (view.decode params).toOption
    require ((s.topics i).channel.pending < debugMaxPending) ⟨id, -32000, some "queue_full"⟩
    return .inr (payload, i)

/-- A reply with this payload, or a request for this topic. -/
def documented (parse : List UInt8 → Option Json) (render : Json → String)
    (views : List (TopicView P)) (t : DebugTransport) (s : Session P) (gates : Gates)
    (introspect : String → Option Json) (bytes : List UInt8) :
    Except Refusal (Json × Sum Json (P × Nat)) := do
  let (id, method, params) ← documentedWorker parse render t bytes
  let routed ← documentedDispatch views s gates introspect id method params
  return (id, routed)

-- ---------------------------------------------------------------------------
-- What the code does
-- ---------------------------------------------------------------------------

/-- A reply, a request in the inbox of a topic, or neither. -/
inductive Fate (P : Type) where
  | replied (body : Json)
  | queued (topic : Nat) (request : DebugQueuedRequest Json P)
  | dropped

def Session.withOutbox (s : Session P) (outbox : List WireResponse) : Session P :=
  { s with transport := { s.transport with outbox } }

/-- The dispatch system has these requests of its drain left to route. -/
def Session.routing (s : Session P) (current : Nat) (requests : List WireRequest) : Session P :=
  { s with dispatch := .routing current requests }

def Gates.readings (gates : Gates) (views : List (TopicView P)) (introspect : String → Option Json)
    (method : String) : Readings where
  introspected := introspect method
  runtimeOpen := gates.runtime
  dispatchable := gates.runtime && ((findTopic method views 0).map Prod.snd).any gates.owner

section

variable (parse : List UInt8 → Option Json) (render : Json → String) (views : List (TopicView P))
  (t : DebugTransport) (s : Session P) (gates : Gates) (introspect : String → Option Json)
  (bytes : List UInt8) (generation serial current : Nat)

/-- The frame is accepted as this request, without a reply. -/
def Accepts (request : WireRequest) : Prop :=
  ∃ activeIds, ∀ outbox, { t with outbox }.handleFrame parse render bytes generation serial =
    ({ t with outbox, activeIds, inbox := t.inbox ++ [request] }, true)

/-- A run that has read `current` takes the request over from the inbox. -/
def Takes (request : WireRequest) : Prop :=
  ∀ (s : Session P) (readings : Readings), s.dispatch = .drainInbox current →
    request ∈ s.transport.inbox → request ∈ (dispatchStep views s readings).dispatch.requests

/-- A run that has read `current` empties the inbox and does not keep the request. -/
def Drops (request : WireRequest) : Prop :=
  ∀ (s : Session P) (readings : Readings), s.dispatch = .drainInbox current →
    request ∈ s.transport.inbox →
      request ∉ (dispatchStep views s readings).dispatch.requests ∧
      (dispatchStep views s readings).transport = { s.transport with inbox := [] } ∧
      (dispatchStep views s readings).topics = s.topics

/-- Where the frame ends, whatever is in the outboxes and behind it in the run:
one reply and nothing else but a recorded id, one request in one channel and no
reply, or none of either. -/
inductive Ends : Fate P → Prop
  | refused (activeIds : List String) (body : Json)
    (frame : ∀ outbox, { t with outbox }.handleFrame parse render bytes generation serial =
      ({ t with outbox, activeIds }.pushResponse ⟨body, generation, none⟩, false)) :
    Ends (.replied body)
  | answered (request : WireRequest) (body : Json)
    (frame : Accepts parse render t bytes generation serial request)
    (drained : Takes views current request)
    (routed : ∀ outbox rest,
      dispatchStep views ((s.withOutbox outbox).routing current (request :: rest))
          (gates.readings views introspect request.method) =
        { s.routing current rest with
          transport := { s.transport with outbox }.pushResponse ⟨body, generation, some serial⟩ }) :
    Ends (.replied body)
  | queued (request : WireRequest) (i : Nat) (q : DebugQueuedRequest Json P)
    (frame : Accepts parse render t bytes generation serial request)
    (drained : Takes views current request)
    (routed : ∀ outbox rest,
      dispatchStep views ((s.withOutbox outbox).routing current (request :: rest))
          (gates.readings views introspect request.method) =
        ((s.withOutbox outbox).routing current rest).setTopic i
          { s.topics i with
            channel :=
              { (s.topics i).channel with
                inbox := (s.topics i).channel.inbox ++ [q]
                pending := (s.topics i).channel.pending + 1 } }) :
    Ends (.queued i q)
  | dropped (request : WireRequest)
    (frame : Accepts parse render t bytes generation serial request)
    (drained : Drops views current request) :
    Ends .dropped

end

def Fate.Agrees (generation serial : Nat) :
    Fate P → Except Refusal (Json × Sum Json (P × Nat)) → Prop
  | .replied body, .error refusal =>
    body.get "id" = some refusal.id ∧
      (body.get "error").bind (·.get "code") = some (.num (toString refusal.code)) ∧
      ((body.get "error").bind (·.get "data")).bind (·.get "code") = refusal.dataCode.map .str
  | .replied body, .ok (id, .inl payload) => body = DebugTransport.okBody id payload
  | .queued i q, .ok (id, .inr (payload, j)) => i = j ∧ q = ⟨serial, id, payload, generation⟩
  | _, _ => False

-- ---------------------------------------------------------------------------
-- The verdicts of the code
-- ---------------------------------------------------------------------------

section

variable {parse : List UInt8 → Option Json} {render : Json → String} {views : List (TopicView P)}
  {t : DebugTransport} {s : Session P} {gates : Gates} {introspect : String → Option Json}
  {bytes : List UInt8} {generation serial current : Nat}

variable (parse render t bytes) in
def frameVerdict : Except ErrorReply (Json × String × Json) :=
  match parse bytes with
  | none => .error ⟨.null, -32700, none, "parse error"⟩
  | some value =>
    match envelope value with
    | .error reply => .error reply
    | .ok (id, method, params) =>
      if (trackableId render id).any fun key => t.activeIds.contains key then
        .error ⟨id, -32600, none, "duplicate active id"⟩
      else if maxInboxRequests ≤ t.inbox.length then
        .error ⟨id, -32000, some DebugServerError.queueFull.codeName,
          "transport inbox capacity reached"⟩
      else .ok (id, method, params)

theorem refuses_of_verdict {reply : ErrorReply}
    (h : frameVerdict parse render t bytes = .error reply) :
    ∃ activeIds, ∀ outbox, { t with outbox }.handleFrame parse render bytes generation serial =
      ({ t with outbox, activeIds }.pushResponse
        ⟨DebugTransport.errorBody reply, generation, none⟩, false) := by
  unfold frameVerdict at h
  unfold DebugTransport.handleFrame
  cases hparse : parse bytes with
  | none =>
    simp only [hparse] at h ⊢
    cases h
    exact ⟨t.activeIds, fun _ => rfl⟩
  | some value =>
    simp only [hparse] at h ⊢
    cases henvelope : envelope value with
    | error =>
      simp only [henvelope] at h ⊢
      cases h
      exact ⟨t.activeIds, fun _ => rfl⟩
    | ok accepted =>
      obtain ⟨id, method, params⟩ := accepted
      simp only [henvelope] at h ⊢
      split at h
      case isTrue hdup =>
        cases h
        simp only [hdup, if_true]
        exact ⟨t.activeIds, fun _ => rfl⟩
      case isFalse hdup =>
        simp only [hdup]
        split at h
        case isTrue hfull =>
          cases h
          simp only [hfull, if_true]
          exact ⟨_, fun _ => rfl⟩
        case isFalse => cases h

theorem accepts_of_verdict {id : Json} {method : String} {params : Json}
    (h : frameVerdict parse render t bytes = .ok (id, method, params)) :
    Accepts parse render t bytes generation serial ⟨serial, id, method, params, generation⟩ := by
  unfold frameVerdict at h
  unfold Accepts DebugTransport.handleFrame
  cases hparse : parse bytes with
  | none =>
    simp only [hparse] at h
    cases h
  | some value =>
    simp only [hparse] at h ⊢
    cases henvelope : envelope value with
    | error =>
      simp only [henvelope] at h
      cases h
    | ok accepted =>
      obtain ⟨id, method, params⟩ := accepted
      simp only [henvelope] at h ⊢
      split at h
      case isTrue => cases h
      case isFalse hdup =>
        split at h
        case isTrue => cases h
        case isFalse hfull =>
          cases h
          simp only [hdup, hfull]
          exact ⟨_, fun _ => rfl⟩

variable (views s gates introspect) in
def routeVerdict (request : WireRequest) : Except ErrorReply (Sum Json (P × Nat)) :=
  match ladder views (gates.readings views introspect request.method) request with
  | .error reply => .error reply
  | .ok (.inl payload) => .ok (.inl payload)
  | .ok (.inr (payload, i)) =>
    if debugMaxPending ≤ (s.topics i).channel.pending then
      .error ⟨request.id, -32000, some DebugServerError.queueFull.codeName,
        "topic pending capacity reached"⟩
    else .ok (.inr (payload, i))

variable {request : WireRequest}

/-- Routing does what its checks say: it answers at once, or queues for the
topic. -/
theorem route_eq (outbox : List WireResponse) :
    route views (s.withOutbox outbox) (gates.readings views introspect request.method) request =
      match routeVerdict views s gates introspect request with
      | .error reply =>
        { s with
          transport := { s.transport with outbox }.pushResponse
            ⟨DebugTransport.errorBody reply, request.generation, some request.serial⟩ }
      | .ok (.inl payload) =>
        { s with
          transport := { s.transport with outbox }.pushResponse ⟨
            DebugTransport.okBody request.id payload, request.generation, some request.serial⟩ }
      | .ok (.inr (payload, i)) =>
        (s.withOutbox outbox).setTopic i
          { s.topics i with
            channel :=
              { (s.topics i).channel with
                inbox := (s.topics i).channel.inbox ++
                  [⟨request.serial, request.id, payload, request.generation⟩]
                pending := (s.topics i).channel.pending + 1 } } := by
  unfold route routeVerdict
  cases ladder views (gates.readings views introspect request.method) request with
  | error reply => rfl
  | ok routed =>
    cases routed with
    | inl payload => rfl
    | inr target =>
      obtain ⟨payload, i⟩ := target
      have hpending : ((s.withOutbox outbox).topics i).channel.pending =
          (s.topics i).channel.pending := rfl
      simp only [DebugTopicChannel.enqueue, hpending]
      by_cases hfull : debugMaxPending ≤ (s.topics i).channel.pending
      · simp only [hfull, if_true]
        rfl
      · simp only [hfull, if_false]
        rfl

theorem routing_eq (outbox : List WireResponse) (rest : List WireRequest) :
    dispatchStep views ((s.withOutbox outbox).routing current (request :: rest))
        (gates.readings views introspect request.method) =
      match routeVerdict views s gates introspect request with
      | .error reply =>
        { s.routing current rest with
          transport := { s.transport with outbox }.pushResponse
            ⟨DebugTransport.errorBody reply, request.generation, some request.serial⟩ }
      | .ok (.inl payload) =>
        { s.routing current rest with
          transport := { s.transport with outbox }.pushResponse ⟨
            DebugTransport.okBody request.id payload, request.generation, some request.serial⟩ }
      | .ok (.inr (payload, i)) =>
        ((s.withOutbox outbox).routing current rest).setTopic i
          { s.topics i with
            channel :=
              { (s.topics i).channel with
                inbox := (s.topics i).channel.inbox ++
                  [⟨request.serial, request.id, payload, request.generation⟩]
                pending := (s.topics i).channel.pending + 1 } } := by
  have hroute : route views ((s.routing current (request :: rest)).withOutbox outbox)
      (gates.readings views introspect request.method) request = _ := route_eq outbox
  have hstep : dispatchStep views ((s.withOutbox outbox).routing current (request :: rest))
      (gates.readings views introspect request.method) =
        (route views ((s.routing current (request :: rest)).withOutbox outbox)
          (gates.readings views introspect request.method) request).routing current rest := rfl
  have hverdict : routeVerdict views (s.routing current (request :: rest)) gates introspect
      request = routeVerdict views s gates introspect request := rfl
  rw [hstep, hroute, hverdict]
  cases routeVerdict views s gates introspect request with
  | error reply => rfl
  | ok routed => cases routed <;> rfl

theorem routing_refused {reply : ErrorReply}
    (h : routeVerdict views s gates introspect request = .error reply)
    (outbox : List WireResponse) (rest : List WireRequest) :
    dispatchStep views ((s.withOutbox outbox).routing current (request :: rest))
        (gates.readings views introspect request.method) =
      { s.routing current rest with
        transport := { s.transport with outbox }.pushResponse
          ⟨DebugTransport.errorBody reply, request.generation, some request.serial⟩ } := by
  rw [routing_eq, h]

theorem routing_answered {payload : Json}
    (h : routeVerdict views s gates introspect request = .ok (.inl payload))
    (outbox : List WireResponse) (rest : List WireRequest) :
    dispatchStep views ((s.withOutbox outbox).routing current (request :: rest))
        (gates.readings views introspect request.method) =
      { s.routing current rest with
        transport := { s.transport with outbox }.pushResponse ⟨
          DebugTransport.okBody request.id payload, request.generation, some request.serial⟩ } := by
  rw [routing_eq, h]

theorem routing_queued {payload : P} {i : Nat}
    (h : routeVerdict views s gates introspect request = .ok (.inr (payload, i)))
    (outbox : List WireResponse) (rest : List WireRequest) :
    dispatchStep views ((s.withOutbox outbox).routing current (request :: rest))
        (gates.readings views introspect request.method) =
      ((s.withOutbox outbox).routing current rest).setTopic i
        { s.topics i with
          channel :=
            { (s.topics i).channel with
              inbox := (s.topics i).channel.inbox ++
                [⟨request.serial, request.id, payload, request.generation⟩]
              pending := (s.topics i).channel.pending + 1 } } := by
  rw [routing_eq, h]

theorem takes_of_current (h : request.generation = current) : Takes views current request := by
  intro s readings hdrain hmem
  simp only [dispatchStep, hdrain, DispatchPc.requests]
  exact List.mem_filter.mpr ⟨hmem, by simp [h]⟩

theorem drops_of_stale (h : request.generation ≠ current) : Drops views current request := by
  intro s readings hdrain hmem
  simp only [dispatchStep, hdrain, DispatchPc.requests]
  refine ⟨fun hkept => ?_, trivial, trivial⟩
  exact h (by simpa using (List.mem_filter.mp hkept).2)

/-- Some session has the request in its inbox when the run drains it. -/
theorem Takes.not_drops (h : Takes views current request) : ¬ Drops views current request := by
  intro hdrops
  let s : Session P := { Session.init with
    transport := { DebugTransport.empty with inbox := [request] }
    dispatch := .drainInbox current }
  have hmem : request ∈ s.transport.inbox := List.mem_singleton.mpr rfl
  exact (hdrops s ⟨none, false, false⟩ rfl hmem).1 (h s ⟨none, false, false⟩ rfl hmem)

-- ---------------------------------------------------------------------------
-- Verdicts and documentation
-- ---------------------------------------------------------------------------

def ErrorReply.refusal (reply : ErrorReply) : Refusal := ⟨reply.id, reply.code, reply.dataCode⟩

variable (parse bytes) in
/-- The frame has an id, and all it lacks is a method. -/
def Anonymous : Prop :=
  ∃ value id, parse bytes = some value ∧ value.versionOk = true ∧ value.method = none ∧
    value.id = some id ∧ id.isNull = false

@[simp] theorem require_true (refusal : Refusal) : require true refusal = .ok () := rfl

@[simp] theorem require_false (refusal : Refusal) : require false refusal = .error refusal := rfl

@[simp] theorem refuse_bind (refusal : Refusal) (f : α → Except Refusal β) :
    (Except.error refusal >>= f) = .error refusal := rfl

@[simp] theorem accept_bind (a : α) (f : α → Except Refusal β) : (Except.ok a >>= f) = f a := rfl

@[simp] theorem orRefuse_some (refusal : Refusal) (a : α) : orRefuse refusal (some a) = .ok a := rfl

@[simp] theorem orRefuse_none (refusal : Refusal) :
    orRefuse refusal (none : Option α) = .error refusal := rfl

theorem envelope_obj (members : List (String × Json)) :
    let value := Json.obj members
    envelope value =
      if value.versionOk = false then .error ⟨value.id.getD .null, -32600, none, "invalid request"⟩
      else
        match value.method with
        | none => .error ⟨.null, -32600, none, "invalid request"⟩
        | some method =>
          match value.id with
          | none => .error ⟨.null, -32600, none, "notifications not supported"⟩
          | some id => .ok (id, method, (value.get "params").getD .null) := rfl

theorem frameVerdict_documented (h : ¬ Anonymous parse bytes) :
    (frameVerdict parse render t bytes).mapError ErrorReply.refusal =
      documentedWorker parse render t bytes := by
  unfold frameVerdict documentedWorker
  cases hparse : parse bytes with
  | none => rfl
  | some value =>
    cases value with
    | obj members =>
      simp only [envelope_obj, orRefuse_some, accept_bind, Json.isArr, Json.isObj, Bool.not_false,
        require_true]
      generalize hvalue : Json.obj members = value
      rw [hvalue] at hparse
      cases hversion : value.versionOk with
      | false => rfl
      | true =>
        cases hmethod : value.method with
        | none =>
          cases hid : value.id with
          | none => rfl
          | some id =>
            have hnull : id = .null := by
              cases hnull : id.isNull with
              | true => cases id <;> first | rfl | cases hnull
              | false => exact absurd ⟨value, id, hparse, hversion, hmethod, hid, hnull⟩ h
            subst hnull
            rfl
        | some method =>
          cases hid : value.id with
          | none => rfl
          | some id =>
            simp only [Bool.true_eq_false, if_false, require_true, accept_bind, orRefuse_some]
            cases (trackableId render id).any fun key => t.activeIds.contains key with
            | true => rfl
            | false =>
              by_cases hfull : maxInboxRequests ≤ t.inbox.length
              · have hroom : ¬ t.inbox.length < maxInboxRequests := Nat.not_lt.mpr hfull
                simp only [hfull, hroom]
                rfl
              · have hroom : t.inbox.length < maxInboxRequests := Nat.lt_of_not_le hfull
                simp only [hfull, hroom]
                rfl
    | _ => rfl

theorem frameVerdict_anonymous (h : Anonymous parse bytes) :
    ∃ id, id.isNull = false ∧
      frameVerdict parse render t bytes = .error ⟨.null, -32600, none, "invalid request"⟩ ∧
      documentedWorker parse render t bytes = .error ⟨id, -32600, none⟩ := by
  obtain ⟨value, id, hparse, hversion, hmethod, hid, hnull⟩ := h
  cases value with
  | obj members =>
    refine ⟨id, hnull, ?_, ?_⟩
    · simp only [frameVerdict, hparse, envelope_obj, hversion, hmethod]
      rfl
    · simp only [documentedWorker, hparse, orRefuse_some, accept_bind, Json.isArr, Json.isObj,
        Bool.not_false, require_true, hversion, hmethod, hid]
      rfl
  | _ => cases hversion

variable (views gates introspect) in
/-- With the runtime gate closed, a request for no topic. -/
def Unroutable (method : String) : Prop :=
  introspect method = none ∧ gates.runtime = false ∧ findTopic method views 0 = none

theorem routeVerdict_documented (h : ¬ Unroutable views gates introspect request.method) :
    (routeVerdict views s gates introspect request).mapError ErrorReply.refusal =
      documentedDispatch views s gates introspect request.id request.method request.params := by
  unfold routeVerdict documentedDispatch ladder Gates.readings
  cases hintrospect : introspect request.method with
  | some payload => rfl
  | none =>
    cases htopic : findTopic request.method views 0 with
    | none =>
      cases hruntime : gates.runtime with
      | false => exact absurd ⟨hintrospect, hruntime, htopic⟩ h
      | true => rfl
    | some found =>
      obtain ⟨view, i⟩ := found
      cases hruntime : gates.runtime with
      | false => rfl
      | true =>
        cases howner : gates.owner i with
        | false =>
          simp [howner]
          rfl
        | true =>
          simp [howner]
          cases hdecode : view.decode request.params with
          | error message => rfl
          | ok payload =>
            by_cases hfull : debugMaxPending ≤ (s.topics i).channel.pending
            · have hroom : ¬ (s.topics i).channel.pending < debugMaxPending := Nat.not_lt.mpr hfull
              simp only [hfull, hroom]
              rfl
            · have hroom : (s.topics i).channel.pending < debugMaxPending := Nat.lt_of_not_le hfull
              simp only [hfull, hroom]
              rfl

theorem routeVerdict_unroutable (h : Unroutable views gates introspect request.method) :
    routeVerdict views s gates introspect request =
        .error ⟨request.id, -32000, some "runtime_unavailable", "runtime unavailable"⟩ ∧
      documentedDispatch views s gates introspect request.id request.method request.params =
        .error ⟨request.id, -32601, none⟩ := by
  obtain ⟨hintrospect, hruntime, htopic⟩ := h
  constructor
  · simp only [routeVerdict, ladder, Gates.readings, hintrospect, hruntime]
    rfl
  · simp only [documentedDispatch, hintrospect, htopic]
    rfl

-- ---------------------------------------------------------------------------
-- One fate
-- ---------------------------------------------------------------------------

theorem pushResponse_nil (h : t.outbox = []) (response : WireResponse) :
    t.pushResponse response = { t with outbox := [response] } := by
  unfold DebugTransport.pushResponse
  rw [h, if_neg (by decide)]
  rfl

theorem Accepts.unique {request' : WireRequest}
    (h : Accepts parse render t bytes generation serial request)
    (h' : Accepts parse render t bytes generation serial request') : request = request' := by
  obtain ⟨_, h⟩ := h
  obtain ⟨_, h'⟩ := h'
  have hinbox := congrArg (fun r => r.1.inbox) ((h []).symm.trans (h' []))
  exact List.singleton_inj.mp (List.append_cancel_left hinbox)

theorem Accepts.not_refused {ids : List String} {response : WireResponse}
    (h : Accepts parse render t bytes generation serial request)
    (h' : ∀ outbox, { t with outbox }.handleFrame parse render bytes generation serial =
      ({ t with outbox, activeIds := ids }.pushResponse response, false)) : False := by
  obtain ⟨_, h⟩ := h
  exact absurd (congrArg Prod.snd ((h []).symm.trans (h' []))) nofun

/-- What was queued shows in one topic only. -/
theorem queued_unique {i j : Nat} {q q' : DebugQueuedRequest Json P} {pending pending' : Nat}
    (h : s.setTopic i
        { s.topics i with
          channel :=
            { (s.topics i).channel with
              inbox := (s.topics i).channel.inbox ++ [q]
              pending } } =
      s.setTopic j
        { s.topics j with
          channel :=
            { (s.topics j).channel with
              inbox := (s.topics j).channel.inbox ++ [q']
              pending := pending' } }) :
    i = j ∧ q = q' := by
  have htopics := congrFun (congrArg Session.topics h) i
  have hinbox := congrArg (fun topic => topic.channel.inbox) htopics
  simp only [Session.setTopic, Function.update_self] at hinbox
  by_cases hij : i = j
  · subst hij
    rw [Function.update_self] at hinbox
    exact ⟨rfl, List.singleton_inj.mp (List.append_cancel_left hinbox)⟩
  · rw [Function.update_of_ne hij] at hinbox
    exact absurd (congrArg List.length hinbox) (by simp)

theorem Ends.unique {fate fate' : Fate P}
    (h : Ends parse render views t s gates introspect bytes generation serial current fate)
    (h' : Ends parse render views t s gates introspect bytes generation serial current fate') :
    fate = fate' := by
  cases h with
  | refused ids body frame =>
    cases h' with
    | refused ids' body' frame' =>
      have hreply := congrArg (fun r => r.1.outbox) ((frame []).symm.trans (frame' []))
      simp only [pushResponse_nil] at hreply
      cases hreply
      rfl
    | answered _ _ frame' => exact (frame'.not_refused frame).elim
    | queued _ _ _ frame' => exact (frame'.not_refused frame).elim
    | dropped _ frame' => exact (frame'.not_refused frame).elim
  | answered request body frame drained routed =>
    cases h' with
    | refused _ _ frame' => exact (frame.not_refused frame').elim
    | answered request' body' frame' _ routed' =>
      obtain rfl := frame.unique frame'
      have hreply := congrArg (fun s => s.transport.outbox)
        ((routed [] []).symm.trans (routed' [] []))
      simp only [pushResponse_nil] at hreply
      cases hreply
      rfl
    | queued request' i q frame' _ routed' =>
      obtain rfl := frame.unique frame'
      have hreply := congrArg (fun s => s.transport.outbox)
        ((routed [] []).symm.trans (routed' [] []))
      simp only [pushResponse_nil] at hreply
      cases hreply
    | dropped request' frame' drained' =>
      obtain rfl := frame.unique frame'
      exact (drained.not_drops drained').elim
  | queued request i q frame drained routed =>
    cases h' with
    | refused _ _ frame' => exact (frame.not_refused frame').elim
    | answered request' body' frame' _ routed' =>
      obtain rfl := frame.unique frame'
      have hreply := congrArg (fun s => s.transport.outbox)
        ((routed [] []).symm.trans (routed' [] []))
      simp only [pushResponse_nil] at hreply
      cases hreply
    | queued request' j q' frame' _ routed' =>
      obtain rfl := frame.unique frame'
      have hsame := (routed [] []).symm.trans (routed' [] [])
      obtain ⟨rfl, rfl⟩ := queued_unique (s := (s.withOutbox []).routing current []) hsame
      rfl
    | dropped request' frame' drained' =>
      obtain rfl := frame.unique frame'
      exact (drained.not_drops drained').elim
  | dropped request frame drained =>
    cases h' with
    | refused _ _ frame' => exact (frame.not_refused frame').elim
    | answered request' body' frame' drained' =>
      obtain rfl := frame.unique frame'
      exact (drained'.not_drops drained).elim
    | queued request' i q frame' drained' =>
      obtain rfl := frame.unique frame'
      exact (drained'.not_drops drained).elim
    | dropped => rfl

variable (parse render views t s gates introspect bytes generation serial current) in
/-- The frame has one fate, the documented one. -/
def MeetsFate : Prop :=
  ∃ fate, Ends parse render views t s gates introspect bytes generation serial current fate ∧
    (∀ fate', Ends parse render views t s gates introspect bytes generation serial current fate' →
      fate' = fate) ∧
    fate.Agrees generation serial (documented parse render views t s gates introspect bytes)

theorem agrees_refusal (reply : ErrorReply) :
    (Fate.replied (P := P) (DebugTransport.errorBody reply)).Agrees generation serial
      (.error reply.refusal) := by
  obtain ⟨id, code, dataCode, message⟩ := reply
  cases dataCode with
  | none => simp [Fate.Agrees, DebugTransport.errorBody, ErrorReply.refusal, Json.get, Json.lookup]
  | some => simp [Fate.Agrees, DebugTransport.errorBody, ErrorReply.refusal, Json.get, Json.lookup]

theorem refusal_of_agrees {reply : ErrorReply} {refusal : Refusal}
    (h : (Fate.replied (P := P) (DebugTransport.errorBody reply)).Agrees generation serial
      (.error refusal)) :
    reply.id = refusal.id ∧ toString reply.code = toString refusal.code := by
  obtain ⟨id, code, dataCode, message⟩ := reply
  simp only [Fate.Agrees, DebugTransport.errorBody, Json.get, Json.lookup, if_true, if_false,
    String.reduceEq, Option.bind_some, Option.some.injEq, Json.num.injEq] at h
  exact ⟨h.1, h.2.1⟩

theorem ends_refused {reply : ErrorReply} (h : frameVerdict parse render t bytes = .error reply) :
    Ends parse render views t s gates introspect bytes generation serial current
      (.replied (DebugTransport.errorBody reply)) := by
  obtain ⟨activeIds, hframe⟩ := refuses_of_verdict h
  exact .refused activeIds _ hframe

/-- A request that the routing refuses. -/
theorem ends_unrouted {id : Json} {method : String} {params : Json} {reply : ErrorReply}
    (hcurrent : generation = current)
    (hframe : frameVerdict parse render t bytes = .ok (id, method, params))
    (h : routeVerdict views s gates introspect ⟨serial, id, method, params, generation⟩ =
      .error reply) :
    Ends parse render views t s gates introspect bytes generation serial current
      (.replied (DebugTransport.errorBody reply)) :=
  .answered _ _ (accepts_of_verdict hframe) (takes_of_current hcurrent) (routing_refused h)

theorem ok_of_mapError {verdict : Except ErrorReply α} {a : α}
    (h : verdict.mapError ErrorReply.refusal = .ok a) : verdict = .ok a := by
  cases verdict with
  | error reply => cases h
  | ok b => cases h; rfl

theorem meetsFate_of_ends {fate : Fate P}
    (h : Ends parse render views t s gates introspect bytes generation serial current fate)
    (hagrees : fate.Agrees generation serial
      (documented parse render views t s gates introspect bytes)) :
    MeetsFate parse render views t s gates introspect bytes generation serial current :=
  ⟨fate, h, fun _ h' => h'.unique h, hagrees⟩

theorem not_anonymous
    (h : MeetsFate parse render views t s gates introspect bytes generation serial current) :
    ¬ Anonymous parse bytes := by
  obtain ⟨fate, -, hunique, hagrees⟩ := h
  intro hanonymous
  obtain ⟨id, hnull, hverdict, hdocumented⟩ := frameVerdict_anonymous hanonymous
  rw [← hunique _ (ends_refused hverdict), documented, hdocumented] at hagrees
  obtain rfl := (refusal_of_agrees hagrees).1
  cases hnull

theorem not_stale {id : Json} {method : String} {params : Json}
    (h : MeetsFate parse render views t s gates introspect bytes generation serial current)
    (hverdict : frameVerdict parse render t bytes = .ok (id, method, params)) :
    generation = current := by
  obtain ⟨fate, -, hunique, hagrees⟩ := h
  by_contra hstale
  have hframe : Accepts parse render t bytes generation serial
      ⟨serial, id, method, params, generation⟩ := accepts_of_verdict hverdict
  rw [← hunique _ (.dropped _ hframe (drops_of_stale hstale))] at hagrees
  exact hagrees

theorem not_unroutable {id : Json} {method : String} {params : Json}
    (h : MeetsFate parse render views t s gates introspect bytes generation serial current)
    (hverdict : frameVerdict parse render t bytes = .ok (id, method, params))
    (hworker : documentedWorker parse render t bytes = .ok (id, method, params)) :
    ¬ Unroutable views gates introspect method := by
  have hcurrent := not_stale h hverdict
  obtain ⟨fate, -, hunique, hagrees⟩ := h
  intro hunroutable
  have hrouted : routeVerdict views s gates introspect
        ⟨serial, id, method, params, generation⟩ = _ ∧
      documentedDispatch views s gates introspect id method params = _ :=
    routeVerdict_unroutable hunroutable
  simp only [← hunique _ (ends_unrouted hcurrent hverdict hrouted.1), documented, hworker,
    accept_bind, hrouted.2, refuse_bind] at hagrees
  have hcode : toString (-32000 : Int) = toString (-32601 : Int) := (refusal_of_agrees hagrees).2
  exact absurd hcode (by decide)

/-- A frame has the documented fate exactly if it does not have an id and lack
a method, and, where it is accepted, the run that picks it up has read its
generation and it is not for an unknown topic while the runtime gate is closed. -/
theorem meetsFate_iff (parse : List UInt8 → Option Json) (render : Json → String)
    (views : List (TopicView P)) (t : DebugTransport) (s : Session P) (gates : Gates)
    (introspect : String → Option Json) (bytes : List UInt8) (generation serial current : Nat) :
    MeetsFate parse render views t s gates introspect bytes generation serial current ↔
      ¬ Anonymous parse bytes ∧
        ∀ id method params, documentedWorker parse render t bytes = .ok (id, method, params) →
          generation = current ∧ ¬ Unroutable views gates introspect method := by
  constructor
  · intro h
    refine ⟨not_anonymous h, fun id method params hworker => ?_⟩
    have hverdict : frameVerdict parse render t bytes = .ok (id, method, params) :=
      ok_of_mapError ((frameVerdict_documented (not_anonymous h)).trans hworker)
    exact ⟨not_stale h hverdict, not_unroutable h hverdict hworker⟩
  rintro ⟨hanonymous, hroutable⟩
  have hworker : (frameVerdict parse render t bytes).mapError _ =
      documentedWorker parse render t bytes := frameVerdict_documented hanonymous
  cases hverdict : frameVerdict parse render t bytes with
  | error reply =>
    rw [hverdict] at hworker
    refine meetsFate_of_ends (ends_refused hverdict) ?_
    rw [documented, ← hworker]
    exact agrees_refusal reply
  | ok accepted =>
    obtain ⟨id, method, params⟩ := accepted
    rw [hverdict] at hworker
    obtain ⟨hcurrent, hrouting⟩ := hroutable id method params hworker.symm
    have hframe : Accepts parse render t bytes generation serial
        ⟨serial, id, method, params, generation⟩ := accepts_of_verdict hverdict
    have htakes : Takes views current ⟨serial, id, method, params, generation⟩ :=
      takes_of_current hcurrent
    have hdispatch : (routeVerdict views s gates introspect
        ⟨serial, id, method, params, generation⟩).mapError _ =
        documentedDispatch views s gates introspect id method params :=
      routeVerdict_documented hrouting
    have hdocumented : documented parse render views t s gates introspect bytes =
        (documentedDispatch views s gates introspect id method params >>= fun routed =>
          .ok (id, routed)) := by
      rw [documented, ← hworker]
      rfl
    cases hrouted : routeVerdict views s gates introspect
      ⟨serial, id, method, params, generation⟩ with
    | error reply =>
      rw [hrouted] at hdispatch
      refine meetsFate_of_ends (ends_unrouted hcurrent hverdict hrouted) ?_
      rw [hdocumented, ← hdispatch]
      exact agrees_refusal reply
    | ok routed =>
      rw [hrouted] at hdispatch
      cases routed with
      | inl payload =>
        refine meetsFate_of_ends (.answered _ _ hframe htakes (routing_answered hrouted)) ?_
        rw [hdocumented, ← hdispatch]
        rfl
      | inr target =>
        obtain ⟨payload, i⟩ := target
        refine meetsFate_of_ends (.queued _ _ _ hframe htakes (routing_queued hrouted)) ?_
        rw [hdocumented, ← hdispatch]
        exact ⟨rfl, rfl⟩

end

def unknownMethod : Json :=
  .obj [("jsonrpc", .str "2.0"), ("id", .num "1"), ("method", .str "nope")]

/-- The runtime gate is asked first. -/
theorem unknown_method_unavailable : ¬ ∀ (parse : List UInt8 → Option Json)
    (render : Json → String) (views : List (TopicView Unit)) (t : DebugTransport)
    (s : Session Unit) (gates : Gates) (introspect : String → Option Json) (bytes : List UInt8)
    (generation serial current : Nat),
    MeetsFate parse render views t s gates introspect bytes generation serial current := by
  intro h
  have hfate := h (fun _ => some unknownMethod) (fun _ => "1") [] .empty .init
    ⟨false, fun _ => true⟩ (fun _ => none) [] 1 0 1
  exact not_unroutable hfate rfl rfl ⟨rfl, rfl, rfl⟩

end ShinySongTools.Debug
