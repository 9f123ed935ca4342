import ShinySongTools.Core.Overtaking
import ShinySongTools.Debug.ActiveIds

/-!
# The debug plane

A session whose callback-domain topics have their relay and hooks. Topics with
`callback` set are those of `callbacks`; the others are the session's own.

A response keeps, as its origin, the request its handler ran on: the relay
puts the id and the generation it has in flight on a response, and the origin
says where the result came from.
-/

namespace ShinySongTools.Debug

variable {P Res : Type u}

structure Plane (P Res : Type u) where
  session : Session P
  callbacks : Nat → Relay.State Json P Res
  /-- The accepted requests. -/
  requests : List WireRequest
  /-- What was written, with the generation of the connection. -/
  frames : List (Nat × WireResponse)
  /-- For each request offered to a topic's queue, the generation the dispatch
  run had read and that of the request. -/
  offered : List (Nat × Nat)

def Plane.init : Plane P Res :=
  { session := .init, callbacks := fun _ => .init, requests := [], frames := [], offered := [] }

inductive PlaneAction (P Res : Type u) where
  | session (a : Action)
  | relay (topic : Nat) (a : Relay.Action Json P Res)

def Plane.setCallback (p : Plane P Res) (i : Nat) (relay : Relay.State Json P Res) : Plane P Res :=
  { p with callbacks := Function.update p.callbacks i relay }

/-- The request a received frame adds to the inbox. -/
def arrived (parse : List UInt8 → Option Json) (render : Json → String) (s : Session P) :
    Action → List WireRequest
  | .frame bytes =>
    match s.worker with
    | .reading g =>
      match s.transport.handleFrame parse render bytes g s.nextSerial with
      | (transport, true) => transport.inbox.getLast?.toList
      | (_, false) => []
    | _ => []
  | _ => []

def wrote (s : Session P) : Action → List (Nat × WireResponse)
  | .worker =>
    match s.worker with
    | .writing g (response :: _) => if response.generation = g then [(g, response)] else []
    | _ => []
  | _ => []

/-- The decoded payload is of the topic's request type, so no response of a
callback-domain topic is without an origin. -/
def wireOrigin (r : DebugResponse Json (Option (Relay.Answer Json P Res))) :
    DebugResponse Json Nat :=
  ⟨r.id, r.result, r.generation, (r.origin.map Relay.Answer.serial).getD 0⟩

/-- `fail_pending_requests`: nobody's handler ran, the answer is the queued
request's own. -/
def retireCallback (relay : Relay.State Json P Res) : Relay.State Json P Res :=
  { relay with
    channel := relay.channel.inbox.foldl
      (fun c q =>
        c.answer ⟨q.id, .error (pluginUnavailable "plugin retired; request not delivered"),
        q.generation, some ⟨q, .error "plugin retired; request not delivered"⟩⟩)
      { relay.channel with inbox := [] } }

section

variable (parse : List UInt8 → Option Json) (render : Json → String) (views : List (TopicView P))
  (callback : Nat → Bool) (toValue : Res → Except String Json)

/-- The dispatch system runs on the relays' thread, so none of them is in the
middle of its body. -/
def planeDispatch (p : Plane P Res) (readings : Readings) : Option (Plane P Res) :=
  let own : Plane P Res := { p with session := dispatchStep views p.session readings }
  match p.session.dispatch with
  | .routing current (request :: rest) =>
    match ladder views readings request with
    | .ok (.inr (payload, i)) =>
      let offered := (current, request.generation) :: p.offered
      if callback i then
        let relay := p.callbacks i
        if relay.relay = .idle then
          match relay.channel.enqueue
            ⟨request.serial, request.id, some payload, request.generation⟩ with
          | (.error _, _) =>
            some { p with
              session := { p.session with
                transport := p.session.transport.respondError ⟨request.id, -32000,
                  some DebugServerError.queueFull.codeName, "topic pending capacity reached"⟩
                  request.generation request.serial
                dispatch := .routing current rest }
              offered }
          | (.ok _, channel) =>
            some { p.setCallback i { relay with channel } with
              session := { p.session with dispatch := .routing current rest }
              offered }
        else none
      else some { own with offered }
    | _ => some own
  | .draining current (i :: rest) =>
    if callback i then
      let relay := p.callbacks i
      if relay.relay = .idle then
        some { p.setCallback i { relay with channel := { relay.channel with outbox := [] } } with
          session := { p.session with
            dispatch := .returning current (relay.channel.outbox.map wireOrigin) rest } }
      else none
    else some own
  | _ => some own

def planeStep (p : Plane P Res) : PlaneAction P Res → Option (Plane P Res)
  | .session (.dispatch readings) => planeDispatch views callback p readings
  | .session (.handler i op) =>
    if callback i then
      match op with
      | .retire =>
        if (p.callbacks i).relay = .idle then
          some (p.setCallback i (retireCallback (p.callbacks i)))
        else none
      | _ => none
    else
      (step parse render views p.session (.handler i op)).map fun session => { p with session }
  | .session a =>
    (step parse render views p.session a).map fun session =>
      { p with
        session
        requests := arrived parse render p.session a ++ p.requests
        frames := wrote p.session a ++ p.frames }
  | .relay i a =>
    match a with
    | .enqueue _ _ _ => none
    | a =>
      if callback i then (Relay.step toValue (p.callbacks i) a).map (p.setCallback i) else none

/-- Where a response has an origin, its id and its result come from requests of
the connection it is written on. -/
structure Isolated (p : Plane P Res) : Prop where
  serials : (p.requests.map (·.serial)).Nodup
  id : ∀ g r tok, (g, r) ∈ p.frames → r.token = some tok →
    ∃ request ∈ p.requests, request.generation = g ∧ r.body.get "id" = some request.id
  origin : ∀ g r tok, (g, r) ∈ p.frames → r.token = some tok →
    ∃ request ∈ p.requests, request.serial = tok.serial ∧ request.generation = g
  offered : ∀ e ∈ p.offered, e.2 = e.1

/-- A callback-domain response is collected after those to requests of earlier
connections. -/
def InOrder (p : Plane P Res) : PlaneAction P Res → Prop
  | .relay i a => Relay.NoStraggler (p.callbacks i) a
  | .session _ => True

end

end ShinySongTools.Debug
