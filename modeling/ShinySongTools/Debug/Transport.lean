import ShinySongTools.Core.DebugChannel

/-!
# The debug transport

`DebugTransport` and what one received frame does to it. Parsing and printing
of JSON belong to serde and are parameters: `parse` reads a frame body,
`render` prints an id for comparison.

`serial` and `origin` number the accepted requests and say which of them a
response answers. The code has neither field and no operation looks at them.
-/

namespace ShinySongTools.Debug

inductive Json where
  | null
  | bool (value : Bool)
  | num (text : String)
  | str (text : String)
  | arr (items : List Json)
  | obj (members : List (String × Json))

namespace Json

def isNull : Json → Bool
  | .null => true
  | _ => false

def asStr : Json → Option String
  | .str text => some text
  | _ => none

/-- `Map::get`; a parsed object has each key once. -/
def lookup (key : String) : List (String × Json) → Option Json
  | [] => none
  | (name, value) :: rest => if name = key then some value else lookup key rest

def get (value : Json) (key : String) : Option Json :=
  match value with
  | .obj members => lookup key members
  | _ => none

end Json

def maxInboxRequests : Nat := 128
def maxOutboxResponses : Nat := 256

/-- An accepted request: its number and the generation of its connection. -/
structure Token where
  serial : Nat
  generation : Nat
  deriving DecidableEq, Repr

structure WireRequest where
  serial : Nat
  id : Json
  method : String
  params : Json
  generation : Nat

structure WireResponse where
  body : Json
  generation : Nat
  origin : Option Nat

def WireRequest.token (r : WireRequest) : Token := ⟨r.serial, r.generation⟩

def WireResponse.token (r : WireResponse) : Option Token := r.origin.map fun n => ⟨n, r.generation⟩

structure DebugTransport where
  inbox : List WireRequest
  outbox : List WireResponse
  activeIds : List String
  generation : Nat
  /-- What `push_response` had no room for. -/
  dropped : List Token

/-- Arguments of `respond_error`. -/
structure ErrorReply where
  id : Json
  code : Int
  dataCode : Option String
  message : String

namespace DebugTransport

def empty : DebugTransport := ⟨[], [], [], 0, []⟩

def pushResponse (t : DebugTransport) (response : WireResponse) : DebugTransport :=
  if maxOutboxResponses ≤ t.outbox.length then
    { t with dropped := response.token.toList ++ t.dropped }
  else { t with outbox := t.outbox ++ [response] }

def okBody (id result : Json) : Json :=
  .obj [("jsonrpc", .str "2.0"), ("id", id), ("result", result)]

def errorBody (reply : ErrorReply) : Json :=
  let detail := match reply.dataCode with
    | some dataCode => ("data", .obj [("code", .str dataCode), ("message", .str reply.message)])
    | none => ("message", .str reply.message)
  .obj [("jsonrpc", .str "2.0"), ("id", reply.id),
    ("error", .obj [("code", .num (toString reply.code)), detail])]

def respondOk (t : DebugTransport) (id result : Json) (generation : Nat) (origin : Option Nat) :
    DebugTransport :=
  t.pushResponse ⟨okBody id result, generation, origin⟩

def respondError (t : DebugTransport) (reply : ErrorReply) (generation : Nat)
    (origin : Option Nat) : DebugTransport :=
  t.pushResponse ⟨errorBody reply, generation, origin⟩

end DebugTransport

def trackableId (render : Json → String) (id : Json) : Option String :=
  if id.isNull then none else some (render id)

/-- The batch and envelope checks of `handle_frame`: id, method and params. -/
def envelope (value : Json) : Except ErrorReply (Json × String × Json) :=
  match value with
  | .arr _ => .error ⟨.null, -32600, none, "batch not supported"⟩
  | .obj _ =>
    let versionOk := ((value.get "jsonrpc").bind Json.asStr).any (· == "2.0")
    let method := (value.get "method").bind Json.asStr
    let id := value.get "id"
    let params := (value.get "params").getD .null
    if versionOk = false then .error ⟨id.getD .null, -32600, none, "invalid request"⟩
    else
      match method with
      | none => .error ⟨.null, -32600, none, "invalid request"⟩
      | some method =>
        match id with
        | none => .error ⟨.null, -32600, none, "notifications not supported"⟩
        | some id => .ok (id, method, params)
  | _ => .error ⟨.null, -32600, none, "invalid request"⟩

namespace DebugTransport

/-- The transport after a frame, and whether its request was accepted. -/
def handleFrame (parse : List UInt8 → Option Json) (render : Json → String) (t : DebugTransport)
    (bytes : List UInt8) (generation serial : Nat) : DebugTransport × Bool :=
  match parse bytes with
  | none => (t.respondError ⟨.null, -32700, none, "parse error"⟩ generation none, false)
  | some value =>
    match envelope value with
    | .error reply => (t.respondError reply generation none, false)
    | .ok (id, method, params) =>
      let key := trackableId render id
      if key.any fun key => t.activeIds.contains key then
        (t.respondError ⟨id, -32600, none, "duplicate active id"⟩ generation none, false)
      else
        let t := { t with activeIds := t.activeIds ++ key.toList }
        if maxInboxRequests ≤ t.inbox.length then
          (t.respondError ⟨id, -32000, some DebugServerError.queueFull.codeName,
            "transport inbox capacity reached"⟩ generation none, false)
        else
          ({ t with inbox := t.inbox ++ [⟨serial, id, method, params, generation⟩] }, true)

/-- A response is about to be written: its id becomes reusable. -/
def releaseId (render : Json → String) (t : DebugTransport) (response : WireResponse) :
    DebugTransport :=
  match (response.body.get "id").bind (trackableId render) with
  | some key => { t with activeIds := t.activeIds.filter (· ≠ key) }
  | none => t

end DebugTransport
end ShinySongTools.Debug
