/-!
# Debug topic channels

The vocabulary of wire errors, the queued request and response envelopes, and
the channel a topic shares between the dispatch system and its handler. `V` is
the type of JSON values; `P` what the type-erased payload can be seen as.

`serial` numbers the requests in the order they were queued. The code has no
such field and no operation looks at it: it says which request a value belongs
to when ids repeat.
-/

namespace ShinySongTools

inductive DebugServerError where
  | runtimeUnavailable
  | queueFull
  | payloadTooLarge
  | pluginUnavailable
  | handlerError
  | internalError
  deriving DecidableEq, Repr

def DebugServerError.codeName : DebugServerError → String
  | .runtimeUnavailable => "runtime_unavailable"
  | .queueFull => "queue_full"
  | .payloadTooLarge => "payload_too_large"
  | .pluginUnavailable => "plugin_unavailable"
  | .handlerError => "handler_error"
  | .internalError => "internal_error"

inductive DebugWireErrorCode where
  | methodNotFound
  | invalidParams
  | serverError (error : DebugServerError)
  deriving DecidableEq, Repr

structure DebugWireError where
  code : DebugWireErrorCode
  message : String
  deriving DecidableEq, Repr

structure DebugQueuedRequest (V : Type u) (P : Type v) where
  serial : Nat
  id : V
  payload : P
  generation : Nat
  deriving DecidableEq

/-- `origin` is what the answer was made from, as `serial` is for requests. -/
structure DebugResponse (V : Type u) (O : Type v) where
  id : V
  result : Except DebugWireError V
  generation : Nat
  origin : O

/-- The queues and the counter of a channel; its gate readers belong to the
dispatch system that asks them. -/
structure DebugTopicChannel (V : Type u) (P : Type v) (O : Type w) where
  inbox : List (DebugQueuedRequest V P)
  outbox : List (DebugResponse V O)
  pending : Nat

def debugMaxPending : Nat := 16

namespace DebugTopicChannel

variable {V : Type u} {P : Type v} {O : Type w}

def empty : DebugTopicChannel V P O := ⟨[], [], 0⟩

def queueFull : DebugWireError := ⟨.serverError .queueFull, "topic pending capacity reached"⟩

def enqueue (c : DebugTopicChannel V P O) (request : DebugQueuedRequest V P) :
    Except DebugWireError Unit × DebugTopicChannel V P O :=
  if debugMaxPending ≤ c.pending then (.error queueFull, c)
  else (.ok (), { c with inbox := c.inbox ++ [request], pending := c.pending + 1 })

def leavePending (c : DebugTopicChannel V P O) : DebugTopicChannel V P O :=
  { c with pending := c.pending - 1 }

/-- A response is produced: it goes to the outbox and frees its pending slot. -/
def answer (c : DebugTopicChannel V P O) (response : DebugResponse V O) :
    DebugTopicChannel V P O :=
  { c with outbox := c.outbox ++ [response] }.leavePending

/-- All the given requests are answered. -/
theorem foldl_answer (f : DebugQueuedRequest V P → DebugResponse V O)
    (l : List (DebugQueuedRequest V P)) (c : DebugTopicChannel V P O) :
    (l.foldl (fun c q => c.answer (f q)) c).inbox = c.inbox ∧
      (l.foldl (fun c q => c.answer (f q)) c).outbox = c.outbox ++ l.map f := by
  induction l generalizing c with
  | nil => simp
  | cons q l ih =>
    obtain ⟨hin, hout⟩ := ih (c.answer (f q))
    refine ⟨hin, hout.trans ?_⟩
    simp [answer, leavePending]

end DebugTopicChannel
end ShinySongTools
