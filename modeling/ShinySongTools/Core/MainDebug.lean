import ShinySongTools.Machine
import ShinySongTools.Core.Relay
import Mathlib.Data.List.Forall2
import Mathlib.Data.List.Nodup

/-!
# Main-domain debug handlers

`DebugHandlerSystem::run` over the channel of its topic. A run takes the whole
inbox and answers it request by request; the boundary of each request catches
what unwinds inside it, gives the remainder back and fails the run. What
becomes of a request once its turn has come is a `Handling`, which the
environment chooses; its origin in a response is the request's serial.
-/

namespace ShinySongTools.MainDebug

open Relay (Queued wireResult typeMismatch)

variable {V : Type u} {Req Res : Type v}

abbrev Channel (V : Type u) (Req : Type v) := DebugTopicChannel V (Option Req) Nat

inductive Handling (Res : Type v) where
  /-- The payload is referenced from elsewhere. -/
  | extraReferences
  /-- The handler's params do not validate. -/
  | invalidParams
  | returns (response : Except String Res)
  | panics

def extraReferences : DebugWireError :=
  ⟨.serverError .internalError, "queued request has extra references"⟩

def invalidParams : DebugWireError :=
  ⟨.serverError .pluginUnavailable, "handler params no longer valid"⟩

def handlerPanicked : DebugWireError :=
  ⟨.serverError .pluginUnavailable, "debug handler panicked"⟩

/-- What the per-request boundary sees; `none` is an unwinding. -/
def outcome (toValue : Res → Except String V) (queued : Queued V Req) :
    Handling Res → Option (Except DebugWireError V)
  | .panics => none
  | .extraReferences =>
    some (.error (if queued.payload.isSome then extraReferences else typeMismatch))
  | .invalidParams =>
    some (.error (if queued.payload.isSome then invalidParams else typeMismatch))
  | .returns response =>
    some (if queued.payload.isSome then wireResult toValue response else .error typeMismatch)

def response (queued : Queued V Req) (result : Except DebugWireError V) : DebugResponse V Nat :=
  ⟨queued.id, result, queued.generation, queued.serial⟩

/-- `for leftover in iter.rev() { inbox.push_front(leftover) }` -/
def pushBack (inbox leftovers : List (Queued V Req)) : List (Queued V Req) :=
  leftovers.reverse.foldl (fun inbox leftover => leftover :: inbox) inbox

/-- The loop over the drained requests, and whether the run has failed. -/
def serve (toValue : Res → Except String V) (handle : Queued V Req → Handling Res) :
    List (Queued V Req) → Channel V Req → Channel V Req × Bool
  | [], c => (c, false)
  | queued :: rest, c =>
    match outcome toValue queued (handle queued) with
    | some result => serve toValue handle rest (c.answer (response queued result))
    | none =>
      ({ c with inbox := pushBack c.inbox rest }.answer
        (response queued (.error handlerPanicked)), true)

def run (toValue : Res → Except String V) (handle : Queued V Req → Handling Res)
    (c : Channel V Req) : Channel V Req × Bool :=
  if c.inbox = [] then (c, false) else serve toValue handle c.inbox { c with inbox := [] }

/-- A response carries its request's id and generation. -/
structure Same (queued : Queued V Req) (r : DebugResponse V Nat) : Prop where
  origin : r.origin = queued.serial
  id : r.id = queued.id
  generation : r.generation = queued.generation

/-- The response to a request that was given its turn. -/
structure Answers (toValue : Res → Except String V) (handle : Queued V Req → Handling Res)
    (queued : Queued V Req) (r : DebugResponse V Nat) : Prop extends Same queued r where
  result : r.result = (outcome toValue queued (handle queued)).getD (.error handlerPanicked)

/-- A run has answered the requests `done`, with `new`, and given back `rest`. -/
structure Batch (toValue : Res → Except String V) (handle : Queued V Req → Handling Res)
    (c c' : Channel V Req) (failed : Bool) (done rest : List (Queued V Req))
    (new : List (DebugResponse V Nat)) : Prop where
  inbox : c.inbox = done ++ rest
  left : c'.inbox = rest
  outbox : c'.outbox = c.outbox ++ new
  answers : List.Forall₂ (Answers toValue handle) done new
  pending : c.pending = c'.pending + new.length
  finished : failed = false → rest = []
  panicked : failed = true → ∃ queued ∈ done.getLast?, outcome toValue queued (handle queued) = none

-- ---------------------------------------------------------------------------
-- One run
-- ---------------------------------------------------------------------------

theorem pushBack_eq (inbox leftovers : List (Queued V Req)) :
    pushBack inbox leftovers = leftovers ++ inbox := by
  induction leftovers with
  | nil => rfl
  | cons leftover leftovers ih =>
    simp only [pushBack, List.foldl_reverse, List.foldr_cons] at ih ⊢
    rw [ih, List.cons_append]

theorem answers_response {toValue : Res → Except String V} {handle : Queued V Req → Handling Res}
    (h : result = (outcome toValue queued (handle queued)).getD (.error handlerPanicked)) :
    Answers toValue handle queued (response queued result) :=
  ⟨⟨rfl, rfl, rfl⟩, h⟩

/-- By induction on the requests still to come; what the queue holds besides
is not touched. -/
theorem serve_batch (toValue : Res → Except String V) (handle : Queued V Req → Handling Res)
    (requests : List (Queued V Req)) (c : Channel V Req) (hin : c.inbox = [])
    (hp : requests.length ≤ c.pending) :
    ∃ done rest new, Batch toValue handle { c with inbox := requests }
      (serve toValue handle requests c).1 (serve toValue handle requests c).2 done rest new := by
  induction requests generalizing c with
  | nil =>
    exact ⟨[], [], [], rfl, hin, (List.append_nil _).symm, .nil, rfl, fun _ => rfl,
      fun h => absurd h Bool.false_ne_true⟩
  | cons queued requests ih =>
    rw [List.length_cons] at hp
    cases ho : outcome toValue queued (handle queued) with
    | some result =>
      obtain ⟨done, rest, new, h⟩ := ih (c.answer (response queued result)) hin (by
        simp only [DebugTopicChannel.answer, DebugTopicChannel.leavePending]
        omega)
      simp only [serve, ho]
      refine ⟨queued :: done, rest, response queued result :: new, congrArg _ h.inbox, h.left, ?_,
        .cons (answers_response (by rw [ho]; rfl)) h.answers, ?_, h.finished, fun hf => ?_⟩
      · simpa [DebugTopicChannel.answer, DebugTopicChannel.leavePending] using h.outbox
      · have hpending := h.pending
        simp only [DebugTopicChannel.answer, DebugTopicChannel.leavePending, List.length_cons]
          at hpending ⊢
        omega
      · obtain ⟨last, hlast, hnone⟩ := h.panicked hf
        exact ⟨last, by simp [List.getLast?_cons, Option.mem_def.mp hlast], hnone⟩
    | none =>
      simp only [serve, ho]
      refine ⟨[queued], requests, [response queued (.error handlerPanicked)], rfl, ?_, rfl,
        .cons (answers_response (by rw [ho]; rfl)) .nil, ?_, (by simp), fun _ => ⟨queued, rfl, ho⟩⟩
      · simp [DebugTopicChannel.answer, DebugTopicChannel.leavePending, pushBack_eq, hin]
      · simp only [DebugTopicChannel.answer, DebugTopicChannel.leavePending, List.length_singleton]
        omega

theorem run_batch (toValue : Res → Except String V) (handle : Queued V Req → Handling Res)
    (c : Channel V Req) (hp : c.inbox.length ≤ c.pending) :
    ∃ done rest new,
      Batch toValue handle c (run toValue handle c).1 (run toValue handle c).2 done rest new := by
  unfold run
  split
  case isTrue hempty =>
    exact ⟨[], [], [], hempty, hempty, (List.append_nil _).symm, .nil, rfl, fun _ => rfl, nofun⟩
  case isFalse => exact serve_batch toValue handle c.inbox { c with inbox := [] } rfl hp

end ShinySongTools.MainDebug
