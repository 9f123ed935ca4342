import ShinySongTools.Machine
import ShinySongTools.Custody
import ShinySongTools.Core.DebugChannel
import Mathlib.Logic.Function.Basic

/-!
# The callback-domain relay

`CallbackRelaySystem::run` on the main thread and
`CallbackDebugEndpoints::handle_pending` on any number of hook threads, over
the two shared slots. A slot operation is one step and may find its lock
contended.

The relay sends a clone of the queued request before it drops its own, so a
hook that is quick enough finds a second reference and puts the request back.
Responses carry no id; the relay pairs them with the delivered ids in FIFO
order. `Paired` is the promise that this comes out right, `Orderly` the
condition on the steps under which it does.
-/

namespace ShinySongTools.Relay

variable {V : Type u} {Req Res : Type v}

/-- A queued request; the payload is what its downcast to the topic's request
type gives. -/
abbrev Queued (V : Type u) (Req : Type v) := DebugQueuedRequest V (Option Req)

/-- What the response slot holds is `outcome`; `request` says whose it is. -/
structure Answer (V : Type u) (Req Res : Type v) where
  request : Queued V Req
  outcome : Except String Res

def Answer.serial (answer : Answer V Req Res) : Nat := answer.request.serial

def slotSerials (request : Option (Queued V Req)) : List Nat :=
  request.toList.map DebugQueuedRequest.serial

inductive RelayPc where
  | idle
  /-- The request slot was free and the inbox is locked. -/
  | deliver
  /-- The request is in the slot and still at the front of the inbox. -/
  | popFront
  | collect
  deriving DecidableEq, Repr

inductive HookPc (V : Type u) (Req Res : Type v) where
  | idle
  | unwrap (request : Queued V Req)
  | requeue (request : Queued V Req)
  | handling (request : Queued V Req)
  | respond (answer : Answer V Req Res)

/-- The request a hook has taken and not started, and the one it has started. -/
def HookPc.taken : HookPc V Req Res → List Nat
  | .unwrap request | .requeue request => [request.serial]
  | .idle | .handling _ | .respond _ => []

def HookPc.replying : HookPc V Req Res → List Nat
  | .handling request => [request.serial]
  | .respond answer => [answer.serial]
  | .idle | .unwrap _ | .requeue _ => []

structure State (V : Type u) (Req Res : Type v) where
  channel : DebugTopicChannel V (Option Req) (Option (Answer V Req Res))
  request : Option (Queued V Req)
  response : Option (Answer V Req Res)
  inFlight : List (V × Nat)
  relay : RelayPc
  hooks : Nat → HookPc V Req Res
  nextSerial : Nat
  /-- The requests whose handler has been started, and what handlers have
  returned. -/
  handled : List Nat
  ran : List (Answer V Req Res)
  /-- The requests that were answered for their type, that were overwritten in
  the request slot, and that got lost otherwise. -/
  rejected : List Nat
  overwritten : List Nat
  lost : List Nat

def State.init : State V Req Res :=
  { channel := .empty, request := none, response := none, inFlight := [], relay := .idle
    hooks := fun _ => .idle, nextSerial := 0, handled := [], ran := []
    rejected := [], overwritten := [], lost := [] }

inductive Action (V : Type u) (Req Res : Type v) where
  /-- The dispatch system, on the relay's thread, queues a request. -/
  | enqueue (id : V) (payload : Option Req) (generation : Nat)
  | relay (contended : Bool)
  | hook (thread : Nat) (contended : Bool)
  | handlerReturns (thread : Nat) (outcome : Except String Res)
  | handlerPanics (thread : Nat)

def State.goRelay (s : State V Req Res) (pc : RelayPc) : State V Req Res := { s with relay := pc }

def State.goHook (s : State V Req Res) (i : Nat) (pc : HookPc V Req Res) : State V Req Res :=
  { s with hooks := Function.update s.hooks i pc }

def wireResult (toValue : Res → Except String V) :
    Except String Res → Except DebugWireError V
  | .ok value =>
    match toValue value with
    | .ok json => .ok json
    | .error message => .error ⟨.serverError .internalError, message⟩
  | .error message => .error ⟨.serverError .handlerError, message⟩

def typeMismatch : DebugWireError :=
  ⟨.serverError .internalError, "queued request type mismatch"⟩

/-- The deliver step of `run`, up to the send. -/
def deliver (s : State V Req Res) (contended : Bool) : State V Req Res :=
  match s.channel.inbox with
  | [] => s.goRelay .collect
  | queued :: rest =>
    match queued.payload with
    | some _ =>
      if contended then s.goRelay .collect
      else
        { s with
          request := some queued
          overwritten := slotSerials s.request ++ s.overwritten }.goRelay .popFront
    | none =>
      { s with
        channel := { s.channel with inbox := rest }.answer
          ⟨queued.id, .error typeMismatch, queued.generation, none⟩
        rejected := queued.serial :: s.rejected }.goRelay .collect

def popFront (s : State V Req Res) : State V Req Res :=
  match s.channel.inbox with
  | [] => s.goRelay .collect
  | queued :: rest =>
    { s with
      channel := { s.channel with inbox := rest }
      inFlight := s.inFlight ++ [(queued.id, queued.generation)] }.goRelay .collect

/-- One turn of the collect loop. -/
def collect (toValue : Res → Except String V) (s : State V Req Res) (contended : Bool) :
    State V Req Res :=
  if contended then s.goRelay .idle
  else
    match s.response with
    | none => s.goRelay .idle
    | some answer =>
      match s.inFlight with
      | [] => { s with response := none, lost := answer.serial :: s.lost }.goRelay .idle
      | (id, generation) :: rest =>
        { s with
          channel := s.channel.answer
            ⟨id, wireResult toValue answer.outcome, generation, some answer⟩
          response := none
          inFlight := rest }

def relayStep (toValue : Res → Except String V) (s : State V Req Res) (contended : Bool) :
    State V Req Res :=
  match s.relay with
  | .idle => s.goRelay (if contended || s.request.isSome then .collect else .deliver)
  | .deliver => deliver s contended
  | .popFront => popFront s
  | .collect => collect toValue s contended

/-- The relay still holds the reference it cloned the request from. -/
def State.stray (s : State V Req Res) (request : Queued V Req) : Bool :=
  s.relay = .popFront && (s.channel.inbox.head?.map DebugQueuedRequest.serial = some request.serial)

def hookStep (s : State V Req Res) (i : Nat) (contended : Bool) : Option (State V Req Res) :=
  match s.hooks i with
  | .idle =>
    if contended then some s
    else
      match s.request with
      | none => some s
      | some request => some ({ s with request := none }.goHook i (.unwrap request))
  | .unwrap request =>
    if s.stray request then some (s.goHook i (.requeue request))
    else
      some ({ s with handled := request.serial :: s.handled }.goHook i (.handling request))
  | .requeue request =>
    if contended then some ({ s with lost := request.serial :: s.lost }.goHook i .idle)
    else
      some ({ s with
        request := some request
        overwritten := slotSerials s.request ++ s.overwritten }.goHook i .idle)
  | .respond answer =>
    if contended then some ({ s with lost := answer.serial :: s.lost }.goHook i .idle)
    else
      some ({ s with
        response := some answer
        lost := s.response.toList.map Answer.serial ++ s.lost }.goHook i .idle)
  | .handling _ => none

def step (toValue : Res → Except String V) (s : State V Req Res) :
    Action V Req Res → Option (State V Req Res)
  | .enqueue id payload generation =>
    if s.relay = .idle then
      match s.channel.enqueue ⟨s.nextSerial, id, payload, generation⟩ with
      | (.ok _, channel) => some { s with channel, nextSerial := s.nextSerial + 1 }
      | (.error _, _) => some s
    else none
  | .relay contended => some (relayStep toValue s contended)
  | .hook i contended => hookStep s i contended
  | .handlerReturns i outcome =>
    match s.hooks i with
    | .handling request =>
      some ({ s with ran := ⟨request, outcome⟩ :: s.ran }.goHook i (.respond ⟨request, outcome⟩))
    | _ => none
  | .handlerPanics i =>
    match s.hooks i with
    | .handling request => some ({ s with lost := request.serial :: s.lost }.goHook i .idle)
    | _ => none

-- ---------------------------------------------------------------------------
-- The promise
-- ---------------------------------------------------------------------------

inductive Place where
  | inbox
  | request
  | taken (thread : Nat)
  | replying (thread : Nat)
  | response
  | answered
  | rejected
  | lost
  deriving DecidableEq, Repr

/-- Where a request is that its handler has been started for. -/
def Place.IsReply : Place → Prop
  | .replying _ | .response | .answered => True
  | _ => False

def State.held (s : State V Req Res) : Place → List Nat
  | .inbox =>
    (match s.relay with
      | .popFront => s.channel.inbox.tail
      | _ => s.channel.inbox).map DebugQueuedRequest.serial
  | .request => slotSerials s.request
  | .taken i => (s.hooks i).taken
  | .replying i => (s.hooks i).replying
  | .response => s.response.toList.map Answer.serial
  | .answered => s.channel.outbox.filterMap fun r => r.origin.map Answer.serial
  | .rejected => s.rejected
  | .lost => s.lost

/-- The response answers the request whose handler run made it. -/
structure AnswersOwn (toValue : Res → Except String V) (s : State V Req Res)
    (r : DebugResponse V (Option (Answer V Req Res))) (answer : Answer V Req Res) : Prop where
  ran : answer ∈ s.ran
  id : r.id = answer.request.id
  generation : r.generation = answer.request.generation
  result : r.result = wireResult toValue answer.outcome

structure Paired (toValue : Res → Except String V) (s : State V Req Res) : Prop where
  pairing : ∀ r ∈ s.channel.outbox, ∀ answer, r.origin = some answer →
    AnswersOwn toValue s r answer
  /-- A request whose handler was started is in one place, on its way to its
  one response or there. -/
  answered : ∀ n ∈ s.handled, ∃ p, p.IsReply ∧ (s.held p).count n = 1 ∧
    ∀ q, q ≠ p → (s.held q).count n = 0
  kept : s.overwritten = []

/-- The steps the relay was written for: a request is stored into a free slot;
a response is stored uncontended, into a free slot, and answers the oldest
request in flight; handlers return. -/
def Orderly (s : State V Req Res) : Action V Req Res → Prop
  | .relay contended => s.relay = .deliver → contended = false →
      (∃ queued rest, s.channel.inbox = queued :: rest ∧ queued.payload.isSome = true) →
      s.request = none
  | .hook i contended =>
    match s.hooks i with
    | .requeue _ => contended = false → s.request = none
    | .respond answer => contended = false ∧ s.response = none ∧
        s.inFlight.head? = some (answer.request.id, answer.request.generation)
    | _ => True
  | .handlerPanics _ => False
  | .enqueue _ _ _ | .handlerReturns _ _ => True

-- ---------------------------------------------------------------------------
-- Custody of the requests
-- ---------------------------------------------------------------------------

open Custody

/-- Every request is in one place, and one whose handler was started is on its
way out. -/
structure Kept (s : State V Req Res) : Prop where
  accounted : Accounted s.held (· < s.nextSerial)
  handled : ∀ n ∈ s.handled, n < s.nextSerial ∧ ∀ p, ¬ p.IsReply → n ∉ s.held p

theorem Kept.congr {s s' : State V Req Res} (h : Kept s) (hheld : ∀ p, s'.held p = s.held p)
    (hnext : s'.nextSerial = s.nextSerial) (hhandled : s'.handled = s.handled) : Kept s' where
  accounted := hnext ▸ h.accounted.congr hheld
  handled n hn := by
    obtain ⟨hlt, hout⟩ := h.handled n (hhandled ▸ hn)
    exact ⟨hnext ▸ hlt, fun p hp => hheld p ▸ hout p hp⟩

theorem Kept.moves {s s' : State V Req Res} (h : Kept s) (hm : Moves s.held s'.held p q [n])
    (hreply : p.IsReply → q.IsReply) (hnext : s'.nextSerial = s.nextSerial)
    (hhandled : s'.handled = s.handled) : Kept s' where
  accounted := hnext ▸ h.accounted.moves hm
  handled m hmem := by
    obtain ⟨hlt, hold⟩ := h.handled m (hhandled ▸ hmem)
    refine ⟨hnext ▸ hlt, fun r hr => ?_⟩
    have hzero := List.count_eq_zero.mpr (hold r hr)
    have htaken := hm.taken m
    have hput := hm.put m
    rw [← List.count_eq_zero]
    by_cases hrp : r = p
    · subst hrp
      omega
    · by_cases hrq : r = q
      · -- what arrives at `q` comes from `p`, where no started request is
        subst hrq
        have hp := List.count_eq_zero.mpr (hold p fun hp => hr (hreply hp))
        omega
      · rw [hm.rest r hrp hrq, hzero]

/-- The handler of a taken request is started. -/
theorem Kept.start {s s' : State V Req Res} (h : Kept s) (hm : Moves s.held s'.held p q [n])
    (hreply : p.IsReply → q.IsReply) (hq : q.IsReply) (hnext : s'.nextSerial = s.nextSerial)
    (hhandled : s'.handled = n :: s.handled) : Kept s' := by
  have hmoved : Kept { s' with handled := s.handled } :=
    h.moves ⟨hm.ne, hm.taken, hm.put, hm.rest⟩ hreply hnext rfl
  refine ⟨hmoved.accounted, fun m hmem => ?_⟩
  rw [hhandled] at hmem
  rcases List.mem_cons.mp hmem with rfl | hmem
  · have hin : m ∈ s'.held q := by
      rw [← List.count_pos_iff]
      have := hm.put m
      simp at this
      omega
    exact ⟨hmoved.accounted.known_of_mem hin,
      fun r hr => (hmoved.accounted.of_mem hin).not_mem hin fun he => hr (he ▸ hq)⟩
  · exact hmoved.handled m hmem

theorem Kept.enters {s s' : State V Req Res} (h : Kept s)
    (he : Enters s.held s'.held q [s.nextSerial]) (hnext : s'.nextSerial = s.nextSerial + 1)
    (hhandled : s'.handled = s.handled) : Kept s' where
  accounted := h.accounted.enters he (Nat.lt_irrefl _) fun n => by omega
  handled n hn := by
    obtain ⟨hlt, hout⟩ := h.handled n (hhandled ▸ hn)
    refine ⟨by omega, fun p hp => ?_⟩
    rw [← List.count_eq_zero, he.other (List.count_eq_zero.mpr (by simp; omega))]
    exact List.count_eq_zero.mpr (hout p hp)

-- ---------------------------------------------------------------------------
-- Where each step moves its request
-- ---------------------------------------------------------------------------

theorem held_goHook (s : State V Req Res) (i : Nat) (pc : HookPc V Req Res) (p : Place) :
    (s.goHook i pc).held p =
      if p = .taken i then pc.taken else if p = .replying i then pc.replying else s.held p := by
  cases p with
  | taken j | replying j =>
    by_cases hj : j = i <;> simp [State.held, State.goHook, hj]
  | _ => rfl

/-- A hook that does not take, start or finish a request moves nothing. -/
theorem held_goHook_same {s : State V Req Res} {pc : HookPc V Req Res}
    (ht : pc.taken = (s.hooks i).taken) (hr : pc.replying = (s.hooks i).replying) (p : Place) :
    (s.goHook i pc).held p = s.held p := by
  rw [held_goHook]
  split
  case isTrue hp => rw [hp, ht]; rfl
  case isFalse =>
    split
    case isTrue hp => rw [hp, hr]; rfl
    case isFalse => rfl

theorem moves_deliver {s : State V Req Res} (hpc : s.relay = .deliver)
    (hin : s.channel.inbox = queued :: rest) (hfree : s.request = none) (overwritten : List Nat) :
    Moves s.held ({ s with request := some queued, overwritten }.goRelay .popFront).held
      .inbox .request [queued.serial] := by
  refine .of_perm (by simp) ?_ ?_ fun r h₁ h₂ => ?_
  · simp [State.held, State.goRelay, hpc, hin]
  · simp [State.held, State.goRelay, slotSerials, hfree]
  · cases r <;> first | rfl | exact absurd rfl h₁ | exact absurd rfl h₂

theorem moves_reject {s : State V Req Res} (hpc : s.relay = .deliver)
    (hin : s.channel.inbox = queued :: rest) (error : DebugWireError) :
    Moves s.held ({ s with
      channel := { s.channel with inbox := rest }.answer
        ⟨queued.id, .error error, queued.generation, none⟩
      rejected := queued.serial :: s.rejected }.goRelay .collect).held
      .inbox .rejected [queued.serial] := by
  refine .of_perm (by simp) ?_ ?_ fun r h₁ h₂ => ?_
  · simp [State.held, State.goRelay, hpc, hin, DebugTopicChannel.answer,
      DebugTopicChannel.leavePending]
  · simp [State.held, State.goRelay]
  · cases r with
    | answered =>
      simp [State.held, State.goRelay, DebugTopicChannel.answer, DebugTopicChannel.leavePending]
    | inbox => exact absurd rfl h₁
    | rejected => exact absurd rfl h₂
    | _ => rfl

theorem moves_take {s : State V Req Res} (hpc : s.hooks i = .idle)
    (hreq : s.request = some request) :
    Moves s.held ({ s with request := none }.goHook i (.unwrap request)).held
      .request (.taken i) [request.serial] := by
  refine .of_perm (by simp) ?_ ?_ fun r h₁ h₂ => ?_
  · simp [State.held, State.goHook, slotSerials, hreq]
  · simp [State.held, State.goHook, HookPc.taken, hpc]
  · rw [held_goHook, if_neg h₂]
    split
    case isTrue hr => simp [hr, State.held, HookPc.replying, hpc]
    case isFalse => cases r <;> first | rfl | exact absurd rfl h₁

theorem moves_start {s : State V Req Res} (hpc : s.hooks i = .unwrap request) (handled : List Nat) :
    Moves s.held ({ s with handled }.goHook i (.handling request)).held
      (.taken i) (.replying i) [request.serial] := by
  refine .of_perm (by simp) ?_ ?_ fun r h₁ h₂ => ?_
  · simp [State.held, State.goHook, HookPc.taken, hpc]
  · simp [State.held, State.goHook, HookPc.replying, hpc]
  · rw [held_goHook, if_neg h₁, if_neg h₂]
    cases r <;> rfl

theorem moves_requeue {s : State V Req Res} (hpc : s.hooks i = .requeue request)
    (hfree : s.request = none) (overwritten : List Nat) :
    Moves s.held ({ s with request := some request, overwritten }.goHook i .idle).held
      (.taken i) .request [request.serial] := by
  refine .of_perm (by simp) ?_ ?_ fun r h₁ h₂ => ?_
  · simp [State.held, State.goHook, HookPc.taken, hpc]
  · simp [State.held, State.goHook, slotSerials, hfree]
  · rw [held_goHook, if_neg h₁]
    split
    case isTrue hr => simp [hr, State.held, HookPc.replying, hpc]
    case isFalse => cases r <;> first | rfl | exact absurd rfl h₂

theorem moves_lose {s : State V Req Res} (hpc : s.hooks i = .requeue request) :
    Moves s.held ({ s with lost := request.serial :: s.lost }.goHook i .idle).held
      (.taken i) .lost [request.serial] := by
  refine .of_perm (by simp) ?_ ?_ fun r h₁ h₂ => ?_
  · simp [State.held, State.goHook, HookPc.taken, hpc]
  · simp [State.held, State.goHook]
  · rw [held_goHook, if_neg h₁]
    split
    case isTrue hr => simp [hr, State.held, HookPc.replying, hpc]
    case isFalse => cases r <;> first | rfl | exact absurd rfl h₂

theorem moves_respond {s : State V Req Res} (hpc : s.hooks i = .respond answer)
    (hfree : s.response = none) (lost : List Nat) (hlost : lost = s.lost) :
    Moves s.held ({ s with response := some answer, lost }.goHook i .idle).held
      (.replying i) .response [answer.serial] := by
  subst hlost
  refine .of_perm (by simp) ?_ ?_ fun r h₁ h₂ => ?_
  · simp [State.held, State.goHook, HookPc.replying, hpc]
  · simp [State.held, State.goHook, hfree]
  · rw [held_goHook, if_neg h₁]
    split
    case isTrue hr => simp [hr, State.held, HookPc.taken, hpc]
    case isFalse => cases r <;> first | rfl | exact absurd rfl h₂

theorem moves_collect {s : State V Req Res} (hres : s.response = some answer)
    (result : Except DebugWireError V) (inFlight : List (V × Nat)) (id : V) (generation : Nat) :
    Moves s.held { s with
      channel := s.channel.answer ⟨id, result, generation, some answer⟩
      response := none
      inFlight }.held
      .response .answered [answer.serial] := by
  refine .of_perm (by simp) ?_ ?_ fun r h₁ h₂ => ?_
  · simp [State.held, hres]
  · simp only [State.held, DebugTopicChannel.answer, DebugTopicChannel.leavePending,
      List.filterMap_append]
    exact List.perm_append_comm
  · cases r <;> first | rfl | exact absurd rfl h₁ | exact absurd rfl h₂

-- ---------------------------------------------------------------------------
-- The invariant
-- ---------------------------------------------------------------------------

variable {toValue : Res → Except String V}

/-- `front` is what pairing rests on: the answer in the slot is for the oldest
request in flight. -/
structure Inv (toValue : Res → Except String V) (s : State V Req Res) : Prop where
  kept : Kept s
  overwritten : s.overwritten = []
  front : ∀ answer, s.response = some answer →
    s.inFlight.head? = some (answer.request.id, answer.request.generation)
  outbox : ∀ r ∈ s.channel.outbox, ∀ answer, r.origin = some answer → AnswersOwn toValue s r answer
  slotRan : ∀ answer, s.response = some answer → answer ∈ s.ran
  hookRan : ∀ i answer, s.hooks i = .respond answer → answer ∈ s.ran

theorem Inv.init : Inv toValue (State.init : State V Req Res) where
  kept := ⟨⟨fun _ hn => absurd hn (Nat.not_lt_zero _), fun _ _ p => by cases p <;> rfl⟩,
    fun _ hn => by cases hn⟩
  overwritten := rfl
  front _ h := by cases h
  outbox _ h := by cases h
  slotRan _ h := by cases h
  hookRan _ _ h := by cases h

theorem Inv.paired {s : State V Req Res} (h : Inv toValue s) : Paired toValue s where
  pairing := h.outbox
  answered n hn := by
    obtain ⟨hlt, hout⟩ := h.kept.handled n hn
    obtain ⟨p, hp, hrest⟩ := h.kept.accounted.once n hlt
    refine ⟨p, ?_, hp, hrest⟩
    by_contra hreply
    have := List.count_eq_zero.mpr (hout p hreply)
    omega
  kept := h.overwritten

theorem AnswersOwn.mono {s s' : State V Req Res} (h : AnswersOwn toValue s r answer)
    (hran : ∀ a ∈ s.ran, a ∈ s'.ran) : AnswersOwn toValue s' r answer :=
  ⟨hran _ h.ran, h.id, h.generation, h.result⟩

/-- A step that leaves the responses alone. -/
theorem Inv.aside {s s' : State V Req Res} (h : Inv toValue s) (hkept : Kept s')
    (hover : s'.overwritten = s.overwritten) (hout : s'.channel.outbox = s.channel.outbox)
    (hran : s'.ran = s.ran) (hres : s'.response = s.response)
    (hhooks : ∀ i answer, s'.hooks i = .respond answer → s.hooks i = .respond answer)
    (hflight : ∀ x, s.inFlight.head? = some x → s'.inFlight.head? = some x) : Inv toValue s' where
  kept := hkept
  overwritten := hover.trans h.overwritten
  front answer ha := hflight _ (h.front answer (hres ▸ ha))
  outbox r hr answer ha := (h.outbox r (hout ▸ hr) answer ha).mono fun _ hmem => hran ▸ hmem
  slotRan answer ha := hran ▸ h.slotRan answer (hres ▸ ha)
  hookRan i answer ha := hran ▸ h.hookRan i answer (hhooks i answer ha)

theorem respond_of_goHook {s : State V Req Res} {pc : HookPc V Req Res}
    (hpc : ∀ answer, pc ≠ .respond answer) (j : Nat) (answer : Answer V Req Res)
    (h : (s.goHook i pc).hooks j = .respond answer) : s.hooks j = .respond answer := by
  by_cases hj : j = i
  · subst hj
    simp only [State.goHook, Function.update_self] at h
    exact absurd h (hpc answer)
  · simpa [State.goHook, hj] using h

theorem Inv.goRelay {s : State V Req Res} (h : Inv toValue s) (hpc : s.relay ≠ .popFront)
    (hpc' : pc ≠ .popFront) : Inv toValue (s.goRelay pc) := by
  refine h.aside (h.kept.congr (fun p => ?_) rfl rfl) rfl rfl rfl rfl (fun _ _ ha => ha)
    fun _ hx => hx
  cases p with
  | inbox => cases hr : s.relay <;> cases pc <;> simp_all [State.held, State.goRelay]
  | _ => rfl

theorem Inv.enqueue {s : State V Req Res} (h : Inv toValue s) (hpc : s.relay = .idle)
    (queued : Queued V Req) (hserial : queued.serial = s.nextSerial) (pending : Nat) :
    Inv toValue { s with
      channel := { s.channel with inbox := s.channel.inbox ++ [queued], pending }
      nextSerial := s.nextSerial + 1 } := by
  refine h.aside (h.kept.enters (q := .inbox) ?_ rfl rfl) rfl rfl rfl rfl (fun _ _ ha => ha)
    fun _ hx => hx
  refine .of_perm ?_ fun r hr => ?_
  · simp [State.held, hpc, hserial]
  · cases r <;> first | rfl | exact absurd rfl hr

theorem Inv.deliver {s : State V Req Res} (h : Inv toValue s) (hpc : s.relay = .deliver)
    (hg : Orderly s (.relay contended)) : Inv toValue (deliver s contended) := by
  have hstay : Inv toValue (s.goRelay .collect) := h.goRelay (by simp [hpc]) (by simp)
  unfold Relay.deliver
  cases hin : s.channel.inbox with
  | nil => exact hstay
  | cons queued rest =>
    cases hpay : queued.payload with
    | none =>
      simp only [hpay]
      have hm := moves_reject hpc hin typeMismatch
      refine ⟨h.kept.moves hm False.elim rfl rfl, h.overwritten, h.front, ?_, h.slotRan,
        h.hookRan⟩
      intro r hr answer ha
      rcases List.mem_append.mp hr with hr | hr
      · exact (h.outbox r hr answer ha).mono fun _ hmem => hmem
      · cases List.mem_singleton.mp hr
        cases ha
    | some value =>
      simp only [hpay]
      cases contended with
      | true => exact hstay
      | false =>
        have hfree := hg hpc rfl ⟨queued, rest, hin, by simp [hpay]⟩
        have hm := moves_deliver hpc hin hfree (slotSerials s.request ++ s.overwritten)
        exact h.aside (h.kept.moves hm False.elim rfl rfl)
          (by simp [State.goRelay, hfree, slotSerials]) rfl rfl rfl (fun _ _ ha => ha)
          fun _ hx => hx

theorem Inv.popFront {s : State V Req Res} (h : Inv toValue s) (hpc : s.relay = .popFront) :
    Inv toValue (popFront s) := by
  unfold Relay.popFront
  cases hin : s.channel.inbox with
  | nil =>
    refine h.aside (h.kept.congr (fun p => ?_) rfl rfl) rfl rfl rfl rfl (fun _ _ ha => ha)
      fun _ hx => hx
    cases p <;> simp [State.held, State.goRelay, hpc, hin]
  | cons queued rest =>
    refine h.aside (h.kept.congr (fun p => ?_) rfl rfl) rfl rfl rfl rfl (fun _ _ ha => ha)
      fun x hx => ?_
    · cases p <;> simp [State.held, State.goRelay, hpc, hin]
    · -- in flight requests are added at the back
      obtain ⟨tail, ht⟩ := List.head?_eq_some_iff.mp hx
      simp [State.goRelay, ht]

theorem Inv.collect {s : State V Req Res} (h : Inv toValue s) (hpc : s.relay = .collect) :
    Inv toValue (collect toValue s contended) := by
  have hstay : Inv toValue (s.goRelay .idle) := h.goRelay (by simp [hpc]) (by simp)
  unfold Relay.collect
  split
  · exact hstay
  cases hres : s.response with
  | none => exact hstay
  | some answer =>
    have hfront := h.front answer hres
    cases hflight : s.inFlight with
    | nil => simp [hflight] at hfront
    | cons front rest =>
      obtain ⟨id, generation⟩ := front
      simp only [hflight, List.head?_cons, Option.some.injEq, Prod.mk.injEq] at hfront
      have hm := moves_collect hres (wireResult toValue answer.outcome) rest id generation
      refine ⟨h.kept.moves hm (fun _ => trivial) rfl rfl, h.overwritten,
        (fun _ ha => by cases ha), ?_, (fun _ ha => by cases ha), h.hookRan⟩
      intro r hr own ha
      rcases List.mem_append.mp hr with hr | hr
      · exact (h.outbox r hr own ha).mono fun _ hmem => hmem
      · cases List.mem_singleton.mp hr
        cases ha
        exact ⟨h.slotRan answer hres, hfront.1, hfront.2, rfl⟩

theorem Inv.relay {s : State V Req Res} (h : Inv toValue s) (hg : Orderly s (.relay contended)) :
    Inv toValue (relayStep toValue s contended) := by
  unfold relayStep
  split
  case h_1 hpc => exact h.goRelay (by simp [hpc]) (by split <;> simp)
  case h_2 hpc => exact h.deliver hpc hg
  case h_3 hpc => exact h.popFront hpc
  case h_4 hpc => exact h.collect hpc

theorem Inv.hook {s : State V Req Res} (h : Inv toValue s) (hg : Orderly s (.hook i contended))
    (hs : hookStep s i contended = some s') : Inv toValue s' := by
  unfold hookStep at hs
  unfold Orderly at hg
  cases hpc : s.hooks i <;> simp only [hpc] at hs hg
  case idle =>
    split at hs
    · cases hs; exact h
    · cases hreq : s.request with
      | none => simp only [hreq, Option.some.injEq] at hs; exact hs ▸ h
      | some request =>
        simp only [hreq, Option.some.injEq] at hs
        subst hs
        exact h.aside (h.kept.moves (moves_take hpc hreq) False.elim rfl rfl) rfl rfl rfl
          rfl (respond_of_goHook (by simp)) fun _ hx => hx
  case unwrap request =>
    split at hs
    · cases hs
      refine h.aside (h.kept.congr (held_goHook_same ?_ ?_) rfl rfl) rfl rfl rfl rfl
        (respond_of_goHook (by simp)) fun _ hx => hx
      · rw [hpc]; rfl
      · rw [hpc]; rfl
    · cases hs
      exact h.aside (h.kept.start (moves_start hpc _) (fun _ => trivial) trivial rfl rfl) rfl
        rfl rfl
        rfl (respond_of_goHook (by simp)) fun _ hx => hx
  case requeue request =>
    split at hs
    · cases hs
      exact h.aside (h.kept.moves (moves_lose hpc) False.elim rfl rfl) rfl rfl rfl rfl
        (respond_of_goHook (by simp)) fun _ hx => hx
    · rename_i hc
      cases hs
      have hfree := hg (by simpa using hc)
      exact h.aside (h.kept.moves (moves_requeue hpc hfree _) False.elim rfl rfl)
        (by simp [State.goHook, hfree, slotSerials]) rfl rfl rfl (respond_of_goHook (by simp))
        fun _ hx => hx
  case respond answer =>
    obtain ⟨rfl, hfree, hfront⟩ := hg
    simp only [Bool.false_eq_true, if_false, Option.some.injEq] at hs
    subst hs
    have hm := moves_respond hpc hfree (s.response.toList.map Answer.serial ++ s.lost)
      (by simp [hfree])
    refine ⟨h.kept.moves hm (fun _ => trivial) rfl rfl, h.overwritten, fun _ ha => ?_,
      fun r hr own ha => (h.outbox r hr own ha).mono fun _ hmem => hmem, fun _ ha => ?_,
      fun j own ha => h.hookRan j own (respond_of_goHook (by simp) j own ha)⟩
    · cases ha
      exact hfront
    · cases ha
      exact h.hookRan i answer hpc
  case handling request => cases hs

theorem Inv.handlerReturns {s : State V Req Res} (h : Inv toValue s)
    (hpc : s.hooks i = .handling request) (outcome : Except String Res) :
    Inv toValue ({ s with ran := ⟨request, outcome⟩ :: s.ran }.goHook i
      (.respond ⟨request, outcome⟩)) where
  kept := by
    refine h.kept.congr (fun p => ?_) rfl rfl
    exact held_goHook_same (s := { s with ran := ⟨request, outcome⟩ :: s.ran })
      (by rw [hpc]; rfl) (by rw [hpc]; rfl) p
  overwritten := h.overwritten
  front := h.front
  outbox r hr own ha := (h.outbox r hr own ha).mono fun _ hmem => List.mem_cons_of_mem _ hmem
  slotRan own ha := List.mem_cons_of_mem _ (h.slotRan own ha)
  hookRan j own ha := by
    by_cases hj : j = i
    · subst hj
      simp only [State.goHook, Function.update_self, HookPc.respond.injEq] at ha
      simp [State.goHook, ha]
    · simp only [State.goHook, Function.update_of_ne hj] at ha
      exact List.mem_cons_of_mem _ (h.hookRan j own ha)

theorem Inv.step {s : State V Req Res} (h : Inv toValue s) (hg : Orderly s a)
    (hs : step toValue s a = some s') : Inv toValue s' := by
  cases a with
  | enqueue id payload generation =>
    simp only [Relay.step] at hs
    split at hs
    case isFalse => cases hs
    case isTrue hpc =>
      unfold DebugTopicChannel.enqueue at hs
      by_cases hfull : debugMaxPending ≤ s.channel.pending
      · simp only [hfull, if_true, Option.some.injEq] at hs
        exact hs ▸ h
      · simp only [hfull, if_false, Option.some.injEq] at hs
        subst hs
        exact h.enqueue hpc ⟨s.nextSerial, id, payload, generation⟩ rfl _
  | relay contended => cases hs; exact h.relay hg
  | hook i contended => exact h.hook hg hs
  | handlerReturns i outcome =>
    simp only [Relay.step] at hs
    split at hs
    case h_1 hpc => cases hs; exact h.handlerReturns hpc outcome
    case h_2 => cases hs
  | handlerPanics i => exact hg.elim

/-- In a run of orderly steps every response is paired with its own request,
and no started request goes without one. -/
theorem paired_of_orderly (toValue : Res → Except String V) (as : List (Action V Req Res))
    (hg : Machine.Each (step toValue) Orderly State.init as) :
    Machine.Always (step toValue) (Paired toValue) State.init as :=
  (Machine.Each.always (fun _ _ _ => Inv.step) Inv.init hg).mono fun _ => Inv.paired

/-- The second request is delivered when the first has been answered. -/
theorem paired_round_trip :
    Machine.Always (step (fun n : Nat => .ok n)) (Paired fun n : Nat => .ok n)
      (State.init : State Nat Nat Nat)
      [.enqueue 10 (some 1) 1, .enqueue 20 (some 2) 1,
        .relay false, .relay false, .relay false, .relay false,
        .hook 0 false, .hook 0 false, .handlerReturns 0 (.ok 100), .hook 0 false,
        .relay false, .relay false, .relay false, .relay false, .relay false,
        .hook 0 false, .hook 0 false, .handlerReturns 0 (.ok 200), .hook 0 false,
        .relay true, .relay false] :=
  paired_of_orderly _ _ <| .cons rfl trivial <| .cons rfl trivial <|
    .cons rfl nofun <| .cons rfl (fun _ _ _ => rfl) <| .cons rfl nofun <| .cons rfl nofun <|
    .cons rfl trivial <| .cons rfl trivial <| .cons rfl trivial <| .cons rfl ⟨rfl, rfl, rfl⟩ <|
    .cons rfl nofun <| .cons rfl (fun _ _ _ => rfl) <| .cons rfl nofun <| .cons rfl nofun <|
    .cons rfl nofun <|
    .cons rfl trivial <| .cons rfl trivial <| .cons rfl trivial <| .cons rfl ⟨rfl, rfl, rfl⟩ <|
    .cons rfl nofun <| .cons rfl nofun trivial

/-- The second request is delivered before the first response is collected,
and its response overwrites that one and goes out under the first id. -/
theorem response_overwritten : ¬ ∀ (toValue : Nat → Except String Nat)
    (as : List (Action Nat Nat Nat)),
    Machine.Always (step toValue) (Paired toValue) State.init as := by
  intro h
  have := (h (fun n => .ok n) [.enqueue 10 (some 1) 1, .enqueue 20 (some 2) 1,
    .relay false, .relay false, .relay false, .relay false,
    .hook 0 false, .hook 0 false, .handlerReturns 0 (.ok 100), .hook 0 false,
    .relay false, .relay false, .relay false,
    .hook 0 false, .hook 0 false, .handlerReturns 0 (.ok 200), .hook 0 false,
    .relay false]).exec rfl
  have hown := this.pairing _ (List.mem_singleton.mpr rfl) _ rfl
  exact absurd hown.id (by decide)

end ShinySongTools.Relay
