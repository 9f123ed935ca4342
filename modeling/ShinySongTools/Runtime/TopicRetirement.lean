import ShinySongTools.Runtime.Topics
import Mathlib.Algebra.Order.Group.Multiset
import Mathlib.Tactic.Abel

/-!
# What retirement does to the topics of an owner

The registry with all its topics, of both domains and of any number of owners.
`update_retire` answers what the inboxes of the owner's topics hold. A request
that a relay has taken out of its inbox is not in its reach, wherever on the
callback side it is: it is in `in_flight` until the relay collects a response,
and the relay does not run again.
-/

namespace ShinySongTools.Retirement

open MainDebug (OwnerPhase)

variable {V : Type u} {Req Res : Type v}

/-- A request as the wire knows it: its id and its connection's generation. -/
abbrev Key (V : Type u) := V × Nat

def requestKey {P : Type v} (request : DebugQueuedRequest V P) : Key V :=
  (request.id, request.generation)

/-- A response without what the model notes beside it. -/
structure WireResponse (V : Type u) where
  key : Key V
  result : Except DebugWireError V

def wire {O : Type v} (r : DebugResponse V O) : WireResponse V :=
  ⟨(r.id, r.generation), r.result⟩

/-- A topic of the callback domain with what was collected from it. -/
structure Callback (V : Type u) (Req Res : Type v) where
  relay : Relay.State V Req Res
  phase : OwnerPhase
  accepted : List (Key V)
  collected : List (WireResponse V)

inductive System (V : Type u) (Req Res : Type v) where
  | main (s : MainDebug.State V Req)
  | callback (c : Callback V Req Res)

structure Topic (V : Type u) (Req Res : Type v) where
  owner : Nat
  system : System V Req Res
  /-- The requests that went down with a system of the topic as it unwound. -/
  dropped : List (Key V)

namespace Topic

def phase (t : Topic V Req Res) : OwnerPhase :=
  match t.system with
  | .main s => s.phase
  | .callback c => c.phase

def accepted (t : Topic V Req Res) : List (Key V) :=
  match t.system with
  | .main s => s.accepted.map requestKey
  | .callback c => c.accepted

def inbox (t : Topic V Req Res) : List (Key V) :=
  match t.system with
  | .main s => s.channel.inbox.map requestKey
  | .callback c => c.relay.channel.inbox.map requestKey

def responses (t : Topic V Req Res) : List (WireResponse V) :=
  match t.system with
  | .main s => s.responses.map wire
  | .callback c => c.collected ++ c.relay.channel.outbox.map wire

def pending (t : Topic V Req Res) : Nat :=
  match t.system with
  | .main s => s.channel.pending
  | .callback c => c.relay.channel.pending

/-- What the relay has delivered and not collected. -/
def inFlight (t : Topic V Req Res) : List (Key V) :=
  match t.system with
  | .main _ => []
  | .callback c => c.relay.inFlight

/-- The requests that have left the inbox without a response. -/
def outstanding (t : Topic V Req Res) : List (Key V) := t.inFlight ++ t.dropped

/-- No relay is in the middle of its body. -/
def quiet (t : Topic V Req Res) : Prop :=
  match t.system with
  | .main _ => True
  | .callback c => c.relay.relay = .idle

instance (t : Topic V Req Res) : Decidable t.quiet := by
  unfold quiet
  split <;> infer_instance

end Topic

inductive TopicAction (V : Type u) (Req Res : Type v) where
  | main (a : MainDebug.Action V Req Res)
  | relay (a : Relay.Action V Req Res)
  /-- The serializer of the response type unwinds, and the relay with it. -/
  | serializePanics
  | collect

inductive Action (V : Type u) (Req Res : Type v) where
  | topic (i : Nat) (a : TopicAction V Req Res)
  | retire (owner : Nat)

def mainStep (toValue : Res → Except String V) (t : Topic V Req Res) (s : MainDebug.State V Req) :
    MainDebug.Action V Req Res → Option (Topic V Req Res)
  | .retire => none
  | .paramsPanic =>
    (MainDebug.step toValue s .paramsPanic).map fun s' =>
      { t with system := .main s', dropped := t.dropped ++ s.channel.inbox.map requestKey }
  | a => (MainDebug.step toValue s a).map fun s' => { t with system := .main s' }

/-- The relay runs and requests are queued while the owner is active; hooks
are entered at any time. -/
def relayStep (toValue : Res → Except String V) (c : Callback V Req Res) :
    Relay.Action V Req Res → Option (Callback V Req Res)
  | .enqueue id payload generation =>
    if c.phase = .active then
      (Relay.step toValue c.relay (.enqueue id payload generation)).map fun relay =>
        { c with
          relay
          accepted :=
            if c.relay.nextSerial < relay.nextSerial then c.accepted ++ [(id, generation)]
            else c.accepted }
    else none
  | .relay contended =>
    if c.phase = .active then
      (Relay.step toValue c.relay (.relay contended)).map fun relay => { c with relay }
    else none
  | a => (Relay.step toValue c.relay a).map fun relay => { c with relay }

def callbackStep (toValue : Res → Except String V) (t : Topic V Req Res) (c : Callback V Req Res) :
    TopicAction V Req Res → Option (Topic V Req Res)
  | .main _ => none
  | .relay a => (relayStep toValue c a).map fun c' => { t with system := .callback c' }
  | .serializePanics =>
    if c.phase = .active ∧ c.relay.relay = .collect ∧ c.relay.response.isSome = true then
      match c.relay.inFlight with
      | [] => none
      | key :: rest =>
        some { t with
          system := .callback { c with
            relay := { c.relay with response := none, inFlight := rest, relay := .idle }
            phase := .failed }
          dropped := t.dropped ++ [key] }
    else none
  | .collect =>
    some { t with system := .callback { c with
      relay := { c.relay with channel := { c.relay.channel with outbox := [] } }
      collected := c.collected ++ c.relay.channel.outbox.map wire } }

def topicStep (toValue : Res → Except String V) (t : Topic V Req Res) (a : TopicAction V Req Res) :
    Option (Topic V Req Res) :=
  match t.system with
  | .main s =>
    match a with
    | .main a => mainStep toValue t s a
    | _ => none
  | .callback c => callbackStep toValue t c a

/-- `update_retire`, for one topic of the owner. -/
def retireTopic (t : Topic V Req Res) : Topic V Req Res :=
  match t.system with
  | .main s =>
    { t with system := .main { s with
      channel := s.channel.failPending DebugQueuedRequest.serial, phase := .retired } }
  | .callback c =>
    { t with system := .callback { c with
      relay := { c.relay with channel := c.relay.channel.failPending fun _ => none }
      phase := .retired } }

/-- Systems, dispatch and retirement share the main thread. -/
def step (toValue : Res → Except String V) (topics : List (Topic V Req Res)) :
    Action V Req Res → Option (List (Topic V Req Res))
  | .topic i a => do
    let t ← topics[i]?
    let t' ← topicStep toValue t a
    pure (topics.set i t')
  | .retire owner =>
    if ∀ t ∈ topics, t.quiet then
      some (topics.map fun t => if t.owner = owner then retireTopic t else t)
    else none

/-- A topic of the callback domain or of the main domain, just registered. -/
def Topic.new (owner : Nat) (callbackDomain : Bool) : Topic V Req Res where
  owner := owner
  system := if callbackDomain then .callback ⟨.init, .active, [], []⟩ else .main .init
  dropped := []

def start (registered : List (Nat × Bool)) : List (Topic V Req Res) :=
  registered.map fun (owner, callbackDomain) => Topic.new owner callbackDomain

def unavailable (key : Key V) : WireResponse V :=
  ⟨key, .error ⟨.serverError .pluginUnavailable, "plugin retired; request not delivered"⟩⟩

/-- Every accepted request has one response, and the topic waits for none. -/
def Topic.Answered (t : Topic V Req Res) : Prop :=
  t.accepted.Perm (t.responses.map WireResponse.key) ∧ t.pending = 0

def AllAnswered (topics : List (Topic V Req Res)) : Prop :=
  ∀ t ∈ topics, t.phase = .retired → t.Answered

structure Settled (t t' : Topic V Req Res) : Prop where
  phase : t'.phase = .retired
  accepted : t'.accepted = t.accepted
  responses : t'.responses = t.responses
  outstanding : t'.outstanding = t.outstanding
  pending : t'.pending = t.pending

structure Retires (toValue : Res → Except String V) (topics : List (Topic V Req Res)) : Prop where
  /-- After retirement the requests without a response are those that had left
  the inbox, and they are what the topic waits for. -/
  retired : ∀ t ∈ topics, t.phase = .retired → t.inbox = [] ∧
    t.accepted.Perm (t.responses.map WireResponse.key ++ t.outstanding) ∧
      t.pending = t.outstanding.length
  /-- Retirement answers each queued request, in order, and no other. -/
  retire : ∀ owner (topics' : List (Topic V Req Res)),
    step toValue topics (.retire owner) = some topics' →
    ∀ (i : Nat) (t : Topic V Req Res), topics[i]? = some t → t.owner = owner →
      ∃ t' : Topic V Req Res, topics'[i]? = some t' ∧ t'.phase = .retired ∧
        t'.accepted = t.accepted ∧
        t'.responses = t.responses ++ t.inbox.map unavailable ∧ t'.outstanding = t.outstanding
  /-- The others are never answered. -/
  settled : ∀ a (topics' : List (Topic V Req Res)), step toValue topics a = some topics' →
    ∀ (i : Nat) (t : Topic V Req Res), topics[i]? = some t → t.phase = .retired →
      ∃ t' : Topic V Req Res, topics'[i]? = some t' ∧ Settled t t'

-- ---------------------------------------------------------------------------
-- Every request is accounted for
-- ---------------------------------------------------------------------------

def Topic.answered (t : Topic V Req Res) : List (Key V) := t.responses.map WireResponse.key

structure Topic.Inv (t : Topic V Req Res) : Prop where
  accounted : (t.accepted : Multiset (Key V)) = t.answered + t.outstanding + t.inbox
  pending : t.pending = t.outstanding.length + t.inbox.length
  retired : t.phase = .retired → t.inbox = []

theorem Topic.Inv.congr {t t' : Topic V Req Res} (h : t.Inv) (accepted : t'.accepted = t.accepted)
    (answered : t'.answered = t.answered) (outstanding : t'.outstanding = t.outstanding)
    (inbox : t'.inbox = t.inbox) (pending : t'.pending = t.pending)
    (phase : t'.phase = .retired → t.phase = .retired) : t'.Inv := by
  refine ⟨?_, ?_, fun hr => inbox.trans (h.retired (phase hr))⟩
  · rw [accepted, answered, outstanding, inbox]
    exact h.accounted
  · rw [pending, outstanding, inbox]
    exact h.pending

theorem Topic.Inv.new (owner : Nat) (callbackDomain : Bool) :
    (Topic.new owner callbackDomain : Topic V Req Res).Inv := by
  cases callbackDomain <;> exact ⟨rfl, rfl, nofun⟩

theorem relayStep_cases (toValue : Res → Except String V) (r : Relay.State V Req Res)
    (contended : Bool) :
    let r' := Relay.relayStep toValue r contended
    (r'.channel = r.channel ∧ r'.inFlight = r.inFlight) ∨
    (∃ queued rest result, r.channel.inbox = queued :: rest ∧
      r'.channel = { r.channel with inbox := rest }.answer
        ⟨queued.id, result, queued.generation, none⟩ ∧
      r'.inFlight = r.inFlight) ∨
    (∃ queued rest, r.channel.inbox = queued :: rest ∧
      r'.channel = { r.channel with inbox := rest } ∧
      r'.inFlight = r.inFlight ++ [requestKey queued]) ∨
    (∃ id generation rest result origin, r.inFlight = (id, generation) :: rest ∧
      r'.channel = r.channel.answer ⟨id, result, generation, origin⟩ ∧ r'.inFlight = rest) := by
  intro r'
  cases hpc : r.relay with
  | idle =>
    left
    simp only [r', Relay.relayStep, hpc]
    exact ⟨rfl, rfl⟩
  | deliver =>
    simp only [r', Relay.relayStep, hpc, Relay.deliver]
    cases hin : r.channel.inbox with
    | nil => exact .inl ⟨rfl, rfl⟩
    | cons queued rest =>
      rcases queued with ⟨serial, id, _ | request, generation⟩
      · exact .inr (.inl ⟨_, rest, _, rfl, rfl, rfl⟩)
      · left
        cases contended <;> exact ⟨rfl, rfl⟩
  | popFront =>
    simp only [r', Relay.relayStep, hpc, Relay.popFront]
    cases hin : r.channel.inbox with
    | nil => exact .inl ⟨rfl, rfl⟩
    | cons queued rest => exact .inr (.inr (.inl ⟨queued, rest, rfl, rfl, rfl⟩))
  | collect =>
    simp only [r', Relay.relayStep, hpc, Relay.collect]
    cases contended with
    | true => exact .inl ⟨rfl, rfl⟩
    | false =>
      cases hres : r.response with
      | none => exact .inl ⟨rfl, rfl⟩
      | some answer =>
        cases hflight : r.inFlight with
        | nil => exact .inl ⟨rfl, rfl⟩
        | cons key rest =>
          exact .inr (.inr (.inr ⟨key.1, key.2, rest, _, _, rfl, rfl, rfl⟩))

theorem Topic.Inv.relay {owner : Nat} {dropped : List (Key V)} {c : Callback V Req Res}
    (h : Topic.Inv ⟨owner, .callback c, dropped⟩)
    (hactive : c.phase = .active) (toValue : Res → Except String V) (contended : Bool) :
    Topic.Inv ⟨owner, .callback { c with relay := Relay.relayStep toValue c.relay contended },
      dropped⟩ := by
  have haccounted := h.accounted
  have hpending := h.pending
  simp only [Topic.accepted, Topic.answered, Topic.responses, Topic.outstanding, Topic.inFlight,
    Topic.inbox, Topic.pending] at haccounted hpending
  have hretired : (⟨owner, .callback { c with relay := Relay.relayStep toValue c.relay contended },
      dropped⟩ : Topic V Req Res).phase ≠ .retired := by simp [Topic.phase, hactive]
  refine ⟨?_, ?_, fun hr => absurd hr hretired⟩
  all_goals
    simp only [Topic.accepted, Topic.answered, Topic.responses, Topic.outstanding, Topic.inFlight,
      Topic.inbox, Topic.pending]
  · rcases relayStep_cases toValue c.relay contended with
      ⟨hc, hf⟩ | ⟨queued, rest, result, hin, hc, hf⟩ |
      ⟨queued, rest, hin, hc, hf⟩ | ⟨id, generation, rest, result, origin, hin, hc, hf⟩
    · rw [hc, hf]
      exact haccounted
    · rw [hc, hf, haccounted, hin]
      simp [DebugTopicChannel.answer, DebugTopicChannel.leavePending, wire, requestKey,
        ← Multiset.coe_add, ← Multiset.cons_coe, ← Multiset.singleton_add]
      abel
    · rw [hc, hf, haccounted, hin]
      simp [← Multiset.coe_add, ← Multiset.cons_coe, ← Multiset.singleton_add]
      abel
    · rw [hc, hf, haccounted, hin]
      simp [DebugTopicChannel.answer, DebugTopicChannel.leavePending, wire,
        ← Multiset.coe_add, ← Multiset.cons_coe, ← Multiset.singleton_add]
      abel
  · rcases relayStep_cases toValue c.relay contended with
      ⟨hc, hf⟩ | ⟨queued, rest, result, hin, hc, hf⟩ |
      ⟨queued, rest, hin, hc, hf⟩ | ⟨id, generation, rest, result, origin, hin, hc, hf⟩
    · rw [hc, hf]
      exact hpending
    all_goals
      rw [hin] at hpending
      rw [hc, hf]
      simp [DebugTopicChannel.answer, DebugTopicChannel.leavePending] at hpending ⊢
      omega

theorem keys_forall₂ {done : List (DebugQueuedRequest V (Option Req))}
    {new : List (DebugResponse V Nat)}
    (h : List.Forall₂ MainDebug.Same done new) :
    (new.map wire).map WireResponse.key = done.map requestKey := by
  induction h with
  | nil => rfl
  | cons hsame _ ih =>
    rw [List.map_cons, List.map_cons, List.map_cons, ih]
    simp [wire, requestKey, hsame.id, hsame.generation]

theorem Topic.Inv.main {owner : Nat} {dropped : List (Key V)} {s : MainDebug.State V Req}
    (h : Topic.Inv (⟨owner, .main s, dropped⟩ : Topic V Req Res)) {toValue : Res → Except String V}
    (hs : mainStep toValue ⟨owner, .main s, dropped⟩ s a = some t') : Topic.Inv t' := by
  have haccounted := h.accounted
  have hpending := h.pending
  simp only [Topic.accepted, Topic.answered, Topic.responses, Topic.outstanding, Topic.inFlight,
    Topic.inbox, Topic.pending, MainDebug.State.responses] at haccounted hpending
  cases a with
  | retire => cases hs
  | enqueue id payload generation =>
    simp only [mainStep, MainDebug.step, DebugTopicChannel.enqueue] at hs
    split at hs
    case isFalse => cases hs
    case isTrue hactive =>
      by_cases hfull : debugMaxPending ≤ s.channel.pending
      · simp only [hfull, if_true, Option.map_some, Option.some.injEq] at hs
        exact hs ▸ h
      · simp only [hfull, if_false, Option.map_some, Option.some.injEq] at hs
        subst hs
        refine ⟨?_, ?_, fun hr => by simp [Topic.phase, hactive] at hr⟩
        · simp only [Topic.accepted, Topic.answered, Topic.responses, Topic.outstanding,
            Topic.inFlight, Topic.inbox, MainDebug.State.responses]
          rw [List.map_append, ← Multiset.coe_add, haccounted]
          simp only [List.map_append, ← Multiset.coe_add]
          abel
        · simp only [Topic.pending, Topic.outstanding, Topic.inFlight, Topic.inbox] at hpending ⊢
          simp at hpending ⊢
          omega
  | run handle =>
    simp only [mainStep, MainDebug.step] at hs
    split at hs
    case isFalse => cases hs
    case isTrue hactive =>
      obtain ⟨done, rest, new, hbatch⟩ := MainDebug.run_batch toValue handle s.channel (by
        simp only [List.length_map] at hpending
        omega)
      have hkeys := keys_forall₂ (hbatch.answers.imp fun _ _ ha => ha.toSame)
      have hlength := hbatch.answers.length_eq
      have hbefore := hbatch.pending
      simp only [Option.map_some, Option.some.injEq] at hs
      subst hs
      refine ⟨?_, ?_, fun hr => ?_⟩
      · simp only [Topic.accepted, Topic.answered, Topic.responses, Topic.outstanding,
          Topic.inFlight, Topic.inbox, MainDebug.State.responses]
        rw [haccounted, hbatch.left, hbatch.outbox, hbatch.inbox]
        simp only [List.map_append, hkeys, ← Multiset.coe_add]
        abel
      · simp only [Topic.pending, Topic.outstanding, Topic.inFlight, Topic.inbox]
        rw [hbatch.inbox] at hpending
        rw [hbatch.left]
        simp at hpending ⊢
        omega
      · simp only [Topic.phase] at hr
        split at hr <;> cases hr
  | paramsPanic =>
    simp only [mainStep, MainDebug.step] at hs
    split at hs
    case isFalse => cases hs
    case isTrue hactive =>
      simp only [Option.map_some, Option.some.injEq] at hs
      subst hs
      refine ⟨?_, ?_, fun _ => rfl⟩
      · simp only [Topic.accepted, Topic.answered, Topic.responses, Topic.outstanding,
          Topic.inFlight, Topic.inbox, MainDebug.State.responses]
        rw [haccounted]
        simp [← Multiset.coe_add]
        abel
      · simp only [Topic.pending, Topic.outstanding, Topic.inFlight, Topic.inbox]
        simp at hpending ⊢
        omega
  | collect =>
    cases hs
    refine h.congr rfl ?_ rfl rfl rfl id
    simp [Topic.answered, Topic.responses, MainDebug.State.responses]

/-- Neither a hook nor anything else beside the relay's own steps touches the
channel and what is in flight. -/
theorem hookStep_frame (toValue : Res → Except String V) {r r' : Relay.State V Req Res}
    {a : Relay.Action V Req Res} (hs : Relay.step toValue r a = some r')
    (henqueue : ∀ id payload generation, a ≠ .enqueue id payload generation)
    (hrelay : ∀ contended, a ≠ .relay contended) :
    r'.channel = r.channel ∧ r'.inFlight = r.inFlight := by
  cases a with
  | enqueue id payload generation => exact absurd rfl (henqueue id payload generation)
  | relay contended => exact absurd rfl (hrelay contended)
  | hook i contended =>
    simp only [Relay.step, Relay.hookStep] at hs
    split at hs
    case h_5 => cases hs
    all_goals repeat' split at hs
    all_goals
      cases hs
      exact ⟨rfl, rfl⟩
  | handlerReturns i outcome | handlerPanics i =>
    simp only [Relay.step] at hs
    split at hs
    · cases hs
      exact ⟨rfl, rfl⟩
    · cases hs

theorem Topic.Inv.callback {owner : Nat} {dropped : List (Key V)} {c : Callback V Req Res}
    (h : Topic.Inv ⟨owner, .callback c, dropped⟩) {toValue : Res → Except String V}
    (hs : callbackStep toValue ⟨owner, .callback c, dropped⟩ c a = some t') : Topic.Inv t' := by
  have haccounted := h.accounted
  have hpending := h.pending
  simp only [Topic.accepted, Topic.answered, Topic.responses, Topic.outstanding, Topic.inFlight,
    Topic.inbox, Topic.pending] at haccounted hpending
  cases a with
  | main a => cases hs
  | relay a =>
    obtain ⟨c', hc', rfl⟩ := Option.map_eq_some_iff.mp hs
    have hquiet (henqueue : ∀ id payload generation, a ≠ .enqueue id payload generation)
        (hrelay : ∀ contended, a ≠ .relay contended) {r : Relay.State V Req Res}
        (hr : Relay.step toValue c.relay a = some r) :
        Topic.Inv ⟨owner, .callback { c with relay := r }, dropped⟩ := by
      obtain ⟨hc, hf⟩ := hookStep_frame toValue hr henqueue hrelay
      refine h.congr rfl ?_ ?_ ?_ ?_ id
      all_goals
        simp only [Topic.answered, Topic.responses, Topic.outstanding, Topic.inFlight, Topic.inbox,
          Topic.pending, hc, hf]
    cases a with
    | enqueue id payload generation =>
      simp only [relayStep, Relay.step, DebugTopicChannel.enqueue] at hc'
      split at hc'
      case isFalse => cases hc'
      case isTrue hactive =>
        split at hc'
        case isFalse => cases hc'
        case isTrue =>
          by_cases hfull : debugMaxPending ≤ c.relay.channel.pending
          · simp only [hfull, if_true, Option.map_some, Option.some.injEq, lt_irrefl, if_false]
              at hc'
            exact hc' ▸ h
          · simp only [hfull, if_false, Option.map_some, Option.some.injEq, Nat.lt_succ_self,
              if_true] at hc'
            subst hc'
            refine ⟨?_, ?_, fun hr => by simp [Topic.phase, hactive] at hr⟩
            · simp only [Topic.accepted, Topic.answered, Topic.responses, Topic.outstanding,
                Topic.inFlight, Topic.inbox]
              rw [← Multiset.coe_add, haccounted]
              simp only [List.map_append, ← Multiset.coe_add]
              rw [add_assoc]
              rfl
            · simp only [Topic.pending, Topic.outstanding, Topic.inFlight, Topic.inbox]
              simp at hpending ⊢
              omega
    | relay contended =>
      simp only [relayStep, Relay.step] at hc'
      split at hc'
      case isFalse => cases hc'
      case isTrue hactive =>
        cases hc'
        exact h.relay hactive toValue contended
    | hook i contended | handlerReturns i outcome | handlerPanics i =>
      obtain ⟨r, hr, rfl⟩ := Option.map_eq_some_iff.mp hc'
      exact hquiet (by simp) (by simp) hr
  | serializePanics =>
    simp only [callbackStep] at hs
    split at hs
    case isFalse => cases hs
    case isTrue =>
      cases hflight : c.relay.inFlight with
      | nil => simp [hflight] at hs
      | cons key rest =>
        simp only [hflight, Option.some.injEq] at hs haccounted hpending
        subst hs
        refine ⟨?_, ?_, fun h => by cases h⟩
        · simp only [Topic.accepted, Topic.answered, Topic.responses, Topic.outstanding,
            Topic.inFlight, Topic.inbox]
          rw [haccounted]
          simp only [List.map_append, List.cons_append, ← Multiset.coe_add, ← Multiset.cons_coe,
            ← Multiset.singleton_add]
          abel
        · simp only [Topic.pending, Topic.outstanding, Topic.inFlight, Topic.inbox]
          simp at hpending ⊢
          omega
  | collect =>
    cases hs
    refine h.congr rfl ?_ rfl rfl rfl id
    simp [Topic.answered, Topic.responses]

theorem Topic.Inv.step {t t' : Topic V Req Res} (h : t.Inv) {toValue : Res → Except String V}
    (hs : topicStep toValue t a = some t') : t'.Inv := by
  obtain ⟨owner, s | c, dropped⟩ := t
  · cases a with
    | main a => exact h.main hs
    | relay | serializePanics | collect => cases hs
  · exact h.callback hs

theorem retireTopic_spec (t : Topic V Req Res) :
    (retireTopic t).phase = .retired ∧ (retireTopic t).accepted = t.accepted ∧
      (retireTopic t).responses = t.responses ++ t.inbox.map unavailable ∧
      (retireTopic t).outstanding = t.outstanding ∧ (retireTopic t).inbox = [] ∧
      (retireTopic t).pending = t.pending - t.inbox.length := by
  obtain ⟨owner, s | c, dropped⟩ := t
  · obtain ⟨hin, hout, hpending⟩ := s.channel.failPending_spec DebugQueuedRequest.serial
    refine ⟨rfl, rfl, ?_, rfl, ?_, ?_⟩
    · simp only [retireTopic, Topic.responses, MainDebug.State.responses, Topic.inbox, hout,
        List.map_append, List.map_map, List.append_assoc]
      rfl
    · simp only [retireTopic, Topic.inbox, hin, List.map_nil]
    · simpa [retireTopic, Topic.pending, Topic.inbox] using hpending
  · obtain ⟨hin, hout, hpending⟩ := c.relay.channel.failPending_spec
      (fun _ => (none : Option (Relay.Answer V Req Res)))
    refine ⟨rfl, rfl, ?_, rfl, ?_, ?_⟩
    · simp only [retireTopic, Topic.responses, Topic.inbox, hout, List.map_append, List.map_map,
        List.append_assoc]
      rfl
    · simp only [retireTopic, Topic.inbox, hin, List.map_nil]
    · simpa [retireTopic, Topic.pending, Topic.inbox] using hpending

theorem Topic.Inv.retire {t : Topic V Req Res} (h : t.Inv) : (retireTopic t).Inv := by
  obtain ⟨-, haccepted, hresponses, houtstanding, hinbox, hpending⟩ := retireTopic_spec t
  have haccounted := h.accounted
  have hbefore := h.pending
  refine ⟨?_, ?_, fun _ => hinbox⟩
  · have hkeys : (t.inbox.map unavailable).map WireResponse.key = t.inbox := by
      rw [List.map_map]
      exact List.map_id _
    have hanswered : (retireTopic t).answered = t.answered ++ t.inbox := by
      rw [Topic.answered, hresponses, List.map_append, hkeys, Topic.answered]
    rw [haccepted, houtstanding, hinbox, hanswered, haccounted, ← Multiset.coe_add,
      Multiset.coe_nil]
    abel
  · rw [hpending, houtstanding, hinbox, List.length_nil]
    omega

theorem topicStep_settled {t t' : Topic V Req Res} (hr : t.phase = .retired)
    {toValue : Res → Except String V} (hs : topicStep toValue t a = some t') : Settled t t' := by
  obtain ⟨owner, s | c, dropped⟩ := t
  · have hphase : s.phase ≠ .active := fun hactive => by simp [Topic.phase, hactive] at hr
    cases a with
    | relay | serializePanics => cases hs
    | main a =>
      cases a with
      | retire => cases hs
      | enqueue | run | paramsPanic => simp [topicStep, mainStep, MainDebug.step, hphase] at hs
      | collect =>
        cases hs
        refine ⟨hr, rfl, ?_, rfl, rfl⟩
        simp [Topic.responses, MainDebug.State.responses]
    | collect => cases hs
  · have hphase : c.phase ≠ .active := fun hactive => by simp [Topic.phase, hactive] at hr
    cases a with
    | main => cases hs
    | serializePanics => simp [topicStep, callbackStep, hphase] at hs
    | relay a =>
      cases a with
      | enqueue | relay => simp [topicStep, callbackStep, relayStep, hphase] at hs
      | hook | handlerReturns | handlerPanics =>
        obtain ⟨c', hc', rfl⟩ := Option.map_eq_some_iff.mp hs
        obtain ⟨r, hr', rfl⟩ := Option.map_eq_some_iff.mp hc'
        obtain ⟨hc, hf⟩ := hookStep_frame toValue hr' (by simp) (by simp)
        refine ⟨hr, rfl, ?_, ?_, ?_⟩
        all_goals
          simp only [Topic.responses, Topic.outstanding, Topic.inFlight, Topic.pending, hc, hf]
    | collect =>
      cases hs
      refine ⟨hr, rfl, ?_, rfl, rfl⟩
      simp [Topic.responses]

-- ---------------------------------------------------------------------------
-- The registry
-- ---------------------------------------------------------------------------

def Sound (topics : List (Topic V Req Res)) : Prop := ∀ t ∈ topics, t.Inv

theorem Sound.start (registered : List (Nat × Bool)) :
    Sound (start registered : List (Topic V Req Res)) := by
  intro t ht
  obtain ⟨⟨owner, callbackDomain⟩, -, rfl⟩ := List.mem_map.mp ht
  exact .new owner callbackDomain

theorem step_cases {toValue : Res → Except String V} {topics topics' : List (Topic V Req Res)}
    (hs : step toValue topics a = some topics') :
    (∃ i a' t t', a = .topic i a' ∧ topics[i]? = some t ∧ topicStep toValue t a' = some t' ∧
      topics' = topics.set i t') ∨
    ∃ owner, a = .retire owner ∧
      topics' = topics.map fun t => if t.owner = owner then retireTopic t else t := by
  cases a with
  | topic i a' =>
    obtain ⟨t, ht, hs⟩ := Option.bind_eq_some_iff.mp hs
    obtain ⟨t', ht', hs⟩ := Option.bind_eq_some_iff.mp hs
    cases hs
    exact .inl ⟨i, a', t, t', rfl, ht, ht', rfl⟩
  | retire owner =>
    simp only [step] at hs
    split at hs
    · cases hs
      exact .inr ⟨owner, rfl, rfl⟩
    · cases hs

theorem Sound.step {toValue : Res → Except String V} {topics topics' : List (Topic V Req Res)}
    (h : Sound topics) (hs : Retirement.step toValue topics a = some topics') : Sound topics' := by
  rcases step_cases hs with ⟨i, a', t, t', -, ht, ht', rfl⟩ | ⟨owner, -, rfl⟩
  · intro u hu
    rcases List.mem_or_eq_of_mem_set hu with hu | rfl
    · exact h u hu
    · exact (h t (List.mem_of_getElem? ht)).step ht'
  · intro u hu
    obtain ⟨t, ht, rfl⟩ := List.mem_map.mp hu
    split
    · exact (h t ht).retire
    · exact h t ht

theorem Sound.retires {topics : List (Topic V Req Res)} (h : Sound topics)
    (toValue : Res → Except String V) : Retires toValue topics where
  retired t ht hr := by
    have hempty := (h t ht).retired hr
    refine ⟨hempty, ?_, ?_⟩
    · have haccounted := (h t ht).accounted
      rw [hempty, Multiset.coe_nil, add_zero, Multiset.coe_add] at haccounted
      exact Multiset.coe_eq_coe.mp haccounted
    · have hpending := (h t ht).pending
      rwa [hempty, List.length_nil, Nat.add_zero] at hpending
  retire owner topics' hs i t ht howner := by
    rcases step_cases hs with ⟨j, a', u, u', ha, -⟩ | ⟨owner', ha, rfl⟩
    · cases ha
    · cases ha
      obtain ⟨hphase, haccepted, hresponses, houtstanding, -⟩ := retireTopic_spec t
      refine ⟨retireTopic t, ?_, hphase, haccepted, hresponses, houtstanding⟩
      simp [ht, howner]
  settled a topics' hs i t ht hr := by
    rcases step_cases hs with ⟨j, a', u, u', -, hu, hu', rfl⟩ | ⟨owner, -, rfl⟩
    · by_cases hij : j = i
      · subst hij
        cases hu.symm.trans ht
        exact ⟨u', by simp [(List.getElem?_eq_some_iff.mp hu).1], topicStep_settled hr hu'⟩
      · exact ⟨t, by simp [hij, ht], hr, rfl, rfl, rfl, rfl⟩
    · by_cases howner : t.owner = owner
      · have hempty := (h t (List.mem_of_getElem? ht)).retired hr
        obtain ⟨hphase, haccepted, hresponses, houtstanding, -, hpending⟩ := retireTopic_spec t
        rw [hempty, List.map_nil, List.append_nil] at hresponses
        rw [hempty, List.length_nil, Nat.sub_zero] at hpending
        exact ⟨retireTopic t, by simp [ht, howner], hphase, haccepted, hresponses, houtstanding,
          hpending⟩
      · exact ⟨t, by simp [ht, howner], hr, rfl, rfl, rfl, rfl⟩

/-- Retirement answers what is queued and leaves what a relay has delivered
without a response for good. -/
theorem retirement_answers_queued (toValue : Res → Except String V) (registered : List (Nat × Bool))
    (as : List (Action V Req Res)) :
    Machine.Always (Retirement.step toValue) (Retires toValue) (start registered) as :=
  (Machine.Always.of_step (fun _ _ _ (h : Sound _) => h.step) (Sound.start registered)).mono
    fun _ h =>
    h.retires toValue

/-- A request waits in the request slot for its hook when the owner is retired. -/
theorem delivered_never_answered :
    ¬ ∀ (toValue : Unit → Except String Nat) (registered : List (Nat × Bool))
    (as : List (Action Nat Unit Unit)),
    Machine.Always (Retirement.step toValue) AllAnswered (start registered) as := by
  intro h
  have := (h (fun _ => .ok 0) [(0, true)]
    [.topic 0 (.relay (.enqueue 7 (some ()) 0)), .topic 0 (.relay (.relay false)),
      .topic 0 (.relay (.relay false)), .topic 0 (.relay (.relay false)),
      .topic 0 (.relay (.relay false)), .retire 0]).exec rfl
  obtain ⟨-, hpending⟩ := this _ List.mem_cons_self rfl
  cases hpending

end ShinySongTools.Retirement
