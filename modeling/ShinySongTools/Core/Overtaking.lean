import ShinySongTools.Core.Relay
import Mathlib.Data.Set.Card

/-!
# Responses that overtake

The relay pairs responses with the delivered ids in FIFO order. A lost
response makes the later ones move up: an id goes out with the response to a
request delivered after it. Only a response that overtakes another one can move
an id to the response of a request delivered before it.

Generations never go down along the queue, so an id is never of a later
generation than its response (`Forward`) while no response is collected before
those of earlier generations.
-/

namespace ShinySongTools.Relay

variable {V : Type u} {Req Res : Type v}

/-- Where a delivered request, or the response to it, can be. -/
inductive Station where
  | slot
  | hook (thread : Nat)
  | response
  deriving DecidableEq

def HookPc.request : HookPc V Req Res → Option (Queued V Req)
  | .idle => none
  | .unwrap request | .requeue request | .handling request => some request
  | .respond answer => some answer.request

def State.station (s : State V Req Res) : Station → Option (Queued V Req)
  | .slot => s.request
  | .hook i => (s.hooks i).request
  | .response => s.response.map Answer.request

/-- The generations of the ids the next responses are for. -/
def State.flight (s : State V Req Res) : List Nat :=
  s.inFlight.map (·.2) ++
    match s.relay with
    | .popFront => (s.channel.inbox.head?.map DebugQueuedRequest.generation).toList
    | _ => []

/-- A response is collected after those to requests of earlier generations. -/
def NoStraggler (s : State V Req Res) : Action V Req Res → Prop
  | .relay contended => s.relay = .collect → contended = false → ∀ answer,
      s.response = some answer → ∀ x q, s.station x = some q →
        answer.request.generation ≤ q.generation
  | _ => True

-- ---------------------------------------------------------------------------
-- What a step does with the requests
-- ---------------------------------------------------------------------------

/-- The steps of the relay and of the hooks. -/
inductive Turn (toValue : Res → Except String V) (s : State V Req Res) (a : Action V Req Res)
    (s' : State V Req Res) : Prop
  /-- Requests change places or get lost. -/
  | shuffles (move : Equiv.Perm Station)
      (station : ∀ x q, s'.station x = some q → s.station (move x) = some q)
      (channel : s'.channel = s.channel) (inFlight : s'.inFlight = s.inFlight)
      (flight : s'.flight = s.flight)
  | delivers (queued : Queued V Req) (station : ∀ x q, s'.station x = some q →
        s.station x = some q ∨ x = .slot ∧ q = queued)
      (front : s.channel.inbox.head? = some queued) (channel : s'.channel = s.channel)
      (inFlight : s'.inFlight = s.inFlight) (flight : s'.flight = s.flight ++ [queued.generation])
  | pops (queued : Queued V Req) (rest : List (Queued V Req))
      (station : ∀ x, s'.station x = s.station x) (front : s.channel.inbox = queued :: rest)
      (channel : s'.channel = { s.channel with inbox := rest })
      (inFlight : s'.inFlight = s.inFlight ++ [(queued.id, queued.generation)])
      (flight : s'.flight = s.flight)
  | rejects (queued : Queued V Req) (rest : List (Queued V Req))
      (station : ∀ x, s'.station x = s.station x) (front : s.channel.inbox = queued :: rest)
      (payload : queued.payload = none)
      (channel : s'.channel = { s.channel with inbox := rest }.answer
        ⟨queued.id, .error typeMismatch, queued.generation, none⟩)
      (inFlight : s'.inFlight = s.inFlight) (flight : s'.flight = s.flight)
  | collects (answer : Answer V Req Res) (id : V) (generation : Nat) (rest : List (V × Nat))
      (found : s.response = some answer) (front : s.inFlight = (id, generation) :: rest)
      (station : ∀ x q, s'.station x = some q → x ≠ .response ∧ s.station x = some q)
      (channel : s'.channel = s.channel.answer
        ⟨id, wireResult toValue answer.outcome, generation, some answer⟩)
      (inFlight : s'.inFlight = rest) (flight : s.flight = generation :: s'.flight)
      (straggler : NoStraggler s a → ∀ x q, s.station x = some q →
        answer.request.generation ≤ q.generation)

variable {toValue : Res → Except String V} {s s' : State V Req Res} {a : Action V Req Res}

theorem station_goHook (s : State V Req Res) (i : Nat) (pc : HookPc V Req Res) (x : Station) :
    (s.goHook i pc).station x = if x = .hook i then pc.request else s.station x := by
  cases x with
  | hook j => by_cases hj : j = i <;> simp [State.station, State.goHook, hj]
  | slot | response => rfl

theorem flight_goRelay (hpc : s.relay ≠ .popFront) (hpc' : pc ≠ .popFront) :
    (s.goRelay pc).flight = s.flight := by
  cases hr : s.relay <;> cases pc <;> simp_all [State.flight, State.goRelay]

/-- Nothing but the relay's place in its body changes. -/
theorem Turn.stays (hstation : ∀ x, s'.station x = s.station x) (hchannel : s'.channel = s.channel)
    (hflight : s'.inFlight = s.inFlight) (hall : s'.flight = s.flight) : Turn toValue s a s' :=
  .shuffles 1 (fun x _ hq => (hstation x).symm.trans hq) hchannel hflight hall

theorem turn_relay (s : State V Req Res) (contended : Bool) :
    Turn toValue s (.relay contended) (relayStep toValue s contended) := by
  unfold relayStep
  cases hpc : s.relay with
  | idle =>
    refine .stays (fun _ => rfl) rfl rfl (flight_goRelay (by simp [hpc]) ?_)
    split <;> simp
  | deliver =>
    have hstay : Turn toValue s (.relay contended) (s.goRelay .collect) :=
      .stays (fun _ => rfl) rfl rfl (flight_goRelay (by simp [hpc]) (by simp))
    dsimp only
    unfold deliver
    cases hin : s.channel.inbox with
    | nil => exact hstay
    | cons queued rest =>
      cases hpay : queued.payload with
      | none =>
        simp only [hpay]
        refine .rejects queued rest (fun x => ?_) hin hpay rfl rfl ?_
        · cases x <;> rfl
        · simp [State.flight, State.goRelay, hpc]
      | some value =>
        simp only [hpay]
        cases contended with
        | true => exact hstay
        | false =>
          refine .delivers queued (fun x q hq => ?_) (by simp [hin]) rfl rfl ?_
          · cases x with
            | slot => exact .inr ⟨rfl, (Option.some.inj hq).symm⟩
            | hook i | response => exact .inl hq
          · simp [State.flight, State.goRelay, hpc, hin]
  | popFront =>
    dsimp only
    unfold popFront
    cases hin : s.channel.inbox with
    | nil =>
      refine .stays (fun _ => rfl) rfl rfl ?_
      simp [State.flight, State.goRelay, hpc, hin]
    | cons queued rest =>
      refine .pops queued rest (fun x => ?_) hin rfl rfl ?_
      · cases x <;> rfl
      · simp [State.flight, State.goRelay, hpc, hin]
  | collect =>
    have hstay : Turn toValue s (.relay contended) (s.goRelay .idle) :=
      .stays (fun _ => rfl) rfl rfl (flight_goRelay (by simp [hpc]) (by simp))
    dsimp only
    unfold collect
    cases contended with
    | true => exact hstay
    | false =>
      cases hres : s.response with
      | none => exact hstay
      | some answer =>
        cases hflight : s.inFlight with
        | nil =>
          refine .shuffles 1 (fun x q hq => ?_) rfl hflight.symm ?_
          · cases x with
            | slot | hook i => exact hq
            | response => cases hq
          · simp [State.flight, State.goRelay, hpc, hflight]
        | cons front rest =>
          obtain ⟨id, generation⟩ := front
          refine .collects answer id generation rest hres hflight (fun x q hq => ?_) rfl rfl ?_
            fun hg => hg hpc rfl answer hres
          · cases x with
            | slot | hook i => exact ⟨(by simp), hq⟩
            | response => cases hq
          · simp [State.flight, hflight, hpc]

/-- A hook goes on with the request it has, or drops it. -/
theorem turn_goHook {s₀ : State V Req Res} {pc : HookPc V Req Res}
    (hstation : ∀ x, s₀.station x = s.station x) (hchannel : s₀.channel = s.channel)
    (hflight : s₀.inFlight = s.inFlight) (hrelay : s₀.relay = s.relay)
    (hpc : ∀ q, pc.request = some q → (s.hooks i).request = some q) :
    Turn toValue s a (s₀.goHook i pc) := by
  refine .shuffles 1 (fun x q hq => ?_) hchannel hflight ?_
  · rw [station_goHook] at hq
    split at hq
    · next hx =>
      rw [hx]
      exact hpc q hq
    · exact (hstation x).symm.trans hq
  · simp [State.flight, State.goHook, hchannel, hflight, hrelay]

theorem turn_hook (hs : hookStep s i contended = some s') :
    Turn toValue s (.hook i contended) s' := by
  unfold hookStep at hs
  cases hpc : s.hooks i with
  | idle =>
    simp only [hpc] at hs
    split at hs
    · cases hs
      exact .stays (fun _ => rfl) rfl rfl rfl
    · cases hreq : s.request with
      | none =>
        simp only [hreq, Option.some.injEq] at hs
        subst hs
        exact .stays (fun _ => rfl) rfl rfl rfl
      | some request =>
        simp only [hreq, Option.some.injEq] at hs
        subst hs
        refine .shuffles (.swap .slot (.hook i)) (fun x q hq => ?_) rfl rfl rfl
        rw [station_goHook] at hq
        split at hq
        · next hx =>
          rw [hx, Equiv.swap_apply_right]
          exact hreq.trans hq
        · next hx =>
          cases x with
          | slot => cases hq
          | hook j | response => rwa [Equiv.swap_apply_of_ne_of_ne (by simp) hx]
  | unwrap request =>
    simp only [hpc] at hs
    have hsame : ∀ pc : HookPc V Req Res, pc.request = some request →
        ∀ q, pc.request = some q → (s.hooks i).request = some q := by
      rintro pc hreq q hq
      rw [hpc, ← hq, hreq]
      rfl
    split at hs
    · cases hs
      exact turn_goHook (fun _ => rfl) rfl rfl rfl (hsame _ rfl)
    · cases hs
      exact turn_goHook (fun x => by cases x <;> rfl) rfl rfl rfl (hsame _ rfl)
  | requeue request =>
    simp only [hpc] at hs
    split at hs
    · cases hs
      exact turn_goHook (fun x => by cases x <;> rfl) rfl rfl rfl nofun
    · cases hs
      refine .shuffles (.swap .slot (.hook i)) (fun x q hq => ?_) rfl rfl rfl
      rw [station_goHook] at hq
      split at hq
      · cases hq
      · next hx =>
        cases x with
        | slot =>
          rw [Equiv.swap_apply_left, ← hq]
          simp [State.station, hpc, HookPc.request]
        | hook j | response => rwa [Equiv.swap_apply_of_ne_of_ne (by simp) hx]
  | handling request => simp [hpc] at hs
  | respond answer =>
    simp only [hpc] at hs
    split at hs
    · cases hs
      exact turn_goHook (fun x => by cases x <;> rfl) rfl rfl rfl nofun
    · cases hs
      refine .shuffles (.swap .response (.hook i)) (fun x q hq => ?_) rfl rfl rfl
      rw [station_goHook] at hq
      split at hq
      · cases hq
      · next hx =>
        cases x with
        | response =>
          rw [Equiv.swap_apply_left, ← hq]
          simp [State.station, hpc, HookPc.request]
        | slot | hook j => rwa [Equiv.swap_apply_of_ne_of_ne (by simp) hx]

theorem step_turn (hs : step toValue s a = some s')
    (ha : ∀ id payload generation, a ≠ .enqueue id payload generation) : Turn toValue s a s' := by
  cases a with
  | enqueue id payload generation => exact absurd rfl (ha id payload generation)
  | relay contended =>
    cases hs
    exact turn_relay s contended
  | hook i contended => exact turn_hook hs
  | handlerReturns i outcome =>
    simp only [step] at hs
    split at hs
    · next request hpc =>
      cases hs
      refine turn_goHook (fun x => by cases x <;> rfl) rfl rfl rfl fun q hq => ?_
      rw [hpc]
      exact hq
    · cases hs
  | handlerPanics i =>
    simp only [step] at hs
    split at hs
    · cases hs
      exact turn_goHook (fun x => by cases x <;> rfl) rfl rfl rfl fun q hq => by cases hq
    · cases hs

-- ---------------------------------------------------------------------------
-- Ids never get ahead of their responses
-- ---------------------------------------------------------------------------

/-- The stations of requests up to a generation. -/
def State.waiting (s : State V Req Res) (γ : Nat) : Set Station :=
  {x | ∃ q, s.station x = some q ∧ q.generation ≤ γ}

/-- The generations of the ids in flight and then of the queued requests. -/
def State.line (s : State V Req Res) : List Nat :=
  s.inFlight.map (·.2) ++ s.channel.inbox.map DebugQueuedRequest.generation

/-- `balance`: the requests up to a generation do not outnumber the ids in
flight up to it. No queued generation is above `c`. -/
structure Forward (c : Nat) (s : State V Req Res) : Prop where
  finite : {x | s.station x ≠ none}.Finite
  balance : ∀ γ, (s.waiting γ).ncard ≤ s.flight.countP (· ≤ γ)
  sorted : s.line.Pairwise (· ≤ ·)
  bound : ∀ g ∈ s.line, g ≤ c
  outbox : ∀ r ∈ s.channel.outbox, ∀ answer, r.origin = some answer →
    r.generation ≤ answer.request.generation

theorem station_init (x : Station) : (State.init : State V Req Res).station x = none := by
  cases x <;> rfl

theorem Forward.init : Forward c (State.init : State V Req Res) where
  finite := by simp [station_init]
  balance γ := by simp [State.waiting, station_init]
  sorted := .nil
  bound := nofun
  outbox := nofun

theorem Forward.mono (h : Forward c s) (hle : c ≤ c') : Forward c' s :=
  { h with bound := fun g hg => (h.bound g hg).trans hle }

theorem Forward.waiting_finite (h : Forward c s) (γ : Nat) : (s.waiting γ).Finite := by
  refine h.finite.subset ?_
  rintro x ⟨q, hq, -⟩ hnone
  cases hnone.symm.trans hq

theorem flight_of_line (s : State V Req Res) : s.flight <+: s.line := by
  refine List.prefix_append_right_inj _ |>.mpr ?_
  split
  · cases s.channel.inbox with
    | nil => exact List.nil_prefix
    | cons queued rest => exact ⟨rest.map DebugQueuedRequest.generation, rfl⟩
  · exact List.nil_prefix

theorem mem_answer_outbox {c : DebugTopicChannel V P O} (h : r ∈ (c.answer response).outbox) :
    r ∈ c.outbox ∨ r = response :=
  (List.mem_append.mp h).imp_right List.mem_singleton.mp

/-- What a step that neither delivers nor collects keeps. -/
theorem Forward.aside (h : Forward c s) (move : Equiv.Perm Station)
    (hstation : ∀ x q, s'.station x = some q → s.station (move x) = some q)
    (hflight : s'.flight = s.flight) (hline : s'.line.Sublist s.line)
    (hout : ∀ r ∈ s'.channel.outbox, ∀ answer, r.origin = some answer →
      r ∈ s.channel.outbox ∨ r.generation ≤ answer.request.generation) : Forward c s' where
  finite := by
    refine (h.finite.preimage (f := move) move.injective.injOn).subset fun x hx hnone => ?_
    obtain ⟨q, hq⟩ := Option.ne_none_iff_exists'.mp hx
    cases hnone.symm.trans (hstation x q hq)
  balance γ := by
    rw [hflight]
    refine (Set.ncard_le_ncard_of_injOn move ?_ move.injective.injOn (h.waiting_finite γ)).trans
      (h.balance γ)
    rintro x ⟨q, hq, hle⟩
    exact ⟨q, hstation x q hq, hle⟩
  sorted := h.sorted.sublist hline
  bound g hg := h.bound g (hline.subset hg)
  outbox r hr answer ho :=
    (hout r hr answer ho).elim (fun hold => h.outbox r hold answer ho) fun hle => hle

theorem Forward.turn (h : Forward c s) (ht : Turn toValue s a s') (hg : NoStraggler s a) :
    Forward c s' := by
  cases ht with
  | shuffles move station channel inFlight flight =>
    have hline : s'.line = s.line := by simp [State.line, channel, inFlight]
    refine h.aside move station flight (hline ▸ List.Sublist.refl _) fun r hr _ _ => .inl ?_
    rwa [channel] at hr
  | pops queued rest station front channel inFlight flight =>
    have hline : s'.line = s.line := by simp [State.line, channel, inFlight, front]
    refine h.aside 1 (fun x q hq => (station x).symm.trans hq) flight (hline ▸ List.Sublist.refl _)
      fun r hr _ _ => .inl ?_
    rwa [channel] at hr
  | rejects queued rest station front payload channel inFlight flight =>
    refine h.aside 1 (fun x q hq => (station x).symm.trans hq) flight ?_ fun r hr answer ho => ?_
    · simp [State.line, channel, inFlight, front, DebugTopicChannel.answer,
        DebugTopicChannel.leavePending]
    · rw [channel] at hr
      rcases mem_answer_outbox hr with hr | rfl
      · exact .inl hr
      · cases ho
  | delivers queued station front channel inFlight flight =>
    have hline : s'.line = s.line := by simp [State.line, channel, inFlight]
    refine ⟨?_, fun γ => ?_, hline ▸ h.sorted, hline ▸ h.bound, channel ▸ h.outbox⟩
    · refine (h.finite.insert .slot).subset fun x hx => ?_
      obtain ⟨q, hq⟩ := Option.ne_none_iff_exists'.mp hx
      rcases station x q hq with hold | ⟨rfl, -⟩
      · exact .inr fun hnone => by cases hnone.symm.trans hold
      · exact .inl rfl
    · rw [flight, List.countP_append, List.countP_singleton]
      have hold := h.balance γ
      by_cases hle : queued.generation ≤ γ
      · have hsub : s'.waiting γ ⊆ insert .slot (s.waiting γ) := by
          rintro x ⟨q, hq, hqle⟩
          rcases station x q hq with hin | ⟨rfl, -⟩
          · exact .inr ⟨q, hin, hqle⟩
          · exact .inl rfl
        have hcard := (Set.ncard_le_ncard hsub ((h.waiting_finite γ).insert _)).trans
          (Set.ncard_insert_le _ _)
        simp only [hle, decide_true, if_true]
        omega
      · have hsub : s'.waiting γ ⊆ s.waiting γ := by
          rintro x ⟨q, hq, hqle⟩
          rcases station x q hq with hin | ⟨-, rfl⟩
          · exact ⟨q, hin, hqle⟩
          · exact absurd hqle hle
        have hcard := Set.ncard_le_ncard hsub (h.waiting_finite γ)
        omega
  | collects answer id generation rest found front station channel inFlight flight straggler =>
    have hline : s.line = generation :: s'.line := by
      simp [State.line, channel, inFlight, front, DebugTopicChannel.answer,
        DebugTopicChannel.leavePending]
    have hown : s.station .response = some answer.request := by simp [State.station, found]
    -- the request itself is waiting, so the oldest id is not of a later generation
    have hfront : generation ≤ answer.request.generation := by
      have hpos : 0 < (s.waiting answer.request.generation).ncard :=
        (Set.ncard_pos (h.waiting_finite _)).mpr ⟨.response, _, hown, le_rfl⟩
      obtain ⟨g, hg', hle⟩ := List.countP_pos_iff.mp (hpos.trans_le (h.balance _))
      have hsorted := h.sorted.sublist (flight_of_line s).sublist
      rw [flight] at hsorted hg'
      rcases List.mem_cons.mp hg' with rfl | hin
      · exact of_decide_eq_true hle
      · exact ((List.pairwise_cons.mp hsorted).1 g hin).trans (of_decide_eq_true hle)
    refine ⟨h.finite.subset fun x hx => ?_, fun γ => ?_, ?_, fun g hin => ?_, fun r hr own ho => ?_⟩
    · obtain ⟨q, hq⟩ := Option.ne_none_iff_exists'.mp hx
      exact fun hnone => by cases hnone.symm.trans (station x q hq).2
    · by_cases hle : answer.request.generation ≤ γ
      · have hsub : s'.waiting γ ⊆ s.waiting γ \ {.response} := by
          rintro x ⟨q, hq, hqle⟩
          obtain ⟨hne, hin⟩ := station x q hq
          exact ⟨⟨q, hin, hqle⟩, hne⟩
        have hmem : Station.response ∈ s.waiting γ := ⟨_, hown, hle⟩
        have hcard := Set.ncard_le_ncard hsub ((h.waiting_finite γ).sdiff)
        have hone := Set.ncard_sdiff_singleton_add_one hmem (h.waiting_finite γ)
        have hold := h.balance γ
        rw [flight, List.countP_cons_of_pos (by simpa using hfront.trans hle)] at hold
        omega
      · have hempty : s'.waiting γ = ∅ := by
          refine Set.eq_empty_of_forall_notMem ?_
          rintro x ⟨q, hq, hqle⟩
          exact hle ((straggler hg x q (station x q hq).2).trans hqle)
        simp [hempty]
    · have hsorted := h.sorted
      rw [hline] at hsorted
      exact (List.pairwise_cons.mp hsorted).2
    · exact h.bound g (hline ▸ List.mem_cons_of_mem _ hin)
    · rw [channel] at hr
      rcases mem_answer_outbox hr with hold | rfl
      · exact h.outbox r hold own ho
      · cases ho
        exact hfront

theorem flight_idle (hidle : s.relay = .idle) (hrelay : s'.relay = s.relay)
    (hflight : s'.inFlight = s.inFlight) : s'.flight = s.flight := by
  simp [State.flight, hrelay, hidle, hflight]

/-- The dispatch system queues a request of the generation it has read. -/
theorem Forward.enqueue (h : Forward c s) (hidle : s.relay = .idle) (queued : Queued V Req)
    (hc : queued.generation = c) (pending : Nat) :
    Forward c { s with
      channel := { s.channel with inbox := s.channel.inbox ++ [queued], pending } } := by
  have hline : ({ s with channel := { s.channel with
      inbox := s.channel.inbox ++ [queued], pending } } : State V Req Res).line =
        s.line ++ [c] := by simp [State.line, hc]
  refine ⟨h.finite, fun γ => ?_, ?_, fun g hg => ?_, h.outbox⟩
  · refine (h.balance γ).trans_eq ?_
    simp [State.flight, hidle]
  · rw [hline]
    refine List.pairwise_append.mpr ⟨h.sorted, List.pairwise_singleton .., fun g hg k hk => ?_⟩
    exact List.mem_singleton.mp hk ▸ h.bound g hg
  · rw [hline] at hg
    rcases List.mem_append.mp hg with hold | hlast
    · exact h.bound g hold
    · exact (List.mem_singleton.mp hlast).le

-- ---------------------------------------------------------------------------
-- Nothing is made up
-- ---------------------------------------------------------------------------

/-- Whatever is here comes from requests with property `R`, and these are of
the topic's request type. -/
structure Known (R : Queued V Req → Prop) (s : State V Req Res) : Prop where
  inbox : ∀ q ∈ s.channel.inbox, R q ∧ q.payload ≠ none
  stations : ∀ x q, s.station x = some q → R q
  inFlight : ∀ e ∈ s.inFlight, ∃ q, R q ∧ (q.id, q.generation) = e
  outbox : ∀ r ∈ s.channel.outbox, (∃ q, R q ∧ q.id = r.id ∧ q.generation = r.generation) ∧
    ∃ answer, r.origin = some answer ∧ R answer.request

theorem Known.init {R : Queued V Req → Prop} : Known R (State.init : State V Req Res) where
  inbox := nofun
  stations x q hq := by
    rw [station_init] at hq
    cases hq
  inFlight := nofun
  outbox := nofun

theorem Known.mono {R R' : Queued V Req → Prop} (h : Known R s) (himp : ∀ q, R q → R' q) :
    Known R' s where
  inbox q hq := (h.inbox q hq).imp_left (himp q)
  stations x q hq := himp q (h.stations x q hq)
  inFlight e he := (h.inFlight e he).imp fun q hq => hq.imp_left (himp q)
  outbox r hr := (h.outbox r hr).imp (Exists.imp fun q hq => hq.imp_left (himp q))
    (Exists.imp fun answer ha => ha.imp_right (himp answer.request))

theorem Known.enqueue {R : Queued V Req → Prop} (h : Known R s) (queued : Queued V Req)
    (hq : R queued) (hpay : queued.payload ≠ none) (pending : Nat) :
    Known R { s with
      channel := { s.channel with inbox := s.channel.inbox ++ [queued], pending } } := by
  refine ⟨fun q hin => ?_, fun x q hx => h.stations x q ?_, h.inFlight, h.outbox⟩
  · rcases List.mem_append.mp hin with hold | hlast
    · exact h.inbox q hold
    · exact List.mem_singleton.mp hlast ▸ ⟨hq, hpay⟩
  · cases x <;> exact hx

theorem Known.turn {R : Queued V Req → Prop} (h : Known R s) (ht : Turn toValue s a s') :
    Known R s' := by
  cases ht with
  | shuffles move station channel inFlight flight =>
    refine ⟨channel ▸ h.inbox, fun x q hq => h.stations _ q (station x q hq), inFlight ▸ h.inFlight,
      channel ▸ h.outbox⟩
  | delivers queued station front channel inFlight flight =>
    refine ⟨channel ▸ h.inbox, fun x q hq => ?_, inFlight ▸ h.inFlight, channel ▸ h.outbox⟩
    rcases station x q hq with hold | ⟨-, rfl⟩
    · exact h.stations x q hold
    · exact (h.inbox q (List.mem_of_mem_head? front)).1
  | pops queued rest station front channel inFlight flight =>
    refine ⟨fun q hq => ?_, fun x q hq => h.stations x q ((station x).symm.trans hq),
      fun e he => ?_, fun r hr => h.outbox r (by rwa [channel] at hr)⟩
    · rw [channel] at hq
      exact h.inbox q (front ▸ List.mem_cons_of_mem _ hq)
    · rw [inFlight] at he
      rcases List.mem_append.mp he with hold | hnew
      · exact h.inFlight e hold
      · obtain rfl := List.mem_singleton.mp hnew
        exact ⟨queued, (h.inbox queued (front ▸ List.mem_cons_self)).1, rfl⟩
  | rejects queued rest station front payload channel inFlight flight =>
    exact absurd payload (h.inbox queued (front ▸ List.mem_cons_self)).2
  | collects answer id generation rest found front station channel inFlight flight straggler =>
    refine ⟨fun q hq => h.inbox q (by rwa [channel] at hq),
      fun x q hq => h.stations x q (station x q hq).2,
      fun e he => h.inFlight e (front ▸ List.mem_cons_of_mem _ (inFlight ▸ he)), fun r hr => ?_⟩
    rw [channel] at hr
    rcases mem_answer_outbox hr with hold | rfl
    · exact h.outbox r hold
    · obtain ⟨q, hq, heq⟩ := h.inFlight (id, generation) (front ▸ List.mem_cons_self)
      obtain ⟨hid, hgeneration⟩ := Prod.mk.injEq .. ▸ heq
      exact ⟨⟨q, hq, hid, hgeneration⟩, answer, rfl,
        h.stations .response _ (by simp [State.station, found])⟩

end ShinySongTools.Relay
