import ShinySongTools.Debug.Session

/-!
# Conservation of debug requests

Every step of a session moves requests from one place to another, so an
accepted request is always somewhere. What the theorem adds is that a request
of the present connection is never among those dropped as another
connection's; it rests on the drain step alone.
-/

namespace ShinySongTools.Debug

open Custody

variable {P : Type u} {strict : Prop}

def WorkerPc.connection : WorkerPc → Option Nat
  | .accepting => none
  | .retain g | .clearIds g | .drain g | .writing g _ | .reading g => some g

def DispatchPc.current : DispatchPc → Option Nat
  | .idle => none
  | .drainInbox current | .routing current _ | .draining current _ | .returning current _ _ =>
    some current

/-- What is known of a request that is at a place. That a filtered request is
an older connection's is known of some runs only. -/
def Place.Ok (strict : Prop) (s : Session P) (tok : Token) : Place → Prop
  | .filtered => strict → tok.generation < s.transport.generation
  | .cutOff => s.worker = .accepting ∨ tok.generation < s.transport.generation
  | .written g => g = tok.generation
  | .routing => ∀ current, s.dispatch.current = some current → tok.generation = current
  | .topicInbox _ | .inFlight _ | .topicOutbox _ | .returning =>
    ∀ current, s.dispatch.current = some current → tok.generation ≤ current
  | .transportInbox | .transportOutbox | .writing | .dropped => True

structure Inv (strict : Prop) (s : Session P) : Prop where
  accounted : Accounted s.held (· ∈ s.accepted)
  accepted : ∀ tok ∈ s.accepted, tok.serial < s.nextSerial ∧ tok.generation ≤ s.transport.generation
  worker : ∀ g, s.worker.connection = some g → g = s.transport.generation
  current : ∀ current, s.dispatch.current = some current → current ≤ s.transport.generation
  placed : ∀ p tok, tok ∈ s.held p → p.Ok strict s tok

theorem Inv.init : Inv strict (Session.init : Session P) where
  accounted := ⟨fun _ h => (by cases h), fun _ _ p => by cases p <;> rfl⟩
  accepted _ h := by cases h
  worker _ h := by cases h
  current _ h := by cases h
  placed p _ h := by cases p <;> cases h

theorem Inv.conserved {s : Session P} (h : Inv True s) : Conserved s := by
  intro tok htok hgen
  obtain ⟨p, hp, hrest⟩ := h.accounted.once tok htok
  refine ⟨p, ?_, hp, hrest⟩
  have hok := h.placed p tok (List.count_pos_iff.mp (by omega))
  cases p with
  | filtered => exact absurd (hok trivial) (by simp [hgen])
  | cutOff => exact hok.resolve_right (by omega)
  | written g => exact hok
  | _ => trivial

theorem Inv.le {s : Session P} (h : Inv strict s) (htok : tok ∈ s.held p) :
    tok.generation ≤ s.transport.generation :=
  (h.accepted tok (h.accounted.known_of_mem htok)).2

/-- A step that accepts nothing, on the connection and with the reading there
were before, if it leaves any. -/
structure SameSession (s s' : Session P) : Prop where
  accepted : s'.accepted = s.accepted
  nextSerial : s'.nextSerial = s.nextSerial
  generation : s'.transport.generation = s.transport.generation
  worker : ∀ g, s'.worker.connection = some g → s.worker.connection = some g
  current : ∀ c, s'.dispatch.current = some c → s.dispatch.current = some c

theorem WorkerPc.connection_eq_none {w : WorkerPc} : w.connection = none ↔ w = .accepting := by
  cases w <;> simp [WorkerPc.connection]

theorem SameSession.accepting {s s' : Session P} (hs : SameSession s s')
    (h : s.worker = .accepting) : s'.worker = .accepting := by
  rw [← WorkerPc.connection_eq_none, Option.eq_none_iff_forall_ne_some]
  intro g hg
  simpa [h, WorkerPc.connection] using hs.worker g hg

theorem SameSession.trans {s s' s'' : Session P} (h : SameSession s s') (h' : SameSession s' s'') :
    SameSession s s'' where
  accepted := h'.accepted.trans h.accepted
  nextSerial := h'.nextSerial.trans h.nextSerial
  generation := h'.generation.trans h.generation
  worker g hg := h.worker g (h'.worker g hg)
  current c hc := h.current c (h'.current c hc)

theorem SameSession.ok {s s' : Session P} {p : Place} (hs : SameSession s s')
    (h : p.Ok strict s tok) :
    p.Ok strict s' tok := by
  cases p with
  | filtered =>
    show strict → tok.generation < s'.transport.generation
    rw [hs.generation]
    exact h
  | cutOff =>
    show s'.worker = .accepting ∨ tok.generation < s'.transport.generation
    rw [hs.generation]
    exact h.imp hs.accepting id
  | written g => exact h
  | routing | topicInbox i | inFlight i | topicOutbox i | returning =>
    exact fun c hc => h c (hs.current c hc)
  | transportInbox | transportOutbox | writing | dropped => trivial

theorem Inv.next {s s' : Session P} (h : Inv strict s) (hs : SameSession s s')
    (haccounted : Accounted s'.held (· ∈ s.accepted))
    (hplaced : ∀ p tok, tok ∈ s'.held p → tok ∈ s.held p ∨ p.Ok strict s' tok) : Inv strict s' where
  accounted := by rw [hs.accepted]; exact haccounted
  accepted tok htok := by
    rw [hs.nextSerial, hs.generation]
    exact h.accepted tok (hs.accepted ▸ htok)
  worker g hg := by
    rw [hs.generation]
    exact h.worker g (hs.worker g hg)
  current c hc := by
    rw [hs.generation]
    exact h.current c (hs.current c hc)
  placed p tok htok := (hplaced p tok htok).elim (fun hold => hs.ok (h.placed p tok hold)) id

theorem Inv.congr {s s' : Session P} (h : Inv strict s) (hs : SameSession s s')
    (hheld : ∀ p, s'.held p = s.held p) : Inv strict s' :=
  h.next hs (h.accounted.congr hheld) fun p _ htok => .inl (hheld p ▸ htok)

theorem Inv.moves {s s' : Session P} (h : Inv strict s) (hs : SameSession s s')
    (hm : Moves s.held s'.held p q l) (hok : ∀ tok ∈ l, tok ∈ s.held p → q.Ok strict s' tok) :
    Inv strict s' := by
  refine h.next hs (h.accounted.moves hm) fun r tok htok => ?_
  rcases hm.mem htok with hold | ⟨rfl, hl⟩
  · exact .inl hold
  · exact .inr (hok tok hl (hm.mem_source hl))

-- ---------------------------------------------------------------------------
-- Handler systems
-- ---------------------------------------------------------------------------

theorem held_setTopic {s : Session P} {t : Topic P}
    (h₁ : r = .topicInbox i → t.channel.inbox = (s.topics i).channel.inbox)
    (h₂ : r = .inFlight i → t.inFlight = (s.topics i).inFlight)
    (h₃ : r = .topicOutbox i → t.channel.outbox = (s.topics i).channel.outbox) :
    (s.setTopic i t).held r = s.held r := by
  cases r with
  | topicInbox j | inFlight j | topicOutbox j =>
    by_cases hj : j = i
    · subst hj
      simp_all [Session.held, Session.setTopic]
    · simp [Session.held, Session.setTopic, hj]
  | _ => rfl

@[simp] theorem setTopic_topics (s : Session P) (i : Nat) (t : Topic P) :
    (s.setTopic i t).topics i = t := by
  simp [Session.setTopic]

theorem setTopic_other (s : Session P) (t : Topic P) (h : j ≠ i) :
    (s.setTopic i t).topics j = s.topics j := by
  simp [Session.setTopic, h]

theorem setTopic_setTopic (s : Session P) (i : Nat) (t t' : Topic P) :
    (s.setTopic i t).setTopic i t' = s.setTopic i t' := by
  simp [Session.setTopic]

theorem sameSession_setTopic (s : Session P) (i : Nat) (t : Topic P) :
    SameSession s (s.setTopic i t) :=
  ⟨rfl, rfl, rfl, fun _ hg => hg, fun _ hc => hc⟩

/-- The places of one topic. -/
def Place.OfTopic (i : Nat) (p : Place) : Prop :=
  p = .topicInbox i ∨ p = .inFlight i ∨ p = .topicOutbox i

/-- Requests that move within a topic stay below the reading. -/
theorem Inv.withinTopic {s : Session P} (h : Inv strict s) (hp : p.OfTopic i) (hq : q.OfTopic i)
    (hm : Moves s.held (s.setTopic i t).held p q l) : Inv strict (s.setTopic i t) := by
  refine h.moves (sameSession_setTopic s i t) hm fun tok _ hin => ?_
  have hok := h.placed p tok hin
  rcases hp with rfl | rfl | rfl <;> rcases hq with rfl | rfl | rfl <;> exact hok

theorem responseToken_answerTo (q : DebugQueuedRequest Json P)
    (result : Except DebugWireError Json) :
    responseToken (answerTo q result) = queuedToken q := rfl

/-- The front of what is in flight is answered. -/
theorem Inv.answers {s : Session P} {t : Topic P} (h : Inv strict s)
    (result : Except DebugWireError Json) (hf : (s.topics i).inFlight = q :: rest)
    (ht : t = { channel := (s.topics i).channel.answer (answerTo q result), inFlight := rest }) :
    Inv strict (s.setTopic i t) := by
  subst ht
  refine h.withinTopic (p := .inFlight i) (q := .topicOutbox i) (l := [queuedToken q])
    (.inr (.inl rfl)) (.inr (.inr rfl)) (Moves.of_perm nofun ?_ ?_ fun r h₁ h₂ => ?_)
  · simp [Session.held, hf]
  · simp [Session.held, DebugTopicChannel.answer, DebugTopicChannel.leavePending,
      responseToken_answerTo]
  · exact held_setTopic (fun _ => rfl) (absurd · h₁) (absurd · h₂)

theorem Inv.handler {s : Session P} (h : Inv strict s) (hrun : (s.topics i).run op = some t) :
    Inv strict (s.setTopic i t) := by
  cases op with
  | drain =>
    simp only [Topic.run] at hrun
    split at hrun <;> cases hrun
    next hf =>
    refine h.withinTopic (p := .topicInbox i) (q := .inFlight i) (.inl rfl) (.inr (.inl rfl))
      (Moves.of_perm nofun (l := (s.topics i).channel.inbox.map queuedToken) ?_ ?_
        fun r h₁ h₂ => ?_)
    · simp [Session.held]
    · simp [Session.held, hf]
    · exact held_setTopic (absurd · h₁) (absurd · h₂) fun _ => rfl
  | answer result =>
    simp only [Topic.run] at hrun
    split at hrun <;> cases hrun
    next hf => exact h.answers result hf rfl
  | panic =>
    simp only [Topic.run] at hrun
    split at hrun <;> cases hrun
    next q rest hf =>
    -- first the rest of the batch goes back to the inbox
    have hback : Inv strict (s.setTopic i
        { channel := { (s.topics i).channel with inbox := rest ++ (s.topics i).channel.inbox }
          inFlight := [q] }) := by
      refine h.withinTopic (p := .inFlight i) (q := .topicInbox i) (.inr (.inl rfl)) (.inl rfl)
        (Moves.of_perm nofun (l := rest.map queuedToken) ?_ ?_ fun r h₁ h₂ => ?_)
      · simpa [Session.held, hf] using (List.perm_append_singleton _ _).symm
      · simp [Session.held]
      · exact held_setTopic (absurd · h₂) (absurd · h₁) fun _ => rfl
    have := hback.answers (.error (pluginUnavailable "debug handler panicked"))
      (i := i) (q := q) (by rw [setTopic_topics]) rfl
    rw [setTopic_setTopic, setTopic_topics] at this
    exact this
  | deliver =>
    simp only [Topic.run] at hrun
    split at hrun <;> cases hrun
    next q rest hf =>
    refine h.withinTopic (p := .topicInbox i) (q := .inFlight i) (.inl rfl) (.inr (.inl rfl))
      (Moves.of_perm nofun (l := [queuedToken q]) ?_ ?_ fun r h₁ h₂ => ?_)
    · simp [Session.held, hf]
    · simp [Session.held]
    · exact held_setTopic (absurd · h₁) (absurd · h₂) fun _ => rfl
  | mismatch =>
    simp only [Topic.run] at hrun
    split at hrun <;> cases hrun
    next q rest hf =>
    refine h.withinTopic (p := .topicInbox i) (q := .topicOutbox i) (.inl rfl) (.inr (.inr rfl))
      (Moves.of_perm nofun (l := [queuedToken q]) ?_ ?_ fun r h₁ h₂ => ?_)
    · simp [Session.held, hf, DebugTopicChannel.answer, DebugTopicChannel.leavePending]
    · simp [Session.held, DebugTopicChannel.answer, DebugTopicChannel.leavePending,
        responseToken_answerTo]
    · exact held_setTopic (absurd · h₁) (fun _ => rfl) (absurd · h₂)
  | retire =>
    cases hrun
    refine h.withinTopic (p := .topicInbox i) (q := .topicOutbox i) (.inl rfl) (.inr (.inr rfl))
      (Moves.of_perm nofun (l := (s.topics i).channel.inbox.map queuedToken) ?_ ?_
        fun r h₁ h₂ => ?_)
    · simp [Session.held, (DebugTopicChannel.foldl_answer _ _ _).1]
    · simpa [Session.held, (DebugTopicChannel.foldl_answer _ _ _).2, Function.comp_def,
        responseToken_answerTo]
        using List.perm_append_comm
    · exact held_setTopic (absurd · h₁) (fun _ => rfl) (absurd · h₂)

-- ---------------------------------------------------------------------------
-- Dispatch
-- ---------------------------------------------------------------------------

@[simp] theorem pushResponse_inbox (t : DebugTransport) (r : WireResponse) :
    (t.pushResponse r).inbox = t.inbox := by
  unfold DebugTransport.pushResponse
  split <;> rfl

@[simp] theorem pushResponse_generation (t : DebugTransport) (r : WireResponse) :
    (t.pushResponse r).generation = t.generation := by
  unfold DebugTransport.pushResponse
  split <;> rfl

/-- Where dispatch puts a request. -/
def Place.Routed (p : Place) : Prop :=
  p = .transportOutbox ∨ p = .dropped ∨ ∃ i, p = .topicInbox i

theorem pushResponse_enters (s : Session P) {r : WireResponse} (hr : r.token = some tok) :
    ∃ q : Place, q.Routed ∧
      Enters s.held { s with transport := s.transport.pushResponse r }.held q [tok] := by
  by_cases hfull : maxOutboxResponses ≤ s.transport.outbox.length
  · rw [show s.transport.pushResponse r = _ from if_pos hfull, hr]
    refine ⟨.dropped, .inr (.inl rfl), Enters.of_perm (.refl _) fun p hp => ?_⟩
    cases p with
    | dropped => exact absurd rfl hp
    | _ => rfl
  · rw [show s.transport.pushResponse r = _ from if_neg hfull]
    refine ⟨.transportOutbox, .inl rfl, Enters.of_perm ?_ fun p hp => ?_⟩
    · simp [Session.held, hr]
    · cases p with
      | transportOutbox => exact absurd rfl hp
      | _ => rfl

/-- A change to the transport that leaves generation and connection alone. -/
theorem sameSession_transport (s : Session P) {t : DebugTransport}
    (h : t.generation = s.transport.generation) : SameSession s { s with transport := t } :=
  ⟨rfl, rfl, h, fun _ hg => hg, fun _ hc => hc⟩

theorem respondError_enters (s : Session P) (reply : ErrorReply) (generation origin : Nat) :
    ∃ q : Place, q.Routed ∧
      Enters s.held
        { s with transport := s.transport.respondError reply generation origin }.held
        q [⟨origin, generation⟩] :=
  pushResponse_enters s rfl

theorem enqueue_ok {c c' : DebugTopicChannel Json P Nat} {q : DebugQueuedRequest Json P}
    (h : c.enqueue q = (.ok (), c')) :
    c'.inbox = c.inbox ++ [q] ∧ c'.outbox = c.outbox := by
  unfold DebugTopicChannel.enqueue at h
  split at h <;> cases h
  exact ⟨rfl, rfl⟩

theorem route_enters (views : List (TopicView P)) (s : Session P) (readings : Readings)
    (request : WireRequest) :
    SameSession s (route views s readings request) ∧
      ∃ q : Place, q.Routed ∧
        Enters s.held (route views s readings request).held q [request.token] := by
  have hrefuse : ∀ reply : ErrorReply, SameSession s
      { s with transport := s.transport.respondError reply request.generation request.serial } :=
    fun _ => sameSession_transport s (pushResponse_generation _ _)
  unfold route
  dsimp only
  split
  · exact ⟨hrefuse _, respondError_enters s _ _ _⟩
  · exact ⟨sameSession_transport s (pushResponse_generation _ _), pushResponse_enters s rfl⟩
  · next payload i _ =>
    split
    · exact ⟨hrefuse _, respondError_enters s _ _ _⟩
    · next channel henqueue =>
      obtain ⟨hin, hout⟩ := enqueue_ok henqueue
      refine ⟨sameSession_setTopic s i _, .topicInbox i, .inr (.inr ⟨i, rfl⟩),
        Enters.of_perm ?_ fun r hr => ?_⟩
      · simp [Session.held, hin, queuedToken, WireRequest.token]
      · exact held_setTopic (absurd · hr) (fun _ => rfl) fun _ => hout

theorem route_dispatch (views : List (TopicView P)) (s : Session P) (readings : Readings)
    (request : WireRequest) (pc : DispatchPc) :
    { route views s readings request with dispatch := pc } =
      route views { s with dispatch := pc } readings request := by
  unfold route
  dsimp only
  split
  · rfl
  · rfl
  · split <;> rfl

theorem sendBack_enters (s : Session P) (response : DebugResponse Json Nat) :
    SameSession s { s with transport := s.transport.sendBack response } ∧
      ∃ q : Place, q.Routed ∧
        Enters s.held { s with transport := s.transport.sendBack response }.held q
          [responseToken response] := by
  unfold DebugTransport.sendBack
  split
  · exact ⟨sameSession_transport s (pushResponse_generation _ _), pushResponse_enters s rfl⟩
  · exact ⟨sameSession_transport s (pushResponse_generation _ _), respondError_enters s _ _ _⟩

theorem sameSession_dispatch (s : Session P) {pc : DispatchPc}
    (h : ∀ c, pc.current = some c → s.dispatch.current = some c) :
    SameSession s { s with dispatch := pc } :=
  ⟨rfl, rfl, rfl, fun _ hg => hg, h⟩

/-- A request at hand is routed. -/
theorem Inv.routed {s s₀ s' : Session P} (h : Inv strict s) (hp : p = .routing ∨ p = .returning)
    (h₀ : SameSession s s₀) (hl : Leaves s.held s₀.held p [tok]) (hs : SameSession s₀ s')
    (he : ∃ q : Place, q.Routed ∧ Enters s₀.held s'.held q [tok])
    (hcurrent : s'.dispatch.current = s.dispatch.current) : Inv strict s' := by
  obtain ⟨q, hq, he⟩ := he
  have hne : p ≠ q := by
    rcases hp with rfl | rfl <;> rcases hq with rfl | rfl | ⟨i, rfl⟩ <;> nofun
  refine h.moves (h₀.trans hs) (hl.enters he hne) fun t _ hin => ?_
  rcases hq with rfl | rfl | ⟨i, rfl⟩
  · trivial
  · trivial
  · intro c hc
    have hok := h.placed p t hin
    rw [hcurrent] at hc
    rcases hp with rfl | rfl
    · exact Nat.le_of_eq (hok c hc)
    · exact hok c hc

/-- What the drain step does when the generation it goes by is the current
one, or no request of the present connection is there to be drained. -/
theorem Inv.drainInbox {s : Session P} (h : Inv strict s) (hd : s.dispatch = .drainInbox reading)
    (hg : strict → ∀ request ∈ s.transport.inbox, request.generation = s.transport.generation →
      s.transport.generation = reading) :
    Inv strict (dispatchStep views s readings) := by
  have hcurrent := h.current reading (by rw [hd]; rfl)
  -- the requests to route are taken first, the others stay for the moment
  let s₁ : Session P := { s with
    transport := { s.transport with
      inbox := s.transport.inbox.filter (·.generation ≠ reading) }
    dispatch := .routing reading (s.transport.inbox.filter (·.generation = reading)) }
  have h₁ : Inv strict s₁ := by
    refine h.moves (p := .transportInbox) (q := .routing)
      (l := (s.transport.inbox.filter (·.generation = reading)).map WireRequest.token)
      ⟨rfl, rfl, rfl, fun _ hg => hg, fun c hc => by rw [hd]; exact hc⟩
      (Moves.of_perm nofun ?_ ?_ fun r hr₁ hr₂ => ?_) ?_
    · simp only [Session.held, s₁, ← List.map_append]
      refine List.Perm.map _ (List.Perm.symm ?_)
      simpa using List.filter_append_perm (fun r : WireRequest => decide (r.generation = reading)) _
    · simp [Session.held, s₁, hd, DispatchPc.requests]
    · cases r <;> simp_all [Session.held, s₁, DispatchPc.responses]
    · intro tok htok _ c hc
      cases hc
      obtain ⟨request, hin, rfl⟩ := List.mem_map.mp htok
      simpa [WireRequest.token] using (List.mem_filter.mp hin).2
  have hstep : dispatchStep views s readings = { s₁ with
      transport := { s₁.transport with inbox := [] }
      filtered := s₁.transport.inbox.map WireRequest.token ++ s₁.filtered } := by
    simp only [dispatchStep, hd, s₁]
  rw [hstep]
  refine h₁.moves (p := .transportInbox) (q := .filtered)
    ⟨rfl, rfl, rfl, fun _ hg => hg, fun _ hc => hc⟩
    (Moves.of_perm nofun (l := s₁.transport.inbox.map WireRequest.token) ?_ ?_
      fun r hr₁ hr₂ => ?_) ?_
  · simp [Session.held]
  · exact .refl _
  · cases r <;> first | rfl | simp_all
  · intro tok htok hin
    obtain ⟨request, hmem, rfl⟩ := List.mem_map.mp htok
    obtain ⟨hmem, hold⟩ := List.mem_filter.mp hmem
    have hle := h₁.le hin
    refine fun hstrict => Nat.lt_of_le_of_ne hle fun heq => ?_
    have hgen := hg hstrict request hmem heq
    exact absurd (heq.trans hgen) (by simpa [WireRequest.token] using hold)

theorem Inv.dispatch {s : Session P} (h : Inv strict s)
    (hg : strict → ReadsCurrent s (.dispatch readings)) :
    Inv strict (dispatchStep views s readings) := by
  cases hd : s.dispatch with
  | idle =>
    have hheld : (dispatchStep views s readings).held = s.held := by
      funext p
      cases p <;> simp [dispatchStep, hd, Session.held, DispatchPc.requests, DispatchPc.responses]
    simp only [dispatchStep, hd] at hheld ⊢
    exact
      { accounted := by rw [hheld]; exact h.accounted
        accepted := h.accepted
        worker := h.worker
        current := by rintro c ⟨⟩; exact Nat.le_refl _
        placed := by
          intro p tok htok
          rw [hheld] at htok
          have hle := h.le htok
          have hok := h.placed p tok htok
          cases p with
          | routing => simp [Session.held, hd, DispatchPc.requests] at htok
          | topicInbox i | inFlight i | topicOutbox i | returning => rintro c ⟨⟩; exact hle
          | _ => exact hok }
  | drainInbox current => exact h.drainInbox hd fun hstrict => hg hstrict current hd
  | routing current requests =>
    cases requests with
    | nil =>
      simp only [dispatchStep, hd]
      refine h.congr (sameSession_dispatch s fun c hc => by rw [hd]; exact hc) fun p => ?_
      cases p <;> simp [hd, Session.held, DispatchPc.requests, DispatchPc.responses]
    | cons request rest =>
      simp only [dispatchStep, hd]
      rw [route_dispatch]
      have hl : Leaves s.held { s with dispatch := .routing current rest }.held .routing
          [request.token] := by
        refine Leaves.of_perm ?_ fun r hr => ?_
        · simp [Session.held, hd, DispatchPc.requests]
        · cases r <;> simp_all [Session.held, DispatchPc.responses]
      obtain ⟨hs, he⟩ := route_enters views { s with dispatch := .routing current rest } readings
        request
      exact h.routed (.inl rfl) (sameSession_dispatch s fun c hc => by rw [hd]; exact hc) hl hs he
        (by rw [← route_dispatch, hd]; rfl)
  | draining current topics =>
    cases topics with
    | nil =>
      simp only [dispatchStep, hd]
      refine h.congr (sameSession_dispatch s fun c hc => by cases hc) fun p => ?_
      cases p <;> simp [hd, Session.held, DispatchPc.requests, DispatchPc.responses]
    | cons i rest =>
      simp only [dispatchStep, hd]
      refine h.moves (p := .topicOutbox i) (q := .returning)
        (l := (s.topics i).channel.outbox.map responseToken)
        ⟨rfl, rfl, rfl, fun _ hg => hg, fun c hc => by rw [hd]; exact hc⟩
        (Moves.of_perm nofun ?_ ?_ fun r h₁ h₂ => ?_) fun tok _ hin c hc => ?_
      · simp [Session.held]
      · simp [Session.held, hd, DispatchPc.responses]
      · have := held_setTopic (s := s) (r := r) (i := i)
          (t := { s.topics i with channel := { (s.topics i).channel with outbox := [] } })
          (fun _ => rfl) (fun _ => rfl) (absurd · h₁)
        cases r <;> simp_all [Session.held, DispatchPc.requests]
      · exact h.placed _ tok hin c (by rw [hd]; exact hc)
  | returning current responses rest =>
    cases responses with
    | nil =>
      simp only [dispatchStep, hd]
      refine h.congr (sameSession_dispatch s fun c hc => by rw [hd]; exact hc) fun p => ?_
      cases p <;> simp [hd, Session.held, DispatchPc.requests, DispatchPc.responses]
    | cons response responses =>
      simp only [dispatchStep, hd]
      split
      · next hgen =>
        refine h.moves (p := .returning) (q := .filtered) (l := [responseToken response])
          ⟨rfl, rfl, rfl, fun _ hg => hg, fun c hc => by rw [hd]; exact hc⟩
          (Moves.of_perm nofun ?_ ?_ fun r h₁ h₂ => ?_) fun tok htok hin => ?_
        · simp [Session.held, hd, DispatchPc.responses]
        · exact .refl _
        · cases r <;> simp_all [Session.held, DispatchPc.requests]
        · have hle := h.placed _ tok hin current (by rw [hd]; rfl)
          have hcurrent := h.current current (by rw [hd]; rfl)
          obtain rfl := List.mem_singleton.mp htok
          exact fun _ => Nat.lt_of_lt_of_le (Nat.lt_of_le_of_ne hle hgen) hcurrent
      · have hl : Leaves s.held { s with dispatch := .returning current responses rest }.held
            .returning [responseToken response] := by
          refine Leaves.of_perm ?_ fun r hr => ?_
          · simp [Session.held, hd, DispatchPc.responses]
          · cases r <;> simp_all [Session.held, DispatchPc.requests]
        obtain ⟨hs, he⟩ := sendBack_enters { s with dispatch := .returning current responses rest }
          response
        exact h.routed (.inr rfl) (sameSession_dispatch s fun c hc => by rw [hd]; exact hc) hl hs
          he (by rw [hd]; rfl)

-- ---------------------------------------------------------------------------
-- The worker
-- ---------------------------------------------------------------------------

theorem Inv.onConnection {s : Session P} (h : Inv strict s) (hw : s.worker.connection = some g)
    (htok : tok ∈ s.held p) (hgen : tok.generation ≠ g) :
    tok.generation < s.transport.generation :=
  Nat.lt_of_le_of_ne (h.le htok) (h.worker g hw ▸ hgen)

theorem token_generation {r : WireResponse} (h : tok ∈ r.token) :
    tok.generation = r.generation := by
  obtain ⟨n, -, rfl⟩ := Option.map_eq_some_iff.mp h
  rfl

theorem filterMap_split (outbox : List WireResponse) (g : Nat) :
    (outbox.filterMap WireResponse.token).Perm
      ((outbox.filter (·.generation ≠ g)).filterMap WireResponse.token ++
        (outbox.filter (·.generation = g)).filterMap WireResponse.token) := by
  rw [← List.filterMap_append]
  refine List.Perm.filterMap _ (List.Perm.symm ?_)
  refine List.perm_append_comm.trans ?_
  simpa using List.filter_append_perm (fun r : WireResponse => decide (r.generation = g)) outbox

theorem releaseId_spec (render : Json → String) (t : DebugTransport) (r : WireResponse) :
    t.releaseId render r = { t with activeIds := (t.releaseId render r).activeIds } := by
  unfold DebugTransport.releaseId
  split <;> rfl

theorem Inv.workerStep {s s' : Session P} (h : Inv strict s)
    (hs : ShinySongTools.Debug.workerStep render s = some s') : Inv strict s' := by
  unfold ShinySongTools.Debug.workerStep at hs
  cases hw : s.worker with
  | accepting => simp [hw] at hs
  | retain g =>
    simp only [hw, Option.some.injEq] at hs
    subst hs
    refine h.moves (p := .transportOutbox) (q := .filtered)
      (l := (s.transport.outbox.filter (·.generation ≠ g)).filterMap WireResponse.token)
      ⟨rfl, rfl, rfl, fun _ hg => by rw [hw]; exact hg, fun _ hc => hc⟩
      (Moves.of_perm nofun (filterMap_split _ g) (.refl _) fun r h₁ h₂ => ?_)
      fun tok htok hin => ?_
    · cases r <;> simp_all [Session.held, WorkerPc.responses]
    · refine fun _ => h.onConnection (by rw [hw]; rfl) hin ?_
      obtain ⟨r, hr, htok⟩ := List.mem_filterMap.mp htok
      rw [token_generation htok]
      simpa using (List.mem_filter.mp hr).2
  | clearIds g =>
    simp only [hw, Option.some.injEq] at hs
    subst hs
    refine h.congr ⟨rfl, rfl, rfl, fun _ hg => by rw [hw]; exact hg, fun _ hc => hc⟩ fun p => ?_
    cases p <;> simp [Session.held, WorkerPc.responses, hw]
  | drain g =>
    simp only [hw, Option.some.injEq] at hs
    subst hs
    refine h.moves (p := .transportOutbox) (q := .writing)
      (l := s.transport.outbox.filterMap WireResponse.token)
      ⟨rfl, rfl, rfl, fun _ hg => by rw [hw]; exact hg, fun _ hc => hc⟩
      (Moves.of_perm nofun ?_ ?_ fun r h₁ h₂ => ?_) fun _ _ _ => trivial
    · simp [Session.held]
    · simp [Session.held, WorkerPc.responses, hw]
    · cases r <;> simp_all [Session.held]
  | writing g responses =>
    cases responses with
    | nil =>
      simp only [hw, Option.some.injEq] at hs
      subst hs
      refine h.congr ⟨rfl, rfl, rfl, fun _ hg => by rw [hw]; exact hg, fun _ hc => hc⟩ fun p => ?_
      cases p <;> simp [Session.held, WorkerPc.responses, hw]
    | cons response rest =>
      simp only [hw] at hs
      have hsource : s.held .writing =
          response.token.toList ++ rest.filterMap WireResponse.token := by
        cases ht : response.token <;> simp [Session.held, hw, WorkerPc.responses, ht]
      split at hs
      · next hgen =>
        cases hs
        refine h.moves (p := .writing) (q := .filtered) (l := response.token.toList)
          ⟨rfl, rfl, rfl, fun _ hg => by rw [hw]; exact hg, fun _ hc => hc⟩
          (Moves.of_perm nofun (by rw [hsource]; exact .refl _) (.refl _) fun r h₁ h₂ => ?_)
          fun tok htok hin => ?_
        · cases r <;> simp_all [Session.held]
        · refine fun _ => h.onConnection (by rw [hw]; rfl) hin ?_
          rw [token_generation (Option.mem_toList.mp htok)]
          exact hgen
      · next hgen =>
        cases hs
        rw [releaseId_spec]
        refine h.moves (p := .writing) (q := .written g) (l := response.token.toList)
          ⟨rfl, rfl, rfl, fun _ hg => by rw [hw]; exact hg, fun _ hc => hc⟩
          (Moves.of_perm nofun (by rw [hsource]; exact .refl _) ?_ fun r h₁ h₂ => ?_)
          fun tok htok hin => ?_
        · simp [Session.held, List.filter_map, Function.comp_def]
        · cases r with
          | written k =>
            have hk : g ≠ k := fun hk => h₂ (hk ▸ rfl)
            simp [Session.held, List.filter_map, Function.comp_def, hk]
          | writing => exact absurd rfl h₁
          | _ => rfl
        · have := token_generation (Option.mem_toList.mp htok)
          exact (this.trans (not_not.mp hgen)).symm
  | reading g =>
    simp only [hw, Option.some.injEq] at hs
    subst hs
    refine h.congr ⟨rfl, rfl, rfl, fun _ hg => by rw [hw]; exact hg, fun _ hc => hc⟩ fun p => ?_
    cases p <;> simp [Session.held, WorkerPc.responses, hw]

/-- The accepted requests that a transport and another one hold are the same. -/
structure SameTokens (t t' : DebugTransport) : Prop where
  inbox : t'.inbox.map WireRequest.token = t.inbox.map WireRequest.token
  outbox : t'.outbox.filterMap WireResponse.token = t.outbox.filterMap WireResponse.token
  dropped : t'.dropped = t.dropped
  generation : t'.generation = t.generation

/-- A response that is no accepted request's. -/
theorem sameTokens_respondError (t : DebugTransport) (reply : ErrorReply) (g : Nat) :
    SameTokens t (t.respondError reply g none) := by
  unfold DebugTransport.respondError DebugTransport.pushResponse
  split <;> exact ⟨rfl, by simp [WireResponse.token], rfl, rfl⟩

theorem SameTokens.inv {s : Session P} (ht : SameTokens s.transport t) (h : Inv strict s) :
    Inv strict { s with transport := t } := by
  refine h.congr (sameSession_transport s ht.generation) fun p => ?_
  cases p with
  | transportInbox => exact ht.inbox
  | transportOutbox => exact ht.outbox
  | dropped => exact ht.dropped
  | _ => rfl

theorem handleFrame_rejected {t t' : DebugTransport}
    (h : t.handleFrame parse render bytes g n = (t', false)) : SameTokens t t' := by
  unfold DebugTransport.handleFrame at h
  dsimp only at h
  repeat' split at h
  all_goals cases h
  · exact sameTokens_respondError t _ g
  · exact sameTokens_respondError t _ g
  · exact sameTokens_respondError t _ g
  · obtain ⟨hin, hout, hdrop, hgen⟩ := sameTokens_respondError
      { t with activeIds := t.activeIds ++ (trackableId render _).toList } _ g
    exact ⟨hin, hout, hdrop, hgen⟩

theorem handleFrame_accepted {t t' : DebugTransport}
    (h : t.handleFrame parse render bytes g n = (t', true)) :
    ∃ (request : WireRequest) (ids : List String), request.token = ⟨n, g⟩ ∧
      t' = { t with inbox := t.inbox ++ [request], activeIds := ids } := by
  unfold DebugTransport.handleFrame at h
  dsimp only at h
  repeat' split at h
  all_goals cases h
  exact ⟨_, _, rfl, rfl⟩

theorem Inv.goWorker {s : Session P} (h : Inv strict s) {pc : WorkerPc}
    (hw : ∀ g, pc.connection = some g → s.worker.connection = some g)
    (hpc : pc.responses = []) (hr : s.worker.responses = []) :
    Inv strict { s with worker := pc } := by
  refine h.congr ⟨rfl, rfl, rfl, hw, fun _ hc => hc⟩ fun p => ?_
  cases p <;> simp [Session.held, hpc, hr]

theorem Inv.accept {s : Session P} (h : Inv strict s) (hw : s.worker = .accepting) :
    Inv strict { s with
      transport := { s.transport with generation := s.transport.generation + 1 }
      worker := .retain (s.transport.generation + 1) } where
  accounted := h.accounted.congr fun p => by
    cases p <;> simp [Session.held, WorkerPc.responses, hw]
  accepted tok htok := ⟨(h.accepted tok htok).1, Nat.le_succ_of_le (h.accepted tok htok).2⟩
  worker g hg := by cases hg; rfl
  current c hc := Nat.le_succ_of_le (h.current c hc)
  placed p tok htok := by
    have hin : tok ∈ s.held p := by
      cases p with
      | writing => simp [Session.held, WorkerPc.responses] at htok
      | _ => exact htok
    have hok := h.placed p tok hin
    cases p with
    | filtered => exact fun hstrict => Nat.lt_succ_of_lt (hok hstrict)
    | cutOff => exact .inr (Nat.lt_succ_of_le (h.le hin))
    | _ => exact hok

theorem Inv.frameAccepted {s : Session P} (h : Inv strict s) (hw : s.worker = .reading g)
    {request : WireRequest} (hr : request.token = ⟨s.nextSerial, g⟩) :
    Inv strict { s with
      transport := { s.transport with inbox := s.transport.inbox ++ [request], activeIds := ids }
      worker := .drain g
      nextSerial := s.nextSerial + 1
      accepted := ⟨s.nextSerial, g⟩ :: s.accepted } where
  accounted := by
    refine h.accounted.enters (q := .transportInbox) (b := ⟨s.nextSerial, g⟩)
      (Enters.of_perm ?_ fun p hp => ?_) ?_ ?_
    · simp [Session.held, hr]
    · cases p <;> simp_all [Session.held, WorkerPc.responses]
    · exact fun hmem => Nat.lt_irrefl _ (h.accepted _ hmem).1
    · intro tok
      rw [List.mem_cons, or_comm]
  accepted := by
    intro tok htok
    rcases List.mem_cons.mp htok with rfl | hold
    · exact ⟨Nat.lt_succ_self _, Nat.le_of_eq (h.worker g (by rw [hw]; rfl))⟩
    · exact ⟨Nat.lt_succ_of_lt (h.accepted tok hold).1, (h.accepted tok hold).2⟩
  worker k hk := h.worker k (by rw [hw]; exact hk)
  current := h.current
  placed p tok htok := by
    by_cases hp : p = .transportInbox
    · subst hp
      trivial
    have hin : tok ∈ s.held p := by
      cases p with
      | transportInbox => exact absurd rfl hp
      | writing => cases htok
      | _ => exact htok
    have hok := h.placed p tok hin
    cases p with
    | cutOff => exact .inr (hok.resolve_left (by rw [hw]; nofun))
    | _ => exact hok

theorem Inv.step {s s' : Session P} (h : Inv strict s) (hg : strict → ReadsCurrent s a)
    (hs : ShinySongTools.Debug.step parse render views s a = some s') : Inv strict s' := by
  cases a with
  | accept =>
    simp only [ShinySongTools.Debug.step] at hs
    split at hs <;> cases hs
    next hw => exact h.accept hw
  | worker => exact h.workerStep hs
  | writeFails =>
    simp only [ShinySongTools.Debug.step] at hs
    split at hs
    · next g response rest hw =>
      split at hs <;> cases hs
      rw [releaseId_spec]
      refine h.moves (p := .writing) (q := .cutOff)
        (l := (response :: rest).filterMap WireResponse.token)
        ⟨rfl, rfl, rfl, nofun, fun _ hc => hc⟩
        (Moves.of_perm nofun ?_ (.refl _) fun r h₁ h₂ => ?_) fun _ _ _ => .inl rfl
      · simp [Session.held, hw, WorkerPc.responses]
      · cases r <;> simp_all [Session.held]
    · cases hs
  | frame bytes =>
    simp only [ShinySongTools.Debug.step] at hs
    split at hs
    · next g hw =>
      split at hs <;> cases hs
      · next hframe =>
        obtain ⟨request, ids, hr, rfl⟩ := handleFrame_accepted hframe
        exact h.frameAccepted hw hr
      · next hframe =>
        exact ((handleFrame_rejected hframe).inv h).goWorker (fun _ hg => by rw [hw]; exact hg) rfl
          (by rw [hw]; rfl)
    · cases hs
  | oversized =>
    simp only [ShinySongTools.Debug.step] at hs
    split at hs <;> cases hs
    next g hw =>
    exact ((sameTokens_respondError s.transport _ g).inv h).goWorker
      (fun _ hg => by rw [hw]; exact hg) rfl (by rw [hw]; rfl)
  | hangUp =>
    simp only [ShinySongTools.Debug.step] at hs
    split at hs <;> cases hs
    next g hw => exact h.goWorker (fun _ hg => by cases hg) rfl (by rw [hw]; rfl)
  | dispatch readings =>
    cases hs
    exact h.dispatch hg
  | handler i op =>
    obtain ⟨t, hrun, rfl⟩ := Option.map_eq_some_iff.mp hs
    exact h.handler hrun

/-- A request that is drained against a stale reading ends up with those of
other connections. -/
theorem readsCurrent_of_conserved {s s' : Session P} (h : Inv True s)
    (hs : step parse render views s a = some s') (hc : Conserved s') : ReadsCurrent s a := by
  cases a with
  | dispatch readings =>
    intro reading hd request hmem hgen
    by_contra hne
    cases hs
    have htok : request.token ∈ s.accepted :=
      h.accounted.known_of_mem (p := .transportInbox) (List.mem_map_of_mem hmem)
    have hin : request.token ∈ (dispatchStep views s readings).held .filtered := by
      simp only [dispatchStep, hd]
      refine List.mem_append_left _ (List.mem_map_of_mem (List.mem_filter.mpr ⟨hmem, ?_⟩))
      simpa using fun heq => hne (hgen.symm.trans heq)
    have hcons := hc request.token (by simpa [dispatchStep, hd] using htok)
      (by simpa [dispatchStep, hd, WireRequest.token] using hgen)
    obtain ⟨p, hkeeps, -, hrest⟩ := hcons
    by_cases hp : p = .filtered
    · subst hp
      exact hkeeps
    · exact List.count_eq_zero.mp (hrest .filtered (Ne.symm hp)) hin
  | _ => trivial

/-- Every request of the present connection is where it belongs throughout a
run exactly if no drain step goes by a stale reading of its generation. -/
theorem conserved_iff (parse : List UInt8 → Option Json) (render : Json → String)
    (views : List (TopicView P)) (as : List Action) :
    Machine.Always (step parse render views) Conserved .init as ↔
      Machine.Each (step parse render views) ReadsCurrent .init as :=
  Machine.always_iff_each (fun _ => Inv.conserved) (fun _ _ _ h hg hs => h.step (fun _ => hg) hs)
    (fun _ _ _ h hs hc => readsCurrent_of_conserved h hs hc) Inv.init

def pingFrame : Json := .obj [("jsonrpc", .str "2.0"), ("id", .num "1"), ("method", .str "ping")]

def unserved : Readings := ⟨none, true, true⟩

/-- The dispatch system reads the generation; a client connects and sends a
request; the drain step takes it for an older connection's. -/
def connectsAfterReading : List Action :=
  [.dispatch unserved, .accept, .worker, .worker, .worker, .worker, .frame [], .dispatch unserved]

theorem request_lost_to_stale_reading :
    ¬ ∀ as, Machine.Always
      (step (fun _ => some pingFrame) (fun _ => "1") ([] : List (TopicView Unit)))
      Conserved .init as := by
  intro h
  have hc := (h connectsAfterReading).exec rfl
  obtain ⟨p, hkeeps, -, hrest⟩ := hc ⟨0, 1⟩ (by decide) rfl
  by_cases hp : p = .filtered
  · subst hp
    exact hkeeps
  · exact absurd (hrest .filtered (Ne.symm hp)) (by decide)

end ShinySongTools.Debug
