import ShinySongTools.Debug.Conservation

/-!
# Conversations

The ids of the accepted requests of a connection, beside the set
`handle_frame` keeps of them: where an id is held, and what the invariant of
the two says. What the dispatch system and the handlers do adds no id.
-/

namespace ShinySongTools.Debug

variable {P : Type u}

def frameId (parse : List UInt8 → Option Json) (bytes : List UInt8) : Option Json :=
  (parse bytes).bind fun value => (envelope value).toOption.map (·.1)

/-- A session with the printed ids of its requests, by their numbers. -/
structure Conversation (P : Type u) where
  session : Session P
  key : Nat → Option String

def Conversation.init : Conversation P := ⟨.init, fun _ => none⟩

def converse (parse : List UInt8 → Option Json) (render : Json → String)
    (views : List (TopicView P)) (c : Conversation P) (a : Action) : Option (Conversation P) :=
  (step parse render views c.session a).map fun s =>
    match a with
    | .frame bytes =>
      ⟨s, Function.update c.key c.session.nextSerial
        ((frameId parse bytes).bind (trackableId render))⟩
    | _ => ⟨s, c.key⟩

/-- Accepted on the present connection, its response neither written nor lost. -/
structure Unanswered (s : Session P) (tok : Token) : Prop where
  accepted : tok ∈ s.accepted
  current : tok.generation = s.transport.generation
  notWritten : ∀ g, (g, tok) ∉ s.written
  notDropped : tok ∉ s.transport.dropped
  notCutOff : tok ∉ s.cutOff

def responseKey (render : Json → String) (r : WireResponse) : Option String :=
  (r.body.get "id").bind (trackableId render)

/-- The reply to a refused frame with this id is still to be written. -/
def Refused (render : Json → String) (s : Session P) (k : String) : Prop :=
  ∃ r ∈ s.transport.outbox ++ s.worker.responses, r.origin = none ∧ responseKey render r = some k

def Outstanding (render : Json → String) (c : Conversation P) (k : String) : Prop :=
  (∃ tok, Unanswered c.session tok ∧ c.key tok.serial = some k) ∨ Refused render c.session k

def WorkerPc.serves : WorkerPc → Option Nat
  | .accepting | .retain _ | .clearIds _ => none
  | .drain g | .writing g _ | .reading g => some g

def duplicateId (id : Json) : ErrorReply := ⟨id, -32600, none, "duplicate active id"⟩

def inboxFull (id : Json) : ErrorReply :=
  ⟨id, -32000, some DebugServerError.queueFull.codeName, "transport inbox capacity reached"⟩

/-- What becomes of a frame with a trackable id. -/
structure IdsKept (render : Json → String) (c : Conversation P) : Prop where
  unique : ∀ tok tok' k, Unanswered c.session tok → Unanswered c.session tok' →
    c.key tok.serial = some k → c.key tok'.serial = some k → tok = tok'
  refused : ∀ g, c.session.worker.serves = some g → ∀ tok k, Unanswered c.session tok →
    c.key tok.serial = some k →
      ∀ value id method params, envelope value = .ok (id, method, params) →
    trackableId render id = some k → ∀ n,
      c.session.transport.handleFrame (fun _ => some value) render [] g n =
        (c.session.transport.respondError (duplicateId id) g none, false)
  accepted : ∀ g, c.session.worker.serves = some g → ∀ k, ¬ Outstanding render c k →
    ∀ value id method params, envelope value = .ok (id, method, params) →
    trackableId render id = some k → ∀ n,
      (∃ t, c.session.transport.handleFrame (fun _ => some value) render [] g n = (t, true)) ∨
        maxInboxRequests ≤ c.session.transport.inbox.length ∧
        c.session.transport.handleFrame (fun _ => some value) render [] g n =
          (DebugTransport.respondError
            { c.session.transport with activeIds := c.session.transport.activeIds ++ [k] }
            (inboxFull id) g none, false)

def answers (views : List (TopicView P)) (s : Session P) (readings : Readings) : Option Token :=
  match s.dispatch with
  | .routing _ (request :: _) =>
    match ladder views readings request with
    | .ok (.inr (_, i)) =>
      if debugMaxPending ≤ (s.topics i).channel.pending then some request.token else none
    | _ => some request.token
  | .returning current (response :: _) _ =>
    if response.generation = current then some (responseToken response) else none
  | _ => none

/-- No reply to a refused frame is written while a request with its id waits,
and no response that should release an id finds the outbox full. -/
def ReleasesOwn (parse : List UInt8 → Option Json) (render : Json → String)
    (views : List (TopicView P)) (c : Conversation P) : Action → Prop
  | .worker => ∀ g r rest k, c.session.worker = .writing g (r :: rest) → r.generation = g →
      r.origin = none → responseKey render r = some k →
      ∀ tok, Unanswered c.session tok → c.key tok.serial ≠ some k
  | .frame bytes => maxOutboxResponses ≤ c.session.transport.outbox.length →
      maxInboxRequests ≤ c.session.transport.inbox.length → ∀ g k,
      c.session.worker = .reading g → (frameId parse bytes).bind (trackableId render) = some k →
      k ∈ c.session.transport.activeIds
  | .dispatch readings => maxOutboxResponses ≤ c.session.transport.outbox.length → ∀ g tok k,
      c.session.worker.serves = some g → answers views c.session readings = some tok →
      Unanswered c.session tok → c.key tok.serial = some k → Refused render c.session k
  | _ => True

-- ---------------------------------------------------------------------------
-- Frames
-- ---------------------------------------------------------------------------

section

variable {parse : List UInt8 → Option Json} {render : Json → String} {t : DebugTransport}
  {id : Json}

theorem handleFrame_eq (hvalue : parse bytes = some value)
    (henvelope : envelope value = .ok (id, method, params)) (hk : trackableId render id = some k) :
    t.handleFrame parse render bytes g n =
      if k ∈ t.activeIds then (t.respondError (duplicateId id) g none, false)
      else if maxInboxRequests ≤ t.inbox.length then
        (DebugTransport.respondError { t with activeIds := t.activeIds ++ [k] } (inboxFull id) g
          none, false)
      else
        ({ t with
          activeIds := t.activeIds ++ [k]
          inbox := t.inbox ++ [⟨n, id, method, params, g⟩] }, true) := by
  simp only [DebugTransport.handleFrame, hvalue, henvelope, hk, Option.any_some,
    List.contains_eq_mem, decide_eq_true_eq, Option.toList_some]
  rfl

theorem respondError_activeIds (t : DebugTransport) (reply : ErrorReply) (g : Nat)
    (o : Option Nat) :
    (t.respondError reply g o).activeIds = t.activeIds := by
  unfold DebugTransport.respondError DebugTransport.pushResponse
  split <;> rfl

def asking (id : Json) : Json :=
  .obj [("jsonrpc", .str "2.0"), ("method", .str ""), ("id", id)]

theorem envelope_asking (id : Json) : envelope (asking id) = .ok (id, "", .null) := rfl

theorem mem_of_refused (hk : trackableId render id = some k)
    (h : t.handleFrame (fun _ => some (asking id)) render [] g n =
      (t.respondError (duplicateId id) g none, false)) : k ∈ t.activeIds := by
  by_contra hnot
  rw [handleFrame_eq rfl (envelope_asking id) hk, if_neg hnot] at h
  split at h
  · have hids := congrArg (fun r => r.1.activeIds) h
    simp only [respondError_activeIds] at hids
    exact absurd hids (by simp)
  · exact nomatch congrArg Prod.snd h

theorem not_mem_of_accepted (hk : trackableId render id = some k)
    (h : (∃ t', t.handleFrame (fun _ => some (asking id)) render [] g n = (t', true)) ∨
      maxInboxRequests ≤ t.inbox.length ∧
      t.handleFrame (fun _ => some (asking id)) render [] g n =
        (DebugTransport.respondError { t with activeIds := t.activeIds ++ [k] } (inboxFull id) g
          none, false)) : k ∉ t.activeIds := by
  intro hmem
  rw [handleFrame_eq rfl (envelope_asking id) hk, if_pos hmem] at h
  rcases h with ⟨t', h⟩ | ⟨-, h⟩
  · exact nomatch congrArg Prod.snd h
  · have hids := congrArg (fun r => r.1.activeIds) h
    simp only [respondError_activeIds] at hids
    exact absurd hids (by simp)

end

-- ---------------------------------------------------------------------------
-- Ids on their way
-- ---------------------------------------------------------------------------

/-- A request or its response is somewhere, with this id. -/
inductive Holds (s : Session P) : Token → Json → Prop
  | transportInbox : r ∈ s.transport.inbox → Holds s r.token r.id
  | routing : r ∈ s.dispatch.requests → Holds s r.token r.id
  | topicInbox : q ∈ (s.topics i).channel.inbox → Holds s (queuedToken q) q.id
  | inFlight : q ∈ (s.topics i).inFlight → Holds s (queuedToken q) q.id
  | topicOutbox : r ∈ (s.topics i).channel.outbox → Holds s (responseToken r) r.id
  | returning : r ∈ s.dispatch.responses → Holds s (responseToken r) r.id
  | transportOutbox {id : Json} : r ∈ s.transport.outbox → r.token = some tok →
    r.body.get "id" = some id → Holds s tok id
  | writing {id : Json} : r ∈ s.worker.responses → r.token = some tok →
    r.body.get "id" = some id → Holds s tok id

theorem Holds.held {s : Session P} {id : Json} (h : Holds s tok id) : ∃ p, tok ∈ s.held p := by
  cases h with
  | transportInbox hr => exact ⟨.transportInbox, List.mem_map_of_mem hr⟩
  | routing hr => exact ⟨.routing, List.mem_map_of_mem hr⟩
  | @topicInbox i _ hq => exact ⟨.topicInbox i, List.mem_map_of_mem hq⟩
  | @inFlight i _ hq => exact ⟨.inFlight i, List.mem_map_of_mem hq⟩
  | @topicOutbox i _ hr => exact ⟨.topicOutbox i, List.mem_map_of_mem hr⟩
  | returning hr => exact ⟨.returning, List.mem_map_of_mem hr⟩
  | transportOutbox hr htok _ => exact ⟨.transportOutbox, List.mem_filterMap.mpr ⟨_, hr, htok⟩⟩
  | writing hr htok _ => exact ⟨.writing, List.mem_filterMap.mpr ⟨_, hr, htok⟩⟩

/-- Nothing is held after a step that was not held before. -/
structure Carries (s s' : Session P) : Prop where
  inbox : ∀ r ∈ s'.transport.inbox, Holds s r.token r.id
  requests : ∀ r ∈ s'.dispatch.requests, Holds s r.token r.id
  queued : ∀ i q, q ∈ (s'.topics i).channel.inbox ∨ q ∈ (s'.topics i).inFlight →
    Holds s (queuedToken q) q.id
  answered : ∀ i, ∀ r ∈ (s'.topics i).channel.outbox, Holds s (responseToken r) r.id
  returning : ∀ r ∈ s'.dispatch.responses, Holds s (responseToken r) r.id
  outbox : ∀ r ∈ s'.transport.outbox ++ s'.worker.responses, ∀ tok id, r.token = some tok →
    r.body.get "id" = some id → Holds s tok id
  identified : ∀ r ∈ s'.transport.outbox ++ s'.worker.responses,
    r ∈ s.transport.outbox ++ s.worker.responses ∨ ∃ id, r.body.get "id" = some id

theorem Holds.outbox {s : Session P} (hr : r ∈ s.transport.outbox ++ s.worker.responses)
    (tok : Token)
    (id : Json) (htok : r.token = some tok) (hid : r.body.get "id" = some id) : Holds s tok id :=
  (List.mem_append.mp hr).elim (.transportOutbox · htok hid) (.writing · htok hid)

theorem Carries.holds {s s' : Session P} {id : Json} (h : Carries s s') (hholds : Holds s' tok id) :
    Holds s tok id := by
  cases hholds with
  | transportInbox hr => exact h.inbox _ hr
  | routing hr => exact h.requests _ hr
  | topicInbox hq => exact h.queued _ _ (.inl hq)
  | inFlight hq => exact h.queued _ _ (.inr hq)
  | topicOutbox hr => exact h.answered _ _ hr
  | returning hr => exact h.returning _ hr
  | transportOutbox hr htok hid => exact h.outbox _ (List.mem_append_left _ hr) _ _ htok hid
  | writing hr htok hid => exact h.outbox _ (List.mem_append_right _ hr) _ _ htok hid

theorem Carries.refl (s : Session P) : Carries s s where
  inbox _ hr := .transportInbox hr
  requests _ hr := .routing hr
  queued _ _ hq := hq.elim .topicInbox .inFlight
  answered _ _ hr := .topicOutbox hr
  returning _ hr := .returning hr
  outbox _ hr := Holds.outbox hr
  identified _ hr := .inl hr

theorem foldl_answer_mem {f : DebugQueuedRequest Json P → DebugResponse Json Nat}
    {l : List (DebugQueuedRequest Json P)} {c : DebugTopicChannel Json P Nat}
    (h : r ∈ (l.foldl (fun c q => c.answer (f q)) c).outbox) : r ∈ c.outbox ∨ ∃ q ∈ l, r = f q := by
  rw [(DebugTopicChannel.foldl_answer f l c).2, List.mem_append, List.mem_map] at h
  exact h.imp_right fun ⟨q, hq, heq⟩ => ⟨q, hq, heq.symm⟩

theorem run_mem {t t' : Topic P} (h : t.run op = some t') :
    (∀ q, q ∈ t'.channel.inbox ∨ q ∈ t'.inFlight → q ∈ t.channel.inbox ∨ q ∈ t.inFlight) ∧
      ∀ r ∈ t'.channel.outbox, r ∈ t.channel.outbox ∨
        ∃ q result, (q ∈ t.channel.inbox ∨ q ∈ t.inFlight) ∧ r = answerTo q result := by
  cases op with
  | retire =>
    cases h
    refine ⟨fun q hq => ?_, fun r hr => ?_⟩
    · rw [(DebugTopicChannel.foldl_answer _ _ _).1] at hq
      exact hq.imp_left fun hq => by cases hq
    · rcases foldl_answer_mem hr with hr | ⟨q, hq, rfl⟩
      · exact .inl hr
      · exact .inr ⟨q, _, .inl hq, rfl⟩
  | drain =>
    simp only [Topic.run] at h
    split at h <;> cases h
    next hf => exact ⟨fun q hq => .inl (hq.resolve_left List.not_mem_nil), fun r hr => .inl hr⟩
  | deliver =>
    simp only [Topic.run] at h
    split at h <;> cases h
    next q rest hin =>
    refine ⟨fun q' hq => ?_, fun r hr => .inl hr⟩
    rcases hq with hq | hq
    · exact .inl (hin ▸ List.mem_cons_of_mem q hq)
    · rcases List.mem_append.mp hq with hq | hq
      · exact .inr hq
      · obtain rfl := List.mem_singleton.mp hq
        exact .inl (hin ▸ List.mem_cons_self)
  | answer result =>
    simp only [Topic.run] at h
    split at h <;> cases h
    next q rest hf =>
    refine ⟨fun q' hq => hq.imp_right fun hq => hf ▸ List.mem_cons_of_mem q hq, fun r hr => ?_⟩
    rcases List.mem_append.mp hr with hr | hr
    · exact .inl hr
    · exact .inr ⟨q, result, .inr (hf ▸ List.mem_cons_self), List.mem_singleton.mp hr⟩
  | panic =>
    simp only [Topic.run] at h
    split at h <;> cases h
    next q rest hf =>
    refine ⟨fun q' hq => ?_, fun r hr => ?_⟩
    · rcases hq with hq | hq
      · exact (List.mem_append.mp hq).symm.imp_right fun hq => hf ▸ List.mem_cons_of_mem q hq
      · cases hq
    · rcases List.mem_append.mp hr with hr | hr
      · exact .inl hr
      · exact .inr ⟨q, _, .inr (hf ▸ List.mem_cons_self), List.mem_singleton.mp hr⟩
  | mismatch =>
    simp only [Topic.run] at h
    split at h <;> cases h
    next q rest hin =>
    refine ⟨fun q' hq => hq.imp_left fun hq => hin ▸ List.mem_cons_of_mem q hq, fun r hr => ?_⟩
    rcases List.mem_append.mp hr with hr | hr
    · exact .inl hr
    · exact .inr ⟨q, _, .inl (hin ▸ List.mem_cons_self), List.mem_singleton.mp hr⟩

theorem carries_topic {s : Session P} {t : Topic P}
    (hrequests : ∀ q, q ∈ t.channel.inbox ∨ q ∈ t.inFlight → Holds s (queuedToken q) q.id)
    (hresponses : ∀ r ∈ t.channel.outbox, Holds s (responseToken r) r.id) :
    Carries s (s.setTopic i t) :=
  { Carries.refl s with
    queued := fun j q hq => by
      by_cases hj : j = i
      · subst hj
        rw [setTopic_topics] at hq
        exact hrequests q hq
      · rw [setTopic_other s t hj] at hq
        exact (Carries.refl s).queued j q hq
    answered := fun j r hr => by
      by_cases hj : j = i
      · subst hj
        rw [setTopic_topics] at hr
        exact hresponses r hr
      · rw [setTopic_other s t hj] at hr
        exact (Carries.refl s).answered j r hr }

theorem carries_handler {s : Session P} {t : Topic P} (h : (s.topics i).run op = some t) :
    Carries s (s.setTopic i t) := by
  obtain ⟨hrequests, hresponses⟩ := run_mem h
  have hqueued : ∀ q, q ∈ (s.topics i).channel.inbox ∨ q ∈ (s.topics i).inFlight →
      Holds s (queuedToken q) q.id := fun q hq => hq.elim .topicInbox .inFlight
  refine carries_topic (fun q hq => hqueued q (hrequests q hq)) fun r hr => ?_
  rcases hresponses r hr with hr | ⟨q, result, hq, rfl⟩
  · exact .topicOutbox hr
  · exact hqueued q hq

-- ---------------------------------------------------------------------------
-- Dispatch
-- ---------------------------------------------------------------------------

section

variable {views : List (TopicView P)} {s : Session P} {readings : Readings}

theorem route_transport (request : WireRequest) :
    (∃ payload i, ladder views readings request = .ok (.inr (payload, i)) ∧
        (s.topics i).channel.pending < debugMaxPending ∧
        route views s readings request = s.setTopic i { s.topics i with
          channel := { (s.topics i).channel with
            inbox := (s.topics i).channel.inbox ++
              [⟨request.serial, request.id, payload, request.generation⟩]
            pending := (s.topics i).channel.pending + 1 } }) ∨
      ∃ r : WireResponse, r.token = some request.token ∧ r.body.get "id" = some request.id ∧
        (∀ payload i, ladder views readings request = .ok (.inr (payload, i)) →
          debugMaxPending ≤ (s.topics i).channel.pending) ∧
        route views s readings request = { s with transport := s.transport.pushResponse r } := by
  cases hladder : ladder views readings request with
  | error reply =>
    have hid : reply.id = request.id := by
      unfold ladder at hladder
      repeat' split at hladder
      all_goals cases hladder
      all_goals rfl
    refine .inr ⟨⟨DebugTransport.errorBody reply, request.generation, some request.serial⟩, rfl, ?_,
      nofun, ?_⟩
    · rw [← hid]
      rfl
    · simp only [route, hladder]
      rfl
  | ok routed =>
    rcases routed with payload | ⟨payload, i⟩
    · refine .inr ⟨⟨DebugTransport.okBody request.id payload, request.generation,
        some request.serial⟩, rfl, rfl, nofun, ?_⟩
      simp only [route, hladder]
      rfl
    · by_cases hfull : debugMaxPending ≤ (s.topics i).channel.pending
      · refine .inr ⟨⟨DebugTransport.errorBody ⟨request.id, -32000,
          some DebugServerError.queueFull.codeName, "topic pending capacity reached"⟩,
          request.generation, some request.serial⟩, rfl, rfl, ?_, ?_⟩
        · rintro _ _ ⟨⟩
          exact hfull
        · simp only [route, hladder, DebugTopicChannel.enqueue, hfull, if_true]
          rfl
      · refine .inl ⟨payload, i, rfl, Nat.lt_of_not_le hfull, ?_⟩
        simp only [route, hladder, DebugTopicChannel.enqueue, hfull, if_false]

theorem sendBack_transport (t : DebugTransport) (response : DebugResponse Json Nat) :
    ∃ r : WireResponse, r.token = some (responseToken response) ∧
      r.body.get "id" = some response.id ∧ t.sendBack response = t.pushResponse r := by
  unfold DebugTransport.sendBack
  split
  · exact ⟨_, rfl, rfl, rfl⟩
  · next error _ =>
    refine ⟨_, rfl, ?_, rfl⟩
    unfold wireReply
    split <;> rfl

theorem dispatch_effect :
    (dispatchStep views s readings).worker = s.worker ∧
      (dispatchStep views s readings).accepted = s.accepted ∧
      (dispatchStep views s readings).written = s.written ∧
      (dispatchStep views s readings).cutOff = s.cutOff ∧
      (answers views s readings = none ∧ (dispatchStep views s readings).transport =
          { s.transport with inbox := (dispatchStep views s readings).transport.inbox } ∨
        ∃ tok r, ∃ id : Json, answers views s readings = some tok ∧ r.token = some tok ∧
          r.body.get "id" = some id ∧ Holds s tok id ∧
          (dispatchStep views s readings).transport = s.transport.pushResponse r) := by
  cases hd : s.dispatch with
  | idle | drainInbox current => simp [dispatchStep, answers, hd]
  | draining current topics =>
    cases topics <;> simp [dispatchStep, answers, hd, Session.setTopic]
  | routing current requests =>
    cases requests with
    | nil => simp [dispatchStep, answers, hd]
    | cons request rest =>
      simp only [dispatchStep, answers, hd]
      have hholds : Holds s request.token request.id :=
        .routing (by rw [hd]; exact List.mem_cons_self)
      rcases @route_transport P views s readings request with
        ⟨payload, i, hladder, hroom, hroute⟩ | ⟨r, htok, hid, hfull, hroute⟩
      · rw [hroute, hladder]
        refine ⟨rfl, rfl, rfl, rfl, .inl ⟨if_neg (Nat.not_le_of_lt hroom), rfl⟩⟩
      · rw [hroute]
        refine ⟨rfl, rfl, rfl, rfl, .inr ⟨request.token, r, request.id, ?_, htok, hid, hholds, rfl⟩⟩
        split
        · next payload i hladder => exact if_pos (hfull payload i hladder)
        · rfl
  | returning current responses rest =>
    cases responses with
    | nil => simp [dispatchStep, answers, hd]
    | cons response responses =>
      simp only [dispatchStep, answers, hd]
      have hholds : Holds s (responseToken response) response.id :=
        .returning (by rw [hd]; exact List.mem_cons_self)
      split
      · next hgen => exact ⟨rfl, rfl, rfl, rfl, .inl ⟨rfl, rfl⟩⟩
      · next hgen =>
        obtain ⟨r, htok, hid, hsend⟩ := sendBack_transport s.transport response
        rw [hsend]
        exact ⟨rfl, rfl, rfl, rfl, .inr ⟨_, r, _, if_pos (not_not.mp hgen), htok, hid, hholds, rfl⟩⟩

end

theorem mem_pushResponse {t : DebugTransport} {r r' : WireResponse}
    (h : r' ∈ (t.pushResponse r).outbox) : r' ∈ t.outbox ∨ r' = r := by
  unfold DebugTransport.pushResponse at h
  split at h
  · exact .inl h
  · exact (List.mem_append.mp h).imp_right List.mem_singleton.mp

theorem carries_pushResponse {s : Session P} {r : WireResponse}
    (hid : ∃ id, r.body.get "id" = some id)
    (hr : ∀ tok id, r.token = some tok → r.body.get "id" = some id → Holds s tok id) :
    Carries s { s with transport := s.transport.pushResponse r } :=
  { Carries.refl s with
    inbox := fun r' hr' => by
      rw [pushResponse_inbox] at hr'
      exact .transportInbox hr'
    outbox := fun r' hr' => by
      rcases List.mem_append.mp hr' with hr' | hr'
      · rcases mem_pushResponse hr' with hr' | rfl
        · exact Holds.outbox (List.mem_append_left _ hr')
        · exact hr
      · exact Holds.outbox (List.mem_append_right _ hr')
    identified := fun r' hr' => by
      rcases List.mem_append.mp hr' with hr' | hr'
      · rcases mem_pushResponse hr' with hr' | rfl
        · exact .inl (List.mem_append_left _ hr')
        · exact .inr hid
      · exact .inl (List.mem_append_right _ hr') }

theorem carries_route {views : List (TopicView P)} {s : Session P} {readings : Readings}
    {request : WireRequest} (h : Holds s request.token request.id) :
    Carries s (route views s readings request) := by
  rcases @route_transport P views s readings request with
    ⟨payload, i, -, -, hroute⟩ | ⟨r, htok, hid, -, hroute⟩
  · rw [hroute]
    refine carries_topic (fun q hq => ?_) fun r hr => .topicOutbox hr
    rcases hq with hq | hq
    · rcases List.mem_append.mp hq with hq | hq
      · exact .topicInbox hq
      · obtain rfl := List.mem_singleton.mp hq
        exact h
    · exact .inFlight hq
  · rw [hroute]
    refine carries_pushResponse ⟨_, hid⟩ fun tok id htok' hid' => ?_
    cases htok.symm.trans htok'
    cases hid.symm.trans hid'
    exact h

theorem carries_dispatch (views : List (TopicView P)) (s : Session P) (readings : Readings) :
    Carries s (dispatchStep views s readings) := by
  have hrefl := Carries.refl s
  cases hd : s.dispatch with
  | idle =>
    simp only [dispatchStep, hd]
    exact { hrefl with requests := List.forall_mem_nil _, returning := List.forall_mem_nil _ }
  | drainInbox current =>
    simp only [dispatchStep, hd]
    exact { hrefl with
      inbox := List.forall_mem_nil _
      requests := fun r hr => .transportInbox (List.mem_of_mem_filter hr)
      returning := List.forall_mem_nil _ }
  | routing current requests =>
    have hrequests := hrefl.requests
    rw [hd] at hrequests
    cases requests with
    | nil =>
      simp only [dispatchStep, hd]
      exact { hrefl with requests := List.forall_mem_nil _, returning := List.forall_mem_nil _ }
    | cons request rest =>
      have hholds := hrequests request List.mem_cons_self
      have hroute := @carries_route P views s readings request hholds
      simp only [dispatchStep, hd]
      exact { hroute with
        requests := fun r hr => hrequests r (List.mem_cons_of_mem _ hr)
        returning := List.forall_mem_nil _ }
  | draining current topics =>
    cases topics with
    | nil =>
      simp only [dispatchStep, hd]
      exact { hrefl with requests := List.forall_mem_nil _, returning := List.forall_mem_nil _ }
    | cons i rest =>
      have htopic := carries_topic (s := s) (i := i)
        (t := { s.topics i with channel := { (s.topics i).channel with outbox := [] } })
        (hrefl.queued i) (List.forall_mem_nil _)
      simp only [dispatchStep, hd]
      exact { htopic with requests := List.forall_mem_nil _, returning := hrefl.answered i }
  | returning current responses rest =>
    have hreturning := hrefl.returning
    rw [hd] at hreturning
    cases responses with
    | nil =>
      simp only [dispatchStep, hd]
      exact { hrefl with requests := List.forall_mem_nil _, returning := List.forall_mem_nil _ }
    | cons response responses =>
      have hrest : ∀ r ∈ responses, Holds s (responseToken r) r.id :=
        fun r hr => hreturning r (List.mem_cons_of_mem _ hr)
      simp only [dispatchStep, hd]
      split
      · exact { hrefl with requests := List.forall_mem_nil _, returning := hrest }
      · obtain ⟨r, htok, hid, hsend⟩ := sendBack_transport s.transport response
        have hpush := carries_pushResponse (s := s) (r := r) ⟨_, hid⟩ fun tok id htok' hid' => by
          cases htok.symm.trans htok'
          cases hid.symm.trans hid'
          exact hreturning response List.mem_cons_self
        rw [hsend]
        exact { hpush with requests := List.forall_mem_nil _, returning := hrest }

-- ---------------------------------------------------------------------------
-- The invariant
-- ---------------------------------------------------------------------------

structure IdsInv (render : Json → String) (c : Conversation P) : Prop where
  base : Inv False c.session
  carried : ∀ tok (id : Json), Holds c.session tok id → trackableId render id = c.key tok.serial
  identified : ∀ r ∈ c.session.transport.outbox ++ c.session.worker.responses,
    ∃ id, r.body.get "id" = some id
  refusedOutbox : ∀ r ∈ c.session.transport.outbox, r.origin = none →
    c.session.worker = .drain r.generation
  refusedWriting : ∀ r ∈ c.session.worker.responses, r.origin = none →
    c.session.worker.connection = some r.generation
  /-- On a connection that is not served yet nothing has been accepted. -/
  fresh : ∀ g, c.session.worker = .retain g ∨ c.session.worker = .clearIds g →
    ∀ tok, ¬ Unanswered c.session tok
  unique : ∀ tok tok' k, Unanswered c.session tok → Unanswered c.session tok' →
    c.key tok.serial = some k → c.key tok'.serial = some k → tok = tok'
  covered : ∀ g, c.session.worker.serves = some g → ∀ tok k, Unanswered c.session tok →
    c.key tok.serial = some k → k ∈ c.session.transport.activeIds
  backed : ∀ g, c.session.worker.serves = some g → ∀ k ∈ c.session.transport.activeIds,
    Outstanding render c k

theorem IdsInv.init : IdsInv render (Conversation.init : Conversation P) where
  base := Inv.init
  carried _ _ h := by cases h <;> contradiction
  identified := nofun
  refusedOutbox := nofun
  refusedWriting := nofun
  fresh _ h := by rcases h with h | h <;> cases h
  unique _ _ _ h := by cases h.accepted
  covered _ h := by cases h
  backed _ h := by cases h

theorem IdsInv.kept {c : Conversation P} (h : IdsInv render c) : IdsKept render c where
  unique := h.unique
  refused g hg tok k htok hkey value id method params henvelope hk n := by
    rw [handleFrame_eq rfl henvelope hk, if_pos (h.covered g hg tok k htok hkey)]
  accepted g hg k hout value id method params henvelope hk n := by
    rw [handleFrame_eq rfl henvelope hk, if_neg fun hmem => hout (h.backed g hg k hmem)]
    split
    · next hfull => exact .inr ⟨hfull, rfl⟩
    · exact .inl ⟨_, rfl⟩

structure SameWaiting (s s' : Session P) : Prop where
  accepted : s'.accepted = s.accepted
  generation : s'.transport.generation = s.transport.generation
  written : s'.written = s.written
  dropped : s'.transport.dropped = s.transport.dropped
  cutOff : s'.cutOff = s.cutOff

theorem SameWaiting.unanswered {s s' : Session P} (h : SameWaiting s s') :
    Unanswered s' tok ↔ Unanswered s tok := by
  constructor
  · rintro ⟨ha, hg, hw, hd, hc⟩
    exact ⟨h.accepted ▸ ha, h.generation ▸ hg, h.written ▸ hw, h.dropped ▸ hd, h.cutOff ▸ hc⟩
  · rintro ⟨ha, hg, hw, hd, hc⟩
    exact ⟨h.accepted.symm ▸ ha, h.generation.symm ▸ hg, h.written.symm ▸ hw, h.dropped.symm ▸ hd,
      h.cutOff.symm ▸ hc⟩

/-- So are the set of ids and the refusals. -/
structure Aside (s s' : Session P) : Prop extends SameWaiting s s' where
  worker : s'.worker = s.worker
  activeIds : s'.transport.activeIds = s.transport.activeIds
  refusals : ∀ r, r.origin = none → (r ∈ s'.transport.outbox ↔ r ∈ s.transport.outbox)

theorem Aside.refused {s s' : Session P} (h : Aside s s') :
    Refused render s' k ↔ Refused render s k := by
  simp only [Refused, List.mem_append, h.worker]
  constructor
  · rintro ⟨r, hr, ho, hk⟩
    exact ⟨r, hr.imp_left (h.refusals r ho).mp, ho, hk⟩
  · rintro ⟨r, hr, ho, hk⟩
    exact ⟨r, hr.imp_left (h.refusals r ho).mpr, ho, hk⟩

theorem IdsInv.identify {c : Conversation P} {s' : Session P} (h : IdsInv render c)
    (hcarries : Carries c.session s') (r : WireResponse)
    (hr : r ∈ s'.transport.outbox ++ s'.worker.responses) : ∃ id, r.body.get "id" = some id :=
  (hcarries.identified r hr).elim (h.identified r) fun hid => hid

theorem IdsInv.aside {c : Conversation P} {s' : Session P} (h : IdsInv render c)
    (hbase : Inv False s') (hcarries : Carries c.session s') (hs : Aside c.session s') :
    IdsInv render ⟨s', c.key⟩ where
  base := hbase
  carried tok id hholds := h.carried tok id (hcarries.holds hholds)
  identified := h.identify hcarries
  refusedOutbox r hr ho := by
    rw [hs.worker]
    exact h.refusedOutbox r ((hs.refusals r ho).mp hr) ho
  refusedWriting r hr ho := by
    rw [hs.worker] at hr ⊢
    exact h.refusedWriting r hr ho
  fresh g hg tok htok := by
    rw [hs.worker] at hg
    exact h.fresh g hg tok (hs.unanswered.mp htok)
  unique tok tok' k htok htok' :=
    h.unique tok tok' k (hs.unanswered.mp htok) (hs.unanswered.mp htok')
  covered g hg tok k htok hkey := by
    rw [hs.activeIds]
    exact h.covered g (hs.worker ▸ hg) tok k (hs.unanswered.mp htok) hkey
  backed g hg k hk := by
    rw [hs.activeIds] at hk
    exact (h.backed g (hs.worker ▸ hg) k hk).imp
      (fun ⟨tok, htok, hkey⟩ => ⟨tok, hs.unanswered.mpr htok, hkey⟩) hs.refused.mpr

theorem origin_of_token {r : WireResponse} (h : r.token = some tok) :
    r.origin = some tok.serial := by
  obtain ⟨n, hn, rfl⟩ := Option.map_eq_some_iff.mp h
  exact hn

theorem aside_dispatch {views : List (TopicView P)} {s : Session P} {readings : Readings}
    (h : maxOutboxResponses ≤ s.transport.outbox.length → answers views s readings = none) :
    Aside s (dispatchStep views s readings) := by
  obtain ⟨hworker, haccepted, hwritten, hcutOff, hcase⟩ :=
    @dispatch_effect P views s readings
  rcases hcase with ⟨-, htransport⟩ | ⟨tok, r, id, hanswers, htok, -, -, htransport⟩
  · refine ⟨⟨haccepted, ?_, hwritten, ?_, hcutOff⟩, hworker, ?_, fun r _ => ?_⟩ <;> rw [htransport]
  · have hroom : ¬ maxOutboxResponses ≤ s.transport.outbox.length := fun hfull => by
      rw [h hfull] at hanswers
      cases hanswers
    rw [show s.transport.pushResponse r = _ from if_neg hroom] at htransport
    refine ⟨⟨haccepted, ?_, hwritten, ?_, hcutOff⟩, hworker, ?_, fun r' ho => ?_⟩ <;>
      rw [htransport]
    refine List.mem_append.trans (or_iff_left fun hr' => ?_)
    obtain rfl := List.mem_singleton.mp hr'
    rw [origin_of_token htok] at ho
    cases ho

/-- A response finds the outbox full. -/
theorem dropped_dispatch {views : List (TopicView P)} {s : Session P} {readings : Readings}
    (hfull : maxOutboxResponses ≤ s.transport.outbox.length)
    (hanswers : answers views s readings = some tok) :
    (dispatchStep views s readings).transport.activeIds = s.transport.activeIds ∧
      (dispatchStep views s readings).transport.outbox = s.transport.outbox ∧
      (dispatchStep views s readings).worker = s.worker ∧
      ∀ t, Unanswered (dispatchStep views s readings) t ↔ Unanswered s t ∧ t ≠ tok := by
  obtain ⟨hworker, haccepted, hwritten, hcutOff, hcase⟩ :=
    @dispatch_effect P views s readings
  rcases hcase with ⟨hnone, -⟩ | ⟨tok', r, id, hanswers', htok, -, -, htransport⟩
  · cases hnone.symm.trans hanswers
  cases hanswers'.symm.trans hanswers
  rw [show s.transport.pushResponse r = _ from if_pos hfull, htok] at htransport
  refine ⟨by rw [htransport], by rw [htransport], hworker, fun t => ?_⟩
  constructor
  · rintro ⟨ha, hg, hw, hd, hc⟩
    rw [htransport] at hg hd
    rw [haccepted] at ha
    rw [hwritten] at hw
    rw [hcutOff] at hc
    exact ⟨⟨ha, hg, hw, fun hmem => hd (List.mem_append_right _ hmem), hc⟩,
      fun heq => hd (heq ▸ List.mem_append_left _ (List.mem_singleton_self _))⟩
  · rintro ⟨⟨ha, hg, hw, hd, hc⟩, hne⟩
    refine ⟨by rwa [haccepted], by rwa [htransport], by rwa [hwritten], ?_, by rwa [hcutOff]⟩
    rw [htransport]
    exact fun hmem => (List.mem_append.mp hmem).elim (fun heq => hne (List.mem_singleton.mp heq)) hd

theorem IdsInv.dispatch {c : Conversation P} {readings : Readings} (h : IdsInv render c)
    (hbase : Inv False (dispatchStep views c.session readings))
    (hg : ReleasesOwn parse render views c (.dispatch readings)) :
    IdsInv render ⟨dispatchStep views c.session readings, c.key⟩ := by
  have hcarries := carries_dispatch views c.session readings
  by_cases hfull : maxOutboxResponses ≤ c.session.transport.outbox.length
  swap
  · exact h.aside hbase hcarries (aside_dispatch fun hf => absurd hf hfull)
  cases hanswers : answers views c.session readings with
  | none => exact h.aside hbase hcarries (aside_dispatch fun _ => hanswers)
  | some tok =>
    obtain ⟨hids, hout, hworker, hleft⟩ := dropped_dispatch hfull hanswers
    have hrefused : ∀ k, Refused render (dispatchStep views c.session readings) k ↔
        Refused render c.session k := fun k => by simp only [Refused, hout, hworker]
    exact
      { base := hbase
        carried := fun t id hholds => h.carried t id (hcarries.holds hholds)
        identified := h.identify hcarries
        refusedOutbox := fun r hr ho => by
          rw [hout] at hr
          rw [hworker]
          exact h.refusedOutbox r hr ho
        refusedWriting := fun r hr ho => by
          rw [hworker] at hr ⊢
          exact h.refusedWriting r hr ho
        fresh := fun g hw t ht => by
          rw [hworker] at hw
          exact h.fresh g hw t ((hleft t).mp ht).1
        unique := fun t t' k ht ht' => h.unique t t' k ((hleft t).mp ht).1 ((hleft t').mp ht').1
        covered := fun g hw t k ht hk => by
          rw [hworker] at hw
          rw [hids]
          exact h.covered g hw t k ((hleft t).mp ht).1 hk
        backed := fun g hw k hk => by
          rw [hworker] at hw
          rw [hids] at hk
          rcases h.backed g hw k hk with ⟨t, ht, hkey⟩ | hr
          · by_cases heq : t = tok
            · subst heq
              exact .inr ((hrefused k).mpr (hg hfull g t k hw hanswers ht hkey))
            · exact .inl ⟨t, (hleft t).mpr ⟨ht, heq⟩, hkey⟩
          · exact .inr ((hrefused k).mpr hr) }

end ShinySongTools.Debug
