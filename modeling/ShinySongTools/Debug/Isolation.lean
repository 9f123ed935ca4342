import ShinySongTools.Debug.Plane

/-!
# Sessions do not mix

Whatever a session holds goes back to accepted requests: its id and generation
to one, its origin to another, which may be the same. Only a callback-domain
relay ever makes the two differ, and in order it gives an id the response to a
request of the same or of a later generation. When that response is written,
there is no later generation.
-/

namespace ShinySongTools.Debug

variable {P Res : Type u}

def Received (requests : List WireRequest) (q : Relay.Queued Json P) : Prop :=
  ∃ r ∈ requests, r.serial = q.serial ∧ r.id = q.id ∧ r.generation = q.generation

/-- What is held of a response or a request comes from accepted requests. -/
structure Sourced (requests : List WireRequest) (tok : Token) (id : Json) : Prop where
  id : ∃ r ∈ requests, r.generation = tok.generation ∧ r.id = id
  origin : ∃ r ∈ requests, r.serial = tok.serial ∧ tok.generation ≤ r.generation

def Plane.generation (p : Plane P Res) : Nat := p.session.transport.generation

def Session.reading (s : Session P) : Nat := s.dispatch.current.getD s.transport.generation

structure Sound (p : Plane P Res) : Prop where
  nodup : (p.requests.map (·.serial)).Nodup
  serials : ∀ r ∈ p.requests, r.serial < p.session.nextSerial
  generations : ∀ r ∈ p.requests, r.generation ≤ p.generation
  worker : ∀ g, p.session.worker.connection = some g → g = p.generation
  current : p.session.reading ≤ p.generation
  pending : ∀ r ∈ p.session.transport.inbox ++ p.session.dispatch.requests, r ∈ p.requests
  routed : ∀ c requests, p.session.dispatch = .routing c requests →
    ∀ r ∈ requests, r.generation = c
  held : ∀ tok (id : Json), Holds p.session tok id → Sourced p.requests tok id
  identified : ∀ r ∈ p.session.transport.outbox ++ p.session.worker.responses,
    ∃ id, r.body.get "id" = some id
  known : ∀ i, Relay.Known (Received p.requests) (p.callbacks i)
  forward : ∀ i, Relay.Forward p.session.reading (p.callbacks i)
  isolated : Isolated p

theorem Sound.init : Sound (Plane.init : Plane P Res) where
  nodup := .nil
  serials _ h := nomatch h
  generations _ h := nomatch h
  worker _ h := nomatch h
  current := le_rfl
  pending _ h := nomatch h
  routed _ _ h := nomatch h
  held tok id h := by cases h <;> contradiction
  identified _ h := nomatch h
  known _ := .init
  forward _ := .init
  isolated := ⟨.nil, nofun, nofun, nofun⟩

-- ---------------------------------------------------------------------------
-- The session's own steps
-- ---------------------------------------------------------------------------

/-- A step that takes no part in accepting or dispatching requests. -/
structure Serves (s s' : Session P) : Prop where
  carries : Carries s s'
  inbox : s'.transport.inbox = s.transport.inbox
  dispatch : s'.dispatch = s.dispatch
  nextSerial : s'.nextSerial = s.nextSerial
  generation : s.transport.generation ≤ s'.transport.generation
  worker : (∀ g, s.worker.connection = some g → g = s.transport.generation) →
    ∀ g, s'.worker.connection = some g → g = s'.transport.generation

theorem serves_workerStep (hs : workerStep render s = some s') : Serves s s' := by
  unfold workerStep at hs
  cases hw : s.worker with
  | accepting => simp [hw] at hs
  | retain g =>
    simp only [hw, Option.some.injEq] at hs
    subst hs
    exact ⟨carries_idle rfl rfl rfl rfl fun _ hr =>
      List.mem_of_mem_filter hr, rfl, rfl, rfl, le_rfl,
      fun h k hk => h k (by rwa [hw])⟩
  | clearIds g =>
    simp only [hw, Option.some.injEq] at hs
    subst hs
    exact ⟨carries_idle rfl rfl rfl rfl fun _ hr => hr, rfl, rfl, rfl, le_rfl,
      fun h k hk => h k (by rwa [hw])⟩
  | drain g =>
    simp only [hw, Option.some.injEq] at hs
    subst hs
    refine ⟨carries_worker rfl rfl rfl fun r hr => ?_, rfl, rfl, rfl, le_rfl, fun h k hk => ?_⟩
    · exact List.mem_append_left _ ((List.mem_append.mp hr).resolve_left List.not_mem_nil)
    · exact h k (by rwa [hw])
  | writing g responses =>
    cases responses with
    | nil =>
      simp only [hw, Option.some.injEq] at hs
      subst hs
      exact ⟨carries_idle rfl rfl rfl rfl fun _ hr => hr, rfl, rfl, rfl, le_rfl,
        fun h k hk => h k (by rwa [hw])⟩
    | cons response rest =>
      have hmem r (hr : r ∈ s.transport.outbox ++ rest) :
          r ∈ s.transport.outbox ++ s.worker.responses := by
        rw [hw]
        exact (List.mem_append.mp hr).elim (List.mem_append_left _)
          fun hr => List.mem_append_right _ (List.mem_cons_of_mem _ hr)
      simp only [hw] at hs
      split at hs
      · cases hs
        exact ⟨carries_worker rfl rfl rfl hmem, rfl, rfl, rfl, le_rfl, fun h k hk =>
          h k (by rwa [hw])⟩
      · cases hs
        rw [releaseId_spec]
        exact ⟨carries_worker rfl rfl rfl hmem, rfl, rfl, rfl, le_rfl, fun h k hk =>
          h k (by rwa [hw])⟩
  | reading g =>
    simp only [hw, Option.some.injEq] at hs
    subst hs
    exact ⟨carries_idle rfl rfl rfl rfl fun _ hr => hr, rfl, rfl, rfl, le_rfl,
      fun h k hk => h k (by rwa [hw])⟩

theorem serves_refuse {s : Session P} {r : WireResponse} {ids : List String}
    (hw : s.worker = .reading g) (ho : r.origin = none) (hid : ∃ id, r.body.get "id" = some id)
    (hs : s' = { s with
      transport := DebugTransport.pushResponse { s.transport with activeIds := ids } r
      worker := .drain g }) : Serves s s' := by
  subst hs
  have hnone : r.token = none := by rw [WireResponse.token, ho]; rfl
  have hmem r'
      (hr : r' ∈ (DebugTransport.pushResponse { s.transport with activeIds := ids } r).outbox ++
      (WorkerPc.drain g).responses) : r' ∈ s.transport.outbox ∨ r' = r :=
    mem_pushResponse (t := { s.transport with activeIds := ids })
      ((List.mem_append.mp hr).resolve_right List.not_mem_nil)
  refine ⟨{ Carries.refl s with
    inbox := fun r' hr => ?_
    outbox := fun r' hr tok id htok hid' => ?_
    identified := fun r' hr => ?_ }, pushResponse_inbox _ _, rfl, rfl, ?_, fun h k hk => ?_⟩
  · rw [pushResponse_inbox] at hr
    exact .transportInbox hr
  · rcases hmem r' hr with hold | rfl
    · exact .transportOutbox hold htok hid'
    · cases hnone.symm.trans htok
  · rcases hmem r' hr with hold | rfl
    · exact .inl (List.mem_append_left _ hold)
    · exact .inr hid
  · show s.transport.generation ≤ (DebugTransport.pushResponse _ r).generation
    rw [pushResponse_generation]
  · rw [pushResponse_generation]
    exact h k (by rwa [hw])

theorem serves_step (hs : step parse render views s a = some s')
    (hframe : ∀ bytes, a ≠ .frame bytes)
    (hdispatch : ∀ readings, a ≠ .dispatch readings) : Serves s s' := by
  cases a with
  | frame bytes => exact absurd rfl (hframe bytes)
  | dispatch readings => exact absurd rfl (hdispatch readings)
  | worker => exact serves_workerStep hs
  | accept =>
    simp only [step] at hs
    split at hs
    · next hw =>
      cases hs
      exact ⟨carries_idle rfl rfl rfl rfl fun _ hr => hr, rfl, rfl, rfl, Nat.le_succ _,
        fun _ k hk => (Option.some.inj hk).symm⟩
    · cases hs
  | writeFails =>
    simp only [step] at hs
    split at hs
    · split at hs
      · cases hs
        rw [releaseId_spec]
        exact ⟨carries_idle rfl rfl rfl rfl fun _ hr => hr, rfl, rfl, rfl, le_rfl,
          fun _ k hk => by cases hk⟩
      · cases hs
    · cases hs
  | hangUp =>
    simp only [step] at hs
    split at hs
    · cases hs
      exact ⟨carries_idle rfl rfl rfl rfl fun _ hr => hr, rfl, rfl, rfl, le_rfl,
        fun _ k hk => by cases hk⟩
    · cases hs
  | oversized =>
    simp only [step] at hs
    split at hs
    · next g hw =>
      cases hs
      exact serves_refuse hw rfl ⟨_, errorBody_id _⟩ rfl
    · cases hs
  | handler i op =>
    obtain ⟨t, hrun, rfl⟩ := Option.map_eq_some_iff.mp hs
    exact ⟨carries_handler hrun, rfl, rfl, rfl, le_rfl, fun h => h⟩

/-- A dispatch step accepts nothing, drops or routes what it has, and reads
nothing but the present generation. -/
structure Dispatches (s s' : Session P) : Prop where
  carries : Carries s s'
  worker : s'.worker = s.worker
  nextSerial : s'.nextSerial = s.nextSerial
  generation : s'.transport.generation = s.transport.generation
  pending : ∀ r ∈ s'.transport.inbox ++ s'.dispatch.requests,
    r ∈ s.transport.inbox ++ s.dispatch.requests
  routed : (∀ c requests, s.dispatch = .routing c requests → ∀ r ∈ requests, r.generation = c) →
    ∀ c requests, s'.dispatch = .routing c requests → ∀ r ∈ requests, r.generation = c
  reading : s'.reading = s.reading ∨ s'.reading = s.transport.generation

theorem Dispatches.unrouted {s s' : Session P} (hcarries : Carries s s')
    (hworker : s'.worker = s.worker)
    (hserial : s'.nextSerial = s.nextSerial)
    (hgeneration : s'.transport.generation = s.transport.generation)
    (hin : s'.transport.inbox = s.transport.inbox) (hrequests : s'.dispatch.requests = [])
    (hreading : s'.reading = s.reading ∨ s'.reading = s.transport.generation) :
    Dispatches s s' where
  carries := hcarries
  worker := hworker
  nextSerial := hserial
  generation := hgeneration
  pending r hr := by
    rw [hin, hrequests, List.append_nil] at hr
    exact List.mem_append_left _ hr
  routed _ c requests heq r hr := by
    have hnone : requests = [] := by
      rw [heq] at hrequests
      exact hrequests
    rw [hnone] at hr
    cases hr
  reading := hreading

theorem dispatches_step (views : List (TopicView P)) (s : Session P) (readings : Readings) :
    Dispatches s (dispatchStep views s readings) := by
  have hcarries := carries_dispatch views s readings
  cases hd : s.dispatch with
  | idle =>
    simp only [dispatchStep, hd] at hcarries ⊢
    exact .unrouted hcarries rfl rfl rfl rfl rfl (.inr rfl)
  | drainInbox current =>
    simp only [dispatchStep, hd] at hcarries ⊢
    refine ⟨hcarries, rfl, rfl, rfl, fun r hr => ?_, fun _ c requests heq r hr => ?_, .inl ?_⟩
    · exact List.mem_append_left _
        (List.mem_of_mem_filter ((List.mem_append.mp hr).resolve_left List.not_mem_nil))
    · cases heq
      simpa using (List.mem_filter.mp hr).2
    · simp [Session.reading, hd, DispatchPc.current]
  | routing current requests =>
    cases requests with
    | nil =>
      simp only [dispatchStep, hd] at hcarries ⊢
      refine .unrouted hcarries rfl rfl rfl rfl rfl (.inl ?_)
      simp [Session.reading, hd, DispatchPc.current]
    | cons request rest =>
      simp only [dispatchStep, hd] at hcarries ⊢
      obtain ⟨hsame, hin⟩ : SameSession s (route views s readings request) ∧
          (route views s readings request).transport.inbox = s.transport.inbox := by
        refine ⟨(route_enters views s readings request).1, ?_⟩
        rcases @route_transport P views s readings request with
          ⟨payload, i, -, -, hroute⟩ | ⟨r, -, -, -, hroute⟩
        · rw [hroute]
          rfl
        · rw [hroute]
          exact pushResponse_inbox _ _
      have hworker : (route views s readings request).worker = s.worker := by
        rcases @route_transport P views s readings request with
          ⟨payload, i, -, -, hroute⟩ | ⟨r, -, -, -, hroute⟩
        · rw [hroute]
          rfl
        · rw [hroute]
      refine ⟨hcarries, hworker, hsame.nextSerial, hsame.generation, fun r hr => ?_,
        fun h c l heq r hr => ?_, .inl ?_⟩
      · dsimp only at hr
        rw [hin] at hr
        exact (List.mem_append.mp hr).elim (List.mem_append_left _)
          fun hr => List.mem_append_right _ (hd ▸ List.mem_cons_of_mem _ hr)
      · cases heq
        exact h current _ hd r (List.mem_cons_of_mem _ hr)
      · simp [Session.reading, hd, DispatchPc.current]
  | draining current topics =>
    cases topics with
    | nil =>
      simp only [dispatchStep, hd] at hcarries ⊢
      exact .unrouted hcarries rfl rfl rfl rfl rfl (.inr rfl)
    | cons i rest =>
      simp only [dispatchStep, hd] at hcarries ⊢
      refine .unrouted hcarries rfl rfl rfl rfl rfl (.inl ?_)
      simp [Session.reading, hd, DispatchPc.current]
  | returning current responses rest =>
    cases responses with
    | nil =>
      simp only [dispatchStep, hd] at hcarries ⊢
      refine .unrouted hcarries rfl rfl rfl rfl rfl (.inl ?_)
      simp [Session.reading, hd, DispatchPc.current]
    | cons response responses =>
      simp only [dispatchStep, hd] at hcarries ⊢
      split at hcarries
      · next hgen =>
        rw [if_pos hgen]
        refine .unrouted hcarries rfl rfl rfl rfl rfl (.inl ?_)
        simp [Session.reading, hd, DispatchPc.current]
      · next hgen =>
        rw [if_neg hgen]
        obtain ⟨r, -, -, hsend⟩ := sendBack_transport s.transport response
        rw [hsend] at hcarries ⊢
        refine .unrouted hcarries rfl rfl (pushResponse_generation _ _) (pushResponse_inbox _ _) rfl
          (.inl ?_)
        simp [Session.reading, hd, DispatchPc.current]

-- ---------------------------------------------------------------------------
-- Steps of the session keep it sound
-- ---------------------------------------------------------------------------

theorem Sourced.mono {requests requests' : List WireRequest} {id : Json}
    (h : Sourced requests tok id) (hsub : ∀ r ∈ requests, r ∈ requests') :
    Sourced requests' tok id := by
  obtain ⟨⟨r, hr, hid⟩, o, ho, horigin⟩ := h
  exact ⟨⟨r, hsub r hr, hid⟩, o, hsub o ho, horigin⟩

theorem Received.mono {requests requests' : List WireRequest} {q : Relay.Queued Json P}
    (h : Received requests q) (hsub : ∀ r ∈ requests, r ∈ requests') : Received requests' q := by
  obtain ⟨r, hr, hq⟩ := h
  exact ⟨r, hsub r hr, hq⟩

/-- An accepted request is its own source. -/
theorem sourced_self {requests : List WireRequest} (hr : r ∈ requests) :
    Sourced requests r.token r.id :=
  ⟨⟨r, hr, rfl, rfl⟩, r, hr, rfl, le_rfl⟩

section

variable {p : Plane P Res} {s' : Session P}

theorem Sound.next (h : Sound p) (hcarries : Carries p.session s')
    (hserial : s'.nextSerial = p.session.nextSerial)
    (hgeneration : p.generation ≤ s'.transport.generation)
    (hworker : ∀ g, s'.worker.connection = some g → g = s'.transport.generation)
    (hcurrent : s'.reading ≤ s'.transport.generation) (hreading : p.session.reading ≤ s'.reading)
    (hpending : ∀ r ∈ s'.transport.inbox ++ s'.dispatch.requests,
      r ∈ p.session.transport.inbox ++ p.session.dispatch.requests)
    (hrouted : ∀ c requests, s'.dispatch = .routing c requests → ∀ r ∈ requests, r.generation = c)
    {frames : List (Nat × WireResponse)} {offered : List (Nat × Nat)}
    (hisolated : Isolated { p with frames, offered }) :
    Sound { p with session := s', frames, offered } where
  nodup := h.nodup
  serials r hr := hserial ▸ h.serials r hr
  generations r hr := (h.generations r hr).trans hgeneration
  worker := hworker
  current := hcurrent
  pending r hr := h.pending r (hpending r hr)
  routed := hrouted
  held tok id hholds := h.held tok id (hcarries.holds hholds)
  identified r hr := (hcarries.identified r hr).elim (h.identified r) fun hid => hid
  known := h.known
  forward i := (h.forward i).mono hreading
  isolated := ⟨hisolated.serials, hisolated.id, hisolated.origin, hisolated.offered⟩

theorem Sound.dispatches (h : Sound p) (hs : Dispatches p.session s') (offered : List (Nat × Nat))
    (hoffered : ∀ e ∈ offered, e.2 = e.1) : Sound { p with session := s', offered } := by
  have hreading : p.session.reading ≤ s'.reading ∧ s'.reading ≤ s'.transport.generation := by
    have hle := h.current
    rw [hs.generation]
    rcases hs.reading with heq | heq
    · exact ⟨heq.ge, heq ▸ hle⟩
    · exact ⟨heq ▸ hle, heq.le⟩
  refine h.next hs.carries hs.nextSerial hs.generation.ge (fun g hg => ?_) hreading.2 hreading.1
    hs.pending (hs.routed h.routed)
    ⟨h.isolated.serials, h.isolated.id, h.isolated.origin, hoffered⟩
  rw [hs.worker] at hg
  exact (h.worker g hg).trans hs.generation.symm

theorem Sound.writes (h : Sound p) (a : Action) :
    Isolated { p with frames := wrote p.session a ++ p.frames } := by
  have hsource g r tok (hin : (g, r) ∈ wrote p.session a) (htok : r.token = some tok) :
      (∃ request ∈ p.requests, request.generation = g ∧ r.body.get "id" = some request.id) ∧
      ∃ request ∈ p.requests, request.serial = tok.serial ∧ request.generation = g := by
    unfold wrote at hin
    split at hin
    · split at hin
      · next g' response rest hw =>
        split at hin
        · next hgen =>
          obtain ⟨rfl, rfl⟩ := Prod.mk.injEq .. ▸ List.mem_singleton.mp hin
          have hmem : r ∈ p.session.worker.responses := by
            rw [hw]
            exact List.mem_cons_self
          obtain ⟨id, hid⟩ := h.identified r (List.mem_append_right _ hmem)
          obtain ⟨⟨own, hown, howngen, hownid⟩, o, ho, hserial, hle⟩ :=
            h.held tok id (.writing hmem htok hid)
          have hg : g = p.generation := h.worker g (by rw [hw]; rfl)
          have htokgen : tok.generation = g := (token_generation htok).trans hgen
          refine ⟨⟨own, hown, howngen.trans htokgen, hid.trans (congrArg some hownid.symm)⟩, o, ho,
            hserial, le_antisymm (hg ▸ h.generations o ho) (htokgen ▸ hle)⟩
        · cases hin
      · cases hin
    · cases hin
  refine ⟨h.isolated.serials, fun g r tok hin htok => ?_, fun g r tok hin htok => ?_,
    h.isolated.offered⟩
  · rcases List.mem_append.mp hin with hnew | hold
    · exact (hsource g r tok hnew htok).1
    · exact h.isolated.id g r tok hold htok
  · rcases List.mem_append.mp hin with hnew | hold
    · exact (hsource g r tok hnew htok).2
    · exact h.isolated.origin g r tok hold htok

theorem Sound.serves (h : Sound p) (hs : Serves p.session s') (a : Action) :
    Sound { p with session := s', frames := wrote p.session a ++ p.frames } := by
  have hreading : p.session.reading ≤ s'.reading ∧ s'.reading ≤ s'.transport.generation := by
    have hle := h.current
    unfold Session.reading at hle ⊢
    rw [hs.dispatch]
    cases hc : p.session.dispatch.current with
    | none => exact ⟨hs.generation, le_rfl⟩
    | some c =>
      rw [hc] at hle
      exact ⟨le_rfl, hle.trans hs.generation⟩
  refine h.next hs.carries hs.nextSerial hs.generation (hs.worker h.worker) hreading.2 hreading.1
    (fun r hr => ?_) ?_ (h.writes a)
  · rwa [hs.inbox, hs.dispatch] at hr
  · rw [hs.dispatch]
    exact h.routed

theorem Sound.accepts (h : Sound p) {request : WireRequest} (hw : p.session.worker = .reading g)
    (htok : request.token = ⟨p.session.nextSerial, g⟩) (ids : List String) :
    Sound { p with
      session := { p.session with
        transport := { p.session.transport with
          activeIds := ids
          inbox := p.session.transport.inbox ++ [request] }
        worker := .drain g
        nextSerial := p.session.nextSerial + 1
        accepted := ⟨p.session.nextSerial, g⟩ :: p.session.accepted }
      requests := request :: p.requests } := by
  obtain ⟨hserial, hgeneration⟩ : request.serial = p.session.nextSerial ∧ request.generation = g :=
    Token.mk.injEq .. ▸ htok
  have hg : g = p.generation := h.worker g (by rw [hw]; rfl)
  have hsub : ∀ r ∈ p.requests, r ∈ request :: p.requests := fun _ => List.mem_cons_of_mem _
  have hnew : request.serial ∉ p.requests.map (·.serial) := by
    intro hmem
    obtain ⟨r, hr, heq⟩ := List.mem_map.mp hmem
    exact absurd (h.serials r hr) (by rw [heq, hserial]; exact lt_irrefl _)
  have hnodup : ((request :: p.requests).map (·.serial)).Nodup :=
    List.nodup_cons.mpr ⟨hnew, h.nodup⟩
  refine ⟨hnodup, fun r hr => ?_, fun r hr => ?_, fun k hk => ?_, h.current, fun r hr => ?_,
    h.routed,
    fun tok id hholds => ?_, fun r hr => ?_, fun i => (h.known i).mono fun q hq => hq.mono hsub,
    h.forward, ⟨hnodup, fun g r tok hin htok => ?_, fun g r tok hin htok => ?_, h.isolated.offered⟩⟩
  · rcases List.mem_cons.mp hr with rfl | hr
    · exact hserial ▸ Nat.lt_succ_self _
    · exact Nat.lt_succ_of_lt (h.serials r hr)
  · rcases List.mem_cons.mp hr with rfl | hr
    · exact (hgeneration.trans hg).le
    · exact h.generations r hr
  · obtain rfl := Option.some.inj hk
    exact hg
  · rcases List.mem_append.mp hr with hin | hrouting
    · rcases List.mem_append.mp hin with hold | hlast
      · exact hsub r (h.pending r (List.mem_append_left _ hold))
      · exact List.mem_singleton.mp hlast ▸ List.mem_cons_self
    · exact hsub r (h.pending r (List.mem_append_right _ hrouting))
  · cases hholds with
    | transportInbox hr =>
      rcases List.mem_append.mp hr with hold | hlast
      · exact (h.held _ _ (.transportInbox hold)).mono hsub
      · obtain rfl := List.mem_singleton.mp hlast
        exact sourced_self List.mem_cons_self
    | routing hr => exact (h.held _ _ (.routing hr)).mono hsub
    | topicInbox hq => exact (h.held _ _ (.topicInbox hq)).mono hsub
    | inFlight hq => exact (h.held _ _ (.inFlight hq)).mono hsub
    | topicOutbox hr => exact (h.held _ _ (.topicOutbox hr)).mono hsub
    | returning hr => exact (h.held _ _ (.returning hr)).mono hsub
    | transportOutbox hr ht hid => exact (h.held _ _ (.transportOutbox hr ht hid)).mono hsub
    | writing hr => cases hr
  · exact h.identified r
      (List.mem_append_left _ ((List.mem_append.mp hr).resolve_right List.not_mem_nil))
  · obtain ⟨own, hown, hid⟩ := h.isolated.id g r tok hin htok
    exact ⟨own, hsub own hown, hid⟩
  · obtain ⟨o, ho, horigin⟩ := h.isolated.origin g r tok hin htok
    exact ⟨o, hsub o ho, horigin⟩

theorem Sound.frame (h : Sound p)
    (hs : step parse render views p.session (.frame bytes) = some s') :
    Sound { p with
      session := s'
      requests := arrived parse render p.session (.frame bytes) ++ p.requests } := by
  simp only [step] at hs
  split at hs
  · next g hw =>
    rcases handleFrame_cases (t := p.session.transport) parse render bytes g
      p.session.nextSerial with
      ⟨request, htok, -, -, heq⟩ | ⟨r, ids, ho, rfl, hid, -, -, heq⟩
    · rw [heq] at hs
      cases hs
      have harrived : arrived parse render p.session (.frame bytes) = [request] := by
        simp [arrived, hw, heq]
      rw [harrived]
      exact h.accepts hw htok _
    · rw [heq] at hs
      cases hs
      have harrived : arrived parse render p.session (.frame bytes) = [] := by
        simp [arrived, hw, heq]
      rw [harrived]
      exact h.serves (serves_refuse hw ho hid rfl) (.frame bytes)
  · cases hs

-- ---------------------------------------------------------------------------
-- The topics of the callback domain
-- ---------------------------------------------------------------------------

variable {i : Nat} {moved : Relay.State Json P Res}

theorem callbacks_setCallback (p : Plane P Res) (i : Nat) (relay : Relay.State Json P Res)
    (j : Nat) :
    (p.setCallback i relay).callbacks j = if j = i then relay else p.callbacks j := by
  by_cases hj : j = i <;> simp [Plane.setCallback, hj]

theorem Sound.setCallback (h : Sound p) (hknown : Relay.Known (Received p.requests) moved)
    (hforward : Relay.Forward p.session.reading moved) : Sound (p.setCallback i moved) :=
  { h with
    known := fun j => by
      rw [callbacks_setCallback]
      split
      · exact hknown
      · exact h.known j
    forward := fun j => by
      rw [callbacks_setCallback]
      split
      · exact hforward
      · exact h.forward j
    isolated := ⟨h.isolated.serials, h.isolated.id, h.isolated.origin, h.isolated.offered⟩ }

theorem Sound.relay (h : Sound p) (hs : Relay.step toValue (p.callbacks i) a = some moved)
    (ha : ∀ id payload generation, a ≠ .enqueue id payload generation)
    (hg : Relay.NoStraggler (p.callbacks i) a) : Sound (p.setCallback i moved) := by
  have hturn := Relay.step_turn hs ha
  exact h.setCallback ((h.known i).turn hturn) ((h.forward i).turn hturn hg)

theorem Sound.retires (h : Sound p) (hidle : (p.callbacks i).relay = .idle) :
    Sound (p.setCallback i (retireCallback (p.callbacks i))) := by
  have hknown := h.known i
  have hforward := h.forward i
  obtain ⟨hin, hout⟩ := DebugTopicChannel.foldl_answer
    (fun q : Relay.Queued Json P => (⟨q.id,
      .error (pluginUnavailable "plugin retired; request not delivered"), q.generation,
      some ⟨q, .error "plugin retired; request not delivered"⟩⟩ :
        DebugResponse Json (Option (Relay.Answer Json P Res))))
    (p.callbacks i).channel.inbox { (p.callbacks i).channel with inbox := [] }
  have hstation x : (retireCallback (p.callbacks i)).station x = (p.callbacks i).station x := by
    cases x <;> rfl
  refine h.setCallback ⟨fun q hq => ?_, fun x q hq => ?_, hknown.inFlight, fun r hr => ?_⟩ ?_
  · rw [retireCallback, hin] at hq
    cases hq
  · exact hknown.stations x q ((hstation x).symm.trans hq)
  · rw [retireCallback, hout] at hr
    rcases List.mem_append.mp hr with hold | hnew
    · exact hknown.outbox r hold
    · obtain ⟨q, hq, rfl⟩ := List.mem_map.mp hnew
      have hreceived := (hknown.inbox q hq).1
      exact ⟨⟨q, hreceived, rfl, rfl⟩, _, rfl, hreceived⟩
  · refine hforward.aside 1 (fun x q hq => (hstation x).symm.trans hq)
      (Relay.flight_idle hidle rfl rfl) ?_ fun r hr answer ho => ?_
    · rw [Relay.State.line, retireCallback, hin]
      simp [Relay.State.line]
    · rw [retireCallback, hout] at hr
      rcases List.mem_append.mp hr with hold | hnew
      · exact .inl hold
      · obtain ⟨q, -, rfl⟩ := List.mem_map.mp hnew
        cases ho
        exact .inr le_rfl

theorem Sound.enqueues (h : Sound p) {request : WireRequest} {payload : P}
    (hd : p.session.dispatch = .routing c (request :: rest))
    (hidle : (p.callbacks i).relay = .idle) (pending : Nat) :
    Sound (p.setCallback i { p.callbacks i with
      channel := { (p.callbacks i).channel with
        inbox := (p.callbacks i).channel.inbox ++
          [⟨request.serial, request.id, some payload, request.generation⟩]
        pending } }) := by
  have hreading : p.session.reading = c := by
    simp [Session.reading, hd, DispatchPc.current]
  have hmem : request ∈ p.requests :=
    h.pending request (List.mem_append_right _ (by rw [hd]; exact List.mem_cons_self))
  refine h.setCallback ((h.known i).enqueue _ ⟨request, hmem, rfl, rfl, rfl⟩
    (Option.some_ne_none payload) pending)
    ((h.forward i).enqueue hidle _ ?_ pending)
  rw [hreading]
  exact h.routed c _ hd request List.mem_cons_self

/-- The request at the front is done with. -/
theorem Sound.routesOn (h : Sound p) (hd : p.session.dispatch = .routing c (request :: rest))
    {t : DebugTransport} (hcarries : Carries p.session { p.session with transport := t })
    (hin : t.inbox = p.session.transport.inbox) (hgeneration : t.generation = p.generation)
    (offered : List (Nat × Nat)) (hoffered : ∀ e ∈ offered, e.2 = e.1) :
    Sound { p with
      session := { p.session with transport := t, dispatch := .routing c rest }, offered } := by
  have hsub r (hr : r ∈ rest) : r ∈ p.session.dispatch.requests := by
    rw [hd]
    exact List.mem_cons_of_mem _ hr
  have hon : Carries p.session { p.session with transport := t, dispatch := .routing c rest } :=
    { hcarries with requests := fun r hr => .routing (hsub r hr), returning := nofun }
  refine h.dispatches ⟨hon, rfl, rfl, hgeneration, fun r hr => ?_, fun hrouted _ l heq r hr => ?_,
    .inl ?_⟩ offered hoffered
  · dsimp only at hr
    rw [hin] at hr
    exact (List.mem_append.mp hr).elim (List.mem_append_left _)
      fun hr => List.mem_append_right _ (hsub r hr)
  · cases heq
    exact hrouted c _ hd r (List.mem_cons_of_mem _ hr)
  · simp [Session.reading, hd, DispatchPc.current]

theorem Sound.offers (h : Sound p) (hd : p.session.dispatch = .routing c (request :: rest)) :
    ∀ e ∈ (c, request.generation) :: p.offered, e.2 = e.1 := by
  intro e he
  rcases List.mem_cons.mp he with rfl | hold
  · exact h.routed c _ hd request List.mem_cons_self
  · exact h.isolated.offered e hold

/-- The responses of a callback-domain topic go back to accepted requests. -/
theorem Sound.outbox_sourced (h : Sound p) (hr : r ∈ (p.callbacks i).channel.outbox) :
    Sourced p.requests (responseToken (wireOrigin r)) (wireOrigin r).id := by
  obtain ⟨⟨q, ⟨own, hown, -, hid, hgeneration⟩, hqid, hqgeneration⟩, answer, ho,
    o, homem, hserial, -, hogeneration⟩ := (h.known i).outbox r hr
  have hle := (h.forward i).outbox r hr answer ho
  have horigin : (wireOrigin r).origin = answer.request.serial := by
    simp [wireOrigin, ho, Relay.Answer.serial]
  refine ⟨⟨own, hown, hgeneration.trans hqgeneration, hid.trans hqid⟩, o, homem, ?_, ?_⟩
  · exact hserial.trans horigin.symm
  · exact hle.trans hogeneration.ge

theorem Sound.collects (h : Sound p) (hd : p.session.dispatch = .draining c (i :: rest)) :
    Sound { p.setCallback i { p.callbacks i with
        channel := { (p.callbacks i).channel with outbox := [] } } with
      session := { p.session with
        dispatch := .returning c ((p.callbacks i).channel.outbox.map wireOrigin) rest } } := by
  have hknown := h.known i
  have hforward := h.forward i
  have hreading : p.session.reading = c := by
    simp [Session.reading, hd, DispatchPc.current]
  have hcleared : Sound (p.setCallback i { p.callbacks i with
      channel := { (p.callbacks i).channel with outbox := [] } }) := by
    refine h.setCallback
      ⟨hknown.inbox, fun x q hq => hknown.stations x q ?_, hknown.inFlight, nofun⟩
      ⟨hforward.finite, hforward.balance, hforward.sorted, hforward.bound, nofun⟩
    cases x <;> exact hq
  exact
    { hcleared with
      current := hreading ▸ h.current
      pending := fun r hr => h.pending r
        (List.mem_append_left _ ((List.mem_append.mp hr).resolve_right List.not_mem_nil))
      routed := fun _ _ heq => nomatch heq
      held := fun tok id hholds => by
        cases hholds with
        | returning hr =>
          obtain ⟨r, hin, rfl⟩ := List.mem_map.mp hr
          exact h.outbox_sourced hin
        | routing hr => cases hr
        | transportInbox hr => exact h.held _ _ (.transportInbox hr)
        | topicInbox hq => exact h.held _ _ (.topicInbox hq)
        | inFlight hq => exact h.held _ _ (.inFlight hq)
        | topicOutbox hr => exact h.held _ _ (.topicOutbox hr)
        | transportOutbox hr ht hid => exact h.held _ _ (.transportOutbox hr ht hid)
        | writing hr ht hid => exact h.held _ _ (.writing hr ht hid)
      forward := fun j => by
        have hj := hcleared.forward j
        rw [show (p.setCallback i _).session.reading = c from hreading] at hj
        exact hj
      isolated := ⟨h.isolated.serials, h.isolated.id, h.isolated.origin, h.isolated.offered⟩ }

theorem Sound.dispatch (h : Sound p) (hs : planeDispatch views callback p readings = some p') :
    Sound p' := by
  have hown : Sound { p with session := dispatchStep views p.session readings } :=
    h.dispatches (dispatches_step views p.session readings) p.offered h.isolated.offered
  unfold planeDispatch at hs
  dsimp only at hs
  split at hs
  · next current request rest hd =>
    split at hs
    · next payload i hladder =>
      split at hs
      · split at hs
        · next hidle =>
          have hoffers := h.offers hd
          unfold DebugTopicChannel.enqueue at hs
          by_cases hfull : debugMaxPending ≤ (p.callbacks i).channel.pending
          · simp only [hfull, if_true, Option.some.injEq] at hs
            subst hs
            have hholds : Holds p.session request.token request.id :=
              .routing (by rw [hd]; exact List.mem_cons_self)
            refine h.routesOn hd (carries_pushResponse ⟨_, rfl⟩ fun tok id htok hid => ?_)
              (pushResponse_inbox _ _) (pushResponse_generation _ _) _ hoffers
            cases htok
            cases hid
            exact hholds
          · simp only [hfull, if_false, Option.some.injEq] at hs
            subst hs
            exact (h.enqueues hd hidle _).routesOn hd (Carries.refl _) rfl rfl _ hoffers
        · cases hs
      · cases hs
        exact h.dispatches (dispatches_step views p.session readings) _ (h.offers hd)
    · cases hs
      exact hown
  · next current i rest hd =>
    split at hs
    · split at hs
      · cases hs
        exact h.collects hd
      · cases hs
    · cases hs
      exact hown
  · cases hs
    exact hown

theorem Sound.step (h : Sound p) (hg : InOrder p a)
    (hs : planeStep parse render views callback toValue p a = some p') : Sound p' := by
  cases a with
  | relay i a =>
    cases a with
    | enqueue id payload generation => cases hs
    | relay | hook | handlerReturns | handlerPanics =>
      simp only [planeStep] at hs
      split at hs
      · obtain ⟨moved, hmoved, rfl⟩ := Option.map_eq_some_iff.mp hs
        exact h.relay hmoved nofun hg
      · cases hs
  | session a =>
    cases a with
    | dispatch readings => exact h.dispatch hs
    | frame bytes =>
      obtain ⟨s', hstep, rfl⟩ := Option.map_eq_some_iff.mp hs
      exact h.frame hstep
    | handler i op =>
      simp only [planeStep] at hs
      split at hs
      · split at hs
        · split at hs
          · next hidle =>
            cases hs
            exact h.retires hidle
          · cases hs
        · cases hs
      · obtain ⟨s', hstep, rfl⟩ := Option.map_eq_some_iff.mp hs
        exact h.serves (serves_step hstep nofun nofun) (.handler i op)
    | accept | worker | writeFails | oversized | hangUp =>
      obtain ⟨s', hstep, rfl⟩ := Option.map_eq_some_iff.mp hs
      exact h.serves (serves_step hstep nofun nofun) _

/-- While no callback-domain response overtakes one to a request of an earlier
connection, sessions do not mix. -/
theorem isolated_of_inOrder (parse : List UInt8 → Option Json) (render : Json → String)
    (views : List (TopicView P)) (callback : Nat → Bool) (toValue : Res → Except String Json)
    (as : List (PlaneAction P Res))
    (hg : Machine.Each (planeStep parse render views callback toValue) InOrder .init as) :
    Machine.Always (planeStep parse render views callback toValue) Isolated .init as :=
  (Machine.Each.always (fun _ _ _ => Sound.step) Sound.init hg).mono fun _ => Sound.isolated

end

def pingTopic : List (TopicView Unit) := [⟨"ping", fun _ => .ok ()⟩]

/-- Two connections send a request each. The first is answered when its
connection is gone, and collected before the second, which goes out. -/
def answeredInOrder : List (PlaneAction Unit Unit) :=
  [.session .accept, .session .worker, .session .worker, .session .worker, .session .worker,
    .session (.frame []), .session (.dispatch unserved), .session (.dispatch unserved),
    .session (.dispatch unserved), .session (.dispatch unserved), .session (.dispatch unserved),
    .session (.dispatch unserved), .session (.dispatch unserved),
    .relay 0 (.relay false), .relay 0 (.relay false), .relay 0 (.relay false),
    .relay 0 (.relay false), .relay 0 (.hook 0 false), .relay 0 (.hook 0 false),
    .session .worker, .session .worker, .session .hangUp,
    .session .accept, .session .worker, .session .worker, .session .worker, .session .worker,
    .session (.frame []), .session (.dispatch unserved), .session (.dispatch unserved),
    .session (.dispatch unserved), .session (.dispatch unserved), .session (.dispatch unserved),
    .session (.dispatch unserved), .session (.dispatch unserved),
    .relay 0 (.handlerReturns 0 (.ok ())), .relay 0 (.hook 0 false),
    .relay 0 (.relay false), .relay 0 (.relay false), .relay 0 (.relay false),
    .relay 0 (.relay false), .relay 0 (.relay false), .relay 0 (.hook 1 false),
    .relay 0 (.hook 1 false), .relay 0 (.handlerReturns 1 (.ok ())), .relay 0 (.hook 1 false),
    .relay 0 (.relay true), .relay 0 (.relay false), .relay 0 (.relay false),
    .session (.dispatch unserved), .session (.dispatch unserved), .session (.dispatch unserved),
    .session (.dispatch unserved), .session (.dispatch unserved), .session (.dispatch unserved),
    .session (.dispatch unserved), .session .worker, .session .worker]

theorem isolated_answered_once :
    Machine.Always (planeStep (fun _ => some pingFrame) (fun _ => "1") pingTopic (fun _ => true)
      (fun _ => .ok .null)) Isolated .init answeredInOrder := by
  refine isolated_of_inOrder _ _ _ _ _ _ ?_
  unfold answeredInOrder
  iterate 13 refine Machine.Each.cons rfl trivial ?_
  iterate 4 refine Machine.Each.cons rfl (by rintro - - answer ⟨⟩) ?_
  iterate 20 refine Machine.Each.cons rfl trivial ?_
  iterate 3 refine Machine.Each.cons rfl (by rintro ⟨⟩) ?_
  refine Machine.Each.cons rfl ?_ (Machine.Each.cons rfl (by rintro - - answer ⟨⟩) ?_)
  · rintro - - answer ⟨⟩ x q hq
    cases x with
    | slot =>
      cases hq
      exact Nat.le_succ 1
    | hook j => cases j <;> cases hq
    | response =>
      cases hq
      exact le_rfl
  iterate 4 refine Machine.Each.cons rfl trivial ?_
  refine Machine.Each.cons rfl (by rintro ⟨⟩) ?_
  refine Machine.Each.cons rfl ?_ (Machine.Each.cons rfl (by rintro - - answer ⟨⟩) ?_)
  · rintro - - answer ⟨⟩ x q hq
    cases x with
    | slot => cases hq
    | hook j => rcases j with _ | _ | j <;> cases hq
    | response =>
      cases hq
      exact le_rfl
  iterate 9 refine Machine.Each.cons rfl trivial ?_
  exact trivial

/-- Of two requests of two connections the hooks answer the later one first. -/
def overtakes : List (PlaneAction Unit Unit) :=
  [.session .accept, .session .worker, .session .worker, .session .worker, .session .worker,
    .session (.frame []), .session (.dispatch unserved), .session (.dispatch unserved),
    .session (.dispatch unserved), .session (.dispatch unserved), .session (.dispatch unserved),
    .session (.dispatch unserved), .session (.dispatch unserved),
    .relay 0 (.relay false), .relay 0 (.relay false), .relay 0 (.relay false),
    .relay 0 (.relay false), .relay 0 (.hook 0 false), .relay 0 (.hook 0 false),
    .session .worker, .session .worker, .session .hangUp,
    .session .accept, .session .worker, .session .worker, .session .worker, .session .worker,
    .session (.frame []), .session (.dispatch unserved), .session (.dispatch unserved),
    .session (.dispatch unserved), .session (.dispatch unserved), .session (.dispatch unserved),
    .session (.dispatch unserved), .session (.dispatch unserved),
    .relay 0 (.relay false), .relay 0 (.relay false), .relay 0 (.relay false),
    .relay 0 (.relay false), .relay 0 (.hook 1 false), .relay 0 (.hook 1 false),
    .relay 0 (.handlerReturns 1 (.ok ())), .relay 0 (.hook 1 false),
    .relay 0 (.relay false), .relay 0 (.relay false), .relay 0 (.relay false),
    .relay 0 (.relay false), .relay 0 (.handlerReturns 0 (.ok ())), .relay 0 (.hook 0 false),
    .relay 0 (.relay false), .relay 0 (.relay false), .relay 0 (.relay false),
    .relay 0 (.relay false), .session (.dispatch unserved), .session (.dispatch unserved),
    .session (.dispatch unserved), .session (.dispatch unserved), .session (.dispatch unserved),
    .session (.dispatch unserved), .session .worker, .session .worker]

theorem response_crosses_sessions :
    ¬ ∀ (parse : List UInt8 → Option Json) (render : Json → String) (views : List (TopicView Unit))
      (callback : Nat → Bool) (toValue : Unit → Except String Json)
      (as : List (PlaneAction Unit Unit)),
      Machine.Always (planeStep parse render views callback toValue) Isolated .init as := by
  intro h
  have hkept := (h (fun _ => some pingFrame) (fun _ => "1") pingTopic (fun _ => true)
    (fun _ => .ok .null) overtakes).exec rfl
  obtain ⟨request, hmem, hserial, hgeneration⟩ :=
    hkept.origin 2 _ ⟨0, 2⟩ (List.mem_singleton.mpr rfl) rfl
  rcases List.mem_cons.mp hmem with rfl | hmem
  · cases hserial
  · obtain rfl := List.mem_singleton.mp hmem
    cases hgeneration

end ShinySongTools.Debug
