import ShinySongTools.Debug.Conversation

/-!
# Active request ids

The set of active ids is keyed by the printed id alone, so the reply to a
refused frame releases the id of a request that still waits, and a response
there is no room for releases none.
-/

namespace ShinySongTools.Debug

variable {P : Type u}

-- ---------------------------------------------------------------------------
-- The worker
-- ---------------------------------------------------------------------------

theorem IdsInv.goesOn {c : Conversation P} {s' : Session P} (h : IdsInv render c)
    (hbase : Inv False s') (hcarries : Carries c.session s') (hs : SameWaiting c.session s')
    (hout : ∀ r ∈ s'.transport.outbox, r.origin = none → s'.worker = .drain r.generation)
    (hwriting : ∀ r ∈ s'.worker.responses, r.origin = none →
      s'.worker.connection = some r.generation)
    (hfresh : ∀ g, s'.worker = .retain g ∨ s'.worker = .clearIds g → c.session.worker = .retain g)
    (hcovered : ∀ g, s'.worker.serves = some g → ∀ tok k, Unanswered c.session tok →
      c.key tok.serial = some k → k ∈ s'.transport.activeIds)
    (hbacked : ∀ g, s'.worker.serves = some g → ∀ k ∈ s'.transport.activeIds,
      (∃ tok, Unanswered c.session tok ∧ c.key tok.serial = some k) ∨ Refused render s' k) :
    IdsInv render ⟨s', c.key⟩ where
  base := hbase
  carried tok id hholds := h.carried tok id (hcarries.holds hholds)
  identified := h.identify hcarries
  refusedOutbox := hout
  refusedWriting := hwriting
  fresh g hg tok htok := h.fresh g (.inl (hfresh g hg)) tok (hs.unanswered.mp htok)
  unique tok tok' k htok htok' :=
    h.unique tok tok' k (hs.unanswered.mp htok) (hs.unanswered.mp htok')
  covered g hg tok k htok := hcovered g hg tok k (hs.unanswered.mp htok)
  backed g hg k hk := (hbacked g hg k hk).imp_left
    fun ⟨tok, htok, hkey⟩ => ⟨tok, hs.unanswered.mpr htok, hkey⟩

theorem carries_worker {s s' : Session P} (hinbox : s'.transport.inbox = s.transport.inbox)
    (hdispatch : s'.dispatch = s.dispatch) (htopics : s'.topics = s.topics)
    (hresponses : ∀ r ∈ s'.transport.outbox ++ s'.worker.responses,
      r ∈ s.transport.outbox ++ s.worker.responses) : Carries s s' where
  inbox r hr := .transportInbox (hinbox ▸ hr)
  requests r hr := .routing (hdispatch ▸ hr)
  queued i q hq := by
    rw [htopics] at hq
    exact (Carries.refl s).queued i q hq
  answered i r hr := by
    rw [htopics] at hr
    exact .topicOutbox hr
  returning r hr := .returning (hdispatch ▸ hr)
  outbox r hr := Holds.outbox (hresponses r hr)
  identified r hr := .inl (hresponses r hr)

/-- The worker is left with no response to write: those there are were in the
outbox. -/
theorem carries_idle {s s' : Session P} (hinbox : s'.transport.inbox = s.transport.inbox)
    (hdispatch : s'.dispatch = s.dispatch) (htopics : s'.topics = s.topics)
    (hworker : s'.worker.responses = [])
    (houtbox : ∀ r ∈ s'.transport.outbox, r ∈ s.transport.outbox) : Carries s s' := by
  refine carries_worker hinbox hdispatch htopics fun r hr => ?_
  rw [hworker, List.append_nil] at hr
  exact List.mem_append_left _ (houtbox r hr)

theorem releaseId_activeIds (render : Json → String) (t : DebugTransport) (r : WireResponse) :
    (t.releaseId render r).activeIds =
      match responseKey render r with
      | some key => t.activeIds.filter (· ≠ key)
      | none => t.activeIds := by
  unfold DebugTransport.releaseId responseKey
  cases (r.body.get "id").bind (trackableId render) with
  | some key => rfl
  | none => rfl

theorem mem_releaseId {render : Json → String} {t : DebugTransport} {r : WireResponse} :
    k ∈ (t.releaseId render r).activeIds ↔ k ∈ t.activeIds ∧ responseKey render r ≠ some k := by
  rw [releaseId_activeIds]
  cases responseKey render r with
  | none => simp
  | some key =>
    refine List.mem_filter.trans (and_congr_right fun _ => ?_)
    rw [decide_eq_true_eq]
    exact ⟨fun hne heq => hne (Option.some.inj heq).symm, fun hne heq => hne (heq ▸ rfl)⟩

/-- A written answer is that of a request that waits, and has its id. -/
theorem IdsInv.answer {c : Conversation P} {r : WireResponse} {rest : List WireResponse}
    (h : IdsInv render c) (hw : c.session.worker = .writing g (r :: rest)) (hgen : r.generation = g)
    (htok : r.token = some tok) :
    Unanswered c.session tok ∧ c.key tok.serial = responseKey render r := by
  have hmem : r ∈ c.session.worker.responses := by
    rw [hw]
    exact List.mem_cons_self
  have hin : tok ∈ c.session.held .writing := List.mem_filterMap.mpr ⟨r, hmem, htok⟩
  have honce := h.base.accounted.of_mem hin
  obtain ⟨id, hid⟩ := h.identified r (List.mem_append_right _ hmem)
  refine ⟨⟨h.base.accounted.known_of_mem hin, ?_, fun k hk => ?_, fun hk => ?_, fun hk => ?_⟩, ?_⟩
  · rw [token_generation htok, hgen]
    exact h.base.worker g (by rw [hw]; rfl)
  · refine honce.not_mem hin (q := .written k) nofun ?_
    exact List.mem_map.mpr ⟨(k, tok), List.mem_filter.mpr ⟨hk, by simp⟩, rfl⟩
  · exact honce.not_mem hin (q := .dropped) nofun hk
  · exact honce.not_mem hin (q := .cutOff) nofun hk
  · rw [← h.carried tok id (.writing hmem htok hid), responseKey, hid]
    rfl

theorem IdsInv.writes {c : Conversation P} {r : WireResponse} {rest : List WireResponse}
    (h : IdsInv render c) (hw : c.session.worker = .writing r.generation (r :: rest))
    (hg : ReleasesOwn parse render views c .worker) {s' : Session P}
    (hs' : s' = { c.session with
      transport := c.session.transport.releaseId render r
      worker := .writing r.generation rest
      written := r.token.toList.map (fun tok => (r.generation, tok)) ++ c.session.written })
    (hbase : Inv False s') : IdsInv render ⟨s', c.key⟩ := by
  have htransport := releaseId_spec render c.session.transport r
  have houtbox : (c.session.transport.releaseId render r).outbox = c.session.transport.outbox := by
    rw [htransport]
  have hresponses : c.session.worker.responses = r :: rest := by rw [hw]; rfl
  have hcarries : Carries c.session s' := by
    subst hs'
    refine carries_worker (by rw [htransport]) rfl rfl fun r' hr' => ?_
    rw [houtbox] at hr'
    rw [hresponses]
    exact (List.mem_append.mp hr').elim (List.mem_append_left _) fun hr' =>
      List.mem_append_right _ (List.mem_cons_of_mem r hr')
  -- what waits afterwards waited before and is not the answered request
  have hleft : ∀ t, Unanswered s' t ↔ Unanswered c.session t ∧ r.token ≠ some t := by
    intro t
    subst hs'
    constructor
    · rintro ⟨ha, hgen, hwr, hd, hc⟩
      rw [htransport] at hgen hd
      refine ⟨⟨ha, hgen, fun g hmem => hwr g (List.mem_append_right _ hmem), hd, hc⟩,
        fun htok => ?_⟩
      exact hwr r.generation (List.mem_append_left _ (by simp [htok]))
    · rintro ⟨⟨ha, hgen, hwr, hd, hc⟩, hne⟩
      refine ⟨ha, by rw [htransport]; exact hgen, fun g hmem => ?_,
        by rw [htransport]; exact hd, hc⟩
      rcases List.mem_append.mp hmem with hmem | hmem
      · obtain ⟨tok, htok, heq⟩ := List.mem_map.mp hmem
        cases heq
        exact hne (Option.mem_toList.mp htok)
      · exact hwr g hmem
  have hsame : ∀ t t' k, Unanswered s' t → Unanswered s' t' → c.key t.serial = some k →
      c.key t'.serial = some k → t = t' :=
    fun t t' k ht ht' => h.unique t t' k ((hleft t).mp ht).1 ((hleft t').mp ht').1
  have hreleased : ∀ k, k ∈ s'.transport.activeIds ↔
      k ∈ c.session.transport.activeIds ∧ responseKey render r ≠ some k := by
    subst hs'
    exact fun k => mem_releaseId
  have hworker : s'.worker = .writing r.generation rest := by rw [hs']
  have hout' : s'.transport.outbox = c.session.transport.outbox := by rw [hs']; exact houtbox
  exact
    { base := hbase
      carried := fun t id hholds => h.carried t id (hcarries.holds hholds)
      identified := h.identify hcarries
      refusedOutbox := fun r' hr' ho => by
        rw [hout'] at hr'
        have hdrain := h.refusedOutbox r' hr' ho
        rw [hw] at hdrain
        cases hdrain
      refusedWriting := fun r' hr' ho => by
        rw [hworker] at hr' ⊢
        have hcon := h.refusedWriting r' (by rw [hresponses]; exact List.mem_cons_of_mem r hr') ho
        rwa [hw] at hcon
      fresh := fun g hfresh => by
        rw [hworker] at hfresh
        rcases hfresh with hfresh | hfresh <;> cases hfresh
      unique := hsame
      covered := fun g hserves t k ht hkey => by
        obtain ⟨ht, hne⟩ := (hleft t).mp ht
        refine (hreleased k).mpr
          ⟨h.covered r.generation (by rw [hw]; rfl) t k ht hkey, fun hk => ?_⟩
        cases htok : r.token with
        | none =>
          have ho : r.origin = none := Option.map_eq_none_iff.mp htok
          exact hg r.generation r rest k hw rfl ho hk t ht hkey
        | some tok =>
          obtain ⟨hwaits, hkeyTok⟩ := h.answer hw rfl htok
          have heq := h.unique t tok k ht hwaits hkey (hkeyTok.trans hk)
          exact hne (heq ▸ htok)
      backed := fun g hserves k hk => by
        obtain ⟨hk, hne⟩ := (hreleased k).mp hk
        rcases h.backed r.generation (by rw [hw]; rfl) k hk with ⟨t, ht, hkey⟩ | ⟨r', hr', ho, hkey⟩
        · refine .inl ⟨t, (hleft t).mpr ⟨ht, fun htok => ?_⟩, hkey⟩
          exact hne ((h.answer hw rfl htok).2.symm.trans hkey)
        · refine .inr ⟨r', ?_, ho, hkey⟩
          rw [hworker, hout']
          rw [hresponses] at hr'
          refine List.mem_append.mpr ((List.mem_append.mp hr').imp_right fun hr' => ?_)
          exact (List.mem_cons.mp hr').resolve_left fun heq => hne (heq ▸ hkey) }

/-- The worker moves on within its connection and has the same refusals to write. -/
theorem IdsInv.served {c : Conversation P} {s' : Session P} (h : IdsInv render c)
    (hbase : Inv False s') (hs : SameWaiting c.session s')
    (hinbox : s'.transport.inbox = c.session.transport.inbox)
    (hdispatch : s'.dispatch = c.session.dispatch) (htopics : s'.topics = c.session.topics)
    (hids : s'.transport.activeIds = c.session.transport.activeIds)
    (hserves : c.session.worker.serves = some g) (hserves' : s'.worker.serves = some g)
    (hresponses : ∀ r ∈ s'.transport.outbox ++ s'.worker.responses,
      r ∈ c.session.transport.outbox ++ c.session.worker.responses)
    (hrefusals : ∀ r ∈ c.session.transport.outbox ++ c.session.worker.responses, r.origin = none →
      r ∈ s'.transport.outbox ++ s'.worker.responses)
    (hout : ∀ r ∈ s'.transport.outbox, r.origin = none → s'.worker = .drain r.generation)
    (hwriting : ∀ r ∈ s'.worker.responses, r.origin = none →
      s'.worker.connection = some r.generation) : IdsInv render ⟨s', c.key⟩ := by
  refine h.goesOn hbase (carries_worker hinbox hdispatch htopics hresponses) hs hout hwriting
    (fun g' hfresh => ?_) (fun _ _ tok k htok hkey => ?_) (fun _ _ k hk => ?_)
  · rcases hfresh with hfresh | hfresh <;> rw [hfresh] at hserves' <;> cases hserves'
  · rw [hids]
    exact h.covered g hserves tok k htok hkey
  · rw [hids] at hk
    exact (h.backed g hserves k hk).imp_right fun ⟨r, hr, ho, hkey⟩ =>
      ⟨r, hrefusals r hr ho, ho, hkey⟩

theorem IdsInv.workerStep {c : Conversation P} {s' : Session P} (h : IdsInv render c)
    (hg : ReleasesOwn parse render views c .worker)
    (hs : ShinySongTools.Debug.workerStep render c.session = some s') (hbase : Inv False s') :
    IdsInv render ⟨s', c.key⟩ := by
  unfold ShinySongTools.Debug.workerStep at hs
  cases hw : c.session.worker with
  | accepting => simp [hw] at hs
  | retain g =>
    simp only [hw, Option.some.injEq] at hs
    subst hs
    refine h.goesOn hbase (carries_worker rfl rfl rfl fun r hr => ?_) ⟨rfl, rfl, rfl, rfl, rfl⟩
      (fun r hr ho => ?_) nofun (fun g' hfresh => ?_) nofun nofun
    · rcases List.mem_append.mp hr with hr | hr
      · exact List.mem_append_left _ (List.mem_of_mem_filter hr)
      · cases hr
    · have hdrain := h.refusedOutbox r (List.mem_of_mem_filter hr) ho
      rw [hw] at hdrain
      cases hdrain
    · rcases hfresh with hfresh | hfresh <;> cases hfresh
      exact hw
  | clearIds g =>
    simp only [hw, Option.some.injEq] at hs
    subst hs
    refine h.goesOn hbase (carries_worker rfl rfl rfl fun r hr => ?_) ⟨rfl, rfl, rfl, rfl, rfl⟩
      (fun r hr ho => ?_) nofun (fun g' hfresh => ?_)
      (fun g' _ tok _ htok => absurd htok (h.fresh g (.inr hw) tok)) nofun
    · rcases List.mem_append.mp hr with hr | hr
      · exact List.mem_append_left _ hr
      · cases hr
    · have hdrain := h.refusedOutbox r hr ho
      rw [hw] at hdrain
      cases hdrain
    · rcases hfresh with hfresh | hfresh <;> cases hfresh
  | drain g =>
    simp only [hw, Option.some.injEq] at hs
    subst hs
    have hresponses : c.session.worker.responses = [] := by rw [hw]; rfl
    refine h.served hbase ⟨rfl, rfl, rfl, rfl, rfl⟩ rfl rfl rfl rfl (by rw [hw]; rfl) rfl
      (fun r hr => List.mem_append_left _ ((List.mem_append.mp hr).resolve_left List.not_mem_nil))
      (fun r hr _ => ?_) nofun fun r hr ho => ?_
    · rw [hresponses, List.append_nil] at hr
      exact List.mem_append_right _ hr
    · have hdrain := h.refusedOutbox r hr ho
      rw [hw] at hdrain
      cases hdrain
      rfl
  | reading g =>
    simp only [hw, Option.some.injEq] at hs
    subst hs
    refine h.served hbase ⟨rfl, rfl, rfl, rfl, rfl⟩ rfl rfl rfl rfl (by rw [hw]; rfl) rfl
      (fun r hr => by rw [hw]; exact hr) (fun r hr _ => by rw [hw] at hr; exact hr)
      (fun r hr ho => ?_) nofun
    have hdrain := h.refusedOutbox r hr ho
    rw [hw] at hdrain
    cases hdrain
  | writing g responses =>
    cases responses with
    | nil =>
      simp only [hw, Option.some.injEq] at hs
      subst hs
      refine h.served hbase ⟨rfl, rfl, rfl, rfl, rfl⟩ rfl rfl rfl rfl (by rw [hw]; rfl) rfl
        (fun r hr => by rw [hw]; exact hr) (fun r hr _ => by rw [hw] at hr; exact hr)
        (fun r hr ho => ?_) nofun
      have hdrain := h.refusedOutbox r hr ho
      rw [hw] at hdrain
      cases hdrain
    | cons response rest =>
      have hresponses : c.session.worker.responses = response :: rest := by rw [hw]; rfl
      simp only [hw] at hs
      split at hs
      · next hgen =>
        cases hs
        -- a refusal is never another connection's
        have hanswer : ∀ r ∈ response :: rest, r.origin = none → r.generation = g :=
          fun r hr ho => by
          have hcon := h.refusedWriting r (hresponses ▸ hr) ho
          rw [hw] at hcon
          exact (Option.some.inj hcon).symm
        refine h.served hbase ⟨rfl, rfl, rfl, rfl, rfl⟩ rfl rfl rfl rfl (by rw [hw]; rfl) rfl
          (fun r hr => ?_) (fun r hr ho => ?_) (fun r hr ho => ?_) fun r hr ho => ?_
        · rw [hresponses]
          exact List.mem_append.mpr ((List.mem_append.mp hr).imp_right (List.mem_cons_of_mem _))
        · rw [hresponses] at hr
          refine List.mem_append.mpr ((List.mem_append.mp hr).imp_right fun hr => ?_)
          refine (List.mem_cons.mp hr).resolve_left fun heq => ?_
          subst heq
          exact hgen (hanswer r List.mem_cons_self ho)
        · have hdrain := h.refusedOutbox r hr ho
          rw [hw] at hdrain
          cases hdrain
        · exact congrArg some (hanswer r (List.mem_cons_of_mem _ hr) ho).symm
      · next hgen =>
        cases hs
        obtain rfl := not_not.mp hgen
        exact h.writes hw hg rfl hbase

-- ---------------------------------------------------------------------------
-- Frames
-- ---------------------------------------------------------------------------

/-- A connection that is served no longer, or not yet. -/
theorem IdsInv.unserved {c : Conversation P} {s' : Session P} (h : IdsInv render c)
    (hbase : Inv False s') (hcarries : Carries c.session s')
    (hwaits : ∀ t, Unanswered s' t → Unanswered c.session t ∧ s'.worker = .accepting)
    (hresponses : s'.worker.responses = []) (hserves : s'.worker.serves = none)
    (hout : ∀ r ∈ s'.transport.outbox, r.origin ≠ none) : IdsInv render ⟨s', c.key⟩ where
  base := hbase
  carried tok id hholds := h.carried tok id (hcarries.holds hholds)
  identified := h.identify hcarries
  refusedOutbox r hr ho := absurd ho (hout r hr)
  refusedWriting r hr := by rw [hresponses] at hr; cases hr
  fresh g hg t ht := by
    have haccepting := (hwaits t ht).2
    rcases hg with hg | hg <;> cases haccepting.symm.trans hg
  unique t t' k ht ht' := h.unique t t' k (hwaits t ht).1 (hwaits t' ht').1
  covered g hg := by rw [hserves] at hg; cases hg
  backed g hg := by rw [hserves] at hg; cases hg

theorem IdsInv.refuses {c : Conversation P} {r : WireResponse} (h : IdsInv render c)
    (ids : List String) (hw : c.session.worker = .reading r.generation) (ho : r.origin = none)
    (hid : ∃ id, r.body.get "id" = some id) {s' : Session P}
    (hs' : s' = { c.session with
      transport := DebugTransport.pushResponse { c.session.transport with activeIds := ids } r
      worker := .drain r.generation })
    (hold : ∀ k ∈ c.session.transport.activeIds, k ∈ ids)
    (hnew : ∀ k ∈ ids, k ∉ c.session.transport.activeIds →
      responseKey render r = some k ∧ c.session.transport.outbox.length < maxOutboxResponses)
    (hbase : Inv False s') : IdsInv render ⟨s', c.key⟩ := by
  have hnone : r.token = none := by rw [WireResponse.token, ho]; rfl
  have hresponses : c.session.worker.responses = [] := by rw [hw]; rfl
  have hreading : ∀ r' ∈ c.session.transport.outbox, r'.origin ≠ none := fun r' hr' ho' => by
    have hdrain := h.refusedOutbox r' hr' ho'
    rw [hw] at hdrain
    cases hdrain
  have hcarries : Carries c.session s' := by
    have hpush := carries_pushResponse
      (s := { c.session with transport := { c.session.transport with activeIds := ids } }) (r := r)
      hid fun tok id htok => by rw [hnone] at htok; cases htok
    have hsame : Carries c.session
        { c.session with transport := { c.session.transport with activeIds := ids } } :=
      { Carries.refl c.session with }
    subst hs'
    exact
      { inbox := fun x hx => hsame.holds (hpush.inbox x hx)
        requests := fun x hx => hsame.holds (hpush.requests x hx)
        queued := fun i q hq => hsame.holds (hpush.queued i q hq)
        answered := fun i x hx => hsame.holds (hpush.answered i x hx)
        returning := fun x hx => hsame.holds (hpush.returning x hx)
        outbox := fun x hx tok id htok hid => hsame.holds (hpush.outbox x
          (List.mem_append_left _ ((List.mem_append.mp hx).resolve_right List.not_mem_nil)) tok id
            htok hid)
        identified := fun x hx => hpush.identified x
          (List.mem_append_left _ ((List.mem_append.mp hx).resolve_right List.not_mem_nil)) }
  have hactive : s'.transport.activeIds = ids := by
    subst hs'
    unfold DebugTransport.pushResponse
    split <;> rfl
  have hsub : ∀ x ∈ c.session.transport.outbox, x ∈ s'.transport.outbox := by
    subst hs'
    unfold DebugTransport.pushResponse
    split
    · exact fun _ hx => hx
    · exact fun _ hx => List.mem_append_left _ hx
  have hroom : c.session.transport.outbox.length < maxOutboxResponses →
      r ∈ s'.transport.outbox := by
    intro hlt
    subst hs'
    unfold DebugTransport.pushResponse
    split
    · next hfull => exact absurd hlt (Nat.not_lt_of_le hfull)
    · exact List.mem_append_right _ (List.mem_singleton_self r)
  have hs : SameWaiting c.session s' := by
    subst hs'
    refine ⟨rfl, pushResponse_generation _ _, rfl, ?_, rfl⟩
    unfold DebugTransport.pushResponse
    split
    · rw [hnone]
      rfl
    · rfl
  have hworker : s'.worker = .drain r.generation := by rw [hs']
  refine h.goesOn hbase hcarries hs (fun x hx hox => ?_) (fun x hx => ?_) (fun g hfresh => ?_)
    (fun g _ tok k htok hkey => ?_) fun g _ k hk => ?_
  · subst hs'
    rcases mem_pushResponse hx with hx | rfl
    · exact absurd hox (hreading x hx)
    · rfl
  · rw [hworker] at hx
    cases hx
  · rw [hworker] at hfresh
    rcases hfresh with hfresh | hfresh <;> cases hfresh
  · rw [hactive]
    exact hold k (h.covered r.generation (by rw [hw]; rfl) tok k htok hkey)
  · rw [hactive] at hk
    by_cases hmem : k ∈ c.session.transport.activeIds
    · refine (h.backed r.generation (by rw [hw]; rfl) k hmem).imp_right ?_
      rintro ⟨x, hx, hox, hkey⟩
      rw [hresponses, List.append_nil] at hx
      exact ⟨x, List.mem_append_left _ (hsub x hx), hox, hkey⟩
    · obtain ⟨hkey, hlt⟩ := hnew k hk hmem
      exact .inr ⟨r, List.mem_append_left _ (hroom hlt), ho, hkey⟩

theorem errorBody_id (reply : ErrorReply) :
    (DebugTransport.errorBody reply).get "id" = some reply.id := rfl

/-- What becomes of a frame: it is accepted, refused, or refused after its id
was taken. -/
theorem handleFrame_cases {t : DebugTransport} (parse : List UInt8 → Option Json)
    (render : Json → String) (bytes : List UInt8) (g n : Nat) :
    (∃ request : WireRequest, request.token = ⟨n, g⟩ ∧
        (frameId parse bytes).bind (trackableId render) = trackableId render request.id ∧
        (∀ k, trackableId render request.id = some k → k ∉ t.activeIds) ∧
        t.handleFrame parse render bytes g n =
          ({ t with
            activeIds := t.activeIds ++ (trackableId render request.id).toList
            inbox := t.inbox ++ [request] }, true)) ∨
      ∃ r ids, r.origin = none ∧ r.generation = g ∧ (∃ id, r.body.get "id" = some id) ∧
        (∀ k ∈ t.activeIds, k ∈ ids) ∧
        (∀ k ∈ ids, k ∉ t.activeIds → maxInboxRequests ≤ t.inbox.length ∧
          (frameId parse bytes).bind (trackableId render) = some k ∧
            responseKey render r = some k) ∧
        t.handleFrame parse render bytes g n =
          (DebugTransport.pushResponse { t with activeIds := ids } r, false) := by
  unfold DebugTransport.handleFrame
  cases hparse : parse bytes with
  | none =>
    exact .inr ⟨_, t.activeIds, rfl, rfl, ⟨_, errorBody_id _⟩, fun _ hk => hk,
      fun _ hk hnot => absurd hk hnot, rfl⟩
  | some value =>
    cases henvelope : envelope value with
    | error reply =>
      simp only [henvelope]
      exact .inr ⟨_, t.activeIds, rfl, rfl, ⟨_, errorBody_id _⟩, fun _ hk => hk,
        fun _ hk hnot => absurd hk hnot, rfl⟩
    | ok parts =>
      obtain ⟨id, method, params⟩ := parts
      have hframe : (frameId parse bytes).bind (trackableId render) = trackableId render id := by
        simp [frameId, hparse, henvelope, Except.toOption]
      simp only [henvelope]
      split
      · exact .inr ⟨_, t.activeIds, rfl, rfl, ⟨_, errorBody_id _⟩, fun _ hk => hk,
          fun _ hk hnot => absurd hk hnot, rfl⟩
      next hfresh =>
      have hnot : ∀ k, trackableId render id = some k → k ∉ t.activeIds := fun k hk hmem => by
        simp [hk, hmem] at hfresh
      split
      · next hfull =>
        refine .inr
          ⟨_, t.activeIds ++ (trackableId render id).toList, rfl, rfl, ⟨_, errorBody_id _⟩,
          fun _ hk => List.mem_append_left _ hk, fun k hk hmem => ⟨hfull, ?_, ?_⟩, rfl⟩
        · rw [hframe]
          exact Option.mem_toList.mp ((List.mem_append.mp hk).resolve_left hmem)
        · exact Option.mem_toList.mp ((List.mem_append.mp hk).resolve_left hmem)
      · exact .inl ⟨⟨n, id, method, params, g⟩, rfl, hframe, hnot, rfl⟩

/-- The number of the next request may get any key. -/
theorem IdsInv.rekey {c : Conversation P} (h : IdsInv render c) (key : Option String) :
    IdsInv render ⟨c.session, Function.update c.key c.session.nextSerial key⟩ := by
  have hkey : ∀ tok ∈ c.session.accepted,
      Function.update c.key c.session.nextSerial key tok.serial = c.key tok.serial :=
    fun tok htok => Function.update_of_ne (Nat.ne_of_lt (h.base.accepted tok htok).1) _ _
  exact
    { h with
      carried := fun tok id hholds => by
        obtain ⟨p, hp⟩ := hholds.held
        rw [h.carried tok id hholds]
        exact (hkey tok (h.base.accounted.known_of_mem hp)).symm
      unique := fun tok tok' k htok htok' hk hk' => by
        exact h.unique tok tok' k htok htok' ((hkey tok htok.accepted).symm.trans hk)
          ((hkey tok' htok'.accepted).symm.trans hk')
      covered := fun g hg tok k htok hk =>
        h.covered g hg tok k htok ((hkey tok htok.accepted).symm.trans hk)
      backed := fun g hg k hk => (h.backed g hg k hk).imp_left fun ⟨tok, htok, htokKey⟩ =>
        ⟨tok, htok, (hkey tok htok.accepted).trans htokKey⟩ }

theorem IdsInv.accepts {c : Conversation P} {request : WireRequest} (h : IdsInv render c)
    (hw : c.session.worker = .reading g) (htok : request.token = ⟨c.session.nextSerial, g⟩)
    (hkey : c.key c.session.nextSerial = trackableId render request.id)
    (hnot : ∀ k, trackableId render request.id = some k → k ∉ c.session.transport.activeIds)
    {s' : Session P}
    (hs' : s' = { c.session with
      transport := { c.session.transport with
        activeIds := c.session.transport.activeIds ++ (trackableId render request.id).toList
        inbox := c.session.transport.inbox ++ [request] }
      worker := .drain g
      nextSerial := c.session.nextSerial + 1
      accepted := ⟨c.session.nextSerial, g⟩ :: c.session.accepted })
    (hbase : Inv False s') : IdsInv render ⟨s', c.key⟩ := by
  subst hs'
  have hserves : c.session.worker.serves = some g := by rw [hw]; rfl
  have hresponses : c.session.worker.responses = [] := by rw [hw]; rfl
  have hunknown : (⟨c.session.nextSerial, g⟩ : Token) ∉ c.session.accepted :=
    fun hmem => Nat.lt_irrefl _ (h.base.accepted _ hmem).1
  have hreading : ∀ r ∈ c.session.transport.outbox, r.origin ≠ none := fun r hr ho => by
    have hdrain := h.refusedOutbox r hr ho
    rw [hw] at hdrain
    cases hdrain
  -- the new request waits, and whatever waited before
  have hwaits : ∀ tok, Unanswered { c.session with
      transport := { c.session.transport with
        activeIds := c.session.transport.activeIds ++ (trackableId render request.id).toList
        inbox := c.session.transport.inbox ++ [request] }
      worker := .drain g
      nextSerial := c.session.nextSerial + 1
      accepted := ⟨c.session.nextSerial, g⟩ :: c.session.accepted } tok ↔
      Unanswered c.session tok ∨ tok = ⟨c.session.nextSerial, g⟩ := by
    intro tok
    constructor
    · rintro ⟨ha, hgen, hwr, hd, hc⟩
      rcases List.mem_cons.mp ha with rfl | ha
      · exact .inr rfl
      · exact .inl ⟨ha, hgen, hwr, hd, hc⟩
    · rintro (⟨ha, hgen, hwr, hd, hc⟩ | rfl)
      · exact ⟨List.mem_cons_of_mem _ ha, hgen, hwr, hd, hc⟩
      · have habsent : ∀ p, ⟨c.session.nextSerial, g⟩ ∉ c.session.held p :=
          fun p hp => hunknown (h.base.accounted.known_of_mem hp)
        refine ⟨List.mem_cons_self, h.base.worker g (by rw [hw]; rfl), fun k hk => ?_,
          habsent .dropped, habsent .cutOff⟩
        exact habsent (.written k)
          (List.mem_map.mpr ⟨(k, _), List.mem_filter.mpr ⟨hk, by simp⟩, rfl⟩)
  have hfresh : ∀ tok k, Unanswered c.session tok → c.key tok.serial = some k →
      c.key c.session.nextSerial ≠ some k := fun tok k htok hk hnew =>
    hnot k (hkey.symm.trans hnew) (h.covered g hserves tok k htok hk)
  exact
    { base := hbase
      carried := fun tok id hholds => by
        cases hholds with
        | transportInbox hr =>
          rcases List.mem_append.mp hr with hr | hr
          · exact h.carried _ _ (.transportInbox hr)
          · obtain rfl := List.mem_singleton.mp hr
            rw [htok]
            exact hkey.symm
        | routing hr => exact h.carried _ _ (.routing hr)
        | topicInbox hq => exact h.carried _ _ (.topicInbox hq)
        | inFlight hq => exact h.carried _ _ (.inFlight hq)
        | topicOutbox hr => exact h.carried _ _ (.topicOutbox hr)
        | returning hr => exact h.carried _ _ (.returning hr)
        | transportOutbox hr ht hid => exact h.carried _ _ (.transportOutbox hr ht hid)
        | writing hr => cases hr
      identified := fun r hr => h.identified r
        (List.mem_append_left _ ((List.mem_append.mp hr).resolve_right List.not_mem_nil))
      refusedOutbox := fun r hr ho => absurd ho (hreading r hr)
      refusedWriting := nofun
      fresh := fun g' hg => by rcases hg with hg | hg <;> cases hg
      unique := fun tok tok' k ht ht' hk hk' => by
        rcases (hwaits tok).mp ht with ht | rfl <;> rcases (hwaits tok').mp ht' with ht' | rfl
        · exact h.unique tok tok' k ht ht' hk hk'
        · exact absurd hk' (hfresh tok k ht hk)
        · exact absurd hk (hfresh tok' k ht' hk')
        · rfl
      covered := fun g' _ tok k ht hk => by
        rcases (hwaits tok).mp ht with ht | rfl
        · exact List.mem_append_left _ (h.covered g hserves tok k ht hk)
        · exact List.mem_append_right _ (Option.mem_toList.mpr (hkey.symm.trans hk))
      backed := fun g' _ k hk => by
        rcases List.mem_append.mp hk with hk | hk
        · rcases h.backed g hserves k hk with ⟨tok, ht, htk⟩ | ⟨r, hr, ho, -⟩
          · exact .inl ⟨tok, (hwaits tok).mpr (.inl ht), htk⟩
          · rw [hresponses, List.append_nil] at hr
            exact absurd ho (hreading r hr)
        · exact .inl ⟨_, (hwaits _).mpr (.inr rfl), hkey.trans (Option.mem_toList.mp hk)⟩ }

section

variable {parse : List UInt8 → Option Json} {render : Json → String} {views : List (TopicView P)}
  {c c' : Conversation P}

theorem converse_some (hs : converse parse render views c a = some c') :
    ∃ s', step parse render views c.session a = some s' ∧ c'.session = s' ∧
      ((∀ bytes, a ≠ .frame bytes) → c' = ⟨s', c.key⟩) := by
  obtain ⟨s', hstep, rfl⟩ := Option.map_eq_some_iff.mp hs
  refine ⟨s', hstep, ?_, fun hframe => ?_⟩
  · split <;> rfl
  · split
    · next bytes => exact absurd rfl (hframe bytes)
    · rfl

theorem IdsInv.frame (h : IdsInv render c) (hg : ReleasesOwn parse render views c (.frame bytes))
    (hs : converse parse render views c (.frame bytes) = some c') : IdsInv render c' := by
  obtain ⟨s', hstep, rfl⟩ := Option.map_eq_some_iff.mp hs
  have hbase : Inv False s' := h.base.step False.elim hstep
  have h' := h.rekey ((frameId parse bytes).bind (trackableId render))
  simp only [step] at hstep
  split at hstep
  · next g hw =>
    rcases handleFrame_cases parse render bytes g c.session.nextSerial with
      ⟨request, htok, hframe, hnot, heq⟩ | ⟨r, ids, ho, rfl, hid, hold, hnew, heq⟩
    · rw [heq] at hstep
      cases hstep
      refine h'.accepts hw htok ?_ hnot rfl hbase
      rw [← hframe]
      exact Function.update_self ..
    · rw [heq] at hstep
      cases hstep
      refine h'.refuses ids hw ho hid rfl hold (fun k hk hmem => ?_) hbase
      obtain ⟨hfull, hframe, hkey⟩ := hnew k hk hmem
      refine ⟨hkey, Nat.lt_of_not_le fun hout => hmem ?_⟩
      exact hg hout hfull r.generation k hw hframe
  · cases hstep

theorem IdsInv.step (h : IdsInv render c) (hg : ReleasesOwn parse render views c a)
    (hs : converse parse render views c a = some c') : IdsInv render c' := by
  obtain ⟨s', hstep, hsession, hc'⟩ := converse_some hs
  have hbase : Inv False s' := h.base.step False.elim hstep
  have hreading : ∀ w, c.session.worker = w → (∀ g, w ≠ .drain g) →
      ∀ r ∈ c.session.transport.outbox, r.origin ≠ none := fun w hw hne r hr ho =>
    hne r.generation (hw ▸ h.refusedOutbox r hr ho)
  cases a with
  | frame bytes => exact h.frame hg hs
  | worker =>
    rw [hc' (by simp)]
    exact h.workerStep hg hstep hbase
  | dispatch readings =>
    rw [hc' (by simp)]
    cases hstep
    exact h.dispatch hbase hg
  | handler i op =>
    rw [hc' (by simp)]
    obtain ⟨t, hrun, rfl⟩ := Option.map_eq_some_iff.mp hstep
    exact h.aside hbase (carries_handler hrun)
      ⟨⟨rfl, rfl, rfl, rfl, rfl⟩, rfl, rfl, fun _ _ => .rfl⟩
  | accept =>
    rw [hc' (by simp)]
    simp only [ShinySongTools.Debug.step] at hstep
    split at hstep <;> cases hstep
    next hw =>
    refine h.unserved hbase (carries_idle rfl rfl rfl rfl fun _ hr => hr) (fun t ht => ?_) rfl rfl
      (hreading _ hw (by simp))
    have hle := (h.base.accepted t ht.accepted).2
    have hgen : t.generation = c.session.transport.generation + 1 := ht.current
    omega
  | writeFails =>
    rw [hc' (by simp)]
    simp only [ShinySongTools.Debug.step] at hstep
    split at hstep
    · next g response rest hw =>
      split at hstep <;> cases hstep
      have htransport := releaseId_spec render c.session.transport response
      refine h.unserved hbase (carries_idle (by rw [htransport]) rfl rfl rfl fun r hr => ?_)
        (fun t ht => ⟨?_, rfl⟩) rfl rfl fun r hr => ?_
      · rwa [htransport] at hr
      · obtain ⟨ha, hgen, hwr, hd, hcut⟩ := ht
        rw [htransport] at hgen hd
        exact ⟨ha, hgen, hwr, hd, fun hmem => hcut (List.mem_append_right _ hmem)⟩
      · rw [htransport] at hr
        exact hreading _ hw (by simp) r hr
    · cases hstep
  | oversized =>
    rw [hc' (by simp)]
    simp only [ShinySongTools.Debug.step] at hstep
    split at hstep <;> cases hstep
    next g hw =>
    exact h.refuses (r := ⟨_, g, none⟩) c.session.transport.activeIds hw rfl
      ⟨_, errorBody_id _⟩ rfl (fun _ hk => hk) (fun _ hk hnot => absurd hk hnot) hbase
  | hangUp =>
    rw [hc' (by simp)]
    simp only [ShinySongTools.Debug.step] at hstep
    split at hstep <;> cases hstep
    next g hw =>
    refine h.unserved hbase (carries_idle rfl rfl rfl rfl fun _ hr => hr) (fun t ht => ?_) rfl rfl
      (hreading _ hw (by simp))
    exact ⟨⟨ht.accepted, ht.current, ht.notWritten, ht.notDropped, ht.notCutOff⟩, rfl⟩

theorem frameId_some (h : (frameId parse bytes).bind (trackableId render) = some k) :
    ∃ value id method params, parse bytes = some value ∧ envelope value = .ok (id, method, params) ∧
      trackableId render id = some k := by
  obtain ⟨id, hid, hk⟩ := Option.bind_eq_some_iff.mp h
  obtain ⟨value, hvalue, hid⟩ := Option.bind_eq_some_iff.mp hid
  cases henvelope : envelope value with
  | error reply => simp [henvelope, Except.toOption] at hid
  | ok parts =>
    obtain ⟨id', method, params⟩ := parts
    simp only [henvelope, Except.toOption, Option.map_some, Option.some.injEq] at hid
    subst hid
    exact ⟨value, id', method, params, hvalue, henvelope, hk⟩

/-- A step into a state that keeps ids releases its own. -/
theorem releasesOwn_of_kept (h : IdsInv render c) (hs : converse parse render views c a = some c')
    (hkept : IdsKept render c') : ReleasesOwn parse render views c a := by
  obtain ⟨s', hstep, hsession, hc'⟩ := converse_some hs
  cases a with
  | worker =>
    intro g r rest k hw hgen ho hk tok htok hkey
    rw [hc' (by simp)] at hkept
    obtain ⟨id, -, hid⟩ := Option.bind_eq_some_iff.mp hk
    have hnone : r.token = none := by rw [WireResponse.token, ho]; rfl
    have htransport := releaseId_spec render c.session.transport r
    simp only [step, workerStep, hw, hgen, ne_eq, not_true_eq_false, if_false, hnone,
      Option.some.injEq] at hstep
    subst hstep
    have hwaits : Unanswered { c.session with
        transport := c.session.transport.releaseId render r
        worker := .writing g rest
        written := [] ++ c.session.written } tok := by
      refine ⟨htok.accepted, ?_, htok.notWritten, ?_, htok.notCutOff⟩
      · rw [htransport]
        exact htok.current
      · rw [htransport]
        exact htok.notDropped
    have hmem := mem_of_refused hid
      (hkept.refused g rfl tok k hwaits hkey _ id _ _ (envelope_asking id) hid 0)
    exact (mem_releaseId.mp hmem).2 hk
  | frame bytes =>
    intro hout hfull g k hw hframe
    by_contra hnot
    obtain ⟨value, id, method, params, hvalue, henvelope, hk⟩ := frameId_some hframe
    obtain ⟨s₁, hstep₁, rfl⟩ := Option.map_eq_some_iff.mp hs
    have hframe' := handleFrame_eq (t := c.session.transport) (g := g) (n := c.session.nextSerial)
      hvalue henvelope hk
    rw [if_neg hnot, if_pos hfull] at hframe'
    simp only [step, hw, hframe', Option.some.injEq] at hstep₁
    subst hstep₁
    have hpush : DebugTransport.respondError
        { c.session.transport with activeIds := c.session.transport.activeIds ++ [k] }
        (inboxFull id) g none =
        { c.session.transport with activeIds := c.session.transport.activeIds ++ [k] } :=
      if_pos hout
    refine not_mem_of_accepted hk (hkept.accepted g rfl k ?_ _ id _ _ (envelope_asking id) hk 0) ?_
    · rintro (⟨tok, htok, hkey⟩ | ⟨r, hr, ho, -⟩)
      · rw [hpush] at htok
        have hwaits : Unanswered c.session tok :=
          ⟨htok.accepted, htok.current, htok.notWritten, htok.notDropped, htok.notCutOff⟩
        have hserial := Nat.ne_of_lt (h.base.accepted tok hwaits.accepted).1
        have hkey' := (Function.update_of_ne hserial _ c.key).symm.trans hkey
        exact hnot (h.covered g (by rw [hw]; rfl) tok k hwaits hkey')
      · rw [hpush] at hr
        have hr' : r ∈ c.session.transport.outbox :=
          (List.mem_append.mp hr).resolve_right List.not_mem_nil
        have hdrain := h.refusedOutbox r hr' ho
        rw [hw] at hdrain
        cases hdrain
    · rw [hpush]
      exact List.mem_append_right _ (List.mem_singleton_self k)
  | dispatch readings =>
    intro hout g tok k hserves hanswers htok hkey
    by_contra hnot
    rw [hc' (by simp)] at hkept
    cases hstep
    obtain ⟨hids, houtbox, hworker, hleft⟩ := dropped_dispatch hout hanswers
    obtain ⟨-, -, -, -, hcase⟩ :=
      @dispatch_effect P views c.session readings
    rcases hcase with ⟨hnone, -⟩ | ⟨tok', r, id, hanswers', -, -, hholds, -⟩
    · cases hnone.symm.trans hanswers
    cases hanswers'.symm.trans hanswers
    have hid : trackableId render id = some k := (h.carried tok id hholds).trans hkey
    refine not_mem_of_accepted hid (hkept.accepted g (hworker ▸ hserves) k ?_ _ id _ _
      (envelope_asking id) hid 0) ?_
    · rintro (⟨t, ht, htk⟩ | ⟨r', hr', ho, hrk⟩)
      · obtain ⟨ht, hne⟩ := (hleft t).mp ht
        exact hne (h.unique t tok k ht htok htk hkey)
      · simp only [houtbox, hworker] at hr'
        exact hnot ⟨r', hr', ho, hrk⟩
    · simp only [hids]
      exact h.covered g hserves tok k htok hkey
  | _ => trivial

end

/-- Ids are unique and become reusable throughout a run exactly if each step
releases its own. -/
theorem idsKept_iff (parse : List UInt8 → Option Json) (render : Json → String)
    (views : List (TopicView P)) (as : List Action) :
    Machine.Always (converse parse render views) (IdsKept render) .init as ↔
      Machine.Each (converse parse render views) (ReleasesOwn parse render views) .init as :=
  Machine.always_iff_each (fun _ => IdsInv.kept) (fun _ _ _ h hg hs => h.step hg hs)
    (fun _ _ _ h hs hk => releasesOwn_of_kept h hs hk) IdsInv.init

/-- A client sends a request, then another one with the same id, and the
refusal of the second is written. -/
def asksTwice : List Action :=
  [.accept, .worker, .worker, .worker, .worker, .frame [], .worker, .worker, .frame [], .worker,
    .worker]

theorem refusal_releases_id :
    ¬ ∀ as, Machine.Always
      (converse (fun _ => some pingFrame) (fun _ => "1") ([] : List (TopicView Unit)))
      (IdsKept fun _ => "1") .init as := by
  intro h
  have hkept := (h asksTwice).exec rfl
  have hone : trackableId (fun _ => "1") (.num "1") = some "1" := rfl
  refine absurd (mem_of_refused hone (hkept.refused 1 rfl ⟨0, 1⟩ "1"
    ⟨?_, rfl, fun g => List.not_mem_nil, ?_, ?_⟩ rfl _ (.num "1") _ _ (envelope_asking _) rfl 0)) ?_
  · decide
  · decide
  · decide
  · decide

end ShinySongTools.Debug
