import ShinySongTools.Runtime.CommandDrain

/-!
# Bounded routes lose nothing

What a bounded callback→main route has written into its receiver, followed by
what it still holds, is what was accepted on it.
-/

namespace ShinySongTools.Runtime

variable {T : Type u} {V : T → Type v} {M : Type w}

def Send.accepted (c : Send M) : Bool :=
  match c.outcome with
  | .ok .accepted => true
  | _ => false

namespace DrainState

def acceptedOn (s : DrainState V M) (i : Nat) : List (Sent M) :=
  (s.sends.filter fun c => c.route = i && c.accepted).map (·.sent)

def deliveredOn (s : DrainState V M) (i : Nat) : List (Sent M) :=
  (s.delivered.filter fun d => d.route = i).map (·.sent)

/-- Since the stage of this pass began, nobody has called `try_send` on it. -/
def Quiet (s : DrainState V M) (i : Nat) : Prop :=
  ∀ c ∈ s.sends, c.route = i → c.sent.call < s.stageEntry

def Bounded (s : DrainState V M) (i : Nat) : Prop :=
  ∀ m, s.mailbox i = some m → m.isBounded = true

variable [DecidableEq T]

def writtenTo (s : DrainState V M) (r : Receiver T) : List (Sent M) :=
  (s.delivered.filter fun d => d.receiver = r).map (·.sent)

structure Conserved (s : DrainState V M) : Prop where
  order : ∀ i N q, s.mailbox i = some (.bounded N q) →
    s.deliveredOn i ++ q.queue = s.acceptedOn i
  once : (s.sends.map (·.sent.call)).Nodup
  full : ∀ c ∈ s.sends, c.outcome = .ok .full → ∀ d ∈ s.delivered, d.sent.call ≠ c.sent.call
  emptied : ∀ i N q owners, s.main = .updating owners → s.activeRoute i = true → s.Quiet i →
    s.mailbox i = some (.bounded N q) → q.queue = []
  kept : ∀ r messages, s.receivers r = some messages → messages.held <:+ s.writtenTo r

/-- A step delivers nothing of a route whose owner is retired. -/
def RetiredSilent (s : DrainState V M) (a : DrainAction V M) : Prop :=
  ∀ i e s', s.routes[i]? = some e → s.isActive e.owner = false → s.step a = some s' →
    s'.deliveredOn i = s.deliveredOn i

variable {s s' : DrainState V M} {a : DrainAction V M} {m m' : Mailbox (Sent M)}

-- ---------------------------------------------------------------------------
-- Registrations
-- ---------------------------------------------------------------------------

omit [DecidableEq T] in
theorem mailbox_length (s : DrainState V M) : s.mailbox s.routes.length = none := by
  simp [mailbox]

omit [DecidableEq T] in
theorem held_drain {r : RouteRegistration T} {m : Mailbox M} (h : r.drain = some m) :
    m.held = [] := by
  obtain ⟨direction, payload, semantics⟩ := r
  cases direction with
  | mainToCallback => cases h
  | callbackToMain =>
    cases h
    cases semantics <;> rfl

section Register

variable {owner : Nat} {r : RouteRegistration T}

theorem mailbox_registerRoute (j : Nat) :
    (registerRoute owner s r).mailbox j =
      if j = s.routes.length then r.drain else s.mailbox j := by
  simp only [mailbox, registerRoute]
  split
  · next hj =>
    subst hj
    rw [List.getElem?_concat_length]
    rfl
  · next hj =>
    rcases Nat.lt_or_gt_of_ne hj with hlt | hgt
    · rw [List.getElem?_append_left hlt]
    · rw [List.getElem?_eq_none (by simp; omega), List.getElem?_eq_none (by omega)]

theorem heldOn_registerRoute (j : Nat) : (registerRoute owner s r).heldOn j = s.heldOn j := by
  by_cases hj : j = s.routes.length
  · subst hj
    have hnew : (registerRoute owner s r).mailbox s.routes.length = _ :=
      mailbox_registerRoute s.routes.length
    rw [if_pos rfl] at hnew
    rw [heldOn_eq_nil (mailbox_length s)]
    cases hr : (r.drain : Option (Mailbox (Sent M))) with
    | none => exact heldOn_eq_nil (hnew.trans hr)
    | some m => exact (heldOn_eq (hnew.trans hr)).trans (held_drain hr)
  · simp only [heldOn, mailbox_registerRoute, hj, if_false]

theorem Bounded.registerRoute (h : (registerRoute owner s r).Bounded j) : s.Bounded j := by
  intro m hm
  refine h m ((mailbox_registerRoute j).trans ?_)
  split
  · next hj =>
    subst hj
    rw [mailbox_length] at hm
    cases hm
  · exact hm

theorem Ready.registerRoute (h : Ready s) : Ready (registerRoute owner s r) := by
  intro e he hdrain
  rcases List.mem_append.mp he with he | he
  · obtain ⟨messages, hreceiver⟩ := Option.isSome_iff_exists.mp (h e he hdrain)
    simp only [DrainState.registerRoute]
    split
    · by_cases hr : e.receiver = r.receiver
      · simp [hr]
      · simp [hr, hreceiver]
    · simp [hreceiver]
  · obtain rfl := List.mem_singleton.mp he
    obtain ⟨direction, payload, semantics⟩ := r
    cases direction with
    | mainToCallback => cases hdrain
    | callbackToMain =>
      simp only [DrainState.registerRoute, RouteRegistration.entry]
      split
      · simp
      · next hsome =>
        exact Option.isSome_iff_ne_none.mpr fun hnone => hsome ⟨trivial, hnone⟩

theorem foldl_registerRoute {P : DrainState V M → Prop}
    (hstep : ∀ s r, P s → P (registerRoute owner s r)) (h : P s)
    (routes : List (RouteRegistration T)) : P (routes.foldl (registerRoute owner) s) := by
  induction routes generalizing s with
  | nil => exact h
  | cons r routes ih => exact ih (hstep s r h)

end Register

-- ---------------------------------------------------------------------------
-- The records of sends and deliveries
-- ---------------------------------------------------------------------------

omit [DecidableEq T] in
theorem Ready.setMailbox (h : Ready s) (hm : s.mailbox i = some m) :
    Ready (s.setMailbox i m') := by
  intro e he hdrain
  obtain ⟨j, hj⟩ := List.mem_iff_getElem?.mp he
  rw [DrainState.setMailbox, List.getElem?_modify] at hj
  obtain ⟨old, hold, rfl⟩ := Option.map_eq_some_iff.mp hj
  by_cases hji : i = j
  · obtain ⟨e, he, hdrain⟩ := mailbox_eq_some.mp hm
    obtain rfl := Option.some.inj ((hji ▸ hold).symm.trans he)
    have hsome := h old (List.mem_of_getElem? hold) (by simp [hdrain])
    simp only [hji, if_true]
    exact hsome
  · simp only [hji, if_false] at hdrain ⊢
    exact h old (List.mem_of_getElem? hold) hdrain

omit [DecidableEq T] in
theorem Ready.update (h : Ready s) {receivers : Receiver T → Option (Messages (Sent M))}
    (hr : ∀ r, (s.receivers r).isSome → (receivers r).isSome) : Ready { s with receivers } :=
  fun e he hdrain => hr _ (h e he hdrain)

structure Logged (s : DrainState V M) : Prop where
  ready : Ready s
  entry : s.stageEntry ≤ s.sends.length
  calls : s.sends.map (·.sent.call) = List.range s.sends.length
  held : ∀ i, ∀ x ∈ s.heldOn i, ∃ c ∈ s.sends, c.route = i ∧ c.sent = x ∧ c.stored = true
  delivered : ∀ d ∈ s.delivered, ∃ c ∈ s.sends,
    c.route = d.route ∧ c.sent = d.sent ∧ c.stored = true
  kept : ∀ r messages, s.receivers r = some messages → messages.held <:+ s.writtenTo r

theorem Logged.init : Logged (DrainState.init : DrainState V M) where
  ready := nofun
  entry := Nat.le_refl _
  calls := rfl
  held i x hx := by simp [heldOn, mailbox, DrainState.init] at hx
  delivered := nofun
  kept := nofun

theorem Logged.registerRoute {owner : Nat} (h : Logged s) (r : RouteRegistration T) :
    Logged (registerRoute owner s r) where
  ready := h.ready.registerRoute
  entry := h.entry
  calls := h.calls
  held i x hx := by
    rw [heldOn_registerRoute] at hx
    exact h.held i x hx
  delivered := h.delivered
  kept r' messages hr' := by
    simp only [DrainState.registerRoute] at hr'
    split at hr'
    · by_cases hrr : r' = r.receiver
      · subst hrr
        rw [Function.update_self] at hr'
        cases hr'
        exact List.nil_suffix
      · rw [Function.update_of_ne hrr] at hr'
        exact h.kept r' messages hr'
    · exact h.kept r' messages hr'

/-- What a mailbox holds after a step, if nothing new came in. -/
theorem Logged.setMailbox (h : Logged s) (hm : s.mailbox i = some m)
    (hsub : ∀ x ∈ m'.held, x ∈ m.held) : Logged (s.setMailbox i m') where
  ready := h.ready.setMailbox hm
  entry := h.entry
  calls := h.calls
  held j x hx := by
    rw [heldOn_setMailbox hm] at hx
    split at hx
    · next hj =>
      subst hj
      exact h.held j x (heldOn_eq hm ▸ hsub x hx)
    · exact h.held j x hx
  delivered := h.delivered
  kept := h.kept

theorem Logged.deliver (h : Logged s) (hr : s.receivers receiver = some messages)
    (hsent : ∃ c ∈ s.sends, c.route = i ∧ c.sent = sent ∧ c.stored = true) :
    Logged { s with
      receivers := Function.update s.receivers receiver (some (messages.write sent))
      delivered := s.delivered ++ [⟨receiver, i, sent, s.passes⟩] } where
  ready := h.ready.update fun r hsome => by
    by_cases hrr : r = receiver
    · simp [hrr]
    · simpa [hrr] using hsome
  entry := h.entry
  calls := h.calls
  held := h.held
  delivered d hd := by
    rcases List.mem_append.mp hd with hd | hd
    · exact h.delivered d hd
    · obtain rfl := List.mem_singleton.mp hd
      exact hsent
  kept r messages' hr' := by
    dsimp only at hr'
    by_cases hrr : r = receiver
    · subst hrr
      rw [Function.update_self] at hr'
      cases hr'
      obtain ⟨gone, hgone⟩ := h.kept r messages hr
      refine ⟨gone, ?_⟩
      simp only [writtenTo, List.filter_append, List.map_append] at hgone ⊢
      simp [← hgone, Messages.held_write]
    · rw [Function.update_of_ne hrr] at hr'
      have hkept := h.kept r messages' hr'
      simpa [writtenTo, Ne.symm hrr] using hkept

theorem Logged.send (h : Logged s) (hm : s.mailbox i = some m)
    (hs : m.Sends ⟨s.sends.length, value⟩ outcome m') (overwritten : List (Nat × Sent M)) :
    Logged { s.setMailbox i m' with
      sends := s.sends ++ [⟨i, ⟨s.sends.length, value⟩, outcome⟩], overwritten } where
  ready := h.ready.setMailbox hm
  entry := Nat.le_trans h.entry (by simp)
  calls := by simp [h.calls, List.range_succ]
  held j x hx := by
    have hold : ∀ {j x}, x ∈ s.heldOn j → ∃ c ∈ s.sends ++ [⟨i, ⟨s.sends.length, value⟩, outcome⟩],
        c.route = j ∧ c.sent = x ∧ c.stored = true := fun hx => by
      obtain ⟨c, hc, hstored⟩ := h.held _ _ hx
      exact ⟨c, List.mem_append_left _ hc, hstored⟩
    change x ∈ (s.setMailbox i m').heldOn j at hx
    rw [heldOn_setMailbox hm] at hx
    split at hx
    · next hj =>
      subst hj
      cases hs with
      | queued hheld _ =>
        rcases List.mem_append.mp (hheld ▸ hx) with hx | hx
        · exact hold (heldOn_eq hm ▸ hx)
        · exact ⟨_, List.mem_append_right _ List.mem_cons_self, rfl,
            (List.mem_singleton.mp hx).symm, rfl⟩
      | replaced _ hheld _ =>
        exact ⟨_, List.mem_append_right _ List.mem_cons_self, rfl,
          (List.mem_singleton.mp (hheld ▸ hx)).symm, rfl⟩
      | full | busy => exact hold (heldOn_eq hm ▸ hx)
    · exact hold hx
  delivered d hd := by
    obtain ⟨c, hc, hstored⟩ := h.delivered d hd
    exact ⟨c, List.mem_append_left _ hc, hstored⟩
  kept := h.kept

theorem Logged.step (h : Logged s) (hs : s.step a = some s') : Logged s' := by
  cases stepped h.ready hs with
  | outside run hmain => exact ⟨h.ready, h.entry, h.calls, h.held, h.delivered, h.kept⟩
  | registered run routes hmain =>
    refine foldl_registerRoute (fun s r hs => hs.registerRoute r) ?_ routes
    exact ⟨h.ready, h.entry, h.calls, h.held, h.delivered, h.kept⟩
  | began hmain =>
    refine ⟨fun e he hdrain => by simpa using h.ready e he hdrain, Nat.le_refl _, h.calls, h.held,
      h.delivered, ?_⟩
    intro r messages hr
    obtain ⟨old, hold, rfl⟩ := Option.map_eq_some_iff.mp hr
    split
    · exact old.held_update.trans (h.kept r old hold)
    · exact h.kept r old hold
  | watermark | skipped | drained | updated | returned =>
    exact ⟨h.ready, h.entry, h.calls, h.held, h.delivered, h.kept⟩
  | took hmain hm htakes hreceiver =>
    have hhead : _ ∈ s.heldOn _ := heldOn_eq hm ▸ htakes.mem
    have hlogged := (h.setMailbox hm htakes.subset).deliver hreceiver (h.held _ _ hhead)
    exact ⟨hlogged.ready, hlogged.entry, hlogged.calls, hlogged.held, hlogged.delivered,
      hlogged.kept⟩
  | missed hmain hm htakes =>
    have hlogged := h.setMailbox hm htakes.subset
    exact ⟨hlogged.ready, hlogged.entry, hlogged.calls, hlogged.held, hlogged.delivered,
      hlogged.kept⟩
  | sent hm hsends => exact h.send hm hsends _
  | poisoned hm => exact h.setMailbox hm fun x hx => by simpa using hx

-- ---------------------------------------------------------------------------
-- Order
-- ---------------------------------------------------------------------------

section

omit [DecidableEq T]

theorem bounded_setMailbox (hm : s.mailbox i = some m) (hkind : m'.isBounded = m.isBounded) :
    (s.setMailbox i m').Bounded j ↔ s.Bounded j := by
  simp only [Bounded, mailbox_setMailbox hm]
  split
  · next hj =>
    subst hj
    simp [hm, hkind]
  · rfl

theorem acceptedOn_send (s : DrainState V M) (c : Send M) (j : Nat) :
    ({ s with sends := s.sends ++ [c] } : DrainState V M).acceptedOn j =
      s.acceptedOn j ++ if c.route = j && c.accepted then [c.sent] else [] := by
  simp only [acceptedOn, List.filter_append, List.map_append, List.filter_cons, List.filter_nil]
  split <;> rfl

theorem deliveredOn_deliver (s : DrainState V M) (d : Delivery T M) (j : Nat) :
    ({ s with delivered := s.delivered ++ [d] } : DrainState V M).deliveredOn j =
      s.deliveredOn j ++ if d.route = j then [d.sent] else [] := by
  simp only [deliveredOn, List.filter_append, List.map_append, List.filter_cons, List.filter_nil]
  by_cases hd : d.route = j <;> simp [hd]

def Ordered (s : DrainState V M) : Prop :=
  ∀ i, s.Bounded i → s.deliveredOn i ++ s.heldOn i = s.acceptedOn i

theorem Ordered.setMailbox (h : Ordered s) (hm : s.mailbox i = some m) (hheld : m'.held = m.held)
    (hkind : m'.isBounded = m.isBounded) : Ordered (s.setMailbox i m') := by
  intro j hj
  have hold := h j ((bounded_setMailbox hm hkind).mp hj)
  change s.deliveredOn j ++ (s.setMailbox i m').heldOn j = s.acceptedOn j
  rw [← hold, heldOn_setMailbox hm]
  split
  · next hji =>
    subst hji
    rw [hheld, heldOn_eq hm]
  · rfl

theorem Ordered.send (h : Ordered s) (hm : s.mailbox i = some m) (hs : m.Sends sent outcome m')
    (overwritten : List (Nat × Sent M)) :
    Ordered { s.setMailbox i m' with sends := s.sends ++ [⟨i, sent, outcome⟩], overwritten } := by
  have hkind : m'.isBounded = m.isBounded := by
    cases hs with
    | queued _ hkind | replaced _ _ hkind => exact hkind
    | full | busy => rfl
  intro j hj
  have hbounded : s.Bounded j := (bounded_setMailbox hm hkind).mp hj
  have hold := h j hbounded
  change s.deliveredOn j ++ (s.setMailbox i m').heldOn j =
    ({ s with sends := s.sends ++ [⟨i, sent, outcome⟩] } : DrainState V M).acceptedOn j
  rw [acceptedOn_send, ← hold, heldOn_setMailbox hm, List.append_assoc]
  congr 1
  by_cases hji : j = i
  · subst hji
    rw [if_pos rfl, heldOn_eq hm]
    cases hs with
    | queued hheld _ => simp [hheld, Send.accepted]
    | replaced hlatest _ _ => cases (hbounded m hm).symm.trans hlatest
    | full | busy => simp [Send.accepted]
  · simp [hji, Ne.symm hji]

theorem Ordered.took (h : Ordered s) (hm : s.mailbox i = some m)
    (htakes : m.Takes contended (some sent) m') (d : Delivery T M) (hroute : d.route = i)
    (hsent : d.sent = sent) :
    Ordered { s.setMailbox i m' with delivered := s.delivered ++ [d] } := by
  cases htakes with
  | taken hheld hkind _ =>
    intro j hj
    have hold := h j ((bounded_setMailbox hm hkind).mp hj)
    change ({ s with delivered := s.delivered ++ [d] } : DrainState V M).deliveredOn j ++
      (s.setMailbox i m').heldOn j = s.acceptedOn j
    rw [deliveredOn_deliver, ← hold, heldOn_setMailbox hm, List.append_assoc]
    congr 1
    by_cases hji : j = i
    · subst hji
      simp [hroute, hsent, heldOn_eq hm, hheld]
    · simp [hroute, hji, Ne.symm hji]

theorem Ordered.missed (h : Ordered s) (hm : s.mailbox i = some m)
    (htakes : m.Takes contended none m') : Ordered (s.setMailbox i m') := by
  cases htakes with
  | empty hheld hheld' hkind => exact h.setMailbox hm (hheld'.trans hheld.symm) hkind
  | busy => exact h.setMailbox hm rfl rfl

end

theorem Ordered.step (hl : Logged s) (h : Ordered s) (hs : s.step a = some s') : Ordered s' := by
  cases stepped hl.ready hs with
  | outside run hmain => exact h
  | registered run routes hmain =>
    refine foldl_registerRoute (fun s r hs i hi => ?_) ?_ routes
    · rw [heldOn_registerRoute]
      exact hs i hi.registerRoute
    · exact h
  | began | watermark | skipped | drained | updated | returned => exact h
  | took hmain hm htakes hreceiver => exact h.took hm htakes _ rfl rfl
  | missed hmain hm htakes => exact h.missed hm htakes
  | sent hm hsends => exact h.send hm hsends _
  | poisoned hm => exact h.setMailbox hm (Mailbox.held_poison _) (Mailbox.isBounded_poison _)

-- ---------------------------------------------------------------------------
-- The stage
-- ---------------------------------------------------------------------------

section

omit [DecidableEq T]

theorem runUpdateSystems_state (frame : Nat) (systems : List (UpdateSystem V)) (index : Nat)
    (s : Scope V) :
    (Scope.runUpdateSystems frame systems index s).1.record.state = s.record.state := by
  induction systems generalizing index s with
  | nil => rfl
  | cons system rest ih =>
    simp only [Scope.runUpdateSystems]
    split
    · exact ih (index + 1) _
    · rfl
    · rfl

/-- Update systems do not bring an owner back. -/
theorem active_of_runUpdate (frame : Nat) (s : Scope V)
    (h : (s.runUpdate frame).record.state = .active) : s.record.state = .active := by
  have hstate := runUpdateSystems_state frame s.record.update 0 s
  unfold Scope.runUpdate at h
  split at h
  · next hrun =>
    rw [hrun] at hstate
    exact hstate.symm.trans h
  · simp [Scope.updateRetire, Scope.retire, Scope.log] at h

theorem isActive_of_withOwner {app : App V} (frame : Nat)
    (h : (app.withOwner owner (Scope.runUpdate frame)).isActive o = true) :
    app.isActive o = true := by
  obtain ⟨r', hr', hactive⟩ := isActive_iff.mp h
  by_cases ho : o = owner
  · subst ho
    cases hr : app.records[o]? with
    | none =>
      rw [App.withOwner, hr] at hr'
      exact isActive_iff.mpr ⟨r', hr', hactive⟩
    | some r =>
      obtain rfl := Option.some.inj ((withOwner_self hr _).symm.trans hr')
      exact isActive_iff.mpr ⟨r, hr, active_of_runUpdate frame ⟨app.world, r⟩ hactive⟩
  · exact isActive_iff.mpr ⟨r', (withOwner_other ho _).symm.trans hr', hactive⟩

theorem activeRoute_iff :
    s.activeRoute i = true ↔ ∃ e, s.routes[i]? = some e ∧ e.direction = .callbackToMain ∧
      s.isActive e.owner = true ∧ e.drain.isSome = true := by
  unfold activeRoute
  split <;> simp [*, and_assoc]

theorem mem_activeDrains : i ∈ s.activeDrains ↔ s.activeRoute i = true := by
  rw [activeDrains, List.mem_filter, List.mem_range]
  refine ⟨And.right, fun h => ⟨?_, h⟩⟩
  obtain ⟨e, he, -⟩ := activeRoute_iff.mp h
  exact (List.getElem?_eq_some_iff.mp he).1

end

end DrainState

/-- The routes the stage has still to do with. -/
def MainPc.due : MainPc → List Nat
  | .reading drains _ => drains
  | .draining i _ drains _ => i :: drains
  | .outside | .updating _ => []

/-- What the stage has left of a route nobody sends on. -/
def MainPc.Leaves (i : Nat) (held : List α) : MainPc → Prop
  | .outside => True
  | .reading drains _ => i ∈ drains ∨ held = []
  | .draining j left drains _ => i ∈ drains ∨ (i = j ∧ held.length = left) ∨ held = []
  | .updating _ => held = []

namespace DrainState

variable {s s' : DrainState V M} {a : DrainAction V M} {m m' : Mailbox (Sent M)}

structure Staged (s : DrainState V M) : Prop where
  active : ∀ i ∈ s.main.due, s.activeRoute i = true
  leaves : ∀ i, s.activeRoute i = true → s.Bounded i → s.Quiet i → s.main.Leaves i (s.heldOn i)

theorem Staged.of_outside (h : s.main = .outside) : Staged s where
  active i hi := by
    rw [h] at hi
    cases hi
  leaves i _ _ _ := by
    rw [h]
    trivial

theorem Staged.setMailbox (h : Staged s) (hm : s.mailbox i = some m) (hheld : m'.held = m.held)
    (hkind : m'.isBounded = m.isBounded) : Staged (s.setMailbox i m') where
  active j hj := (activeRoute_setMailbox hm m' j).trans (h.active j hj)
  leaves j hj hbounded hquiet := by
    have hold := h.leaves j ((activeRoute_setMailbox hm m' j).symm.trans hj)
      ((bounded_setMailbox hm hkind).mp hbounded) hquiet
    have hsame : (s.setMailbox i m').heldOn j = s.heldOn j := by
      rw [heldOn_setMailbox hm]
      split
      · next hji =>
        subst hji
        rw [hheld, heldOn_eq hm]
      · rfl
    rw [hsame]
    exact hold

theorem Staged.missed (h : Staged s) (hmain : s.main = .draining i left drains owners)
    (hm : s.mailbox i = some m) (htakes : m.Takes contended none m') :
    Staged { s.setMailbox i m' with main := .reading drains owners } where
  active j hj := (activeRoute_setMailbox hm m' j).trans
    (h.active j (by rw [hmain]; exact List.mem_cons_of_mem _ hj))
  leaves j hj hbounded hquiet := by
    have hkind : m'.isBounded = m.isBounded := by
      cases htakes with
      | empty _ _ hkind => exact hkind
      | busy => rfl
    have hboundedOld : s.Bounded j := (bounded_setMailbox hm hkind).mp hbounded
    have hold := h.leaves j ((activeRoute_setMailbox hm m' j).symm.trans hj) hboundedOld hquiet
    rw [hmain] at hold
    change j ∈ drains ∨ (s.setMailbox i m').heldOn j = []
    rw [heldOn_setMailbox hm]
    by_cases hji : j = i
    · subst hji
      rw [if_pos rfl]
      cases htakes with
      | empty _ hheld _ => exact .inr hheld
      | busy slot _ hshared =>
        subst hshared
        cases hboundedOld _ hm
    · rw [if_neg hji]
      obtain hmem | ⟨rfl, -⟩ | hnil := hold
      · exact .inl hmem
      · exact absurd rfl hji
      · exact .inr hnil

theorem Staged.send (hentry : s.stageEntry ≤ s.sends.length) (h : Staged s)
    (hm : s.mailbox i = some m) (hs : m.Sends ⟨s.sends.length, value⟩ outcome m')
    (overwritten : List (Nat × Sent M)) :
    Staged { s.setMailbox i m' with
      sends := s.sends ++ [⟨i, ⟨s.sends.length, value⟩, outcome⟩], overwritten } where
  active j hj := (activeRoute_setMailbox hm m' j).trans (h.active j hj)
  leaves j hj hbounded hquiet := by
    have hkind : m'.isBounded = m.isBounded := by
      cases hs with
      | queued _ hkind | replaced _ _ hkind => exact hkind
      | full | busy => rfl
    have hne : j ≠ i := by
      rintro rfl
      have hlate := hquiet _ (List.mem_append_right _ List.mem_cons_self) rfl
      exact Nat.lt_irrefl _ (Nat.lt_of_lt_of_le hlate hentry)
    have hold := h.leaves j ((activeRoute_setMailbox hm m' j).symm.trans hj)
      ((bounded_setMailbox hm hkind).mp hbounded)
      fun c hc => hquiet c (List.mem_append_left _ hc)
    change s.main.Leaves j ((s.setMailbox i m').heldOn j)
    rwa [heldOn_setMailbox hm, if_neg hne]

theorem Staged.took (h : Staged s) (hmain : s.main = .draining i left drains owners)
    (hm : s.mailbox i = some m) (htakes : m.Takes contended (some sent) m') :
    Staged { s.setMailbox i m' with main := .afterValue m.isBounded i left drains owners } := by
  cases htakes with
  | taken hheld hkind _ =>
    have hleaves : ∀ j, s.activeRoute j = true → s.Bounded j → s.Quiet j →
        j ∈ drains ∨ (j = i ∧ m'.held.length + 1 = left) ∨ j ≠ i ∧ s.heldOn j = [] := by
      intro j hj hbounded hquiet
      have hold := h.leaves j hj hbounded hquiet
      rw [hmain] at hold
      obtain hmem | ⟨rfl, hleft⟩ | hnil := hold
      · exact .inl hmem
      · rw [heldOn_eq hm, hheld] at hleft
        exact .inr (.inl ⟨rfl, hleft⟩)
      · refine .inr (.inr ⟨?_, hnil⟩)
        rintro rfl
        rw [heldOn_eq hm, hheld] at hnil
        cases hnil
    have hactive : ∀ j ∈ i :: drains, s.activeRoute j = true := fun j hj =>
      h.active j (by rw [hmain]; exact hj)
    constructor
    · intro j hj
      refine (activeRoute_setMailbox hm m' j).trans (hactive j ?_)
      dsimp only [MainPc.afterValue] at hj
      split at hj
      · exact hj
      · exact List.mem_cons_of_mem _ hj
    · intro j hj hbounded hquiet
      have hboundedOld : s.Bounded j := (bounded_setMailbox hm hkind).mp hbounded
      have hcase := hleaves j ((activeRoute_setMailbox hm m' j).symm.trans hj) hboundedOld hquiet
      change MainPc.Leaves j ((s.setMailbox i m').heldOn j) _
      rw [heldOn_setMailbox hm]
      dsimp only [MainPc.afterValue]
      obtain hmem | ⟨rfl, hleft⟩ | ⟨hne, hnil⟩ := hcase
      · split_ifs <;> exact Or.inl hmem
      · rw [if_pos rfl, hboundedOld m hm, Bool.true_and]
        split
        · exact .inr (.inl ⟨rfl, by omega⟩)
        · next hlast =>
          exact .inr (List.eq_nil_of_length_eq_zero (by simp at hlast; omega))
      · rw [if_neg hne]
        split_ifs
        · exact .inr (.inr hnil)
        · exact .inr hnil

variable [DecidableEq T]

theorem Staged.step (hl : Logged s) (h : Staged s) (hs : s.step a = some s') : Staged s' := by
  cases stepped hl.ready hs with
  | outside run hmain => exact .of_outside hmain
  | registered run routes hmain =>
    exact .of_outside (foldl_registerRoute (s := { s with run }) (P := fun s => s.main = .outside)
      (fun _ _ h => h) hmain routes)
  | began hmain =>
    exact ⟨fun i hi => mem_activeDrains.mp hi, fun i hi _ _ => .inl (mem_activeDrains.mpr hi)⟩
  | watermark hmain hm hdepth =>
    refine ⟨fun j hj => h.active j (by rw [hmain]; exact hj), fun j hj hbounded hquiet => ?_⟩
    have hold := h.leaves j hj hbounded hquiet
    rw [hmain] at hold
    obtain hmem | hnil := hold
    · obtain rfl | hmem := List.mem_cons.mp hmem
      · refine .inr (.inl ⟨rfl, ?_⟩)
        exact (congrArg List.length (heldOn_eq hm)).trans
          (Mailbox.depth_bounded (hbounded _ hm) _).symm
      · exact .inl hmem
    · exact .inr (.inr hnil)
  | skipped hmain hm hdepth =>
    refine ⟨fun j hj => h.active j (by rw [hmain]; exact List.mem_cons_of_mem _ hj),
      fun j hj hbounded hquiet => ?_⟩
    have hold := h.leaves j hj hbounded hquiet
    rw [hmain] at hold
    obtain hmem | hnil := hold
    · obtain rfl | hmem := List.mem_cons.mp hmem
      · right
        rw [Mailbox.depth_bounded (hbounded _ hm)] at hdepth
        exact (heldOn_eq hm).trans (List.eq_nil_of_length_eq_zero hdepth)
      · exact .inl hmem
    · exact .inr hnil
  | drained hmain =>
    refine ⟨nofun, fun j hj hbounded hquiet => ?_⟩
    have hold := h.leaves j hj hbounded hquiet
    rw [hmain] at hold
    exact hold.resolve_left List.not_mem_nil
  | took hmain hm htakes hreceiver =>
    have hstaged := h.took hmain hm htakes
    exact ⟨hstaged.active, hstaged.leaves⟩
  | missed hmain hm htakes => exact h.missed hmain hm htakes
  | updated hmain =>
    refine ⟨nofun, fun j hj hbounded hquiet => ?_⟩
    obtain ⟨e, he, hdirection, hactive, hdrain⟩ := activeRoute_iff.mp hj
    have hold := h.leaves j
      (activeRoute_iff.mpr ⟨e, he, hdirection, isActive_of_withOwner _ hactive, hdrain⟩)
      hbounded hquiet
    rw [hmain] at hold
    exact hold
  | returned hmain => exact .of_outside rfl
  | sent hm hsends => exact h.send hl.entry hm hsends _
  | poisoned hm => exact h.setMailbox hm (Mailbox.held_poison _) (Mailbox.isBounded_poison _)

-- ---------------------------------------------------------------------------
-- Whole runs
-- ---------------------------------------------------------------------------

structure Conserving (s : DrainState V M) : Prop where
  logged : Logged s
  ordered : Ordered s
  staged : Staged s

theorem Conserving.init : Conserving (DrainState.init : DrainState V M) where
  logged := .init
  ordered i _ := by simp [deliveredOn, acceptedOn, heldOn, mailbox, DrainState.init]
  staged := .of_outside rfl

theorem Conserving.step (h : Conserving s) (hs : s.step a = some s') : Conserving s' where
  logged := h.logged.step hs
  ordered := h.ordered.step h.logged hs
  staged := h.staged.step h.logged hs

theorem Conserving.conserved (h : Conserving s) : Conserved s where
  order i N q hm := by
    have hbounded : s.Bounded i := fun m hm' => by
      obtain rfl := Option.some.inj (hm.symm.trans hm')
      rfl
    have horder := h.ordered i hbounded
    rwa [heldOn_eq hm] at horder
  once := h.logged.calls ▸ List.nodup_range
  full c hc hfull d hd hcall := by
    obtain ⟨c', hc', -, hsent, hstored⟩ := h.logged.delivered d hd
    have hnodup : (s.sends.map (·.sent.call)).Nodup := h.logged.calls ▸ List.nodup_range
    obtain rfl := List.inj_on_of_nodup_map hnodup hc' hc (by rw [hsent, hcall])
    rw [Send.stored, hfull] at hstored
    cases hstored
  emptied i N q owners hmain hactive hquiet hm := by
    have hleaves := h.staged.leaves i hactive (fun m hm' => by
      obtain rfl := Option.some.inj (hm.symm.trans hm')
      rfl) hquiet
    rw [hmain, heldOn_eq hm] at hleaves
    exact hleaves
  kept := h.logged.kept

theorem Conserving.retiredSilent (h : Conserving s) : RetiredSilent s a := by
  intro i e s' he hretired hs
  cases stepped h.logged.ready hs with
  | registered run routes hmain =>
    exact foldl_registerRoute (s := { s with run })
      (P := fun s' => s'.deliveredOn i = s.deliveredOn i) (fun _ _ h => h) rfl routes
  | took hmain hm htakes hreceiver =>
    refine (deliveredOn_deliver s _ i).trans ?_
    rw [if_neg, List.append_nil]
    rintro rfl
    obtain ⟨e', he', -, hactive, -⟩ :=
      activeRoute_iff.mp (h.staged.active _ (by rw [hmain]; exact List.mem_cons_self))
    obtain rfl := Option.some.inj (he.symm.trans he')
    cases hretired.symm.trans hactive
  | outside | began | watermark | skipped | drained | missed | updated | returned | sent
    | poisoned => rfl

/-- A bounded route delivers what it accepted, in order and once, and nothing
while its owner is retired. -/
theorem bounded_route_conservation (as : List (DrainAction V M)) :
    Machine.Always DrainState.step Conserved .init as ∧
      Machine.Each DrainState.step RetiredSilent .init as := by
  have hstep : ∀ (s : DrainState V M) a s', Conserving s → s.step a = some s' → Conserving s' :=
    fun _ _ _ h hs => h.step hs
  exact ⟨(Machine.Always.of_step hstep .init).mono fun _ h => h.conserved,
    Machine.Each.of_step hstep (fun _ _ _ h _ => h.retiredSilent) .init⟩

end DrainState
end ShinySongTools.Runtime
