import ShinySongTools.Runtime.BoundedRoutes

/-!
# The entry of the CommandDrain stage

What a pass delivers was sent before its stage began, as long as no send gets
in between the beginning of the stage and its own reading of a route.
-/

namespace ShinySongTools.Runtime

variable {T : Type u} {V : T → Type v} {M : Type w}

/-- The values `drain` would take in its next `left` turns. -/
def front (m : Mailbox M) (left : Nat) : List M :=
  if m.isBounded then m.held.take left else m.held

namespace MainPc

/-- The stage has not yet taken its reading of the route: the watermark of a
bounded one, the value of the others. -/
def Awaits (i : Nat) (m : Mailbox M) : MainPc → Prop
  | .reading drains _ => i ∈ drains
  | .draining j _ drains _ => i ∈ drains ∨ i = j ∧ m.isBounded = false
  | .outside | .updating _ => False

/-- The route whose mailbox the next access of the stage is to. -/
def current : MainPc → Option Nat
  | .reading drains _ => drains.head?
  | .draining i _ _ _ => some i
  | .outside | .updating _ => none

/-- What the stage takes of a route from here, if nothing else moves. -/
def toTake (i : Nat) (m : Mailbox M) : MainPc → List M
  | .reading drains _ => if i ∈ drains then m.held else []
  | .draining j left drains _ =>
    if i ∈ drains then m.held else if i = j then front m left else []
  | .outside | .updating _ => []

end MainPc

namespace DrainState

structure Watermarked (s : DrainState V M) : Prop where
  before : ∀ d ∈ s.delivered, d.pass = s.passes → d.sent.call < s.stageEntry
  stays : ∀ c ∈ s.sends, c.stored = true → s.stageEntry ≤ c.sent.call →
    c.sent ∈ s.heldOn c.route ∨ (c.route, c.sent) ∈ s.overwritten
  visible : ∀ owners, s.main = .updating owners → ∀ p ∈ s.atEntry, p ∈ s.overwritten ∨
    ∃ d ∈ s.delivered, d.route = p.1 ∧ d.sent = p.2 ∧ d.pass = s.passes

/-- No send is stored on a route the stage has yet to read, and the stage does
not find a shared slot with a value contended. -/
def Undisturbed (s : DrainState V M) : DrainAction V M → Prop
  | .trySend i value contended => ∀ m, s.mailbox i = some m → s.main.Awaits i m →
    (m.trySend ⟨s.sends.length, value⟩ contended).1 ≠ .ok .accepted ∧
      (m.trySend ⟨s.sends.length, value⟩ contended).1 ≠ .ok .replaced
  | .commandDrain contended => contended = true →
    ∀ i slot, s.main.current = some i → s.mailbox i = some (.shared slot) → slot.slot = none
  | _ => True

variable {s s' : DrainState V M} {a : DrainAction V M} {m m' : Mailbox (Sent M)}

theorem front_subset {m : Mailbox M} : ∀ x ∈ front m left, x ∈ m.held := by
  intro x hx
  unfold front at hx
  split at hx
  · exact List.mem_of_mem_take hx
  · exact hx

theorem toTake_subset {pc : MainPc} {m : Mailbox M} : ∀ x ∈ pc.toTake i m, x ∈ m.held := by
  intro x hx
  unfold MainPc.toTake at hx
  split at hx
  · split at hx
    · exact hx
    · cases hx
  · split at hx
    · exact hx
    · split at hx
      · exact front_subset x hx
      · cases hx
  · cases hx
  · cases hx

/-- A mailbox with nothing in it has nothing to take. -/
theorem toTake_nil {pc : MainPc} {m : Mailbox M} (h : m.held = []) : pc.toTake i m = [] :=
  List.eq_nil_iff_forall_not_mem.mpr fun x hx => by
    have hheld := toTake_subset x hx
    rw [h] at hheld
    cases hheld

structure Marked (s : DrainState V M) : Prop where
  stored : ∀ c ∈ s.sends, c.stored = true → c.sent ∈ s.heldOn c.route ∨
    (c.route, c.sent) ∈ s.overwritten ∨ ∃ d ∈ s.delivered, d.route = c.route ∧ d.sent = c.sent
  before : ∀ d ∈ s.delivered, d.sent.call < s.stageEntry
  taking : ∀ i m, s.mailbox i = some m → ∀ x ∈ s.main.toTake i m, x.call < s.stageEntry
  room : ∀ j left drains owners m, s.main = .draining j left drains owners →
    s.mailbox j = some m → 0 < left ∧ (m.isBounded = true → left ≤ m.held.length)
  visible : s.main ≠ .outside → ∀ p ∈ s.atEntry, p ∈ s.overwritten ∨
    (∃ d ∈ s.delivered, d.route = p.1 ∧ d.sent = p.2 ∧ d.pass = s.passes) ∨
    ∃ m, s.mailbox p.1 = some m ∧ p.2 ∈ s.main.toTake p.1 m

theorem Marked.init : Marked (DrainState.init : DrainState V M) where
  stored := nofun
  before := nofun
  taking i m hm := by simp [mailbox, DrainState.init] at hm
  room := nofun
  visible hne := absurd rfl hne

theorem toTake_congr (hheld : m'.held = m.held) (hkind : m'.isBounded = m.isBounded)
    (pc : MainPc) (i : Nat) : pc.toTake i m' = pc.toTake i m := by
  simp only [MainPc.toTake, front, hheld, hkind]

theorem mem_heldOn : x ∈ s.heldOn i ↔ ∃ m, s.mailbox i = some m ∧ x ∈ m.held := by
  cases hm : s.mailbox i with
  | none => simp [heldOn_eq_nil hm]
  | some m => simp [heldOn_eq hm]

theorem heldOn_setMailbox_congr (hm : s.mailbox i = some m) (hheld : m'.held = m.held) (j : Nat) :
    (s.setMailbox i m').heldOn j = s.heldOn j := by
  rw [heldOn_setMailbox hm]
  split
  · next hj =>
    subst hj
    rw [hheld, heldOn_eq hm]
  · rfl

/-- A mailbox changes, but not in what the stage takes of it. -/
theorem Marked.put (h : Marked s) (hm : s.mailbox i = some m) (hkind : m'.isBounded = m.isBounded)
    (hlength : m.isBounded = true → m.held.length ≤ m'.held.length)
    (htake : s.main.toTake i m' = s.main.toTake i m) (sends : List (Send M))
    (overwritten : List (Nat × Sent M)) (hover : ∀ p ∈ s.overwritten, p ∈ overwritten)
    (hstored : ∀ c ∈ sends, c.stored = true → c.sent ∈ (s.setMailbox i m').heldOn c.route ∨
      (c.route, c.sent) ∈ overwritten ∨
      ∃ d ∈ s.delivered, d.route = c.route ∧ d.sent = c.sent) :
    Marked { s.setMailbox i m' with sends, overwritten } where
  stored := hstored
  before := h.before
  taking j mj hmj x hx := by
    replace hmj := (mailbox_setMailbox hm m' j).symm.trans hmj
    split at hmj
    · next hj =>
      subst hj
      cases hmj
      exact h.taking j m hm x (htake ▸ hx)
    · exact h.taking j mj hmj x hx
  room j left drains owners mj hmain hmj := by
    replace hmj := (mailbox_setMailbox hm m' j).symm.trans hmj
    split at hmj
    · next hj =>
      subst hj
      cases hmj
      obtain ⟨hpos, hroom⟩ := h.room j left drains owners m hmain hm
      exact ⟨hpos, fun hb => Nat.le_trans (hroom (hkind ▸ hb)) (hlength (hkind ▸ hb))⟩
    · exact h.room j left drains owners mj hmain hmj
  visible hne p hp := by
    obtain hold | hdelivered | ⟨mp, hmp, hx⟩ := h.visible hne p hp
    · exact .inl (hover p hold)
    · exact .inr (.inl hdelivered)
    · refine .inr (.inr ?_)
      by_cases hpi : p.1 = i
      · rw [hpi] at hmp hx ⊢
        obtain rfl := Option.some.inj (hm.symm.trans hmp)
        exact ⟨m', (mailbox_setMailbox hm m' i).trans (if_pos rfl), htake ▸ hx⟩
      · exact ⟨mp, ((mailbox_setMailbox hm m' p.1).trans (if_neg hpi)).trans hmp, hx⟩

theorem Marked.setMailbox (h : Marked s) (hm : s.mailbox i = some m) (hheld : m'.held = m.held)
    (hkind : m'.isBounded = m.isBounded) : Marked (s.setMailbox i m') :=
  h.put hm hkind (fun _ => Nat.le_of_eq (by rw [hheld])) (toTake_congr hheld hkind _ i) s.sends
    s.overwritten (fun _ hp => hp) fun c hc hstored => by
      rw [heldOn_setMailbox_congr hm hheld]
      exact h.stored c hc hstored

/-- The main thread goes on, with the same values to take as before. -/
theorem Marked.goOn (h : Marked s) (run : AppRun V) (pc : MainPc) (hne : s.main ≠ .outside)
    (htake : ∀ i m, s.mailbox i = some m → pc.toTake i m = s.main.toTake i m)
    (hroom : ∀ j left drains owners m, pc = .draining j left drains owners →
      s.mailbox j = some m → 0 < left ∧ (m.isBounded = true → left ≤ m.held.length)) :
    Marked { s with run, main := pc } where
  stored := h.stored
  before := h.before
  taking i m hm x hx := h.taking i m hm x (htake i m hm ▸ hx)
  room := hroom
  visible _ p hp := by
    obtain hover | hdelivered | ⟨m, hm, hx⟩ := h.visible hne p hp
    · exact .inl hover
    · exact .inr (.inl hdelivered)
    · exact .inr (.inr ⟨m, hm, (htake p.1 m hm).symm ▸ hx⟩)

theorem Marked.of_outside (h : Marked s) (run : AppRun V) (hmain : s.main = .outside) :
    Marked { s with run } where
  stored := h.stored
  before := h.before
  taking := h.taking
  room := h.room
  visible hne := absurd hmain hne

/-- What a send adds is behind what the stage takes. -/
theorem toTake_queued (hheld : m'.held = m.held ++ [x]) (hkind : m'.isBounded = m.isBounded)
    {pc : MainPc} (hawaits : ¬ pc.Awaits i m)
    (hroom : ∀ left drains owners, pc = .draining i left drains owners → m.isBounded = true →
      left ≤ m.held.length) : pc.toTake i m' = pc.toTake i m := by
  cases pc with
  | outside | updating => rfl
  | reading drains owners =>
    have hnot : i ∉ drains := hawaits
    simp [MainPc.toTake, hnot]
  | draining j left drains owners =>
    obtain ⟨hnot, hunbounded⟩ := not_or.mp hawaits
    simp only [MainPc.toTake, hnot, if_false]
    split
    · next hij =>
      subst hij
      have hbounded : m.isBounded = true := by
        by_contra hlatest
        exact hunbounded ⟨rfl, Bool.eq_false_iff.mpr hlatest⟩
      simp only [front, hkind, hbounded, if_true, hheld]
      exact List.take_append_of_le_length (hroom left drains owners rfl hbounded)
    · rfl

theorem toTake_of_latest {pc : MainPc} {m : Mailbox M} (hlatest : m.isBounded = false)
    (hawaits : ¬ pc.Awaits i m) : pc.toTake i m = [] := by
  cases pc with
  | outside | updating => rfl
  | reading drains owners =>
    have hnot : i ∉ drains := hawaits
    simp [MainPc.toTake, hnot]
  | draining j left drains owners =>
    obtain ⟨hnot, hne⟩ := not_or.mp hawaits
    have hij : i ≠ j := fun hij => hne ⟨hij, hlatest⟩
    simp [MainPc.toTake, hnot, hij]

theorem awaits_congr (hkind : m'.isBounded = m.isBounded) (pc : MainPc) (i : Nat) :
    pc.Awaits i m' ↔ pc.Awaits i m := by
  simp only [MainPc.Awaits, hkind]

/-- A send that is not stored changes nothing the stage looks at. -/
theorem Marked.refused (h : Marked s) (hm : s.mailbox i = some m) (c : Send M)
    (hc : c.stored = false) :
    Marked { s.setMailbox i m with
      sends := s.sends ++ [c], overwritten := s.overwritten ++ [] } := by
  refine h.put hm rfl (fun _ => Nat.le_refl _) rfl _ _ (fun _ hp => List.mem_append_left _ hp)
    fun c' hc' hstored => ?_
  rcases List.mem_append.mp hc' with hc' | hc'
  · rw [heldOn_setMailbox_congr hm rfl, List.append_nil]
    exact h.stored c' hc' hstored
  · obtain rfl := List.mem_singleton.mp hc'
    cases hc.symm.trans hstored

theorem Marked.send (h : Marked s) (hm : s.mailbox i = some m) (hs : m.Sends sent outcome m')
    (hquiet : s.main.Awaits i m → outcome ≠ .ok .accepted ∧ outcome ≠ .ok .replaced) :
    Marked { s.setMailbox i m' with
      sends := s.sends ++ [⟨i, sent, outcome⟩]
      overwritten := s.overwritten ++ replacedBy i m outcome } := by
  cases hs with
  | queued hheld hkind =>
    have hroom : ∀ left drains owners, s.main = .draining i left drains owners →
        m.isBounded = true → left ≤ m.held.length :=
      fun left drains owners hmain => (h.room i left drains owners m hmain hm).2
    refine h.put hm hkind (fun _ => by simp [hheld])
      (toTake_queued hheld hkind (fun ha => (hquiet ha).1 rfl) hroom) _ _
      (fun _ hp => List.mem_append_left _ hp)
      fun c hc hstored => ?_
    rw [heldOn_setMailbox hm]
    rcases List.mem_append.mp hc with hc | hc
    · obtain hheldOn | hrest := h.stored c hc hstored
      · left
        split
        · next hci =>
          rw [hci, heldOn_eq hm] at hheldOn
          rw [hheld]
          exact List.mem_append_left _ hheldOn
        · exact hheldOn
      · exact .inr (hrest.imp_left (List.mem_append_left _))
    · obtain rfl := List.mem_singleton.mp hc
      left
      rw [if_pos rfl, hheld]
      exact List.mem_append_right _ List.mem_cons_self
  | replaced hlatest hheld hkind =>
    have hawaits : ¬ s.main.Awaits i m := fun ha => (hquiet ha).2 rfl
    refine h.put hm hkind (fun hb => by cases hlatest.symm.trans hb) ?_ _ _
      (fun _ hp => List.mem_append_left _ hp) fun c hc hstored => ?_
    · rw [toTake_of_latest hlatest hawaits,
        toTake_of_latest (hkind.trans hlatest) ((awaits_congr hkind _ i).not.mpr hawaits)]
    · rw [heldOn_setMailbox hm]
      rcases List.mem_append.mp hc with hc | hc
      · obtain hheldOn | hover | hdelivered := h.stored c hc hstored
        · by_cases hci : c.route = i
          · rw [hci, heldOn_eq hm] at hheldOn
            rw [hci]
            exact .inr (.inl (List.mem_append_right _ (List.mem_map_of_mem hheldOn)))
          · left
            rwa [if_neg hci]
        · exact .inr (.inl (List.mem_append_left _ hover))
        · exact .inr (.inr hdelivered)
      · obtain rfl := List.mem_singleton.mp hc
        left
        rw [if_pos rfl, hheld]
        exact List.mem_cons_self
  | full => exact h.refused hm ⟨i, sent, _⟩ rfl
  | busy => exact h.refused hm ⟨i, sent, _⟩ rfl

/-- The value a turn takes is the first of those the stage takes. -/
theorem toTake_afterValue {m m' : Mailbox M} (hheld : m.held = sent :: m'.held)
    (hkind : m'.isBounded = m.isBounded) (hlatest : m.isBounded = false → m'.held = [])
    (hleft : 0 < left) (drains owners : List Nat) :
    (MainPc.draining i left drains owners).toTake i m =
      sent :: (MainPc.afterValue m.isBounded i left drains owners).toTake i m' := by
  obtain ⟨n, rfl⟩ := Nat.exists_eq_succ_of_ne_zero (Nat.pos_iff_ne_zero.mp hleft)
  by_cases hi : i ∈ drains
  · simp only [MainPc.afterValue]
    split <;> simp [MainPc.toTake, hi, hheld]
  · cases hbounded : m.isBounded with
    | false => simp [MainPc.afterValue, MainPc.toTake, front, hi, hbounded, hheld, hlatest hbounded]
    | true =>
      cases n with
      | zero => simp [MainPc.afterValue, MainPc.toTake, front, hi, hbounded, hheld]
      | succ n => simp [MainPc.afterValue, MainPc.toTake, front, hi, hbounded, hheld, hkind]

theorem toTake_afterValue_of_ne {m : Mailbox M} (hj : j ≠ i) (bounded : Bool) (left : Nat)
    (drains owners : List Nat) :
    (MainPc.afterValue bounded i left drains owners).toTake j m =
      (MainPc.draining i left drains owners).toTake j m := by
  unfold MainPc.afterValue
  split <;> simp [MainPc.toTake, hj]

theorem Marked.took (h : Marked s) (hmain : s.main = .draining i left drains owners)
    (hm : s.mailbox i = some m) (htakes : m.Takes contended (some sent) m')
    (receivers : Receiver T → Option (Messages (Sent M))) (receiver : Receiver T) :
    Marked { s.setMailbox i m' with
      receivers
      delivered := s.delivered ++ [⟨receiver, i, sent, s.passes⟩]
      main := .afterValue m.isBounded i left drains owners } := by
  cases htakes with
  | taken hheld hkind hlatest =>
  obtain ⟨hleft, hroom⟩ := h.room i left drains owners m hmain hm
  have htake := toTake_afterValue (i := i) hheld hkind hlatest hleft drains owners
  constructor
  case stored =>
    intro c hc hstored
    change c.sent ∈ (s.setMailbox i m').heldOn c.route ∨ _
    rw [heldOn_setMailbox hm]
    obtain hheldOn | hover | ⟨d, hd, hdelivered⟩ := h.stored c hc hstored
    · by_cases hci : c.route = i
      · rw [hci, heldOn_eq hm, hheld] at hheldOn
        rcases List.mem_cons.mp hheldOn with hsent | hrest
        · exact .inr (.inr ⟨_, List.mem_append_right _ List.mem_cons_self, hci.symm, hsent.symm⟩)
        · left
          rwa [if_pos hci]
      · left
        rwa [if_neg hci]
    · exact .inr (.inl hover)
    · exact .inr (.inr ⟨d, List.mem_append_left _ hd, hdelivered⟩)
  case before =>
    intro d hd
    rcases List.mem_append.mp hd with hd | hd
    · exact h.before d hd
    · obtain rfl := List.mem_singleton.mp hd
      refine h.taking i m hm sent ?_
      rw [hmain, htake]
      exact List.mem_cons_self
  case taking =>
    intro j mj hmj x hx
    replace hmj := (mailbox_setMailbox hm m' j).symm.trans hmj
    split at hmj
    · next hj =>
      subst hj
      cases hmj
      refine h.taking j m hm x ?_
      rw [hmain, htake]
      exact List.mem_cons_of_mem _ hx
    · next hj =>
      refine h.taking j mj hmj x ?_
      rw [hmain, ← toTake_afterValue_of_ne hj m.isBounded]
      exact hx
  case room =>
    intro j left' drains' owners' mj hpc hmj
    replace hmj := (mailbox_setMailbox hm m' j).symm.trans hmj
    dsimp only [MainPc.afterValue] at hpc
    split at hpc
    · next hnext =>
      cases hpc
      rw [if_pos rfl] at hmj
      cases hmj
      simp only [Bool.and_eq_true, decide_eq_true_eq] at hnext
      have hlength := hroom hnext.1
      rw [hheld, List.length_cons] at hlength
      exact ⟨by omega, fun _ => by omega⟩
    · cases hpc
  case visible =>
    rintro - p hp
    obtain hover | ⟨d, hd, hdelivered⟩ | ⟨mp, hmp, hx⟩ :=
      h.visible (by rw [hmain]; nofun) p hp
    · exact .inl hover
    · exact .inr (.inl ⟨d, List.mem_append_left _ hd, hdelivered⟩)
    · right
      rw [hmain] at hx
      by_cases hpi : p.1 = i
      · rw [hpi] at hmp hx ⊢
        obtain rfl := Option.some.inj (hm.symm.trans hmp)
        rw [htake] at hx
        rcases List.mem_cons.mp hx with hsent | hrest
        · exact .inl ⟨_, List.mem_append_right _ List.mem_cons_self, rfl, hsent.symm, rfl⟩
        · exact .inr ⟨m', (mailbox_setMailbox hm m' i).trans (if_pos rfl), hrest⟩
      · refine .inr ⟨mp, ((mailbox_setMailbox hm m' p.1).trans (if_neg hpi)).trans hmp, ?_⟩
        rw [toTake_afterValue_of_ne hpi]
        exact hx

theorem Marked.missed (h : Marked s) (hmain : s.main = .draining i left drains owners)
    (hm : s.mailbox i = some m) (htakes : m.Takes contended none m')
    (hfree : contended = true → ∀ slot, m = .shared slot → slot.slot = none) :
    Marked { s.setMailbox i m' with main := .reading drains owners } := by
  have hempty : m.held = [] ∧ m'.held = [] ∧ m'.isBounded = m.isBounded := by
    cases htakes with
    | empty hheld hheld' hkind => exact ⟨hheld, hheld', hkind⟩
    | busy slot hcontended hshared =>
      have hheld : m.held = [] := by
        rw [hshared]
        exact congrArg Option.toList (hfree hcontended slot hshared)
      exact ⟨hheld, hheld, rfl⟩
  obtain ⟨hheld, hheld', hkind⟩ := hempty
  have hset := h.setMailbox hm (hheld'.trans hheld.symm) hkind
  refine hset.goOn s.run (.reading drains owners) (fun hout => by cases hmain.symm.trans hout)
    (fun j mj hmj => ?_) nofun
  rw [show (s.setMailbox i m').main = _ from hmain]
  by_cases hji : j = i
  · rw [mailbox_setMailbox hm, if_pos hji] at hmj
    cases hmj
    rw [toTake_nil hheld', toTake_nil hheld']
  · simp [MainPc.toTake, hji]

theorem Marked.watermark (h : Marked s) (hmain : s.main = .reading (i :: drains) owners)
    (hm : s.mailbox i = some m) (hdepth : 0 < m.depth contended) :
    Marked { s with main := .draining i (m.depth contended) drains owners } := by
  refine h.goOn s.run _ (fun hout => by cases hmain.symm.trans hout) (fun j mj hmj => ?_) ?_
  · rw [hmain]
    by_cases hj : j ∈ drains
    · simp [MainPc.toTake, hj]
    · by_cases hji : j = i
      · subst hji
        obtain rfl := Option.some.inj (hm.symm.trans hmj)
        simp only [MainPc.toTake, hj, if_false, if_true, front, List.mem_cons, true_or]
        split
        · next hbounded => rw [Mailbox.depth_bounded hbounded, List.take_length]
        · rfl
      · simp [MainPc.toTake, hj, hji]
  · intro j left drains' owners' mj hpc hmj
    cases hpc
    obtain rfl := Option.some.inj (hm.symm.trans hmj)
    exact ⟨hdepth, fun hbounded => Nat.le_of_eq (Mailbox.depth_bounded hbounded _)⟩

theorem Marked.skipped (h : Marked s) (hmain : s.main = .reading (i :: drains) owners)
    (hm : s.mailbox i = some m) (hheld : m.held = []) :
    Marked { s with main := .reading drains owners } := by
  refine h.goOn s.run _ (fun hout => by cases hmain.symm.trans hout) (fun j mj hmj => ?_) nofun
  rw [hmain]
  by_cases hji : j = i
  · subst hji
    obtain rfl := Option.some.inj (hm.symm.trans hmj)
    rw [toTake_nil hheld, toTake_nil hheld]
  · simp [MainPc.toTake, hji]

theorem Marked.watermarked (h : Marked s) : Watermarked s where
  before d hd _ := h.before d hd
  stays c hc hstored hlate := by
    obtain hheld | hover | ⟨d, hd, -, hsent⟩ := h.stored c hc hstored
    · exact .inl hheld
    · exact .inr hover
    · exact absurd (hsent ▸ h.before d hd) (Nat.not_lt.mpr hlate)
  visible owners hmain p hp := by
    obtain hover | hdelivered | ⟨m, hm, hx⟩ := h.visible (by rw [hmain]; nofun) p hp
    · exact .inl hover
    · exact .inr hdelivered
    · rw [hmain] at hx
      cases hx

variable [DecidableEq T]

theorem Marked.registerRoute (h : Marked s) (hmain : s.main = .outside) (r : RouteRegistration T) :
    Marked (registerRoute owner s r) where
  stored c hc hstored := by
    rw [heldOn_registerRoute]
    exact h.stored c hc hstored
  before := h.before
  taking i m _ x hx := by
    rw [show (DrainState.registerRoute owner s r).main = _ from hmain] at hx
    cases hx
  room _ _ _ _ _ hpc := by cases hmain.symm.trans hpc
  visible hne := absurd hmain hne

theorem Logged.call_lt (h : Logged s) (hc : c ∈ s.sends) : c.sent.call < s.sends.length :=
  List.mem_range.mp (h.calls ▸ List.mem_map_of_mem hc)

theorem Marked.began (hl : Logged s) (h : Marked s) (due : Receiver T → Bool) :
    Marked { s with
      receivers := fun r => (s.receivers r).map fun m => if due r then m.update else m
      main := .reading s.activeDrains s.run.app.activeOwnerIds
      passes := s.passes + 1
      stageEntry := s.sends.length
      atEntry := s.visible } where
  stored := h.stored
  before d hd := by
    obtain ⟨c, hc, -, hsent, -⟩ := hl.delivered d hd
    exact hsent ▸ hl.call_lt hc
  taking i m hm x hx := by
    obtain ⟨c, hc, -, rfl, -⟩ := hl.held i x (mem_heldOn.mpr ⟨m, hm, toTake_subset x hx⟩)
    exact hl.call_lt hc
  room := nofun
  visible _ p hp := by
    obtain ⟨i, hi, hx⟩ := List.mem_flatMap.mp hp
    obtain ⟨x, hheldOn, rfl⟩ := List.mem_map.mp hx
    obtain ⟨m, hm, hheld⟩ := mem_heldOn.mp hheldOn
    exact .inr (.inr ⟨m, hm, by simpa [MainPc.toTake, hi] using hheld⟩)

theorem Marked.step (hl : Logged s) (h : Marked s) (hg : Undisturbed s a)
    (hs : s.step a = some s') : Marked s' := by
  cases stepped hl.ready hs with
  | outside run hmain => exact h.of_outside run hmain
  | registered run routes hmain =>
    exact (foldl_registerRoute (s := { s with run }) (P := fun s => Marked s ∧ s.main = .outside)
      (fun _ r hs => ⟨hs.1.registerRoute hs.2 r, hs.2⟩) ⟨h.of_outside run hmain, hmain⟩ routes).1
  | began hmain => exact h.began hl _
  | watermark hmain hm hdepth => exact h.watermark hmain hm hdepth
  | skipped hmain hm hdepth =>
    refine h.skipped hmain hm ?_
    obtain hheld | ⟨hcontended, slot, rfl⟩ := Mailbox.held_of_depth hdepth
    · exact hheld
    · exact congrArg Option.toList (hg hcontended _ slot (by rw [hmain]; rfl) hm)
  | drained hmain =>
    refine h.goOn s.run _ (fun hout => by cases hmain.symm.trans hout) (fun j mj hmj => ?_) nofun
    rw [hmain]
    rfl
  | took hmain hm htakes hreceiver => exact h.took hmain hm htakes _ _
  | missed hmain hm htakes =>
    refine h.missed hmain hm htakes fun hcontended slot hshared => ?_
    exact hg hcontended _ slot (by rw [hmain]; rfl) (hshared ▸ hm)
  | updated hmain =>
    refine h.goOn _ _ (fun hout => by cases hmain.symm.trans hout) (fun j mj hmj => ?_) nofun
    rw [hmain]
    rfl
  | returned hmain =>
    exact ⟨h.stored, h.before, fun _ _ _ _ hx => by (cases hx), nofun, fun hne => absurd rfl hne⟩
  | sent hm hsends => exact h.send hm hsends (hg _ hm)
  | poisoned hm => exact h.setMailbox hm (Mailbox.held_poison _) (Mailbox.isBounded_poison _)

/-- While no send gets in before the stage's own reading of a route, a pass
delivers what was there when its stage began, and nothing sent later. -/
theorem watermark_of_undisturbed (as : List (DrainAction V M))
    (hg : Machine.Each DrainState.step Undisturbed .init as) :
    Machine.Always DrainState.step Watermarked .init as := by
  have hinit : Logged (.init : DrainState V M) ∧ Marked (.init : DrainState V M) := ⟨.init, .init⟩
  have hstep : ∀ (s : DrainState V M) a s', Logged s ∧ Marked s → Undisturbed s a →
      s.step a = some s' →
      Logged s' ∧ Marked s' := by
    rintro s a s' ⟨hl, h⟩ hgs hs
    exact ⟨hl.step hs, h.step hl hgs hs⟩
  exact (Machine.Each.always hstep hinit hg).mono fun _ h => h.2.watermarked

/-- A plugin with two routes, whose Startup has run. -/
def fixtureRoutes (first second : Semantics) : List (DrainAction (fun _ : Unit => Unit) Nat) :=
  [.addPlugin ⟨"fixture", .ok⟩ [⟨.callbackToMain, (), first⟩, ⟨.callbackToMain, (), second⟩],
    .runStartup]

/-- A callback sends on a route the stage is done reading. -/
def sendsAfterReading : List (DrainAction (fun _ : Unit => Unit) Nat) :=
  fixtureRoutes (.bounded 4) .latest ++
    [.trySend 0 7 false, .trySend 1 8 false, .runUpdate fun _ => true, .commandDrain false,
      .trySend 0 9 false, .commandDrain false, .commandDrain false, .commandDrain false,
      .commandDrain false]

theorem watermark_of_sendsAfterReading :
    Machine.Always DrainState.step Watermarked .init sendsAfterReading := by
  refine watermark_of_undisturbed _ ?_
  unfold sendsAfterReading fixtureRoutes
  iterate 2 refine Machine.Each.cons rfl trivial ?_
  iterate 2 refine Machine.Each.cons rfl (by rintro m ⟨⟩ ⟨⟩) ?_
  refine Machine.Each.cons rfl trivial (Machine.Each.cons rfl (by rintro ⟨⟩) ?_)
  refine Machine.Each.cons rfl ?_ ?_
  · rintro m ⟨⟩ (hdrains | ⟨-, hbounded⟩)
    · exact absurd hdrains (by decide)
    · cases hbounded
  · iterate 4 refine Machine.Each.cons rfl (by rintro ⟨⟩) ?_
    exact trivial

/-- A callback sends on the second route while the stage drains the first. -/
def sendsDuringStage : List (DrainAction (fun _ : Unit => Unit) Nat) :=
  fixtureRoutes (.bounded 4) (.bounded 4) ++
    [.trySend 0 7 false, .runUpdate fun _ => true, .commandDrain false, .trySend 1 8 false,
      .commandDrain false, .commandDrain false, .commandDrain false]

theorem later_send_delivered :
    ¬ ∀ as : List (DrainAction (fun _ : Unit => Unit) Nat),
      Machine.Always DrainState.step Watermarked .init as := by
  intro h
  have hbefore := ((h sendsDuringStage).exec rfl).before
  have hlate := hbefore _ (List.mem_append_right _ List.mem_cons_self) rfl
  exact absurd hlate (by decide)

end DrainState
end ShinySongTools.Runtime
