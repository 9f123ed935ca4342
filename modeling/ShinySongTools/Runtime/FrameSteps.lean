import ShinySongTools.Runtime.Chronicle

/-!
# What a frame adds to the history

One step of the newest frame of a thread: what it makes happen is lawful, and
the App stays where the history says it is.
-/

namespace ShinySongTools.Scheduler

variable {trusted : Nat → Bool} {h : List Occurrence}

-- ---------------------------------------------------------------------------
-- One step of a frame
-- ---------------------------------------------------------------------------

/-- What a step of a frame may do to what threads share. -/
structure Shares (s s' : State) : Prop where
  failed : s.failed = true → s'.failed = true
  frameSeq : s'.frameSeq = s.frameSeq
  handoff : ∀ app, s'.handoff.app = some app → s.handoff.app = some app

theorem Shares.refl (s : State) : Shares s s := ⟨id, rfl, fun _ => id⟩

theorem claimApp_shares (s : State) (slot : AppSlot) (f : SchedulerFrame) (contended : Bool) :
    Shares s (claimApp s slot f contended).1 := by
  unfold claimApp
  cases slot with
  | awaitingHandoff =>
    rcases tryTake_cases s.handoff contended with ⟨app, -, -, -, ht⟩ | ht | ht
    · simp only [ht]
      exact ⟨id, rfl, fun _ h => nomatch h⟩
    · simp only [ht]
      exact Shares.refl s
    · simp only [ht]
      exact ⟨fun _ => rfl, rfl, fun _ => id⟩
  | running app | busy | exited app | unavailable => exact ⟨id, rfl, fun _ => id⟩

theorem commitApp_shares (s : State) (slot : AppSlot) (f : SchedulerFrame) (exit : Bool) :
    Shares s (commitApp s slot f exit).1 := by
  unfold commitApp commitTls
  cases f.app with
  | none => exact Shares.refl s
  | some app => cases slot <;> exact ⟨id, rfl, fun _ => id⟩

theorem advance_shares (trusted : Nat → Bool) (s : State) (t : Nat) (slot : AppSlot)
    (f : SchedulerFrame) (contended : Bool) :
    Shares s (advance trusted s t slot f contended).1 := by
  cases hpc : f.pc <;> simp only [advance, hpc]
  case claim failed => exact claimApp_shares s slot f contended
  case commitFailed => exact commitApp_shares s slot f true
  case commit => exact commitApp_shares s slot f s.failed
  case checkThread =>
    split
    · exact Shares.refl s
    · exact ⟨fun _ => rfl, rfl, fun _ => id⟩
  case startDriver => split <;> exact ⟨id, rfl, fun _ => id⟩
  case unwound => exact ⟨fun _ => rfl, rfl, fun _ => id⟩
  all_goals exact ⟨id, rfl, fun _ => id⟩

/-- A frame without the App claims it, or not. -/
theorem claimApp_cases (s : State) (slot : AppSlot) (f : SchedulerFrame) (contended : Bool) :
    (∃ app, (s.handoff.app = some app ∨ slot.app = some app) ∧
      (claimApp s slot f contended).2 = (.busy, { f with app := some app })) ∨
    ((claimApp s slot f contended).2.1.app = slot.app ∧
      (claimApp s slot f contended).2.2 = f) := by
  unfold claimApp
  cases slot with
  | awaitingHandoff =>
    rcases tryTake_cases s.handoff contended with ⟨app, happ, -, -, ht⟩ | ht | ht
    · exact .inl ⟨app, .inl happ, by simp only [ht]⟩
    · exact .inr (by simp [ht, AppSlot.app])
    · exact .inr (by simp [ht, AppSlot.app])
  | running app => exact .inl ⟨app, .inr rfl, rfl⟩
  | busy | exited app | unavailable => exact .inr ⟨rfl, rfl⟩

theorem commitApp_slot (h : (commitApp s slot f exit).2.1.app = some app) :
    slot.app = some app ∨ f.app = some app := by
  unfold commitApp commitTls at h
  cases happ : f.app with
  | none => exact .inl (by simpa [happ] using h)
  | some own =>
    cases slot with
    | busy => cases exit <;> exact .inr (by simpa [happ, AppSlot.app] using h)
    | _ => simp [happ, AppSlot.app] at h

theorem commitApp_frame (s : State) (slot : AppSlot) (f : SchedulerFrame) (exit : Bool) :
    (commitApp s slot f exit).2.2 = { f with app := none } := by
  unfold commitApp
  cases happ : f.app with
  | none => cases f; cases happ; rfl
  | some app => rfl

/-- A frame keeps its identity and its arguments. -/
theorem advance_same (trusted : Nat → Bool) (s : State) (t : Nat) (slot : AppSlot)
    (f : SchedulerFrame) (contended : Bool) :
    (advance trusted s t slot f contended).2.2.seq = f.seq ∧
      (advance trusted s t slot f contended).2.2.this = f.this ∧
      (advance trusted s t slot f contended).2.2.method = f.method := by
  cases hpc : f.pc <;> simp only [advance, hpc, and_self]
  case claim failed =>
    unfold claimApp
    cases slot with
    | awaitingHandoff =>
      rcases s.handoff.tryTake contended with ⟨(_ | _ | _), _⟩ <;> exact ⟨rfl, rfl, rfl⟩
    | running app | busy | exited app | unavailable => exact ⟨rfl, rfl, rfl⟩
  case commitFailed | commit =>
    rw [commitApp_frame]
    exact ⟨rfl, rfl, rfl⟩
  case checkThread => split <;> exact ⟨rfl, rfl, rfl⟩
  case startDriver => split <;> exact ⟨rfl, rfl, rfl⟩
  case callOriginal => exact ⟨rfl, rfl, rfl⟩

theorem occurrence_seq {f : SchedulerFrame} {o : Occurrence}
    (h : f.occurrence trusted s t slot contended = some o) : o.seq = f.seq := by
  unfold SchedulerFrame.occurrence at h
  cases hpc : f.pc <;> simp only [hpc] at h
  case claim failed =>
    split at h
    · cases h; rfl
    · cases h
  case startDriver => split at h <;> cases h <;> rfl
  all_goals cases h
  all_goals rfl

@[simp] theorem publishGlobalFailure_failed (s : State) : (publishGlobalFailure s).failed = true :=
  rfl

@[simp] theorem emit_failed (s : State) (e : Event) : (s.emit e).failed = s.failed := rfl

/-- What a step does to a frame, with what it writes down and the failure flag
after it. -/
inductive Moves (trusted : Nat → Bool) (s : State) (t : Nat) (f : SchedulerFrame) :
    Bool → Option Occurrence → SchedulerFrame → Prop
  | failed : f.pc = .loadFailed → s.failed = true →
    Moves trusted s t f true (some (.loaded f.seq true)) { f with pc := .claim true }
  | unfailed : f.pc = .loadFailed → s.failed = false →
    Moves trusted s t f false (some (.loaded f.seq false)) { f with pc := .checkThread }
  | checked : f.pc = .checkThread → trusted t = true →
    Moves trusted s t f s.failed (some (.checked f.seq true)) { f with pc := .claim false }
  | refused : f.pc = .checkThread → trusted t = false →
    Moves trusted s t f true (some (.checked f.seq false))
      { f with pc := .callOriginal .passthrough }
  | claimed (now : Bool) (app : BoxedApp) : f.pc = .claim false →
    (s.failed = true → now = true) → Moves trusted s t f now (some (.claimed f.seq))
      { f with app := some app, pc := .startDriver }
  | unclaimed (now : Bool) : f.pc = .claim false → (s.failed = true → now = true) →
    Moves trusted s t f now none { f with pc := .callOriginal .passthrough }
  | claimedLate (now : Bool) (app : BoxedApp) : f.pc = .claim true →
    (s.failed = true → now = true) → Moves trusted s t f now (some (.claimed f.seq))
      { f with app := some app, pc := .commitFailed }
  | unclaimedLate (now : Bool) : f.pc = .claim true → (s.failed = true → now = true) →
    Moves trusted s t f now none { f with pc := .commitFailed }
  | gaveBack (now : Bool) : f.pc = .commitFailed → (s.failed = true → now = true) →
    Moves trusted s t f now none { f with app := none, pc := .callOriginal .passthrough }
  | started (driver : Driver) : f.pc = .startDriver →
    Moves trusted s t f s.failed (some (.started f.seq driver)) { f with pc := .inDriver driver }
  | lacking : f.pc = .startDriver →
    Moves trusted s t f s.failed (some (.unwound f.seq false)) { f with pc := .unwound }
  | startup (app : Option BoxedApp) : f.pc = .inDriver .startup → (f.app = none ↔ app = none) →
    Moves trusted s t f s.failed (some (.completed f.seq .startup))
      { f with app, pc := .openGate }
  | update (app : Option BoxedApp) : f.pc = .inDriver .update → (f.app = none ↔ app = none) →
    Moves trusted s t f s.failed (some (.completed f.seq .update))
      { f with app, pc := .callOriginal .driven }
  | opened : f.pc = .openGate →
    Moves trusted s t f s.failed (some (.opened f.seq)) { f with pc := .callOriginal .driven }
  | called (via : Via) : f.pc = .callOriginal via →
    Moves trusted s t f s.failed (some (.called f.seq f.this f.method))
      { f with phase := .callingOriginal, pc := .inOriginal via }
  | returned : f.pc = .inOriginal .driven →
    Moves trusted s t f s.failed none { f with phase := .afterOriginal, pc := .commit }
  | returnedLast (via : Via) : f.pc = .inOriginal via →
    Moves trusted s t f s.failed none { f with phase := .afterOriginal, pc := .drop }
  | committed (now : Bool) : f.pc = .commit → (s.failed = true → now = true) →
    Moves trusted s t f now none { f with app := none, tlsCommitted := true, pc := .drop }
  | recovered : f.pc = .unwound → f.phase = .beforeOriginal →
    Moves trusted s t f true none { f with pc := .callOriginal .recovery }
  | finished : f.pc = .unwound → f.phase ≠ .beforeOriginal →
    Moves trusted s t f true none { f with pc := .drop }

theorem advance_moves (hwaiting : f.pc.waiting = true → f.app = none) (hpc : f.pc ≠ .drop)
    (slot : AppSlot) (contended : Bool) :
    Moves trusted s t f (advance trusted s t slot f contended).1.failed
      (f.occurrence trusted s t slot contended) (advance trusted s t slot f contended).2.2 := by
  have hmono := (advance_shares trusted s t slot f contended).failed
  obtain ⟨seq, this, method, app, phase, tlsCommitted, pc⟩ := f
  cases pc with
  | loadFailed =>
    simp only [advance, SchedulerFrame.occurrence]
    cases hf : s.failed with
    | true => exact .failed rfl hf
    | false => exact .unfailed rfl hf
  | checkThread =>
    simp only [advance, SchedulerFrame.occurrence]
    cases ht : trusted t with
    | true => exact .checked rfl ht
    | false => exact .refused rfl ht
  | claim failed =>
    obtain rfl : app = none := hwaiting rfl
    simp only [advance, SchedulerFrame.occurrence] at hmono ⊢
    obtain ⟨app, -, heq⟩ | ⟨-, heq⟩ := claimApp_cases s slot ⟨seq, this, method, none, phase,
      tlsCommitted, .claim failed⟩ contended
    · simp only [heq]
      cases failed with
      | false => exact .claimed _ app (by rfl) hmono
      | true => exact .claimedLate _ app (by rfl) hmono
    · simp only [heq]
      cases failed with
      | false => exact .unclaimed _ (by rfl) hmono
      | true => exact .unclaimedLate _ (by rfl) hmono
  | commitFailed =>
    simp only [advance, SchedulerFrame.occurrence, commitApp_frame] at hmono ⊢
    exact .gaveBack _ rfl hmono
  | startDriver =>
    cases app with
    | some app => exact .started (driverFor app) rfl
    | none => exact .lacking rfl
  | inDriver driver =>
    have hmap : app = none ↔ app.map driver.completed = none := Option.map_eq_none_iff.symm
    cases driver with
    | startup => exact .startup _ rfl hmap
    | update => exact .update _ rfl hmap
  | openGate => exact .opened rfl
  | callOriginal via => exact .called via rfl
  | inOriginal via => cases via with
    | driven => exact .returned rfl
    | passthrough | recovery => exact .returnedLast _ rfl
  | commit =>
    simp only [advance, SchedulerFrame.occurrence, commitApp_frame] at hmono ⊢
    exact .committed _ rfl hmono
  | unwound => cases phase with
    | beforeOriginal => exact .recovered rfl rfl
    | callingOriginal | afterOriginal => exact .finished rfl (by simp)
  | drop => exact absurd rfl hpc

section

variable {now : Bool} {o : Option Occurrence} {f' : SchedulerFrame}

theorem Moves.same (hm : Moves trusted s t f now o f') :
    f'.seq = f.seq ∧ f'.this = f.this ∧ f'.method = f.method := by
  cases hm <;> exact ⟨rfl, rfl, rfl⟩

theorem Moves.waiting (hm : Moves trusted s t f now o f') (h : f'.pc.waiting = true) :
    f.pc.waiting = true ∧ f'.app = f.app ∧ o ≠ some (.claimed f.seq) := by
  cases hm with
  | failed hpc _ | unfailed hpc _ | checked hpc _ => simp [hpc]
  | _ => cases h

theorem Moves.mayStart (hm : Moves trusted s t f now o f') (h : f'.pc.mayStart = true) :
    f.pc.mayStart = true ∧ (∀ driver, o ≠ some (.started f.seq driver)) ∧
      o ≠ some (.loaded f.seq true) ∧ o ≠ some (.checked f.seq false) := by
  cases hm with
  | unfailed hpc _ | checked hpc _ | claimed _ _ hpc _ => simp [hpc]
  | _ => cases h

theorem Moves.passed (hm : Moves trusted s t f now o f') (h : f'.pc.passed = true) :
    f.pc.passed = true ∨ trusted t = true := by
  cases hm with
  | checked _ htrusted => exact .inr htrusted
  | claimed _ _ hpc _ | started _ hpc | startup _ hpc _ => exact .inl (by rw [hpc]; rfl)
  | _ => cases h

theorem Moves.driving (hm : Moves trusted s t f now o f') (h : f'.pc = .inDriver driver) :
    o = some (.started f.seq driver) := by
  cases hm with
  | started driver' hpc =>
    cases h
    rfl
  | _ => cases h

theorem Moves.completed (hm : Moves trusted s t f now o f') (h : f'.pc = .openGate) :
    o = some (.completed f.seq .startup) := by
  cases hm with
  | startup => rfl
  | _ => cases h

/-- A call is written down where the frame goes past it. -/
theorem Moves.calls (hm : Moves trusted s t f now o f')
    (hphase : f.pc.pastCall = false → f.phase = .beforeOriginal) :
    (f.pc.pastCall = f'.pc.pastCall ∧ o.toList.filter (·.isCallOf f.seq) = []) ∨
      f.pc.pastCall = false ∧ f'.pc.pastCall = true ∧
        o.toList.filter (·.isCallOf f.seq) = [.called f.seq f.this f.method] := by
  cases hm with
  | called via hpc => exact .inr (by simp [hpc, Occurrence.isCallOf])
  | finished hpc hlate => exact absurd (hphase (by rw [hpc]; rfl)) hlate
  | _ => exact .inl (by simp [*, Occurrence.isCallOf])

theorem Moves.phase (hm : Moves trusted s t f now o f') (h : f'.pc.pastCall = false) :
    f.pc.pastCall = false ∧ f'.phase = f.phase := by
  cases hm with
  | called | returned | returnedLast | committed | finished => cases h
  | _ => simp [*]

theorem Moves.failing (hm : Moves trusted s t f now o f')
    (hfailing : f.pc = .claim true ∨ f.pc = .commitFailed → s.failed = true)
    (h : f'.pc = .claim true ∨ f'.pc = .commitFailed) : now = true := by
  cases hm with
  | failed => rfl
  | claimedLate _ _ hpc hmono | unclaimedLate _ hpc hmono => exact hmono (hfailing (.inl hpc))
  | _ => obtain h | h := h <;> cases h

/-- Where the App of a frame goes. -/
theorem Moves.settled (hm : Moves trusted s t f now o f')
    (hfailing : f.pc = .claim true ∨ f.pc = .commitFailed → s.failed = true)
    (h : f'.app = none) :
    (f.app = none ∧ o ≠ some (.claimed f.seq) ∧ (s.failed = true → now = true) ∧
      (f.pc ≠ .drop)) ∨ now = true ∨ f'.pc = .drop := by
  cases hm with
  | claimed | claimedLate => cases h
  | gaveBack _ hpc hmono => exact .inr (.inl (hmono (hfailing (.inr hpc))))
  | committed | finished | returnedLast => exact .inr (.inr rfl)
  | failed | refused | recovered => exact .inr (.inl rfl)
  | startup app _ happ | update app _ happ =>
    exact .inl ⟨happ.mpr h, by simp [*], id, by simp [*]⟩
  | _ => exact .inl (by simp_all)

end

/-- Every field follows from what the step does to it. -/
theorem Recorded.advance (hr : Recorded trusted s.failed h t f below) (hpc : f.pc ≠ .drop)
    (slot : AppSlot) (contended : Bool) :
    Recorded trusted (Scheduler.advance trusted s t slot f contended).1.failed
      (h ++ (f.occurrence trusted s t slot contended).toList) t
      (Scheduler.advance trusted s t slot f contended).2.2 below := by
  have hm : Moves trusted s t f _ _ _ :=
    advance_moves (fun hwaiting => (hr.waiting hwaiting).1) hpc slot contended
  revert hm
  generalize (Scheduler.advance trusted s t slot f contended).1.failed = now
  generalize f.occurrence trusted s t slot contended = o
  generalize (Scheduler.advance trusted s t slot f contended).2.2 = f'
  intro hm
  obtain ⟨hseq, hthis, hmethod⟩ := hm.same
  have hwritten {e : Occurrence} : e ∉ h → o ≠ some e → e ∉ h ++ o.toList := by
    intro hold hnew hmem
    obtain hmem | hmem := List.mem_append.mp hmem
    · exact hold hmem
    · exact hnew (Option.mem_toList.mp hmem)
  constructor
  · rw [hseq, hthis, hmethod]
    exact List.mem_append_left _ hr.entered
  · intro h
    obtain ⟨hwaiting, happ, hclaim⟩ := hm.waiting h
    obtain ⟨hnone, hclaimed⟩ := hr.waiting hwaiting
    rw [happ, hseq]
    exact ⟨hnone, hwritten hclaimed hclaim⟩
  · intro h
    obtain ⟨hmay, hstart, hload, hcheck⟩ := hm.mayStart h
    obtain ⟨hstarted, hloaded, hchecked⟩ := hr.unstarted hmay
    rw [hseq]
    exact ⟨fun driver => hwritten (hstarted driver) (hstart driver), hwritten hloaded hload,
      hwritten hchecked hcheck⟩
  · exact fun h => (hm.passed h).elim hr.passed id
  · intro driver h
    rw [hseq, hm.driving h]
    exact List.mem_append_right _ List.mem_cons_self
  · intro h
    rw [hseq, hm.completed h]
    exact List.mem_append_right _ List.mem_cons_self
  · rw [hseq, hthis, hmethod, List.filter_append, hr.calls]
    obtain ⟨hsame, hnone⟩ | ⟨hbefore, hpast, hcall⟩ := hm.calls hr.phase
    · rw [hnone, hsame, List.append_nil]
    · rw [hcall, hbefore, hpast]
      rfl
  · intro h
    obtain ⟨hbefore, hsame⟩ := hm.phase h
    exact hsame.trans (hr.phase hbefore)
  · exact hm.failing hr.failing
  · intro hclaimed hnone
    obtain ⟨hbefore, hclaim, hmono, hstay⟩ | hend := hm.settled hr.failing hnone
    · rw [hseq] at hclaimed
      have hclaimed := by_contra fun hnot => hwritten hnot hclaim hclaimed
      exact .inl (hmono ((hr.settled hclaimed hbefore).resolve_right hstay))
    · exact hend

/-- Nothing else holds the App while the newest frame of a thread does. -/
structure Alone (s : State) (t : Nat) (rest : List SchedulerFrame) : Prop where
  handoff : s.handoff.app = none
  slots : ∀ u, (s.threads u).tls.app = none
  below : ∀ g ∈ rest, g.app = none
  others : ∀ u, u ≠ t → ∀ g ∈ (s.threads u).stack, g.app = none

theorem Inv.alone {home : Nat → Bool} (h : Inv trusted home s)
    (ht : s.threads t = ⟨slot, f :: rest⟩) (happ : f.app = some app) : Alone s t rest := by
  obtain ⟨-, hstack⟩ := held_thread ht
  have hpub : s.published = true := by
    by_contra hn
    have hnone := h.before (by simpa using hn) (.stack t)
    simp [hstack, happ] at hnone
  obtain ⟨p, own, hsole, -⟩ := h.after hpub
  obtain ⟨rfl, hrest⟩ := hsole.ofFrame hstack happ
  refine ⟨?_, fun u => ?_, fun g hg => List.filterMap_eq_nil_iff.mp hrest g hg, fun u hu g hg => ?_⟩
  · exact Option.toList_eq_nil_iff.mp (hsole.2 .handoff (by simp))
  · exact Option.toList_eq_nil_iff.mp (hsole.2 (.tls u) (by simp))
  · exact List.filterMap_eq_nil_iff.mp (hsole.2 (.stack u) (by simpa using hu)) g hg

/-- What the newest frame of a thread does is allowed. -/
theorem Told.allows {c : Chronicle} (hc : Told trusted c)
    (ht : c.state.threads t = ⟨slot, f :: rest⟩)
    (ho : f.occurrence trusted c.state t slot contended = some o) :
    allowed trusted c.history o := by
  have hr : Recorded trusted c.state.failed c.history t f rest := by
    have hstacked := hc.stacked t
    rw [ht] at hstacked
    exact hstacked.1
  unfold SchedulerFrame.occurrence at ho
  cases hpc : f.pc <;> simp only [hpc, Option.some.injEq, reduceCtorEq] at ho
  case loadFailed | checkThread =>
    subst ho
    exact (hr.unstarted (by simp [hpc])).1
  case claim failed =>
    obtain ⟨hnone, -⟩ := hr.waiting (by simp [hpc])
    split at ho
    case isFalse => cases ho
    case isTrue hsome =>
      cases ho
      rcases claimApp_cases c.state slot f contended with ⟨app, hfound | hfound, -⟩ | ⟨-, heq⟩
      · exact (hc.handoff app hfound).1
      · exact (hc.slots t app (by rw [ht]; exact hfound)).1
      · simp [heq, hnone] at hsome
  case startDriver =>
    cases happ : f.app with
    | none =>
      simp only [happ] at ho
      cases ho
      trivial
    | some app =>
      simp only [happ] at ho
      cases ho
      obtain ⟨hlost, hdrivers⟩ : Kept c.history app := by
        have hholding := hc.frames t f app (by simp [ht]) happ
        rwa [hpc] at hholding
      obtain ⟨-, hloaded, hchecked⟩ := hr.unstarted (by simp [hpc])
      have habove := hc.above t
      rw [ht, List.pairwise_cons] at habove
      refine ⟨hlost, hloaded, hchecked,
        ⟨t, f.this, f.method, _, hr.entered, fun o ho hclaimed => ?_⟩,
        ?_⟩
      · obtain ⟨g, hg, rfl⟩ := List.mem_map.mp ho
        have hgone := (hc.owner.alone ht happ).below g hg
        obtain ⟨-, hcalm⟩ := (habove.1 g hg).2 hclaimed hgone
        cases hpc.symm.trans (hcalm (by simp [hpc]))
      · cases hdone : app.startupCompleted <;> simpa [driverFor, hdone] using hdrivers
  case inDriver driver =>
    subst ho
    exact hr.driving hpc
  case openGate =>
    subst ho
    exact ⟨hr.completed hpc, t, f.this, f.method, _, hr.entered, hr.passed (by simp [hpc])⟩
  case callOriginal via =>
    subst ho
    exact ⟨hr.calls.trans (by simp [hpc]), t, _, hr.entered⟩
  case drop =>
    subst ho
    have hcalled : .called f.seq f.this f.method ∈ c.history.filter (·.isCallOf f.seq) := by
      rw [hr.calls, hpc]
      exact List.mem_singleton.mpr rfl
    exact ⟨f.this, f.method, (List.mem_filter.mp hcalled).1⟩

theorem advance_mayStart (h : (advance trusted s t slot f contended).2.2.pc.mayStart = true) :
    f.pc.mayStart = true ∧ (f.pc = .loadFailed → s.failed = false) := by
  cases hpc : f.pc <;> simp only [advance, hpc] at h
  case loadFailed => cases hf : s.failed <;> simp_all
  case checkThread => exact ⟨rfl, by simp⟩
  case claim failed =>
    cases failed with
    | true => simp at h
    | false => exact ⟨rfl, by simp⟩
  case startDriver => exact ⟨rfl, by simp⟩
  case inDriver driver => cases driver <;> simp at h
  case inOriginal via => cases via <;> simp [Via.next] at h
  case unwound => split at h <;> simp at h
  case drop => simp at h
  all_goals simp [callOriginalOnce, OriginalGuard.beginCall, OriginalGuard.new] at h

theorem Above.advance (ha : Above s.failed h f g) (trusted : Nat → Bool) (t : Nat) (slot : AppSlot)
    (contended : Bool) :
    Above (Scheduler.advance trusted s t slot f contended).1.failed
      (h ++ (f.occurrence trusted s t slot contended).toList)
      (Scheduler.advance trusted s t slot f contended).2.2 g := by
  have hmono := (advance_shares trusted s t slot f contended).failed
  refine ⟨(advance_same trusted s t slot f contended).1 ▸ ha.1, fun hm hnone => ?_⟩
  have hin : .claimed g.seq ∈ h := by
    cases ho : f.occurrence trusted s t slot contended with
    | none => simpa [ho] using hm
    | some o =>
      rw [ho] at hm
      refine (mem_concat_of_ne ?_).mp hm
      rw [occurrence_seq ho]
      exact ha.1.ne'
  obtain ⟨hfailed, hcalm⟩ := ha.2 hin hnone
  refine ⟨hmono hfailed, fun hmay => ?_⟩
  obtain ⟨hmay, hhealthy⟩ := advance_mayStart hmay
  exact absurd (hfailed.symm.trans (hhealthy (hcalm hmay))) (by simp)

/-- What the App found in a frame's hands or in its slot is after a step. -/
theorem Told.keeps {c : Chronicle} (hc : Told trusted c)
    (ht : c.state.threads t = ⟨slot, f :: rest⟩) (hdrop : f.pc ≠ .drop) (contended : Bool) :
    (∀ app, (advance trusted c.state t slot f contended).2.2.app = some app →
      (advance trusted c.state t slot f contended).2.2.pc.Holding
        (c.history ++ (f.occurrence trusted c.state t slot contended).toList) app) ∧
    (∀ app, (advance trusted c.state t slot f contended).2.1.app = some app →
      Kept (c.history ++ (f.occurrence trusted c.state t slot contended).toList) app) := by
  have hr : Recorded trusted c.state.failed c.history t f rest := by
    have hstacked := hc.stacked t
    rw [ht] at hstacked
    exact hstacked.1
  have hframe app (happ : f.app = some app) : f.pc.Holding c.history app :=
    hc.frames t f app (by simp [ht]) happ
  have hslot app (happ : slot.app = some app) : Kept c.history app :=
    hc.slots t app (by rw [ht]; exact happ)
  cases hpc : f.pc <;> simp only [advance, SchedulerFrame.occurrence, hpc] at hframe ⊢
  case drop => exact absurd hpc hdrop
  case loadFailed =>
    obtain ⟨hnone, -⟩ := hr.waiting (by simp [hpc])
    exact ⟨fun app happ => by simp [hnone] at happ, fun app happ => (hslot app happ).concat trivial⟩
  case checkThread =>
    obtain ⟨hnone, -⟩ := hr.waiting (by simp [hpc])
    split
    · exact ⟨fun app happ => by simp [hnone] at happ,
        fun app happ => (hslot app happ).concat trivial⟩
    · refine ⟨fun app happ => by simp [hnone] at happ, fun app happ => ?_⟩
      dsimp only at happ
      split at happ
      · cases happ
      · exact (hslot app happ).concat trivial
  case claim failed =>
    obtain ⟨hnone, -⟩ := hr.waiting (by simp [hpc])
    rcases claimApp_cases c.state slot f contended with ⟨app, hfound, heq⟩ | ⟨hsame, heq⟩
    · have hkept : Kept (c.history ++ [.claimed f.seq]) app := by
        rcases hfound with hhandoff | hrunning
        · exact (hc.handoff app hhandoff).concat trivial
        · exact (hslot app hrunning).concat trivial
      simp only [heq]
      refine ⟨fun own hown => ?_, fun own hown => nomatch hown⟩
      obtain rfl := Option.some.inj hown
      cases failed <;> exact hkept
    · rw [heq, hsame]
      refine ⟨fun own hown => ?_, fun own hown => ?_⟩
      · simp [hnone] at hown
      · simpa [hnone] using hslot own hown
  case commitFailed | commit =>
    rw [commitApp_frame]
    refine ⟨fun app happ => by simp at happ, fun app happ => ?_⟩
    rcases commitApp_slot happ with hold | hheld
    · simpa using hslot app hold
    · have hkept : Kept c.history app := hframe app hheld
      simpa using hkept
  case startDriver =>
    cases happ : f.app with
    | none =>
      exact ⟨fun app hown => by simp at hown, fun app hold => (hslot app hold).concat trivial⟩
    | some app =>
      have hvacant := (hc.owner.alone ht happ).slots t
      rw [ht] at hvacant
      refine ⟨fun own hown => ?_, fun own hown => by simp [hvacant] at hown⟩
      obtain rfl : app = own := Option.some.inj hown
      have hkept : Kept c.history app := hframe app happ
      dsimp only
      cases hdriver : driverFor app with
      | update => exact hkept.concat trivial
      | startup => exact fun n hm => hkept.1 n (by simpa using hm)
  case inDriver driver =>
    refine ⟨fun own hown => ?_, fun app hold => (hslot app hold).concat trivial⟩
    obtain ⟨app, happ, rfl⟩ := Option.map_eq_some_iff.mp hown
    cases driver with
    | startup =>
      have hlost : NotLost c.history := hframe app happ
      exact ⟨fun n hm => hlost n (by simpa using hm), f.seq, by simp⟩
    | update =>
      have hkept : Kept c.history app := hframe app happ
      exact hkept.concat trivial
  case openGate =>
    exact ⟨fun app happ => Kept.concat (hframe app happ) trivial,
      fun app hold => (hslot app hold).concat trivial⟩
  case callOriginal via =>
    refine ⟨fun app happ => ?_, fun app hold => (hslot app hold).concat trivial⟩
    cases via with
    | recovery => trivial
    | passthrough | driven => exact Kept.concat (hframe app happ) trivial
  case inOriginal via =>
    refine ⟨fun app happ => ?_, fun app hold => by simpa using hslot app hold⟩
    cases via with
    | passthrough | recovery => trivial
    | driven =>
      have hkept : Kept c.history app := hframe app happ
      simpa [Via.next, Pc.Holding] using hkept
  case unwound =>
    refine ⟨fun app happ => ?_, fun app hold => by simpa using hslot app hold⟩
    split <;> trivial

end ShinySongTools.Scheduler
