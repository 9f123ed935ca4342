import ShinySongTools.Runtime.Scheduler

/-!
# Who owns the App

From its publication on the App is in one place: the handoff slot, the
thread-local slot of a thread, a frame on a thread's stack, or the leaked
values. `Owned` says so about a state, and `Confined` that the place does not
belong to an untrusted thread. Every step keeps the first; the claim a frame
makes after it has seen `failed` does not ask about its thread, and
`ownership_iff` says what the second comes down to.
-/

namespace ShinySongTools.Scheduler

inductive Place where
  | handoff
  | tls (thread : Nat)
  | stack (thread : Nat)
  | leaked
  deriving DecidableEq, Repr

/-- The Apps found at a place; on a stack, frame by frame. -/
def State.held (s : State) : Place → List BoxedApp
  | .handoff => s.handoff.app.toList
  | .tls t => (s.threads t).tls.app.toList
  | .stack t => (s.threads t).stack.filterMap (·.app)
  | .leaked => s.leaked

/-- The App is at `p` and nowhere else. -/
def State.Sole (s : State) (p : Place) (app : BoxedApp) : Prop :=
  s.held p = [app] ∧ ∀ q, q ≠ p → s.held q = []

def Place.Confined (trusted : Nat → Bool) : Place → Prop
  | .tls t | .stack t => trusted t = true
  | .handoff | .leaked => True

variable (trusted : Nat → Bool)

def Owned (s : State) : Prop :=
  s.dropped = [] ∧
    (s.published = true → ∃ p app, s.Sole p app ∧ p.Confined trusted)

/-- The step does not take the App out of the handoff on an untrusted thread
whose frame found `failed` set. -/
def ClaimsTrusted (s : State) : Action → Prop
  | .resume t contended => ∀ f rest, (s.threads t).stack = f :: rest → f.pc = .claim true →
      (s.threads t).tls = .awaitingHandoff → contended = false → s.handoff.poisoned = false →
      s.handoff.app.isSome = true → trusted t = true
  | _ => True

-- ---------------------------------------------------------------------------
-- The invariant
-- ---------------------------------------------------------------------------

structure FrameOk (t : Nat) (f : SchedulerFrame) : Prop where
  committed : f.tlsCommitted = true → f.pc = .drop ∧ f.app = none
  healthy : f.pc = .claim false → trusted t = true

structure Inv (home : Nat → Bool) (s : State) : Prop where
  dropped : s.dropped = []
  before : s.published = false → ∀ q, s.held q = []
  after : s.published = true → ∃ p app, s.Sole p app ∧ p.Confined home
  frames : ∀ t f, f ∈ (s.threads t).stack → FrameOk trusted t f

variable {trusted} {home : Nat → Bool}

theorem Inv.init : Inv trusted home .init where
  dropped := rfl
  before _ q := by cases q <;> rfl
  after h := by cases h
  frames t f hf := by cases hf

theorem Inv.owned (h : Inv trusted trusted s) : Owned trusted s := ⟨h.dropped, h.after⟩

theorem State.Sole.place {s : State} (h : s.Sole p app) (hq : s.held q ≠ []) : q = p := by
  by_contra hne
  exact hq (h.2 q hne)

@[simp] theorem held_emit (s : State) (e : Event) : (s.emit e).held q = s.held q := by
  cases q <;> rfl

@[simp] theorem held_publishGlobalFailure (s : State) :
    (publishGlobalFailure s).held q = s.held q := by
  cases q <;> rfl

@[simp] theorem held_dropApp (s : State) : (s.dropApp app).held q = s.held q := by
  cases q <;> rfl

theorem held_setThread (s : State) (t : Nat) (slot : AppSlot) (stack : List SchedulerFrame)
    (q : Place) :
    (s.setThread t slot stack).held q =
      if q = .tls t then slot.app.toList
      else if q = .stack t then stack.filterMap (·.app)
      else s.held q := by
  cases q with
  | handoff | leaked => rfl
  | tls u | stack u =>
    by_cases hu : u = t
    · simp [State.held, State.setThread, hu]
    · simp [State.held, State.setThread, hu]

theorem State.Sole.move {s s' : State} (h : s.Sole p app) (hq : s'.held q = [app'])
    (hp : p ≠ q → s'.held p = []) (hrest : ∀ r, r ≠ q → r ≠ p → s'.held r = s.held r) :
    s'.Sole q app' := by
  refine ⟨hq, fun r hr => ?_⟩
  by_cases hrp : r = p
  · subst hrp
    exact hp hr
  · rw [hrest r hr hrp]
    exact h.2 r hrp

-- ---------------------------------------------------------------------------
-- What one step of a frame does with the App
-- ---------------------------------------------------------------------------

structure SameShared (s s' : State) : Prop where
  handoff : s'.handoff.app = s.handoff.app
  leaked : s'.leaked = s.leaked
  dropped : s'.dropped = s.dropped

/-- Where the App goes while the newest frame of a thread takes one step. -/
inductive Move : Local → Local → Prop where
  | stays {slot slot' : AppSlot} {f f' : SchedulerFrame} (shared : SameShared s s')
      (hslot : slot'.app = slot.app) (hframe : f'.app = f.app) :
      Move (s, slot, f) (s', slot', f')
  | runs {slot : AppSlot} {f f' : SchedulerFrame} (shared : SameShared s s')
      (app app' : BoxedApp) (found : f.app = some app) (hframe : f'.app = some app') :
      Move (s, slot, f) (s', slot, f')
  | fromHandoff {f f' : SchedulerFrame} (app : BoxedApp)
      (found : s.handoff.app = some app) (handoff : s'.handoff.app = none)
      (leaked : s'.leaked = s.leaked) (dropped : s'.dropped = f.app.toList ++ s.dropped)
      (hframe : f'.app = some app) : Move (s, .awaitingHandoff, f) (s', .busy, f')
  | fromTls {f f' : SchedulerFrame} (app : BoxedApp) (handoff : s'.handoff.app = s.handoff.app)
      (leaked : s'.leaked = s.leaked) (dropped : s'.dropped = f.app.toList ++ s.dropped)
      (hframe : f'.app = some app) : Move (s, .running app, f) (s', .busy, f')
  | toTls {slot' : AppSlot} {f f' : SchedulerFrame} (app : BoxedApp) (shared : SameShared s s')
      (found : f.app = some app) (hslot : slot'.app = some app) (hframe : f'.app = none) :
      Move (s, .busy, f) (s', slot', f')
  | toLeaked {slot : AppSlot} {f f' : SchedulerFrame} (app : BoxedApp) (found : f.app = some app)
      (handoff : s'.handoff.app = s.handoff.app) (leaked : s'.leaked = app :: s.leaked)
      (dropped : s'.dropped = slot.app.toList ++ s.dropped) (hframe : f'.app = none) :
      Move (s, slot, f) (s', .unavailable, f')

theorem tryTake_cases (h : Handoff) (contended : Bool) :
    (∃ app, h.app = some app ∧ contended = false ∧ h.poisoned = false ∧
      h.tryTake contended = (.ready app, { h with app := none })) ∨
    h.tryTake contended = (.pending, h) ∨ h.tryTake contended = (.failed, h) := by
  unfold Handoff.tryTake
  cases contended with
  | true => simp
  | false =>
    cases hp : h.poisoned with
    | true => simp
    | false => cases happ : h.app <;> simp

theorem claimApp_move (s : State) (slot : AppSlot) (f : SchedulerFrame) (contended : Bool) :
    Move (s, slot, f) (claimApp s slot f contended) := by
  unfold claimApp
  cases slot with
  | awaitingHandoff =>
    rcases tryTake_cases s.handoff contended with ⟨app, happ, -, -, ht⟩ | ht | ht
    · simp only [ht]
      exact .fromHandoff app happ rfl rfl rfl rfl
    · simp only [ht]
      exact .stays ⟨rfl, rfl, rfl⟩ rfl rfl
    · simp only [ht]
      exact .stays ⟨rfl, rfl, rfl⟩ rfl rfl
  | running app => exact .fromTls app rfl rfl rfl rfl
  | busy | exited app | unavailable => exact .stays ⟨rfl, rfl, rfl⟩ rfl rfl

theorem commitApp_move (s : State) (slot : AppSlot) (f : SchedulerFrame) (exit : Bool) :
    Move (s, slot, f) (commitApp s slot f exit) := by
  unfold commitApp
  cases happ : f.app with
  | none => exact .stays ⟨rfl, rfl, rfl⟩ rfl rfl
  | some app =>
    cases slot with
    | busy => exact .toTls app ⟨rfl, rfl, rfl⟩ happ (by cases exit <;> rfl) rfl
    | awaitingHandoff | running old | exited old | unavailable =>
      exact .toLeaked app happ rfl rfl rfl rfl

theorem Move.pc (h : Move l (s', slot', f')) (pc : Pc) (committed : Bool) :
    Move l (s', slot', { f' with pc, tlsCommitted := committed }) := by
  cases h with
  | stays h hslot hframe => exact .stays h hslot hframe
  | runs h app app' found hframe => exact .runs h app app' found hframe
  | fromHandoff app found handoff leaked dropped hframe =>
    exact .fromHandoff app found handoff leaked dropped hframe
  | fromTls app handoff leaked dropped hframe => exact .fromTls app handoff leaked dropped hframe
  | toTls app h found hslot hframe => exact .toTls app h found hslot hframe
  | toLeaked app found handoff leaked dropped hframe =>
    exact .toLeaked app found handoff leaked dropped hframe

theorem advance_move (trusted : Nat → Bool) (s : State) (t : Nat) (slot : AppSlot)
    (f : SchedulerFrame)
    (contended : Bool) : Move (s, slot, f) (advance trusted s t slot f contended) := by
  cases hpc : f.pc <;> simp only [advance, hpc]
  case claim failed => exact (claimApp_move s slot f contended).pc _ _
  case commitFailed => exact (commitApp_move s slot f true).pc _ _
  case commit => exact (commitApp_move s slot f s.failed).pc _ _
  case checkThread =>
    split
    · exact .stays ⟨rfl, rfl, rfl⟩ rfl rfl
    · exact .stays ⟨rfl, rfl, rfl⟩ (by split <;> simp_all [AppSlot.app]) rfl
  case startDriver => split <;> exact .stays ⟨rfl, rfl, rfl⟩ rfl rfl
  case inDriver driver =>
    cases happ : f.app with
    | none => exact .stays ⟨rfl, rfl, rfl⟩ rfl (by simp [happ])
    | some app => exact .runs ⟨rfl, rfl, rfl⟩ app (driver.completed app) happ (by simp)
  all_goals exact .stays ⟨rfl, rfl, rfl⟩ rfl rfl

-- ---------------------------------------------------------------------------
-- A step of a frame keeps the App in one place
-- ---------------------------------------------------------------------------

theorem held_thread {s : State} (ht : s.threads t = ⟨slot, f :: rest⟩) :
    s.held (.tls t) = slot.app.toList ∧
      s.held (.stack t) = f.app.toList ++ rest.filterMap (·.app) := by
  constructor
  · simp [State.held, ht]
  · cases happ : f.app <;> simp [State.held, ht, happ]

theorem held_push (s : State) (t : Nat) (slot : AppSlot) (f : SchedulerFrame)
    (rest : List SchedulerFrame) :
    (s.setThread t slot (f :: rest)).held (.tls t) = slot.app.toList ∧
      (s.setThread t slot (f :: rest)).held (.stack t) =
        f.app.toList ++ rest.filterMap (·.app) :=
  held_thread (by simp [State.setThread])

theorem held_other {s s' : State} {q : Place} (ht : s'.threads = s.threads)
    (hh : q ≠ .handoff ∨ s'.handoff.app = s.handoff.app) (hl : q ≠ .leaked ∨ s'.leaked = s.leaked)
    (h₁ : q ≠ .tls t) (h₂ : q ≠ .stack t) :
    (s'.setThread t slot stack).held q = s.held q := by
  rw [held_setThread, if_neg h₁, if_neg h₂]
  cases q with
  | handoff => simp [State.held, hh.resolve_left (by simp)]
  | leaked => simp [State.held, hl.resolve_left (by simp)]
  | tls u | stack u => simp [State.held, ht]

theorem State.Sole.ofFrame {s : State} {rest : List BoxedApp} (h : s.Sole p app)
    (hstack : s.held (.stack t) = own.toList ++ rest) (found : own = some app') :
    p = .stack t ∧ rest = [] := by
  obtain rfl := h.place (q := .stack t) (by simp [hstack, found])
  have hown := h.1
  simp only [hstack, found, Option.toList_some, List.cons_append, List.nil_append,
    List.cons.injEq] at hown
  exact ⟨rfl, hown.2⟩

theorem State.Sole.noFrame {s : State} {own : Option BoxedApp} {rest : List BoxedApp}
    (h : s.Sole p app)
    (hstack : s.held (.stack t) = own.toList ++ rest) (hp : p ≠ .stack t) :
    own.toList = [] ∧ rest = [] := by
  have hnone := h.2 (.stack t) hp.symm
  rwa [hstack, List.append_eq_nil_iff] at hnone

theorem held_stays {s s' : State} {slot slot' : AppSlot} {f f' : SchedulerFrame}
    (ht : s.threads t = ⟨slot, f :: rest⟩) (hs : s'.threads = s.threads) (shared : SameShared s s')
    (hslot : slot'.app = slot.app) (hframe : f'.app = f.app) (q : Place) :
    (s'.setThread t slot' (f' :: rest)).held q = s.held q := by
  obtain ⟨htls, hstack⟩ := held_thread ht
  obtain ⟨htls', hstack'⟩ := held_push s' t slot' f' rest
  by_cases h₁ : q = .tls t
  · rw [h₁, htls', htls, hslot]
  · by_cases h₂ : q = .stack t
    · rw [h₂, hstack', hstack, hframe]
    · exact held_other hs (.inr shared.handoff) (.inr shared.leaked) h₁ h₂

theorem Move.vacant {s s' : State} {slot slot' : AppSlot} {f f' : SchedulerFrame}
    (hm : Move (s, slot, f) (s', slot', f')) (ht : s.threads t = ⟨slot, f :: rest⟩)
    (hs : s'.threads = s.threads) (h : ∀ q, s.held q = []) :
    s'.dropped = s.dropped ∧ ∀ q, (s'.setThread t slot' (f' :: rest)).held q = [] := by
  obtain ⟨htls, hstack⟩ := held_thread ht
  have hown := h (.stack t)
  rw [hstack, List.append_eq_nil_iff] at hown
  cases hm with
  | stays shared hslot hframe =>
    exact ⟨shared.dropped, fun q => (held_stays ht hs shared hslot hframe q).trans (h q)⟩
  | runs shared app app' found hframe => simp [found] at hown
  | toTls app shared found hslot hframe => simp [found] at hown
  | toLeaked app found handoff leaked dropped hframe => simp [found] at hown
  | fromHandoff app found handoff leaked dropped hframe =>
    have hhandoff := h .handoff
    simp [State.held, found] at hhandoff
  | fromTls app handoff leaked dropped hframe =>
    rw [h] at htls
    cases htls

/-- A move keeps the App in one place and drops nothing. Where it leaves the
handoff, its thread is the one to ask about. -/
theorem Move.sole {s s' : State} {slot slot' : AppSlot} {f f' : SchedulerFrame}
    (hm : Move (s, slot, f) (s', slot', f')) (ht : s.threads t = ⟨slot, f :: rest⟩)
    (hs : s'.threads = s.threads) (h : s.Sole p app) (hp : p.Confined home)
    (hclaim : s.handoff.app.isSome = true → s'.handoff.app = none → home t = true) :
    s'.dropped = s.dropped ∧
      ∃ q app', (s'.setThread t slot' (f' :: rest)).Sole q app' ∧ q.Confined home := by
  obtain ⟨htls, hstack⟩ := held_thread ht
  obtain ⟨htls', hstack'⟩ := held_push s' t slot' f' rest
  cases hm with
  | stays shared hslot hframe =>
    have heq := held_stays ht hs shared hslot hframe
    exact ⟨shared.dropped, p, app, ⟨(heq p).trans h.1, fun q hq => (heq q).trans (h.2 q hq)⟩, hp⟩
  | runs shared app app' found hframe =>
    obtain ⟨rfl, hrest⟩ := h.ofFrame hstack found
    refine ⟨shared.dropped, .stack t, app', h.move ?_ (fun hne => absurd rfl hne) ?_, hp⟩
    · rw [hstack', hframe, hrest]
      rfl
    · intro r hr _
      by_cases h₁ : r = .tls t
      · rw [h₁, htls', htls]
      · exact held_other hs (.inr shared.handoff) (.inr shared.leaked) h₁ hr
  | fromHandoff app found handoff leaked dropped hframe =>
    obtain rfl := h.place (q := .handoff) (by simp [State.held, found])
    obtain ⟨hown, hrest⟩ := h.noFrame hstack (by simp)
    refine ⟨by simp [dropped, hown], .stack t, app, h.move ?_ ?_ ?_,
      hclaim (by simp [found]) handoff⟩
    · rw [hstack', hframe, hrest]
      rfl
    · intro _
      rw [held_setThread, if_neg (by simp), if_neg (by simp)]
      simp [State.held, handoff]
    · intro r hr hr'
      by_cases h₁ : r = .tls t
      · rw [h₁, htls', htls]
        rfl
      · exact held_other hs (.inl hr') (.inr leaked) h₁ hr
  | fromTls app handoff leaked dropped hframe =>
    obtain rfl := h.place (q := .tls t) (by simp [htls, AppSlot.app])
    obtain ⟨hown, hrest⟩ := h.noFrame hstack (by simp)
    refine ⟨by simp [dropped, hown], .stack t, app, h.move ?_ ?_ ?_, hp⟩
    · rw [hstack', hframe, hrest]
      rfl
    · intro _
      rw [htls']
      rfl
    · intro r hr hr'
      exact held_other hs (.inr handoff) (.inr leaked) hr' hr
  | toTls app shared found hslot hframe =>
    obtain ⟨rfl, hrest⟩ := h.ofFrame hstack found
    refine ⟨shared.dropped, .tls t, app, h.move ?_ ?_ ?_, hp⟩
    · rw [htls', hslot]
      rfl
    · intro _
      rw [hstack', hframe, hrest]
      rfl
    · intro r hr hr'
      exact held_other hs (.inr shared.handoff) (.inr shared.leaked) hr hr'
  | toLeaked app found handoff leaked dropped hframe =>
    obtain ⟨rfl, hrest⟩ := h.ofFrame hstack found
    have hslot := h.2 (.tls t) (by simp)
    have hnone : s.leaked = [] := h.2 .leaked (by simp)
    rw [htls] at hslot
    refine ⟨by simp [dropped, hslot], .leaked, app, h.move ?_ ?_ ?_, trivial⟩
    · rw [held_setThread, if_neg (by simp), if_neg (by simp)]
      simp [State.held, leaked, hnone]
    · intro _
      rw [hstack', hframe, hrest]
      rfl
    · intro r hr hr'
      by_cases h₁ : r = .tls t
      · rw [h₁, htls', htls, hslot]
        rfl
      · exact held_other hs (.inr handoff) (.inl hr) h₁ hr'

theorem advance_frame (trusted : Nat → Bool) (s : State) (t : Nat) (slot : AppSlot)
    (f : SchedulerFrame)
    (contended : Bool) :
    (advance trusted s t slot f contended).1.threads = s.threads ∧
      (advance trusted s t slot f contended).1.published = s.published := by
  have hclaim : (claimApp s slot f contended).1.threads = s.threads ∧
      (claimApp s slot f contended).1.published = s.published := by
    unfold claimApp
    cases slot with
    | awaitingHandoff =>
      rcases s.handoff.tryTake contended with ⟨(_ | _ | _), _⟩ <;> exact ⟨rfl, rfl⟩
    | running app | busy | exited app | unavailable => exact ⟨rfl, rfl⟩
  have hcommit (exit : Bool) : (commitApp s slot f exit).1.threads = s.threads ∧
      (commitApp s slot f exit).1.published = s.published := by
    unfold commitApp commitTls
    cases f.app with
    | none => exact ⟨rfl, rfl⟩
    | some app => cases slot <;> exact ⟨rfl, rfl⟩
  cases hpc : f.pc <;> simp only [advance, hpc]
  case claim failed => exact hclaim
  case commitFailed => exact hcommit true
  case commit => exact hcommit s.failed
  case checkThread => split <;> exact ⟨rfl, rfl⟩
  case startDriver => split <;> exact ⟨rfl, rfl⟩
  all_goals trivial

theorem commitApp_app (s : State) (slot : AppSlot) (f : SchedulerFrame) (exit : Bool) :
    (commitApp s slot f exit).2.2.app = none ∧
      (commitApp s slot f exit).2.2.tlsCommitted = f.tlsCommitted := by
  unfold commitApp
  cases happ : f.app <;> simp [happ]

theorem claimApp_committed (s : State) (slot : AppSlot) (f : SchedulerFrame) (contended : Bool) :
    (claimApp s slot f contended).2.2.tlsCommitted = f.tlsCommitted := by
  unfold claimApp
  cases slot with
  | awaitingHandoff => rcases s.handoff.tryTake contended with ⟨(_ | _ | _), _⟩ <;> rfl
  | running app | busy | exited app | unavailable => rfl

theorem advance_takes (h : (advance trusted s t slot f contended).1.handoff.app ≠ s.handoff.app) :
    ∃ failed, f.pc = .claim failed ∧ slot = .awaitingHandoff ∧ contended = false ∧
      s.handoff.poisoned = false := by
  have hcommit (exit : Bool) : (commitApp s slot f exit).1.handoff = s.handoff := by
    unfold commitApp commitTls
    cases f.app with
    | none => rfl
    | some app => cases slot <;> rfl
  cases hpc : f.pc <;> simp only [advance, hpc] at h
  case claim failed =>
    refine ⟨failed, rfl, ?_⟩
    unfold claimApp at h
    cases slot with
    | awaitingHandoff =>
      rcases tryTake_cases s.handoff contended with ⟨app, -, hc, hp, -⟩ | ht | ht
      · exact ⟨rfl, hc, hp⟩
      · simp [ht] at h
      · simp [ht, publishGlobalFailure, State.emit] at h
    | running app | busy | exited app | unavailable => exact absurd rfl h
  case commitFailed => exact absurd (by rw [hcommit]) h
  case commit => exact absurd (by rw [hcommit]) h
  case checkThread => split at h <;> exact absurd rfl h
  case startDriver => split at h <;> exact absurd rfl h
  all_goals exact absurd rfl h

theorem advance_claims (trusted : Nat → Bool) (t : Nat) (hpc : f.pc = .claim failed)
    (hc : contended = false)
    (hp : s.handoff.poisoned = false) (happ : s.handoff.app = some app) :
    (advance trusted s t .awaitingHandoff f contended).2.2.app = some app := by
  simp [advance, hpc, claimApp, Handoff.tryTake, hc, hp, happ]

theorem FrameOk.resume (h : FrameOk trusted t f) (hpc : f.pc ≠ .drop) (s : State) (slot : AppSlot)
    (contended : Bool) :
    FrameOk trusted t (advance trusted s t slot f contended).2.2 := by
  have hopen : f.tlsCommitted = false := by
    cases hc : f.tlsCommitted with
    | false => rfl
    | true => exact absurd (h.committed hc).1 hpc
  cases hpc' : f.pc <;> simp only [advance, hpc']
  case loadFailed =>
    refine ⟨fun hc => by simp [hopen] at hc, fun hh => ?_⟩
    dsimp only at hh
    split at hh <;> cases hh
  case checkThread =>
    cases ht : trusted t with
    | true => exact ⟨fun hc => by simp [hopen] at hc, fun _ => ht⟩
    | false => exact ⟨fun hc => by simp [hopen] at hc, fun hh => by simp at hh⟩
  case claim failed =>
    have hc := claimApp_committed s slot f contended
    refine ⟨fun hc' => by simp [hc, hopen] at hc', fun hh => ?_⟩
    dsimp only at hh
    split at hh
    · cases hh
    · split at hh <;> cases hh
  case commitFailed =>
    exact ⟨fun hc => by simp [(commitApp_app s slot f true).2, hopen] at hc,
      fun hh => by simp at hh⟩
  case startDriver =>
    split <;> exact ⟨fun hc => by simp [hopen] at hc, fun hh => by simp at hh⟩
  case commit =>
    exact ⟨fun _ => ⟨rfl, (commitApp_app s slot f s.failed).1⟩, fun hh => by simp at hh⟩
  case drop => exact absurd hpc' hpc
  case inDriver driver =>
    exact ⟨fun hc => by simp [hopen] at hc, fun hh => by cases driver <;> simp at hh⟩
  case inOriginal via =>
    exact ⟨fun hc => by simp [hopen] at hc, fun hh => by cases via <;> simp [Via.next] at hh⟩
  case unwound =>
    refine ⟨fun hc => by simp [hopen] at hc, fun hh => ?_⟩
    dsimp only at hh
    split at hh <;> cases hh
  case callOriginal via =>
    exact ⟨fun hc => by
        simp [callOriginalOnce, OriginalGuard.beginCall, OriginalGuard.new, hopen] at hc,
      fun hh => by simp [callOriginalOnce, OriginalGuard.beginCall, OriginalGuard.new] at hh⟩
  case openGate => exact ⟨fun hc => by simp [hopen] at hc, fun hh => by simp at hh⟩

-- ---------------------------------------------------------------------------
-- Every action
-- ---------------------------------------------------------------------------

/-- The invariant speaks of a state only through what is held, what has been
dropped, and the frames. -/
theorem Inv.congr {s s' : State} (h : Inv trusted home s) (hheld : ∀ q, s'.held q = s.held q)
    (hpub : s'.published = s.published) (hdrop : s'.dropped = s.dropped)
    (hframes : ∀ t f, f ∈ (s'.threads t).stack → FrameOk trusted t f) : Inv trusted home s' := by
  refine ⟨hdrop.trans h.dropped, fun hp q => ?_, fun hp => ?_, hframes⟩
  · rw [hheld]
    exact h.before (hpub ▸ hp) q
  · obtain ⟨p, app, hs, hc⟩ := h.after (hpub ▸ hp)
    exact ⟨p, app, ⟨(hheld p).trans hs.1, fun q hq => (hheld q).trans (hs.2 q hq)⟩, hc⟩

theorem frames_setThread {s s' : State} (hf : ∀ u f, f ∈ (s.threads u).stack → FrameOk trusted u f)
    (ht : s'.threads = s.threads) (hstack : ∀ f ∈ stack, FrameOk trusted t f) :
    ∀ u f, f ∈ ((s'.setThread t slot stack).threads u).stack → FrameOk trusted u f := by
  intro u f hmem
  by_cases hu : u = t
  · subst hu
    simp only [State.setThread, Function.update_self] at hmem
    exact hstack f hmem
  · simp only [State.setThread, Function.update_of_ne hu, ht] at hmem
    exact hf u f hmem

theorem Inv.publish (h : Inv trusted home s) (hp : s.published = false) :
    Inv trusted home { s with
      handoff := (s.handoff.publish ⟨false⟩).2, published := (s.handoff.publish ⟨false⟩).1 } := by
  have hnone := h.before hp
  have happ : s.handoff.app = none := by simpa [State.held] using hnone .handoff
  cases hpoison : s.handoff.poisoned with
  | true =>
    simp only [Handoff.publish, hpoison, if_true]
    exact h.congr (fun q => by cases q <;> rfl) hp.symm rfl h.frames
  | false =>
    refine ⟨h.dropped, fun hq => ?_, fun _ => ?_, h.frames⟩
    · simp [Handoff.publish, hpoison, happ] at hq
    · refine ⟨.handoff, ⟨false⟩, ⟨?_, fun q hq => ?_⟩, trivial⟩
      · simp [State.held, Handoff.publish, hpoison, happ]
      · rw [← hnone q]
        cases q with
        | handoff => exact absurd rfl hq
        | tls t | stack t | leaked => rfl

theorem held_same {s : State} {stack' : List SchedulerFrame} (ht : s.threads t = ⟨slot, stack⟩)
    (happ : stack'.filterMap (·.app) = stack.filterMap (·.app)) (q : Place) :
    (s.setThread t slot stack').held q = s.held q := by
  rw [held_setThread]
  split
  case isTrue hq => simp [hq, State.held, ht]
  case isFalse =>
    split
    case isTrue hq => simp [hq, State.held, ht, happ]
    case isFalse => rfl

theorem Inv.runFrame (h : Inv trusted home s) (hf : f.app = none) (hok : FrameOk trusted t f)
    (events : List Event) (seq : Nat) :
    Inv trusted home ({ s with frameSeq := seq, events }.setThread t (s.threads t).tls
      (f :: (s.threads t).stack)) := by
  refine h.congr (fun q => ?_) rfl rfl (frames_setThread h.frames rfl fun g hg => ?_)
  · refine Eq.trans (held_same (s := { s with frameSeq := seq, events }) rfl ?_ q) ?_
    · simp [hf]
    · cases q <;> rfl
  · cases hg with
    | head => exact hok
    | tail _ hg => exact h.frames t g hg

theorem Inv.resume (hin : ∀ t, trusted t = true → home t = true) (h : Inv trusted home s)
    (ht : s.threads t = ⟨slot, f :: rest⟩) (hpc : f.pc ≠ .drop)
    (hg : ClaimsTrusted home s (.resume t contended))
    (hadv : advance trusted s t slot f contended = (s', slot', f')) :
    Inv trusted home (s'.setThread t slot' (f' :: rest)) := by
  have hok : FrameOk trusted t f := h.frames t f (by simp [ht])
  have hm := advance_move trusted s t slot f contended
  obtain ⟨hthreads, hpub⟩ := advance_frame trusted s t slot f contended
  have hok' := hok.resume hpc s slot contended
  rw [hadv] at hm hthreads hpub hok'
  dsimp only at hthreads hpub hok'
  have hclaim : s.handoff.app.isSome = true → s'.handoff.app = none → home t = true := by
    intro hsome hnone
    have hne : (advance trusted s t slot f contended).1.handoff.app ≠ s.handoff.app := by
      rw [hadv, hnone]
      intro he
      simp [← he] at hsome
    obtain ⟨failed, hpc, hslot, hc, hp⟩ := advance_takes hne
    cases failed with
    | true => exact hg f rest (by simp [ht]) hpc (by simp [ht, hslot]) hc hp hsome
    | false => exact hin t (hok.healthy hpc)
  have hframes : ∀ u g, g ∈ ((s'.setThread t slot' (f' :: rest)).threads u).stack →
      FrameOk trusted u g := by
    refine frames_setThread h.frames hthreads fun g hmem => ?_
    rcases List.mem_cons.mp hmem with rfl | hmem
    · exact hok'
    · exact h.frames t g (by simp [ht, hmem])
  cases hp : s.published with
  | true =>
    obtain ⟨p, app, hsole, hconf⟩ := h.after hp
    obtain ⟨hdrop, hafter⟩ := hm.sole ht hthreads hsole hconf hclaim
    exact ⟨hdrop.trans h.dropped, fun hq => absurd (hp.symm.trans (hpub.symm.trans hq)) (by simp),
      fun _ => hafter, hframes⟩
  | false =>
    obtain ⟨hdrop, hvacant⟩ := hm.vacant ht hthreads (h.before hp)
    exact ⟨hdrop.trans h.dropped, fun _ => hvacant,
      fun hq => absurd (hp.symm.trans (hpub.symm.trans hq)) (by simp), hframes⟩

theorem Inv.leave (h : Inv trusted home s) (ht : s.threads t = ⟨slot, f :: rest⟩) (e : Event) :
    Inv trusted home (((dropFrame s f).emit e).setThread t slot rest) := by
  have hok : FrameOk trusted t f := h.frames t f (by simp [ht])
  have hrest : ∀ g ∈ rest, FrameOk trusted t g := fun g hg => h.frames t g (by simp [ht, hg])
  obtain ⟨htls, hstack⟩ := held_thread ht
  cases happ : f.app with
  | none =>
    have hdrop : dropFrame s f = { s with dropped := s.dropped } := by
      unfold dropFrame State.dropApp
      split <;> simp [happ]
    rw [hdrop]
    refine h.congr (fun q => ?_) rfl rfl (frames_setThread h.frames rfl hrest)
    exact (held_same (s := s.emit e) ht (by simp [happ]) q).trans (held_emit s e)
  | some app =>
    have hopen : f.tlsCommitted = false := by
      cases hc : f.tlsCommitted with
      | false => rfl
      | true => simp [(hok.committed hc).2] at happ
    have hdrop : dropFrame s f = { publishGlobalFailure s with leaked := app :: s.leaked } := by
      simp [dropFrame, hopen, happ]
    rw [hdrop]
    refine ⟨h.dropped, fun hp => ?_, fun hp => ?_, frames_setThread h.frames rfl hrest⟩
    · have hnone := h.before hp (.stack t)
      simp [hstack, happ] at hnone
    · obtain ⟨p, own, hsole, -⟩ := h.after hp
      obtain ⟨rfl, hnil⟩ := hsole.ofFrame hstack happ
      have hleaked : s.leaked = [] := hsole.2 .leaked (by simp)
      refine ⟨.leaked, app, hsole.move ?_ (fun _ => ?_) fun r hr hr' => ?_, trivial⟩
      · rw [held_setThread, if_neg (by simp), if_neg (by simp)]
        simp [State.held, State.emit, hleaked]
      · rw [held_setThread, if_neg (by simp), if_pos rfl, hnil]
      · rw [held_setThread, if_neg hr']
        split
        case isTrue h₁ => rw [h₁, htls]
        case isFalse => cases r <;> first | rfl | exact absurd rfl hr

theorem Inv.step (hin : ∀ t, trusted t = true → home t = true) (h : Inv trusted home s)
    (hg : ClaimsTrusted home s a) (hs : step trusted s a = some s') : Inv trusted home s' := by
  cases a with
  | publish =>
    simp only [Scheduler.step] at hs
    split at hs
    · cases hs
    · cases hs
      exact h.publish (by simpa using ‹¬ s.published = true›)
  | poison => cases hs; exact h.congr (fun q => by cases q <;> rfl) rfl rfl h.frames
  | fail => cases hs; exact h.congr (fun _ => held_publishGlobalFailure s) rfl rfl h.frames
  | runFrame t this method =>
    simp only [Scheduler.step] at hs
    split at hs
    · cases hs
      exact h.runFrame rfl ⟨fun hc => by simp at hc, fun hh => by simp at hh⟩ _ _
    · cases hs
  | resume t contended =>
    rcases hth : s.threads t with ⟨slot, _ | ⟨f, rest⟩⟩
    · simp [Scheduler.step, hth] at hs
    · simp only [Scheduler.step, hth] at hs
      split at hs
      · cases hs
        exact h.leave hth _
      · rename_i hpc
        rcases hadv : advance trusted s t slot f contended with ⟨s₁, slot', f'⟩
        simp only [hadv, Option.some.injEq] at hs
        subst hs
        exact h.resume hin hth hpc hg hadv
  | driverPanics t =>
    rcases hth : s.threads t with ⟨slot, _ | ⟨f, rest⟩⟩
    · simp [Scheduler.step, hth] at hs
    · simp only [Scheduler.step, hth] at hs
      have hok : FrameOk trusted t f := h.frames t f (by simp [hth])
      split at hs
      · rename_i driver hpc
        cases hs
        refine h.congr (held_same hth (by cases happ : f.app <;> simp [happ])) rfl rfl
          (frames_setThread h.frames rfl fun g hmem => ?_)
        rcases List.mem_cons.mp hmem with rfl | hmem
        · exact ⟨fun hc => by simp [(hok.committed hc).1] at hpc, fun hh => by simp at hh⟩
        · exact h.frames t g (by simp [hth, hmem])
      · cases hs

/-- A claim on an untrusted thread puts the App on that thread's stack. -/
theorem claimsTrusted_of_owned (h : Inv trusted home s) (hs : step trusted s a = some s')
    (hp : Owned trusted s') : ClaimsTrusted trusted s a := by
  cases a with
  | publish | poison | fail | runFrame | driverPanics => trivial
  | resume t contended =>
    intro f rest hstack hpc htls hc hpoison hsome
    obtain ⟨app, happ⟩ := Option.isSome_iff_exists.mp hsome
    have hth : s.threads t = ⟨.awaitingHandoff, f :: rest⟩ := by rw [← htls, ← hstack]
    have hclaimed := advance_claims trusted t hpc hc hpoison happ
    have hpub := (advance_frame trusted s t .awaitingHandoff f contended).2
    rcases hadv : advance trusted s t .awaitingHandoff f contended with ⟨s₁, slot', f'⟩
    rw [hadv] at hclaimed hpub
    simp only [step, hth, hpc, reduceCtorEq, if_false, hadv, Option.some.injEq] at hs
    subst hs
    have hpublished : s.published = true := by
      by_contra hn
      have hnone := h.before (by simpa using hn) .handoff
      simp [State.held, happ] at hnone
    obtain ⟨p, own, hsole, hconf⟩ := hp.2 (hpub.trans hpublished)
    obtain rfl := hsole.place (q := .stack t) (by
      rw [(held_push s₁ t slot' f' rest).2, hclaimed]
      simp)
    exact hconf

/-- The App is never dropped, in two places, or on an untrusted thread, in
exactly the runs where no untrusted thread's frame finds `failed` set and the
App still in the handoff. -/
theorem ownership_iff (trusted : Nat → Bool) (as : List Action) :
    Machine.Always (step trusted) (Owned trusted) .init as ↔
      Machine.Each (step trusted) (ClaimsTrusted trusted) .init as :=
  Machine.always_iff_each (fun _ => Inv.owned)
    (fun _ _ _ => Inv.step fun _ => id)
    (fun _ _ _ => claimsTrusted_of_owned) .init

/-- The App waits in the handoff when thread 1 fails the identity predicate;
the next frame, on thread 2, sees `failed` and takes it. -/
theorem untrusted_thread_takes_app : ¬ ∀ (trusted : Nat → Bool) (as : List Action),
    Machine.Always (step trusted) (Owned trusted) .init as := by
  intro h
  have := (h (fun t => t == 0) [.publish, .runFrame 1 7 7, .resume 1 false, .resume 1 false,
    .runFrame 2 7 7, .resume 2 false, .resume 2 false, .resume 2 false]).exec rfl
  obtain ⟨p, app, hsole, hconf⟩ := this.2 rfl
  obtain rfl := hsole.place (q := .tls 2) (by decide)
  simp [Place.Confined] at hconf

end ShinySongTools.Scheduler
