import ShinySongTools.Custody
import ShinySongTools.Runtime.Ownership

/-!
# Exactly one original a frame

Every call of `run_frame`, on any thread and at any nesting depth, enters the
original once with the arguments it was given. Frame bodies may unwind
wherever they run code that is not the scheduler's own, the thread predicate
answers as it likes, and a run starts from any context and any thread-local
slots. What a panic carries is left out.
-/

namespace ShinySongTools.Scheduler

inductive FrameAction where
  | moves (trusted : Nat → Bool) (action : Action)
  /-- The body of the newest frame of the thread unwinds. -/
  | panics (thread : Nat)

/-- `given` has the arguments of every frame, by its number. -/
structure Run where
  state : State
  given : List (Addr × Addr)

/-- A context as some earlier life has left it, and no frame on any stack. -/
def Run.start (handoff : Handoff) (published : Bool) (gate : RuntimeGate) (failed : Bool)
    (tls : Nat → AppSlot) : Run where
  state :=
    { handoff, published, runtimeGate := gate, failed, frameSeq := 0
      threads := fun t => ⟨tls t, []⟩, leaked := [], dropped := [], events := [] }
  given := []

/-- Between an unwound body and its compensation runs the scheduler's own code
only. The App a commit has taken out of its frame is dropped. -/
def unwind (s : State) (t : Nat) : Option State :=
  match (s.threads t).stack with
  | [] => none
  | f :: rest =>
    match f.pc with
    | .unwound | .drop | .callOriginal .recovery => none
    | .inOriginal .recovery =>
      some (s.setThread t (s.threads t).tls ({ f with pc := .drop } :: rest))
    | .commit | .commitFailed =>
      some ((s.dropApp f.app).setThread t (s.threads t).tls
        ({ f with app := none, pc := .unwound } :: rest))
    | _ => some (s.setThread t (s.threads t).tls ({ f with pc := .unwound } :: rest))

def Run.step (r : Run) : FrameAction → Option Run
  | .moves trusted action =>
    (Scheduler.step trusted r.state action).map fun state =>
      ⟨state, match action with
        | .runFrame _ this method => r.given ++ [(this, method)]
        | _ => r.given⟩
  | .panics t => (unwind r.state t).map fun state => { r with state }

def Event.originalCall (seq : Nat) : Event → Option (Addr × Addr)
  | .originalCalled q this method => if q = seq then some (this, method) else none
  | _ => none

/-- The entries of the original by frame `seq`. -/
def originalCalls (events : List Event) (seq : Nat) : List (Addr × Addr) :=
  events.filterMap (Event.originalCall seq)

def Event.returned : Event → Option Nat
  | .frameDone seq _ => some seq
  | _ => none

def returnedFrames (events : List Event) : List Nat := events.filterMap Event.returned

def PhaseOk (calls : List (Addr × Addr)) (f : SchedulerFrame) : Prop :=
  match f.pc with
  | .inOriginal _ | .commit => f.phase ≠ .beforeOriginal ∧ calls = [(f.this, f.method)]
  | .drop => calls = [(f.this, f.method)]
  | .unwound =>
    if f.phase = .beforeOriginal then calls = [] else calls = [(f.this, f.method)]
  | _ => f.phase = .beforeOriginal ∧ calls = []

theorem PhaseOk.calls {l : List (Addr × Addr)} {f : SchedulerFrame} (h : PhaseOk l f) :
    l = [] ∨ l = [(f.this, f.method)] := by
  unfold PhaseOk at h
  split at h
  · exact .inr h.2
  · exact .inr h.2
  · exact .inr h
  · split at h
    · exact .inl h
    · exact .inr h
  · exact .inl h.2

structure SameCall (f f' : SchedulerFrame) : Prop where
  seq : f'.seq = f.seq
  this : f'.this = f.this
  method : f'.method = f.method

def Pc.left : Pc → Nat
  | .loadFailed => 12
  | .checkThread => 11
  | .claim _ => 10
  | .commitFailed => 9
  | .startDriver => 8
  | .inDriver _ => 7
  | .openGate => 6
  | .unwound => 5
  | .callOriginal _ => 4
  | .inOriginal _ => 3
  | .commit => 2
  | .drop => 1

/-- A step of the frame `f` and what it records. -/
structure Turn (s s' : State) (f f' : SchedulerFrame) (l : List Event) : Prop extends
    SameCall f f' where
  events : s'.events = s.events ++ l
  threads : s'.threads = s.threads
  frameSeq : s'.frameSeq = s.frameSeq
  quiet : l.filterMap Event.returned = []
  calls : ∀ seq, seq ≠ f.seq → l.filterMap (Event.originalCall seq) = []
  phase : ∀ calls, PhaseOk calls f → PhaseOk (calls ++ l.filterMap (Event.originalCall f.seq)) f'

/-- An event that is neither a call of the original nor the end of a frame. -/
def Event.Quiet (e : Event) : Prop := e.returned = none ∧ ∀ seq, e.originalCall seq = none

theorem returned_quiet {l : List Event} (hl : ∀ e ∈ l, e.Quiet) : l.filterMap Event.returned = [] :=
  List.filterMap_eq_nil_iff.mpr fun e he => (hl e he).1

theorem originalCall_quiet {l : List Event} (hl : ∀ e ∈ l, e.Quiet) (seq : Nat) :
    l.filterMap (Event.originalCall seq) = [] :=
  List.filterMap_eq_nil_iff.mpr fun e he => (hl e he).2 seq

theorem Turn.ofQuiet {s s' : State} {f f' : SchedulerFrame} {l : List Event}
    (same : SameCall f f') (events : s'.events = s.events ++ l) (threads : s'.threads = s.threads)
    (frameSeq : s'.frameSeq = s.frameSeq) (hl : ∀ e ∈ l, e.Quiet)
    (phase : ∀ calls, PhaseOk calls f → PhaseOk calls f') : Turn s s' f f' l where
  toSameCall := same
  events := events
  threads := threads
  frameSeq := frameSeq
  quiet := returned_quiet hl
  calls seq _ := originalCall_quiet hl seq
  phase calls h := by
    rw [originalCall_quiet hl, List.append_nil]
    exact phase calls h

theorem claimApp_same (s : State) (slot : AppSlot) (f : SchedulerFrame) (contended : Bool) :
    (∃ l, (claimApp s slot f contended).1.events = s.events ++ l ∧ ∀ e ∈ l, e = .globalFailure) ∧
      (claimApp s slot f contended).1.frameSeq = s.frameSeq ∧
      SameCall f (claimApp s slot f contended).2.2 ∧
      (claimApp s slot f contended).2.2.phase = f.phase := by
  have hnil : ∃ l, s.events = s.events ++ l ∧ ∀ e ∈ l, e = Event.globalFailure :=
    ⟨[], (List.append_nil _).symm, nofun⟩
  unfold claimApp
  cases slot with
  | awaitingHandoff =>
    rcases tryTake_cases s.handoff contended with ⟨app, -, -, -, ht⟩ | ht | ht
    · rw [ht]
      exact ⟨hnil, rfl, ⟨rfl, rfl, rfl⟩, rfl⟩
    · rw [ht]
      exact ⟨hnil, rfl, ⟨rfl, rfl, rfl⟩, rfl⟩
    · rw [ht]
      exact ⟨⟨[.globalFailure], rfl, fun e he => List.mem_singleton.mp he⟩, rfl,
        ⟨rfl, rfl, rfl⟩, rfl⟩
  | running app | busy | exited app | unavailable => exact ⟨hnil, rfl, ⟨rfl, rfl, rfl⟩, rfl⟩

theorem commitApp_same (s : State) (slot : AppSlot) (f : SchedulerFrame) (exit : Bool) :
    (commitApp s slot f exit).1.events = s.events ∧
      (commitApp s slot f exit).1.frameSeq = s.frameSeq ∧
      SameCall f (commitApp s slot f exit).2.2 ∧
      (commitApp s slot f exit).2.2.phase = f.phase := by
  unfold commitApp commitTls
  cases f.app with
  | none => exact ⟨rfl, rfl, ⟨rfl, rfl, rfl⟩, rfl⟩
  | some app => cases slot <;> exact ⟨rfl, rfl, ⟨rfl, rfl, rfl⟩, rfl⟩

/-- A frame that is let run comes closer to its end. -/
theorem advance_turn (trusted : Nat → Bool) (s : State) (t : Nat) (slot : AppSlot)
    (f : SchedulerFrame) (contended : Bool) (hpc : f.pc ≠ .drop) :
    (advance trusted s t slot f contended).2.2.pc.left < f.pc.left ∧
      ∃ l, Turn s (advance trusted s t slot f contended).1 f
        (advance trusted s t slot f contended).2.2 l := by
  have hthreads := (advance_frame trusted s t slot f contended).1
  have hnil : ∀ e ∈ ([] : List Event), e.Quiet := nofun
  cases hat : f.pc <;> simp only [advance, hat] at hthreads ⊢
  case drop => exact absurd hat hpc
  case loadFailed =>
    refine ⟨by split <;> decide, [], .ofQuiet ⟨rfl, rfl, rfl⟩ (List.append_nil _).symm rfl rfl hnil
      fun calls h => ?_⟩
    simp only [PhaseOk, hat] at h
    cases hfail : s.failed <;> simpa [PhaseOk, hfail] using h
  case checkThread =>
    split
    · refine ⟨by simp [Pc.left], [], .ofQuiet ⟨rfl, rfl, rfl⟩ (List.append_nil _).symm rfl rfl hnil
        fun calls h => ?_⟩
      simpa [PhaseOk, hat] using h
    · refine ⟨by simp [Pc.left], [.threadMismatch f.seq, .globalFailure],
        .ofQuiet ⟨rfl, rfl, rfl⟩ ?_ rfl rfl ?_
        fun calls h => ?_⟩
      · simp [publishGlobalFailure, State.emit]
      · simp [Event.Quiet, Event.returned, Event.originalCall]
      · simpa [PhaseOk, hat] using h
  case claim failed =>
    obtain ⟨⟨l, hl, hg⟩, hseq, hsame, hphase⟩ := claimApp_same s slot f contended
    refine ⟨?_, l,
      .ofQuiet ⟨hsame.seq, hsame.this, hsame.method⟩ hl hthreads hseq ?_ fun calls h => ?_⟩
    · split
      · simp [Pc.left]
      · split <;> simp [Pc.left]
    · rintro e he
      cases hg e he
      exact ⟨rfl, fun _ => rfl⟩
    · simp only [PhaseOk, hat] at h
      split
      · simpa [PhaseOk, hphase] using h
      · split <;> simpa [PhaseOk, hphase] using h
  case commitFailed =>
    obtain ⟨hl, hseq, hsame, hphase⟩ := commitApp_same s slot f true
    refine ⟨by decide, [], .ofQuiet ⟨hsame.seq, hsame.this, hsame.method⟩ (by simpa using hl)
      hthreads hseq hnil fun calls h => ?_⟩
    simpa [PhaseOk, hat, hphase] using h
  case startDriver =>
    split
    · refine ⟨by simp [Pc.left], [.driverStarted f.seq (driverFor _)],
        .ofQuiet ⟨rfl, rfl, rfl⟩ rfl rfl rfl ?_
        fun calls h => ?_⟩
      · simp [Event.Quiet, Event.returned, Event.originalCall]
      · simpa [PhaseOk, hat] using h
    · refine ⟨by simp [Pc.left], [], .ofQuiet ⟨rfl, rfl, rfl⟩ (List.append_nil _).symm rfl rfl hnil
        fun calls h => ?_⟩
      simp only [PhaseOk, hat] at h
      simp [PhaseOk, h.1, h.2]
  case inDriver driver =>
    refine ⟨by cases driver <;> decide, [.driverCompleted f.seq driver],
      .ofQuiet ⟨rfl, rfl, rfl⟩ rfl rfl rfl ?_ fun calls h => ?_⟩
    · simp [Event.Quiet, Event.returned, Event.originalCall]
    · cases driver <;> simpa [PhaseOk, hat] using h
  case openGate =>
    refine ⟨by decide, [.gateOpened f.seq s.runtimeGate.openGate.1],
      .ofQuiet ⟨rfl, rfl, rfl⟩ rfl rfl rfl ?_ fun calls h => ?_⟩
    · simp [Event.Quiet, Event.returned, Event.originalCall]
    · simpa [PhaseOk, hat] using h
  case callOriginal via =>
    -- the guard is a new one, so it lets the call begin
    have hcall : callOriginalOnce s f via =
        (s.emit (.originalCalled f.seq f.this f.method),
          { f with phase := .callingOriginal, pc := .inOriginal via }) := by
      simp [callOriginalOnce, OriginalGuard.beginCall, OriginalGuard.new]
    rw [hcall]
    refine ⟨by simp [Pc.left], [.originalCalled f.seq f.this f.method], ⟨rfl, rfl, rfl⟩,
      rfl, rfl, rfl,
      rfl, fun seq hne => ?_, fun calls h => ?_⟩
    · simp [Event.originalCall, hne.symm]
    · simp only [PhaseOk, hat] at h
      simp [PhaseOk, Event.originalCall, h.2]
  case inOriginal via =>
    refine ⟨by cases via <;> simp [Via.next, Pc.left], [.originalReturned f.seq],
      .ofQuiet ⟨rfl, rfl, rfl⟩ rfl rfl rfl ?_ fun calls h => ?_⟩
    · simp [Event.Quiet, Event.returned, Event.originalCall]
    · simp only [PhaseOk, hat] at h
      cases via <;> simp [PhaseOk, Via.next, h.2]
  case commit =>
    obtain ⟨hl, hseq, hsame, -⟩ := commitApp_same s slot f s.failed
    refine ⟨by decide, [], .ofQuiet ⟨hsame.seq, hsame.this, hsame.method⟩ (by simpa using hl)
      hthreads hseq hnil fun calls h => ?_⟩
    simp only [PhaseOk, hat] at h
    simp [PhaseOk, h.2, hsame.this, hsame.method]
  case unwound =>
    refine ⟨by split <;> decide, [.globalFailure], .ofQuiet ⟨rfl, rfl, rfl⟩ rfl rfl rfl ?_
      fun calls h => ?_⟩
    · simp [Event.Quiet, Event.returned, Event.originalCall]
    · simp only [PhaseOk, hat] at h
      split at h
      case isTrue hp => simpa [PhaseOk, hp] using h
      case isFalse hp => simpa [PhaseOk, hp] using h

/-- An unwinding frame leaves no trace of its own. -/
theorem unwind_turn (h : unwind s t = some s') :
    ∃ f rest s₁ f', (s.threads t).stack = f :: rest ∧ Turn s s₁ f f' [] ∧
      s' = s₁.setThread t (s.threads t).tls (f' :: rest) := by
  have hnil : ∀ e ∈ ([] : List Event), e.Quiet := nofun
  cases hstack : (s.threads t).stack with
  | nil => simp [unwind, hstack] at h
  | cons f rest =>
    refine ⟨f, rest, ?_⟩
    simp only [unwind, hstack] at h
    split at h
    case h_1 | h_2 | h_3 => cases h
    case h_4 hat =>
      cases h
      refine ⟨s, { f with pc := .drop }, rfl,
        .ofQuiet ⟨rfl, rfl, rfl⟩ (List.append_nil _).symm rfl rfl hnil
        fun calls h => ?_, rfl⟩
      simp only [PhaseOk, hat] at h
      exact h.2
    case h_5 hat =>
      cases h
      refine ⟨s.dropApp f.app, { f with app := none, pc := .unwound }, rfl,
        .ofQuiet ⟨rfl, rfl, rfl⟩ (List.append_nil _).symm rfl rfl hnil
        fun calls h => ?_, rfl⟩
      simp only [PhaseOk, hat] at h
      simp [PhaseOk, h.1, h.2]
    case h_6 hat =>
      cases h
      refine ⟨s.dropApp f.app, { f with app := none, pc := .unwound }, rfl,
        .ofQuiet ⟨rfl, rfl, rfl⟩ (List.append_nil _).symm rfl rfl hnil
        fun calls h => ?_, rfl⟩
      simp only [PhaseOk, hat] at h
      simp [PhaseOk, h.1, h.2]
    case h_7 hun hdrop hrec hin hcommit hcommitFailed =>
      cases h
      refine ⟨s, { f with pc := .unwound }, rfl,
        .ofQuiet ⟨rfl, rfl, rfl⟩ (List.append_nil _).symm rfl rfl hnil
        fun calls h => ?_, rfl⟩
      cases hat : f.pc <;> simp only [PhaseOk, hat] at h
      case unwound => exact absurd hat hun
      case drop => exact absurd hat hdrop
      case commit => exact absurd hat hcommit
      all_goals simp [PhaseOk, h.1, h.2]

-- ---------------------------------------------------------------------------
-- The invariant
-- ---------------------------------------------------------------------------

def State.numbers (s : State) : Option Nat → List Nat
  | some t => (s.threads t).stack.map (·.seq)
  | none => returnedFrames s.events

structure CallsInv (r : Run) : Prop where
  seq : r.state.frameSeq = r.given.length
  frames : Custody.Accounted r.state.numbers (· < r.given.length)
  phase : ∀ t f, f ∈ (r.state.threads t).stack →
    r.given[f.seq]? = some (f.this, f.method) ∧ PhaseOk (originalCalls r.state.events f.seq) f
  done : ∀ seq args, r.given[seq]? = some args → seq ∈ returnedFrames r.state.events →
    originalCalls r.state.events seq = [args]
  fresh : ∀ seq, r.given.length ≤ seq → originalCalls r.state.events seq = []

theorem numbers_setThread (s : State) (t : Nat) (slot : AppSlot) (stack : List SchedulerFrame)
    (q : Option Nat) :
    (s.setThread t slot stack).numbers q =
      if q = some t then stack.map (·.seq) else s.numbers q := by
  cases q with
  | none => rfl
  | some u => by_cases hu : u = t <;> simp [State.numbers, State.setThread, hu]

theorem CallsInv.start (handoff : Handoff) (published : Bool) (gate : RuntimeGate) (failed : Bool)
    (tls : Nat → AppSlot) : CallsInv (.start handoff published gate failed tls) where
  seq := rfl
  frames := ⟨fun _ h => absurd h (Nat.not_lt_zero _), fun _ _ p => by cases p <;> rfl⟩
  phase t f hf := by cases hf
  done seq args h := by cases h
  fresh _ _ := rfl

theorem CallsInv.quiet (h : CallsInv r) {s : State} {l : List Event}
    (events : s.events = r.state.events ++ l) (threads : s.threads = r.state.threads)
    (frameSeq : s.frameSeq = r.state.frameSeq) (hl : ∀ e ∈ l, e.Quiet) :
    CallsInv { r with state := s } := by
  have hcalls (seq : Nat) : originalCalls s.events seq = originalCalls r.state.events seq := by
    simp [originalCalls, events, originalCall_quiet hl]
  have hret : returnedFrames s.events = returnedFrames r.state.events := by
    simp [returnedFrames, events, returned_quiet hl]
  refine ⟨frameSeq.trans h.seq, h.frames.congr fun p => ?_, fun t f hf => ?_,
    fun seq args hg hr => ?_,
    fun seq hle => (hcalls seq).trans (h.fresh seq hle)⟩
  · cases p with
    | none => exact hret
    | some t => simp only [State.numbers, threads]
  · dsimp only at hf ⊢
    rw [threads] at hf
    rw [hcalls]
    exact h.phase t f hf
  · dsimp only at hr ⊢
    rw [hret] at hr
    rw [hcalls]
    exact h.done seq args hg hr

theorem CallsInv.other (h : CallsInv r) (ht : (r.state.threads t).stack = f :: rest) :
    f.seq ∉ returnedFrames r.state.events ∧ (∀ g ∈ rest, g.seq ≠ f.seq) ∧
      ∀ u, u ≠ t → ∀ g ∈ (r.state.threads u).stack, g.seq ≠ f.seq := by
  have hmem : f.seq ∈ r.state.numbers (some t) := by simp [State.numbers, ht]
  have honce := h.frames.of_mem hmem
  refine ⟨honce.not_mem hmem (q := none) (by simp), fun g hg heq => ?_, fun u hu g hg heq => ?_⟩
  · have hcount := (honce.of_mem hmem).1
    simp only [State.numbers, ht, List.map_cons, List.count_cons_self, Nat.add_eq_right] at hcount
    exact List.count_eq_zero.mp hcount (heq ▸ List.mem_map_of_mem hg)
  · refine honce.not_mem hmem (q := some u) (by simpa using hu) ?_
    exact heq ▸ List.mem_map_of_mem hg

theorem CallsInv.turn (h : CallsInv r) (ht : (r.state.threads t).stack = f :: rest)
    (turn : Turn r.state s f f' l) (slot : AppSlot) :
    CallsInv { r with state := s.setThread t slot (f' :: rest) } := by
  obtain ⟨hreturned, hrest, hstacks⟩ := h.other ht
  obtain ⟨hgiven, hphase⟩ := h.phase t f (by simp [ht])
  have hevents : (s.setThread t slot (f' :: rest)).events = r.state.events ++ l := turn.events
  have hret : returnedFrames (s.setThread t slot (f' :: rest)).events =
      returnedFrames r.state.events := by
    simp [returnedFrames, hevents, turn.quiet]
  have hcalls {seq : Nat} (hne : seq ≠ f.seq) :
      originalCalls (s.setThread t slot (f' :: rest)).events seq =
        originalCalls r.state.events seq := by
    simp [originalCalls, hevents, turn.calls seq hne]
  refine ⟨turn.frameSeq.trans h.seq, h.frames.congr fun p => ?_, fun u g hg => ?_,
    fun seq args hg hr => ?_, fun seq hle => ?_⟩
  · rw [numbers_setThread]
    split
    case isTrue hp => simp [hp, State.numbers, ht, turn.seq]
    case isFalse =>
      cases p with
      | none => exact hret
      | some u => simp only [State.numbers, turn.threads]
  · dsimp only at hg ⊢
    by_cases hu : u = t
    · subst hu
      simp only [State.setThread, Function.update_self, List.mem_cons] at hg
      rcases hg with rfl | hg
      · rw [turn.seq, turn.this, turn.method]
        refine ⟨hgiven, ?_⟩
        have := turn.phase _ hphase
        simpa only [originalCalls, hevents, List.filterMap_append] using this
      · rw [hcalls (hrest g hg)]
        exact h.phase u g (by simp [ht, hg])
    · simp only [State.setThread, Function.update_of_ne hu, turn.threads] at hg
      rw [hcalls (hstacks u hu g hg)]
      exact h.phase u g hg
  · dsimp only at hr ⊢
    rw [hret] at hr
    rw [hcalls fun heq => hreturned (heq ▸ hr)]
    exact h.done seq args hg hr
  · have hlt : f.seq < r.given.length := (List.getElem?_eq_some_iff.mp hgiven).1
    dsimp only at hle ⊢
    rw [hcalls (by omega)]
    exact h.fresh seq hle

theorem dropFrame_quiet (s : State) (f : SchedulerFrame) :
    (∃ l, (dropFrame s f).events = s.events ++ l ∧ ∀ e ∈ l, e.Quiet) ∧
      (dropFrame s f).threads = s.threads ∧ (dropFrame s f).frameSeq = s.frameSeq := by
  unfold dropFrame
  split
  · exact ⟨⟨[], (List.append_nil _).symm, nofun⟩, rfl, rfl⟩
  · split
    · refine ⟨⟨[.globalFailure], rfl, fun e he => ?_⟩, rfl, rfl⟩
      cases List.mem_singleton.mp he
      exact ⟨rfl, fun _ => rfl⟩
    · exact ⟨⟨[], (List.append_nil _).symm, nofun⟩, rfl, rfl⟩

/-- A frame is left from its last place only, where its original has been
called. -/
theorem CallsInv.leave (h : CallsInv r) (ht : (r.state.threads t).stack = f :: rest)
    (hpc : f.pc = .drop) (slot : AppSlot) :
    CallsInv { r with state :=
      ((dropFrame r.state f).emit (.frameDone f.seq f.phase)).setThread t slot rest } := by
  obtain ⟨⟨l, hl, hquiet⟩, hthreads, hseq⟩ := dropFrame_quiet r.state f
  -- what `Drop` does is seen by no frame
  have hd := h.quiet hl hthreads hseq hquiet
  obtain ⟨-, hrest, hstacks⟩ := h.other ht
  obtain ⟨hgiven, hphase⟩ := hd.phase t f (by simp [hthreads, ht])
  simp only [PhaseOk, hpc] at hphase
  have hcalls (seq : Nat) : originalCalls (((dropFrame r.state f).emit
      (.frameDone f.seq f.phase)).setThread t slot rest).events seq =
        originalCalls (dropFrame r.state f).events seq := by
    simp [originalCalls, State.setThread, State.emit, Event.originalCall]
  have hret : returnedFrames (((dropFrame r.state f).emit
      (.frameDone f.seq f.phase)).setThread t slot rest).events =
        returnedFrames (dropFrame r.state f).events ++ [f.seq] := by
    simp [returnedFrames, State.setThread, State.emit, Event.returned]
  refine ⟨hd.seq, hd.frames.moves (p := some t) (q := none) (l := [f.seq]) ?_, fun u g hg => ?_,
    fun seq args hg hr => ?_, fun seq hle => (hcalls seq).trans (hd.fresh seq hle)⟩
  · refine .of_perm (by simp) ?_ ?_ fun q hq hq' => ?_
    · rw [numbers_setThread, if_pos rfl]
      simp [State.numbers, hthreads, ht]
    · rw [show State.numbers _ none = _ from hret]
      exact List.perm_append_comm
    · rw [numbers_setThread, if_neg hq]
      cases q with
      | none => exact absurd rfl hq'
      | some u => rfl
  · dsimp only at hg ⊢
    rw [hcalls]
    by_cases hu : u = t
    · subst hu
      simp only [State.setThread, Function.update_self] at hg
      exact hd.phase u g (by simp [hthreads, ht, hg])
    · simp only [State.setThread, Function.update_of_ne hu, State.emit] at hg
      exact hd.phase u g hg
  · dsimp only at hr ⊢
    rw [hret, List.mem_append, List.mem_singleton] at hr
    rw [hcalls]
    rcases hr with hr | rfl
    · exact hd.done seq args hg hr
    · cases hgiven.symm.trans hg
      exact hphase

/-- A new frame has a number no frame had. -/
theorem CallsInv.enter (h : CallsInv r) (hpc : f.pc = .loadFailed)
    (hphase : f.phase = .beforeOriginal)
    (hseq : f.seq = r.state.frameSeq) (t : Nat) (slot : AppSlot) :
    CallsInv ⟨({ r.state with frameSeq := r.state.frameSeq + 1 }.emit
        (.frameEntered t r.state.frameSeq)).setThread t slot (f :: (r.state.threads t).stack),
      r.given ++ [(f.this, f.method)]⟩ := by
  generalize hs : ({ r.state with frameSeq := r.state.frameSeq + 1 }.emit
    (.frameEntered t r.state.frameSeq)).setThread t slot (f :: (r.state.threads t).stack) = s
  have hnum : f.seq = r.given.length := hseq.trans h.seq
  have hcalls (seq : Nat) : originalCalls s.events seq = originalCalls r.state.events seq := by
    simp [← hs, originalCalls, State.setThread, State.emit, Event.originalCall]
  have hret : returnedFrames s.events = returnedFrames r.state.events := by
    simp [← hs, returnedFrames, State.setThread, State.emit, Event.returned]
  have hnew : r.given.length ∉ returnedFrames r.state.events := fun hr =>
    absurd (h.frames.known_of_mem (p := none) hr) (lt_irrefl _)
  have hkept {q : Option Nat} (hq : q ≠ some t) : s.numbers q = r.state.numbers q := by
    rw [← hs, numbers_setThread, if_neg hq]
    cases q with
    | none => simp [State.numbers, returnedFrames, State.emit, Event.returned]
    | some u => rfl
  have hgiven {seq : Nat} {args : Addr × Addr} (hg : r.given[seq]? = some args) :
      (r.given ++ [(f.this, f.method)])[seq]? = some args := by
    rw [List.getElem?_append_left (List.getElem?_eq_some_iff.mp hg).1]
    exact hg
  have hlast :
      (r.given ++ [(f.this, f.method)])[r.given.length]? = some (f.this, f.method) := by simp
  refine ⟨?_, h.frames.enters (q := some t) (b := r.given.length) (.of_perm ?_ fun q hq => hkept hq)
    (lt_irrefl _) fun a => ?_, fun u g hg => ?_, fun seq args hg hr => ?_, fun seq hle => ?_⟩
  · simp [← hs, State.setThread, State.emit, h.seq]
  · rw [← hs, numbers_setThread, if_pos rfl]
    simp [State.numbers, hnum]
  · simp only [List.length_append, List.length_singleton]
    omega
  · dsimp only at hg ⊢
    rw [hcalls]
    by_cases hu : u = t
    · subst hu
      simp only [← hs, State.setThread, Function.update_self, List.mem_cons] at hg
      rcases hg with rfl | hg
      · rw [hnum]
        exact ⟨hlast, by simp [PhaseOk, hpc, hphase, h.fresh r.given.length le_rfl]⟩
      · exact ⟨hgiven (h.phase u g hg).1, (h.phase u g hg).2⟩
    · simp only [← hs, State.setThread, Function.update_of_ne hu, State.emit] at hg
      exact ⟨hgiven (h.phase u g hg).1, (h.phase u g hg).2⟩
  · dsimp only at hr hg ⊢
    rw [hret] at hr
    rw [hcalls]
    have hlt : seq < r.given.length := h.frames.known_of_mem (p := none) hr
    rw [List.getElem?_append_left hlt] at hg
    exact h.done seq args hg hr
  · dsimp only [List.length_append] at hle ⊢
    rw [List.length_append] at hle
    exact (hcalls seq).trans (h.fresh seq (by omega))

/-- A step lets the newest frame run, leaves it, enters a frame, or is seen by
no frame. -/
theorem CallsInv.step (h : CallsInv r) (hs : r.step a = some r') : CallsInv r' := by
  cases a with
  | panics t =>
    obtain ⟨s, hun, rfl⟩ := Option.map_eq_some_iff.mp hs
    obtain ⟨f, rest, s₁, f', ht, turn, rfl⟩ := unwind_turn hun
    exact h.turn ht turn _
  | moves trusted action =>
    obtain ⟨s, hstep, rfl⟩ := Option.map_eq_some_iff.mp hs
    cases action with
    | publish =>
      simp only [Scheduler.step] at hstep
      split at hstep
      · cases hstep
      · cases hstep
        exact h.quiet (l := []) (List.append_nil _).symm rfl rfl (by simp)
    | poison =>
      cases hstep
      exact h.quiet (l := []) (List.append_nil _).symm rfl rfl (by simp)
    | fail =>
      cases hstep
      refine h.quiet (l := [.globalFailure]) rfl rfl rfl fun e he => ?_
      cases List.mem_singleton.mp he
      exact ⟨rfl, fun _ => rfl⟩
    | runFrame t this method =>
      simp only [Scheduler.step] at hstep
      split at hstep
      · cases hstep
        exact h.enter rfl rfl rfl t _
      · cases hstep
    | resume t contended =>
      rcases hth : r.state.threads t with ⟨slot, _ | ⟨f, rest⟩⟩
      · simp [Scheduler.step, hth] at hstep
      · simp only [Scheduler.step, hth] at hstep
        have ht : (r.state.threads t).stack = f :: rest := by rw [hth]
        split at hstep
        · rename_i hpc
          cases hstep
          exact h.leave ht hpc slot
        · rename_i hpc
          obtain ⟨-, l, turn⟩ := advance_turn trusted r.state t slot f contended hpc
          cases hstep
          exact h.turn ht turn _
    | driverPanics t =>
      rcases hth : r.state.threads t with ⟨slot, _ | ⟨f, rest⟩⟩
      · simp [Scheduler.step, hth] at hstep
      · simp only [Scheduler.step, hth] at hstep
        have ht : (r.state.threads t).stack = f :: rest := by rw [hth]
        split at hstep
        · rename_i driver hpc
          cases hstep
          have turn : Turn r.state r.state f { f with pc := .unwound } [] := by
            refine .ofQuiet ⟨rfl, rfl, rfl⟩ (List.append_nil _).symm rfl rfl (by simp)
              fun calls hphase => ?_
            simp only [PhaseOk, hpc] at hphase
            simp [PhaseOk, hphase.1, hphase.2]
          exact h.turn ht turn slot
        · cases hstep

-- ---------------------------------------------------------------------------
-- Every frame returns
-- ---------------------------------------------------------------------------

end ShinySongTools.Scheduler
