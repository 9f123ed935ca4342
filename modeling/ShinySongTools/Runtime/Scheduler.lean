import ShinySongTools.Machine
import ShinySongTools.Core.Gate
import ShinySongTools.Core.Original
import ShinySongTools.Core.MethodSlot

/-!
# Scheduler frames

`SchedulerContext::run_frame` as a machine: every thread has its thread-local
slot and a stack of frames, the newest first, and the newest frame of a thread
moves. Game code runs inside a driver and inside the original, so there a
further frame can be entered on the same thread.

One step makes at most one access to what threads share (`failed`, the handoff
slot, the gate, `FRAME_SEQ`); what only its own thread can see is joined to
it. `publish_global_failure` is one step here: frames read `failed` and never
the gate, whose two-step stores are the subject of `Gate`.
-/

namespace ShinySongTools

/-- What the scheduler sees of a boxed `App`. -/
structure BoxedApp where
  startupCompleted : Bool
  deriving DecidableEq, Repr

/-- The thread-local slot. -/
inductive AppSlot where
  | awaitingHandoff
  | running (app : BoxedApp)
  | busy
  | exited (app : BoxedApp)
  | unavailable
  deriving DecidableEq, Repr

def AppSlot.app : AppSlot → Option BoxedApp
  | .running app | .exited app => some app
  | .awaitingHandoff | .busy | .unavailable => none

/-- `Mutex<Option<Box<App>>>`; the lock itself is only ever held inside one
operation. -/
structure Handoff where
  app : Option BoxedApp
  poisoned : Bool
  deriving DecidableEq, Repr

inductive HandoffTake where
  | ready (app : BoxedApp)
  | pending
  | failed
  deriving DecidableEq, Repr

namespace Handoff

def empty : Handoff := ⟨none, false⟩

def publish (h : Handoff) (app : BoxedApp) : Bool × Handoff :=
  if h.poisoned then (false, h)
  else
    match h.app with
    | some _ => (false, h)
    | none => (true, { h with app := some app })

/-- `contended`: another party holds the lock at this moment. -/
def tryTake (h : Handoff) (contended : Bool) : HandoffTake × Handoff :=
  if contended then (.pending, h)
  else if h.poisoned then (.failed, h)
  else
    match h.app with
    | some app => (.ready app, { h with app := none })
    | none => (.pending, h)

end Handoff

namespace Scheduler

inductive Driver where
  | startup
  | update
  deriving DecidableEq, Repr

/-- Which `call_original_once` of `run_frame` is made. -/
inductive Via where
  /-- no driver ran: steps 1 to 3. -/
  | passthrough
  /-- step 5. -/
  | driven
  /-- the compensation after an unwound frame body. -/
  | recovery
  deriving DecidableEq, Repr

inductive Pc where
  | loadFailed
  /-- `claim_app`, of step 1 when `failed` was set and of step 3 otherwise. -/
  | claim (failed : Bool)
  | commitFailed
  | checkThread
  | startDriver
  | inDriver (driver : Driver)
  | openGate
  | callOriginal (via : Via)
  | inOriginal (via : Via)
  | commit
  | unwound
  | drop
  deriving DecidableEq, Repr

structure SchedulerFrame where
  seq : Nat
  this : Addr
  method : Addr
  app : Option BoxedApp
  phase : OriginalPhase
  tlsCommitted : Bool
  pc : Pc
  deriving DecidableEq, Repr

structure Thread where
  tls : AppSlot
  stack : List SchedulerFrame

/-- What is observed of frames; the compact events of the source and the
driver calls. -/
inductive Event where
  | frameEntered (thread seq : Nat)
  | threadMismatch (seq : Nat)
  | globalFailure
  | driverStarted (seq : Nat) (driver : Driver)
  | driverCompleted (seq : Nat) (driver : Driver)
  | gateOpened (seq : Nat) (won : Bool)
  | originalCalled (seq : Nat) (this method : Addr)
  | originalReturned (seq : Nat)
  | frameDone (seq : Nat) (phase : OriginalPhase)
  deriving DecidableEq, Repr

structure State where
  handoff : Handoff
  /-- The worker has published. -/
  published : Bool
  runtimeGate : RuntimeGate
  failed : Bool
  frameSeq : Nat
  threads : Nat → Thread
  leaked : List BoxedApp
  dropped : List BoxedApp
  events : List Event

def State.init : State :=
  { handoff := .empty, published := false, runtimeGate := .new, failed := false, frameSeq := 0
    threads := fun _ => ⟨.awaitingHandoff, []⟩, leaked := [], dropped := [], events := [] }

inductive Action where
  /-- The worker hands the `App` it built over, once. -/
  | publish
  /-- A holder of the handoff lock unwinds. -/
  | poison
  /-- Some other part of the runtime publishes a global failure. -/
  | fail
  /-- The game calls the replacement. -/
  | runFrame (thread : Nat) (this method : Addr)
  | resume (thread : Nat) (contended : Bool)
  /-- The driver the newest frame of the thread is in unwinds. -/
  | driverPanics (thread : Nat)
  deriving DecidableEq, Repr

def State.emit (s : State) (e : Event) : State := { s with events := s.events ++ [e] }

def State.setThread (s : State) (t : Nat) (tls : AppSlot) (stack : List SchedulerFrame) : State :=
  { s with threads := Function.update s.threads t ⟨tls, stack⟩ }

def publishGlobalFailure (s : State) : State :=
  { s with runtimeGate := s.runtimeGate.close, failed := true }.emit .globalFailure

/-- The value an `Option` field held is dropped when the field is assigned. -/
def State.dropApp (s : State) (app : Option BoxedApp) : State :=
  { s with dropped := app.toList ++ s.dropped }

/-- The shared state, the slot of the frame's thread, and the frame. -/
abbrev Local := State × AppSlot × SchedulerFrame

def claimApp (s : State) (slot : AppSlot) (f : SchedulerFrame) (contended : Bool) : Local :=
  match slot with
  | .awaitingHandoff =>
    match s.handoff.tryTake contended with
    | (.ready app, handoff) =>
      ({ s with handoff }.dropApp f.app, .busy, { f with app := some app })
    | (.pending, handoff) => ({ s with handoff }, slot, f)
    | (.failed, handoff) => (publishGlobalFailure { s with handoff }, .unavailable, f)
  | .running app => (s.dropApp f.app, .busy, { f with app := some app })
  | .busy | .exited _ | .unavailable => (s, slot, f)

/-- What becomes of the App and of the thread's slot. -/
def commitTls (s : State) (slot : AppSlot) (app : BoxedApp) (exit : Bool) : State × AppSlot :=
  match slot with
  | .busy => (s, if exit then .exited app else .running app)
  | _ => ({ s with leaked := app :: s.leaked }.dropApp slot.app, .unavailable)

/-- `self.app.take()` and, if there was one, `commit_tls`. -/
def commitApp (s : State) (slot : AppSlot) (f : SchedulerFrame) (exit : Bool) : Local :=
  match f.app with
  | some app =>
    let (s, slot) := commitTls s slot app exit
    (s, slot, { f with app := none })
  | none => (s, slot, f)

def driverFor (app : BoxedApp) : Driver := if app.startupCompleted then .update else .startup

/-- The App after its driver returned. -/
def Driver.completed : Driver → BoxedApp → BoxedApp
  | .startup, app => { app with startupCompleted := true }
  | .update, app => app

/-- Every `call_original_once` asks a guard of its own. -/
def callOriginalOnce (s : State) (f : SchedulerFrame) (via : Via) : State × SchedulerFrame :=
  if OriginalGuard.new.beginCall.1 then
    (s.emit (.originalCalled f.seq f.this f.method),
      { f with phase := .callingOriginal, pc := .inOriginal via })
  else (s, f)

/-- Where a frame goes on when its original has returned. -/
def Via.next : Via → Pc
  | .passthrough | .recovery => .drop
  | .driven => .commit

/-- One step of the newest frame `f` of `thread`, short of leaving it. -/
def advance (trusted : Nat → Bool) (s : State) (thread : Nat) (slot : AppSlot)
    (f : SchedulerFrame) (contended : Bool) : Local :=
  match f.pc with
  | .loadFailed => (s, slot, { f with pc := if s.failed then .claim true else .checkThread })
  | .checkThread =>
    if trusted thread then (s, slot, { f with pc := .claim false })
    else
      (publishGlobalFailure (s.emit (.threadMismatch f.seq)),
        if slot = .awaitingHandoff then .unavailable else slot,
        { f with pc := .callOriginal .passthrough })
  | .claim failed =>
    let (s, slot, f) := claimApp s slot f contended
    (s, slot, { f with pc :=
      if failed then .commitFailed
      else if f.app.isNone then .callOriginal .passthrough
      else .startDriver })
  | .commitFailed =>
    let (s, slot, f) := commitApp s slot f true
    (s, slot, { f with pc := .callOriginal .passthrough })
  | .startDriver =>
    match f.app with
    | some app =>
      (s.emit (.driverStarted f.seq (driverFor app)), slot,
        { f with pc := .inDriver (driverFor app) })
    | none => (s, slot, { f with pc := .unwound })
  | .inDriver driver =>
    (s.emit (.driverCompleted f.seq driver), slot,
      { f with
        app := f.app.map driver.completed
        pc := match driver with | .startup => .openGate | .update => .callOriginal .driven })
  | .openGate =>
    ({ s with runtimeGate := s.runtimeGate.openGate.2 }.emit
        (.gateOpened f.seq s.runtimeGate.openGate.1),
      slot, { f with pc := .callOriginal .driven })
  | .callOriginal via =>
    let (s, f) := callOriginalOnce s f via
    (s, slot, f)
  | .inOriginal via =>
    (s.emit (.originalReturned f.seq), slot, { f with phase := .afterOriginal, pc := via.next })
  | .commit =>
    let (s, slot, f) := commitApp s slot f s.failed
    (s, slot, { f with tlsCommitted := true, pc := .drop })
  | .unwound =>
    (publishGlobalFailure s, slot,
      { f with pc := if f.phase = .beforeOriginal then .callOriginal .recovery else .drop })
  | .drop => (s, slot, f)

/-- The frame's own `Drop`, and then that of its fields. -/
def dropFrame (s : State) (f : SchedulerFrame) : State :=
  if f.tlsCommitted then s.dropApp f.app
  else
    match f.app with
    | some app => { publishGlobalFailure s with leaked := app :: s.leaked }
    | none => s

/-- Game code is running above these frames. -/
def callable : List SchedulerFrame → Bool
  | [] => true
  | f :: _ => match f.pc with
    | .inDriver _ | .inOriginal _ => true
    | _ => false

def step (trusted : Nat → Bool) (s : State) : Action → Option State
  | .publish =>
    if s.published then none
    else
      let (ok, handoff) := s.handoff.publish ⟨false⟩
      some { s with handoff, published := ok }
  | .poison => some { s with handoff := { s.handoff with poisoned := true } }
  | .fail => some (publishGlobalFailure s)
  | .runFrame t this method =>
    let th := s.threads t
    if callable th.stack then
      let f : SchedulerFrame :=
        { seq := s.frameSeq, this, method, app := none, phase := .beforeOriginal
          tlsCommitted := false, pc := .loadFailed }
      some (({ s with frameSeq := s.frameSeq + 1 }.emit (.frameEntered t s.frameSeq)).setThread t
        th.tls (f :: th.stack))
    else none
  | .resume t contended =>
    let th := s.threads t
    match th.stack with
    | [] => none
    | f :: rest =>
      if f.pc = .drop then
        some (((dropFrame s f).emit (.frameDone f.seq f.phase)).setThread t th.tls rest)
      else
        let (s, slot, f) := advance trusted s t th.tls f contended
        some (s.setThread t slot (f :: rest))
  | .driverPanics t =>
    let th := s.threads t
    match th.stack with
    | [] => none
    | f :: rest =>
      match f.pc with
      | .inDriver _ => some (s.setThread t th.tls ({ f with pc := .unwound } :: rest))
      | _ => none

end Scheduler
end ShinySongTools
