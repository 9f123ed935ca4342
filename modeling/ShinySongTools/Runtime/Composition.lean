import ShinySongTools.Machine
import ShinySongTools.Runtime.Retirement
import ShinySongTools.Runtime.Lifecycle

/-!
# The frames and the App

The worker builds an App and hands it over; frames of the game's threads then
take it in turns, and the one that has it runs a driver. Here the App of `App`
stands in the machine of `Scheduler`, which knows no more of it than its flag.

A driver is called whatever has become of the App: no step below asks whether
its pass is due. `AppRun` asks for every pass at its stage, and is refined by
the whole. A pass is one step, that of its driver's return; `Driven.alone` is
why nothing could have come between.
-/

namespace ShinySongTools.Runtime

open Scheduler (Driver Pc driverFor)

variable {T : Type u} {V : T → Type v}

/-- The frames and the App they hand around. -/
structure Joint (V : T → Type v) where
  frames : Scheduler.State
  /-- `none` where a driver unwound in the middle of it, or its publication was
  refused and it was dropped. -/
  app : Option (App V)
  tornDown : Bool

def driverPass (driver : Driver) (seq : Nat) : AppRun.Action V :=
  match driver with
  | .startup => .runStartup
  | .update => .runUpdate seq

def dueAt : Driver → Stage
  | .startup => .building
  | .update => .running

def completedPass : Scheduler.Event → Option (AppRun.Action V)
  | .driverCompleted seq driver => some (driverPass driver seq)
  | _ => none

def passes (s : Scheduler.State) : List (AppRun.Action V) := s.events.filterMap completedPass

def AppRun.Action.isPass : AppRun.Action V → Bool
  | .runStartup | .runUpdate _ => true
  | .addPlugin _ | .teardownAll => false

namespace Joint

inductive Action (V : T → Type v) where
  /-- Of the worker, before it hands the App over. -/
  | addPlugin (plugin : Plugin V)
  | teardownAll
  | frames (action : Scheduler.Action)

def init : Joint V := ⟨.init, some .new, false⟩

def atWorker (j : Joint V) : Bool := !j.frames.published && !j.tornDown

def stage (j : Joint V) (app : App V) : Stage :=
  if j.tornDown then .tornDown else if app.startupCompleted then .running else .building

variable [DecidableEq T]

def drive (driver : Driver) (seq : Nat) (app : App V) : App V :=
  match driver with
  | .startup => app.runStartup
  | .update => app.runUpdate seq

/-- The App once the newest of these frames has moved. -/
def moved (stack : List Scheduler.SchedulerFrame) (app : App V) : App V :=
  match stack with
  | [] => app
  | f :: _ =>
    match f.pc with
    | .inDriver driver => drive driver f.seq app
    | _ => app

def step (trusted : Nat → Bool) (j : Joint V) : Action V → Option (Joint V)
  | .addPlugin plugin =>
    if j.atWorker then j.app.map fun app => { j with app := some (app.addPlugin plugin) } else none
  | .teardownAll =>
    if j.atWorker then
      j.app.map fun app => { j with app := some app.teardownAll, tornDown := true }
    else none
  | .frames .publish =>
    if j.atWorker && j.app.isSome then
      (Scheduler.step trusted j.frames .publish).map fun frames =>
        { j with frames, app := if frames.published then j.app else none }
    else none
  | .frames (.resume t contended) =>
    (Scheduler.step trusted j.frames (.resume t contended)).map fun frames =>
      { j with frames, app := j.app.map (moved (j.frames.threads t).stack) }
  | .frames (.driverPanics t) =>
    (Scheduler.step trusted j.frames (.driverPanics t)).map fun frames =>
      { j with frames, app := none }
  | .frames action =>
    (Scheduler.step trusted j.frames action).map fun frames => { j with frames }

/-- The frames drive the App as it wants to be driven. -/
structure Driven (j : Joint V) : Prop where
  /-- The App has gone through a run of its own, and its passes are those the
  frames have completed. -/
  refines : ∀ app ∈ j.app, ∃ calls,
    Machine.exec AppRun.step .init calls = some ⟨j.stage app, app⟩ ∧
      Machine.Each AppRun.step AppRun.PassOk .init calls ∧
      calls.filter (·.isPass) = passes j.frames
  /-- A driver is in an App no driver unwound in, and it is the one that is due. -/
  entered : ∀ t f driver, f ∈ (j.frames.threads t).stack → f.pc = .inDriver driver →
    ∃ app, j.app = some app ∧ j.stage app = dueAt driver
  /-- While a driver is in the App no other frame has it. -/
  alone : ∀ t f driver, f ∈ (j.frames.threads t).stack → f.pc = .inDriver driver →
    ∀ u g, g ∈ (j.frames.threads u).stack → g.app.isSome → u = t ∧ g = f
  disciplined : ∀ app ∈ j.app, ∀ r ∈ app.records, Disciplined r

end Joint

-- ---------------------------------------------------------------------------
-- The flag of an App
-- ---------------------------------------------------------------------------

section Flag

theorem withOwner_startupCompleted (app : App V) (owner : Nat) (f : Scope V → Scope V) :
    (app.withOwner owner f).startupCompleted = app.startupCompleted := by
  unfold App.withOwner
  split <;> rfl

theorem forOwners_startupCompleted (app : App V) (owners : List Nat) (f : Scope V → Scope V) :
    (app.forOwners owners f).startupCompleted = app.startupCompleted := by
  induction owners generalizing app with
  | nil => rfl
  | cons owner rest ih =>
    exact (ih (app.withOwner owner f)).trans (withOwner_startupCompleted app owner f)

theorem completed_startupCompleted {driver : Driver} {box : BoxedApp}
    (hdue : driverFor box = driver) : (driver.completed box).startupCompleted = true := by
  subst hdue
  cases hflag : box.startupCompleted <;> simp [driverFor, hflag, Driver.completed]

variable [DecidableEq T]

theorem addPlugin_startupCompleted (app : App V) (plugin : Plugin V) :
    (app.addPlugin plugin).startupCompleted = app.startupCompleted :=
  withOwner_startupCompleted ..

theorem drive_startupCompleted (driver : Driver) (seq : Nat) (app : App V)
    (hdue : driverFor ⟨app.startupCompleted⟩ = driver) :
    (Joint.drive driver seq app).startupCompleted = true := by
  cases driver with
  | startup => rfl
  | update =>
    refine (forOwners_startupCompleted app app.activeOwnerIds (Scope.runUpdate seq)).trans ?_
    cases hflag : app.startupCompleted with
    | true => rfl
    | false => simp [driverFor, hflag] at hdue

end Flag

-- ---------------------------------------------------------------------------
-- What a frame does with the App it carries
-- ---------------------------------------------------------------------------

section Frame

open Scheduler

variable {trusted : Nat → Bool} {s : State} {t : Nat} {slot : AppSlot} {f : SchedulerFrame}
  {contended : Bool} {box : BoxedApp}

/-- A frame whose body unwound, or that is over: what it still carries is not
used again. -/
def lost : Pc → Bool
  | .unwound | .callOriginal .recovery | .inOriginal .recovery | .drop => true
  | _ => false

theorem advance_slot (h : (advance trusted s t slot f contended).2.1.app = some box) :
    slot.app = some box ∨ f.app = some box ∧ lost f.pc = false := by
  cases hpc : f.pc <;> simp only [advance, hpc] at h
  case claim failed =>
    rcases claimApp_cases s slot f contended with ⟨app, -, heq⟩ | ⟨hslot, -⟩
    · simp [heq, AppSlot.app] at h
    · exact .inl (hslot ▸ h)
  case commitFailed | commit => exact (commitApp_slot h).imp_right fun hf => ⟨hf, rfl⟩
  case checkThread =>
    refine .inl ?_
    split at h
    · exact h
    · dsimp only at h
      split at h
      · cases h
      · exact h
  case startDriver => split at h <;> exact .inl h
  all_goals exact .inl h

theorem advance_app (hdriver : ∀ driver, f.pc ≠ .inDriver driver)
    (h : (advance trusted s t slot f contended).2.2.app = some box)
    (hlost : lost (advance trusted s t slot f contended).2.2.pc = false) :
    s.handoff.app = some box ∨ slot.app = some box ∨ f.app = some box ∧ lost f.pc = false := by
  cases hpc : f.pc <;> simp only [advance, hpc] at h hlost
  case claim failed =>
    rcases claimApp_cases s slot f contended with ⟨app, hfound, heq⟩ | ⟨-, hframe⟩
    · rw [congrArg Prod.snd heq] at h
      obtain rfl := Option.some.inj h
      exact hfound.imp_right .inl
    · rw [hframe] at h
      exact .inr (.inr ⟨h, rfl⟩)
  case commitFailed | commit =>
    rw [commitApp_frame] at h
    cases h
  case inDriver driver => exact absurd hpc (hdriver driver)
  case unwound => split at hlost <;> cases hlost
  case drop => cases hlost
  case checkThread => split at h <;> exact .inr (.inr ⟨h, rfl⟩)
  case startDriver =>
    split at h
    · exact .inr (.inr ⟨h, rfl⟩)
    · next hnone => cases hnone.symm.trans h
  case callOriginal via | inOriginal via =>
    cases via with
    | recovery => cases hlost
    | passthrough | driven => exact .inr (.inr ⟨h, rfl⟩)
  all_goals exact .inr (.inr ⟨h, rfl⟩)

/-- A frame enters the driver its App asks for. -/
theorem advance_driving (hdriver : ∀ driver, f.pc ≠ .inDriver driver)
    (h : (advance trusted s t slot f contended).2.2.pc = .inDriver driver) :
    ∃ box, (advance trusted s t slot f contended).2.2.app = some box ∧
      driverFor box = driver := by
  cases hpc : f.pc <;> simp only [advance, hpc] at h ⊢
  case startDriver =>
    split at h
    · next box hbox =>
      cases h
      exact ⟨box, hbox, rfl⟩
    · cases h
  case claim failed => split at h <;> [cases h; (split at h <;> cases h)]
  case inDriver driver => exact absurd hpc (hdriver driver)
  case loadFailed | checkThread | unwound => split at h <;> cases h
  case inOriginal via => cases via <;> cases h
  all_goals cases h

theorem passes_emit {e : Event} (he : (completedPass e : Option (AppRun.Action V)) = none) :
    (passes (s.emit e) : List (AppRun.Action V)) = passes s := by
  simp [passes, State.emit, he]

theorem passes_claimApp :
    (passes (claimApp s slot f contended).1 : List (AppRun.Action V)) = passes s := by
  unfold claimApp
  cases slot with
  | awaitingHandoff =>
    rcases s.handoff.tryTake contended with ⟨(_ | _ | _), handoff⟩
    · rfl
    · rfl
    · exact passes_emit (s := { s with handoff, failed := true
                                       runtimeGate := s.runtimeGate.close }) rfl
  | running app | busy | exited app | unavailable => rfl

theorem passes_commitApp (exit : Bool) :
    (passes (commitApp s slot f exit).1 : List (AppRun.Action V)) = passes s := by
  unfold commitApp commitTls
  cases f.app with
  | none => rfl
  | some app => cases slot <;> rfl

theorem passes_publishGlobalFailure :
    (passes (publishGlobalFailure s) : List (AppRun.Action V)) = passes s :=
  passes_emit (s := { s with runtimeGate := s.runtimeGate.close, failed := true }) rfl

theorem passes_advance (hdriver : ∀ driver, f.pc ≠ .inDriver driver) :
    (passes (advance trusted s t slot f contended).1 : List (AppRun.Action V)) = passes s := by
  cases hpc : f.pc <;> simp only [advance, hpc]
  case claim failed => exact passes_claimApp
  case commitFailed => exact passes_commitApp true
  case commit => exact passes_commitApp s.failed
  case checkThread =>
    split
    · rfl
    · exact passes_publishGlobalFailure.trans (passes_emit rfl)
  case startDriver =>
    split
    · exact passes_emit rfl
    · rfl
  case inDriver driver => exact absurd hpc (hdriver driver)
  case openGate => exact passes_emit (s := { s with runtimeGate := s.runtimeGate.openGate.2 }) rfl
  case callOriginal => exact passes_emit rfl
  case inOriginal => exact passes_emit rfl
  case unwound => exact passes_publishGlobalFailure

theorem passes_dropFrame : (passes (dropFrame s f) : List (AppRun.Action V)) = passes s := by
  unfold dropFrame
  split
  · rfl
  · split
    · exact passes_publishGlobalFailure
    · rfl

end Frame

-- ---------------------------------------------------------------------------
-- The frames and the App agree
-- ---------------------------------------------------------------------------

/-- A boxed App is this App. -/
def Fits (app : Option (App V)) (box : BoxedApp) : Prop :=
  ∃ own, app = some own ∧ own.startupCompleted = box.startupCompleted

/-- What a thread has of the App. -/
structure ThreadOk (app : Option (App V)) (th : Scheduler.Thread) : Prop where
  slot : ∀ box, th.tls.app = some box → Fits app box
  frames : ∀ f ∈ th.stack, lost f.pc = false → ∀ box, f.app = some box → Fits app box
  driving : ∀ f ∈ th.stack, ∀ driver, f.pc = .inDriver driver →
    ∃ box, f.app = some box ∧ driverFor box = driver

namespace ThreadOk

variable {app app' : Option (App V)} {slot slot' : AppSlot} {f : Scheduler.SchedulerFrame}
  {rest : List Scheduler.SchedulerFrame}

theorem vacant {th : Scheduler.Thread} (h : ThreadOk app th) (hslot : th.tls.app = none)
    (hframes : ∀ f ∈ th.stack, f.app = none) : ThreadOk app' th where
  slot box hbox := by cases hslot.symm.trans hbox
  frames f hf _ box hbox := by cases (hframes f hf).symm.trans hbox
  driving := h.driving

theorem tail (h : ThreadOk app ⟨slot, f :: rest⟩) : ThreadOk app ⟨slot, rest⟩ where
  slot := h.slot
  frames g hg := h.frames g (List.mem_cons_of_mem f hg)
  driving g hg := h.driving g (List.mem_cons_of_mem f hg)

theorem cons (hslot : ∀ box, slot.app = some box → Fits app box)
    (hframe : lost f.pc = false → ∀ box, f.app = some box → Fits app box)
    (hdriving : ∀ driver, f.pc = .inDriver driver →
      ∃ box, f.app = some box ∧ driverFor box = driver)
    (hrest : ThreadOk app ⟨slot', rest⟩) : ThreadOk app ⟨slot, f :: rest⟩ where
  slot := hslot
  frames := List.forall_mem_cons.mpr ⟨hframe, hrest.frames⟩
  driving := List.forall_mem_cons.mpr ⟨hdriving, hrest.driving⟩

theorem setThread {s : Scheduler.State} {stack : List Scheduler.SchedulerFrame} {t : Nat}
    (hself : ThreadOk app ⟨slot, stack⟩) (hothers : ∀ u, u ≠ t → ThreadOk app (s.threads u))
    (u : Nat) : ThreadOk app ((s.setThread t slot stack).threads u) := by
  by_cases hu : u = t
  · subst hu
    simpa only [Scheduler.State.setThread, Function.update_self] using hself
  · simpa only [Scheduler.State.setThread, Function.update_of_ne hu] using hothers u hu

end ThreadOk

namespace Joint

variable [DecidableEq T] {trusted : Nat → Bool} {j j' : Joint V} {t : Nat} {slot : AppSlot}
  {f : Scheduler.SchedulerFrame} {rest : List Scheduler.SchedulerFrame} {driver : Driver}
  {contended : Bool} {box : BoxedApp}

structure Coupled (trusted : Nat → Bool) (j : Joint V) : Prop where
  owner : Scheduler.Inv trusted (fun _ => true) j.frames
  threads : ∀ t, ThreadOk j.app (j.frames.threads t)
  handoff : ∀ box, j.frames.handoff.app = some box → Fits j.app box
  unstarted : j.frames.published = false → ∀ app ∈ j.app, app.startupCompleted = false
  torn : j.tornDown = true → j.frames.published = false
  refines : ∀ app ∈ j.app, ∃ calls,
    Machine.exec AppRun.step .init calls = some ⟨j.stage app, app⟩ ∧
      calls.filter (·.isPass) = passes j.frames

theorem Coupled.follow {s' : Scheduler.State} (h : Coupled trusted j)
    (howner : Scheduler.Inv trusted (fun _ => true) s')
    (hthreads : ∀ t, ThreadOk j.app (s'.threads t))
    (hhandoff : ∀ box, s'.handoff.app = some box → Fits j.app box)
    (hpublished : s'.published = j.frames.published)
    (hpasses : (passes s' : List (AppRun.Action V)) = passes j.frames) :
    Coupled trusted { j with frames := s' } where
  owner := howner
  threads := hthreads
  handoff := hhandoff
  unstarted hp := h.unstarted (hpublished ▸ hp)
  torn htorn := hpublished.trans (h.torn htorn)
  refines app happ := by
    rw [hpasses]
    exact h.refines app happ

theorem Coupled.published (h : Coupled trusted j) (hf : f ∈ (j.frames.threads t).stack)
    (hbox : f.app = some box) : j.frames.published = true := by
  by_contra hp
  have hnone := h.owner.before (by simpa using hp) (.stack t)
  cases (List.filterMap_eq_nil_iff.mp hnone f hf).symm.trans hbox

theorem Coupled.not_torn (h : Coupled trusted j) (hp : j.frames.published = true) :
    j.tornDown = false := by
  by_contra htorn
  cases hp.symm.trans (h.torn (by simpa using htorn))

theorem moved_of_ne (hpc : ∀ driver, f.pc ≠ .inDriver driver) (app : App V) :
    moved (f :: rest) app = app := by
  unfold moved
  split
  · rfl
  · next heq =>
    cases heq
    split
    · next driver heq => exact absurd heq (hpc driver)
    · rfl

theorem moved_inDriver (hpc : f.pc = .inDriver driver) (app : App V) :
    moved (f :: rest) app = drive driver f.seq app := by
  simp [moved, hpc]

omit [DecidableEq T] in
/-- The driver the flag asks for is the one that is due. -/
theorem stage_dueAt (htorn : j.tornDown = false) {app : App V}
    (hdue : driverFor ⟨app.startupCompleted⟩ = driver) : j.stage app = dueAt driver := by
  subst hdue
  cases hflag : app.startupCompleted <;> simp [stage, htorn, hflag, driverFor, dueAt]

theorem drive_due (htorn : j.tornDown = false) {app : App V}
    (hdue : driverFor ⟨app.startupCompleted⟩ = driver) (seq : Nat) :
    AppRun.step ⟨j.stage app, app⟩ (driverPass driver seq) =
      some ⟨j.stage (drive driver seq app), drive driver seq app⟩ := by
  have hafter : j.stage (drive driver seq app) = .running := by
    simp [stage, htorn, drive_startupCompleted driver seq app hdue]
  rw [hafter, stage_dueAt htorn hdue]
  cases driver <;> rfl

/-- The state once the driver of the newest frame of a thread has returned. -/
theorem Coupled.drives (h : Coupled trusted j) (ht : j.frames.threads t = ⟨slot, f :: rest⟩)
    (hpc : f.pc = .inDriver driver) (pc : Pc) (hpc' : ∀ driver, pc ≠ .inDriver driver)
    (howner : Scheduler.Inv trusted (fun _ => true)
      ((j.frames.emit (.driverCompleted f.seq driver)).setThread t slot
        ({ f with app := f.app.map driver.completed, pc } :: rest))) :
    Coupled trusted
      { j with
        frames := (j.frames.emit (.driverCompleted f.seq driver)).setThread t slot
          ({ f with app := f.app.map driver.completed, pc } :: rest)
        app := j.app.map (drive driver f.seq) } := by
  have hth := h.threads t
  rw [ht] at hth
  obtain ⟨box, hbox, hdriver⟩ := hth.driving f (by simp) driver hpc
  obtain ⟨app, happ, hflag⟩ := hth.frames f (by simp) (by rw [hpc]; rfl) box hbox
  have halone := h.owner.alone ht hbox
  have hpublished := h.published (t := t) (by simp [ht]) hbox
  have htorn := h.not_torn hpublished
  have hdue : driverFor ⟨app.startupCompleted⟩ = driver := by
    rw [hflag]
    exact hdriver
  have hfits : ∀ box', (f.app.map driver.completed) = some box' →
      Fits (j.app.map (drive driver f.seq)) box' := by
    intro box' hbox'
    rw [hbox] at hbox'
    obtain rfl := Option.some.inj hbox'
    refine ⟨drive driver f.seq app, by rw [happ]; rfl, ?_⟩
    rw [drive_startupCompleted driver f.seq app hdue]
    exact (completed_startupCompleted hdriver).symm
  have hslot : slot.app = none := by simpa [ht] using halone.slots t
  refine ⟨howner, ThreadOk.setThread (.cons (fun box hbox => ?_) (fun _ => hfits)
    (fun driver heq => absurd heq (hpc' driver)) (hth.tail.vacant hslot halone.below))
    fun u hu => ?_, fun box hbox => ?_, fun hp => ?_, fun ht' => ?_, ?_⟩
  · cases hslot.symm.trans hbox
  · exact (h.threads u).vacant (halone.slots u) (halone.others u hu)
  · cases halone.handoff.symm.trans hbox
  · cases hpublished.symm.trans hp
  · cases htorn.symm.trans ht'
  · intro own hown
    rw [happ] at hown
    obtain rfl := Option.some.inj hown
    obtain ⟨calls, hexec, hcalls⟩ := h.refines app happ
    refine ⟨calls ++ [driverPass driver f.seq],
      Machine.exec_concat hexec (drive_due htorn hdue f.seq), ?_⟩
    rw [List.filter_append, hcalls]
    cases driver <;> simp [passes, Scheduler.State.emit, Scheduler.State.setThread, completedPass,
      driverPass, AppRun.Action.isPass]

theorem Coupled.turn {s' : Scheduler.State} {slot' : AppSlot} {f' : Scheduler.SchedulerFrame}
    (h : Coupled trusted j) (ht : j.frames.threads t = ⟨slot, f :: rest⟩)
    (hpc : ∀ driver, f.pc ≠ .inDriver driver)
    (hadv : Scheduler.advance trusted j.frames t slot f contended = (s', slot', f'))
    (howner : Scheduler.Inv trusted (fun _ => true) (s'.setThread t slot' (f' :: rest))) :
    Coupled trusted { j with frames := s'.setThread t slot' (f' :: rest) } := by
  have hth := h.threads t
  rw [ht] at hth
  have hslot := @advance_slot trusted j.frames t slot f contended
  have happ := @advance_app trusted j.frames t slot f contended
  have hdriving := @advance_driving trusted j.frames t slot f contended
  have hpasses := @passes_advance T V trusted j.frames t slot f contended hpc
  have hshares := Scheduler.advance_shares trusted j.frames t slot f contended
  obtain ⟨hthreads, hpublished⟩ := Scheduler.advance_frame trusted j.frames t slot f contended
  rw [hadv] at hslot happ hdriving hpasses hshares hthreads hpublished
  dsimp only at hthreads
  refine h.follow howner (ThreadOk.setThread (.cons (fun box hbox => ?_) (fun hlost box hbox => ?_)
    (fun driver heq => hdriving hpc heq) hth.tail) fun u _ => hthreads ▸ h.threads u)
    (fun box hbox => h.handoff box (hshares.handoff box hbox)) hpublished hpasses
  · rcases hslot hbox with hold | ⟨hold, hlost⟩
    · exact hth.slot box hold
    · exact hth.frames f (by simp) hlost box hold
  · rcases happ hpc hbox hlost with hold | hold | ⟨hold, hlost⟩
    · exact h.handoff box hold
    · exact hth.slot box hold
    · exact hth.frames f (by simp) hlost box hold

theorem Coupled.enter {s : Scheduler.State} (h : Coupled trusted j) (hf : f.app = none)
    (hpc : f.pc = .loadFailed) (hsame : s.handoff = j.frames.handoff ∧
      s.published = j.frames.published ∧ s.threads = j.frames.threads)
    (hpasses : (passes s : List (AppRun.Action V)) = passes j.frames)
    (howner : Scheduler.Inv trusted (fun _ => true) (s.setThread t (j.frames.threads t).tls
      (f :: (j.frames.threads t).stack))) :
    Coupled trusted
      { j with
        frames := s.setThread t (j.frames.threads t).tls (f :: (j.frames.threads t).stack) } := by
  obtain ⟨hhandoff, hpublished, hthreads⟩ := hsame
  refine h.follow howner (ThreadOk.setThread (.cons (h.threads t).slot (fun _ box hbox => ?_)
    (fun driver heq => ?_) (h.threads t)) fun u _ => hthreads ▸ h.threads u)
    (fun box hbox => h.handoff box (hhandoff ▸ hbox)) hpublished hpasses
  · cases hf.symm.trans hbox
  · cases hpc.symm.trans heq

theorem Coupled.leave {e : Scheduler.Event} (h : Coupled trusted j)
    (ht : j.frames.threads t = ⟨slot, f :: rest⟩)
    (he : (completedPass e : Option (AppRun.Action V)) = none)
    (howner : Scheduler.Inv trusted (fun _ => true)
      (((Scheduler.dropFrame j.frames f).emit e).setThread t slot rest)) :
    Coupled trusted
      { j with frames := ((Scheduler.dropFrame j.frames f).emit e).setThread t slot rest } := by
  have hth := h.threads t
  rw [ht] at hth
  have hsame : (Scheduler.dropFrame j.frames f).threads = j.frames.threads ∧
      (Scheduler.dropFrame j.frames f).handoff = j.frames.handoff ∧
      (Scheduler.dropFrame j.frames f).published = j.frames.published := by
    unfold Scheduler.dropFrame
    split
    · exact ⟨rfl, rfl, rfl⟩
    · split <;> exact ⟨rfl, rfl, rfl⟩
  obtain ⟨hthreads, hhandoff, hpublished⟩ := hsame
  refine h.follow howner (ThreadOk.setThread hth.tail fun u _ => ?_)
    (fun box hbox => h.handoff box (hhandoff ▸ hbox)) hpublished
    ((passes_emit he).trans passes_dropFrame)
  simpa only [Scheduler.State.emit, hthreads] using h.threads u

/-- A driver unwinds: what it leaves of the App is lost. -/
theorem Coupled.panics (h : Coupled trusted j) (ht : j.frames.threads t = ⟨slot, f :: rest⟩)
    (hpc : f.pc = .inDriver driver)
    (howner : Scheduler.Inv trusted (fun _ => true)
      (j.frames.setThread t slot ({ f with pc := .unwound } :: rest))) :
    Coupled trusted
      ({ j with
          frames := j.frames.setThread t slot ({ f with pc := .unwound } :: rest)
          app := none } : Joint V) := by
  have hth := h.threads t
  rw [ht] at hth
  obtain ⟨box, hbox, -⟩ := hth.driving f (by simp) driver hpc
  have halone := h.owner.alone ht hbox
  have hslot : slot.app = none := by simpa [ht] using halone.slots t
  refine ⟨howner, ThreadOk.setThread (.cons (fun own hown => ?_) (fun hlost => ?_)
    (fun driver heq => ?_) (hth.tail.vacant hslot halone.below)) fun u hu => ?_,
    fun own hown => ?_, fun _ own hown => ?_, h.torn, fun own hown => ?_⟩
  · cases hslot.symm.trans hown
  · cases hlost
  · cases heq
  · exact (h.threads u).vacant (halone.slots u) (halone.others u hu)
  · cases halone.handoff.symm.trans hown
  · cases hown
  · cases hown

theorem Coupled.vacant (h : Coupled trusted j) (hp : j.frames.published = false)
    (app : Option (App V)) :
    (∀ t, ThreadOk app (j.frames.threads t)) ∧ j.frames.handoff.app = none := by
  have hnone := h.owner.before hp
  refine ⟨fun t => (h.threads t).vacant ?_ fun f hf => ?_, ?_⟩
  · exact Option.toList_eq_nil_iff.mp (hnone (.tls t))
  · exact List.filterMap_eq_nil_iff.mp (hnone (.stack t)) f hf
  · exact Option.toList_eq_nil_iff.mp (hnone .handoff)

omit [DecidableEq T] in
theorem atWorker_iff :
    j.atWorker = true ↔ j.frames.published = false ∧ j.tornDown = false := by
  simp [atWorker]

/-- What the worker does with the App before it hands it over. -/
theorem Coupled.works (h : Coupled trusted j) (hp : j.frames.published = false)
    (htorn : j.tornDown = false) {app app' : App V} {tornDown : Bool} {a : AppRun.Action V}
    (happ : j.app = some app) (hflag : app'.startupCompleted = app.startupCompleted)
    (hstep : AppRun.step ⟨.building, app⟩ a =
      some ⟨if tornDown then .tornDown else .building, app'⟩) (hpass : a.isPass = false) :
    Coupled trusted { j with app := some app', tornDown } := by
  have hstarted := h.unstarted hp app happ
  have hstarted' := hflag.trans hstarted
  have hvacant := h.vacant hp (some app')
  refine ⟨h.owner, hvacant.1, fun box hbox => ?_, fun _ own hown => ?_, fun _ => hp,
    fun own hown => ?_⟩
  · cases hvacant.2.symm.trans hbox
  · obtain rfl := Option.some.inj hown
    exact hstarted'
  · obtain rfl := Option.some.inj hown
    obtain ⟨calls, hexec, hcalls⟩ := h.refines app happ
    refine ⟨calls ++ [a], Machine.exec_concat hexec ?_, ?_⟩
    · simpa [stage, htorn, hstarted, hstarted'] using hstep
    · rw [List.filter_append, hcalls]
      simp [hpass]

theorem Coupled.publish (h : Coupled trusted j) (hp : j.frames.published = false)
    (htorn : j.tornDown = false) {app : App V} (happ : j.app = some app)
    (howner : Scheduler.Inv trusted (fun _ => true) { j.frames with
      handoff := (j.frames.handoff.publish ⟨false⟩).2
      published := (j.frames.handoff.publish ⟨false⟩).1 }) :
    Coupled trusted
      { j with
        frames := { j.frames with
          handoff := (j.frames.handoff.publish ⟨false⟩).2
          published := (j.frames.handoff.publish ⟨false⟩).1 }
        app := if (j.frames.handoff.publish ⟨false⟩).1 then j.app else none } := by
  have hvacant := h.vacant hp
  unfold Handoff.publish at howner ⊢
  cases hpoisoned : j.frames.handoff.poisoned with
  | true =>
    simp only [hpoisoned, if_true] at howner ⊢
    refine ⟨howner, (hvacant none).1, fun box hbox => ?_, fun _ own hown => ?_, fun _ => rfl,
      fun own hown => ?_⟩
    · cases (hvacant none).2.symm.trans hbox
    · cases hown
    · cases hown
  | false =>
    simp only [hpoisoned, (hvacant none).2] at howner ⊢
    refine ⟨howner, h.threads, fun box hbox => ?_, fun hp' => ?_, fun htorn' => ?_, h.refines⟩
    · cases hbox
      exact ⟨app, happ, h.unstarted hp app happ⟩
    · cases hp'
    · cases htorn.symm.trans htorn'

theorem Coupled.step {a : Action V} (h : Coupled trusted j) (hs : step trusted j a = some j') :
    Coupled trusted j' := by
  have howner (b : Scheduler.Action) (s' : Scheduler.State)
      (hb : Scheduler.step trusted j.frames b = some s') :
      Scheduler.Inv trusted (fun _ => true) s' := by
    refine h.owner.step (fun _ _ => rfl) ?_ hb
    cases b with
    | resume t contended => exact fun _ _ _ _ _ _ _ _ => rfl
    | _ => trivial
  cases a with
  | addPlugin plugin =>
    obtain ⟨hat, hs⟩ := Option.ite_none_right_eq_some.mp hs
    obtain ⟨app, happ, rfl⟩ := Option.map_eq_some_iff.mp hs
    obtain ⟨hp, htorn⟩ := atWorker_iff.mp hat
    refine h.works (a := .addPlugin plugin) hp htorn happ (addPlugin_startupCompleted app plugin)
      ?_ rfl
    rw [htorn]
    rfl
  | teardownAll =>
    obtain ⟨hat, hs⟩ := Option.ite_none_right_eq_some.mp hs
    obtain ⟨app, happ, rfl⟩ := Option.map_eq_some_iff.mp hs
    obtain ⟨hp, htorn⟩ := atWorker_iff.mp hat
    exact h.works (a := .teardownAll) hp htorn happ (forOwners_startupCompleted ..) rfl rfl
  | frames b =>
    cases b with
    | publish =>
      obtain ⟨hat, hs⟩ := Option.ite_none_right_eq_some.mp hs
      obtain ⟨s', hb, rfl⟩ := Option.map_eq_some_iff.mp hs
      obtain ⟨hat, hsome⟩ := (Bool.and_eq_true _ _).mp hat
      obtain ⟨hp, htorn⟩ := atWorker_iff.mp hat
      obtain ⟨app, happ⟩ := Option.isSome_iff_exists.mp hsome
      have hs' := howner _ _ hb
      simp only [Scheduler.step, hp, Bool.false_eq_true, if_false, Option.some.injEq] at hb
      subst hb
      exact h.publish hp htorn happ hs'
    | poison =>
      cases hs
      exact h.follow (howner .poison _ rfl) h.threads h.handoff rfl rfl
    | fail =>
      cases hs
      exact h.follow (howner .fail _ rfl) h.threads h.handoff rfl passes_publishGlobalFailure
    | runFrame t this method =>
      obtain ⟨s', hb, rfl⟩ := Option.map_eq_some_iff.mp hs
      have hs' := howner _ _ hb
      simp only [Scheduler.step] at hb
      split at hb
      · cases hb
        refine h.enter (s := { j.frames with frameSeq := j.frames.frameSeq + 1 }.emit
          (.frameEntered t j.frames.frameSeq)) rfl rfl ⟨rfl, rfl, rfl⟩ ?_ hs'
        exact passes_emit rfl
      · cases hb
    | resume t contended =>
      obtain ⟨s', hb, rfl⟩ := Option.map_eq_some_iff.mp hs
      have hs' := howner _ _ hb
      rcases ht : j.frames.threads t with ⟨slot, _ | ⟨f, rest⟩⟩
      · simp [Scheduler.step, ht] at hb
      · simp only [Scheduler.step, ht] at hb
        by_cases hdriver : ∃ driver, f.pc = .inDriver driver
        · obtain ⟨driver, hpc⟩ := hdriver
          rw [if_neg (by simp [hpc])] at hb
          rw [show moved (f :: rest) = drive driver f.seq from funext (moved_inDriver hpc)]
          simp only [Scheduler.advance, hpc, Option.some.injEq] at hb
          subst hb
          refine h.drives ht hpc _ ?_ hs'
          intro driver' heq
          cases driver <;> cases heq
        · have hpc driver : f.pc ≠ .inDriver driver := fun heq => hdriver ⟨driver, heq⟩
          rw [show moved (f :: rest) = id from funext (moved_of_ne hpc), Option.map_id, id]
          split at hb
          · cases hb
            exact h.leave ht rfl hs'
          · rcases hadv : Scheduler.advance trusted j.frames t slot f contended with ⟨s₁, slot', f'⟩
            simp only [hadv, Option.some.injEq] at hb
            subst hb
            exact h.turn ht hpc hadv hs'
    | driverPanics t =>
      obtain ⟨s', hb, rfl⟩ := Option.map_eq_some_iff.mp hs
      have hs' := howner _ _ hb
      rcases ht : j.frames.threads t with ⟨slot, _ | ⟨f, rest⟩⟩
      · simp [Scheduler.step, ht] at hb
      · simp only [Scheduler.step, ht] at hb
        split at hb
        · next driver hpc =>
          cases hb
          exact h.panics ht hpc hs'
        · cases hb

theorem Coupled.init : Coupled trusted (init : Joint V) where
  owner := .init
  threads t := by
    refine ⟨fun box hbox => ?_, fun f hf => ?_, fun f hf => ?_⟩
    · cases hbox
    · cases hf
    · cases hf
  handoff box hbox := by cases hbox
  unstarted _ app happ := by cases happ; rfl
  torn htorn := by cases htorn
  refines app happ := by
    cases happ
    exact ⟨[], rfl, rfl⟩

theorem sole_frame {s : Scheduler.State} {home : Nat → Bool} {g : Scheduler.SchedulerFrame}
    (h : Scheduler.Inv trusted home s) (hf : f ∈ (s.threads t).stack) (hbox : f.app = some box)
    (hg : g ∈ (s.threads u).stack) (hg' : g.app = some box') : u = t ∧ g = f := by
  have hmem : box ∈ s.held (.stack t) := List.mem_filterMap.mpr ⟨f, hf, hbox⟩
  have hmem' : box' ∈ s.held (.stack u) := List.mem_filterMap.mpr ⟨g, hg, hg'⟩
  have hpublished : s.published = true := by
    by_contra hp
    rw [h.before (by simpa using hp)] at hmem
    cases hmem
  obtain ⟨p, own, hsole, -⟩ := h.after hpublished
  obtain rfl := hsole.place (List.ne_nil_of_mem hmem)
  obtain rfl : u = t := by simpa using hsole.place (List.ne_nil_of_mem hmem')
  refine ⟨rfl, ?_⟩
  obtain ⟨pre, post, hstack⟩ := List.append_of_mem hf
  have hone : (s.threads u).stack.filterMap (·.app) = [own] := hsole.1
  rw [hstack, List.filterMap_append, List.filterMap_cons_some hbox] at hone
  obtain ⟨hpre, hpost⟩ : pre.filterMap (·.app) = [] ∧ post.filterMap (·.app) = [] := by
    rcases List.append_eq_singleton_iff.mp hone with ⟨hpre, hcons⟩ | ⟨-, hcons⟩
    · exact ⟨hpre, (List.cons.inj hcons).2⟩
    · cases hcons
  rw [hstack] at hg
  rcases List.mem_append.mp hg with hg | hg
  · cases (List.filterMap_eq_nil_iff.mp hpre g hg).symm.trans hg'
  · rcases List.mem_cons.mp hg with rfl | hg
    · rfl
    · cases (List.filterMap_eq_nil_iff.mp hpost g hg).symm.trans hg'

theorem Coupled.driven (h : Coupled trusted j) : Driven j where
  refines app happ := by
    obtain ⟨calls, hexec, hpasses⟩ := h.refines app happ
    exact ⟨calls, hexec, Machine.Each.of_step (fun _ _ _ h hs => h.step hs)
      (fun _ _ _ h hs => h.passOk hs) AppRun.Inv.init, hpasses⟩
  entered t f driver hf hpc := by
    obtain ⟨box, hbox, hdriver⟩ := (h.threads t).driving f hf driver hpc
    obtain ⟨app, happ, hflag⟩ := (h.threads t).frames f hf (by rw [hpc]; rfl) box hbox
    refine ⟨app, happ, stage_dueAt (h.not_torn (h.published hf hbox)) ?_⟩
    rw [hflag]
    exact hdriver
  alone t f driver hf hpc u g hg hsome := by
    obtain ⟨box, hbox, -⟩ := (h.threads t).driving f hf driver hpc
    obtain ⟨box', hbox'⟩ := Option.isSome_iff_exists.mp hsome
    exact sole_frame h.owner hf hbox hg hbox'
  disciplined app happ := by
    obtain ⟨calls, hexec, -⟩ := h.refines app happ
    exact ((Machine.Always.of_step (fun _ _ _ h hs => h.step hs) AppRun.Inv.init).exec
      hexec).disciplined

/-- In every run of the worker and the threads the frames drive the App through a
run of its own: Startup once and first, Updates after it, nothing in an App that
was torn down or that a driver unwound in, and its owners are disciplined. -/
theorem frames_drive_app (trusted : Nat → Bool) (as : List (Action V)) :
    Machine.Always (step trusted) Driven .init as :=
  (Machine.Always.of_step (fun _ _ _ h hs => h.step hs) Coupled.init).mono fun _ h => h.driven

/-- Two frames of one thread; the first takes one step more, it opens the gate. -/
example : ((Machine.exec (step fun _ => true) (init : Joint fun _ : Unit => Unit)
    ([.addPlugin ⟨"p", .addUpdateSystem (fun _ _ => ⟨fun _ v => v, .returned (.ok ())⟩) .ok⟩,
      .frames .publish] ++
      .frames (.runFrame 0 1 2) :: List.replicate 10 (.frames (.resume 0 false)) ++
      .frames (.runFrame 0 1 2) :: List.replicate 9 (.frames (.resume 0 false)))).map fun j =>
      j.app.map fun app => app.records.map fun r => runs .update r.history) =
    some (some [[(0, false)]]) := by
  decide +kernel

end Joint
end ShinySongTools.Runtime
