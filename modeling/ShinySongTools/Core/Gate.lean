import ShinySongTools.Machine
import Mathlib.Logic.Function.Basic

/-!
# The runtime gate

`RuntimeGate` as `core/src/gate.rs` has it: a control word and a flag, each an
atomic of its own. `openGate` and `close` are the two sequential operations;
their halves are kept apart because other threads can run between them.

`Threads` is the concurrent machine: any number of threads call `open`,
`close` and `publish_global_failure` through clones of one gate, one atomic
access a step. Memory is sequentially consistent.
-/

namespace ShinySongTools

/-- The control word; `closed` is the initial value. -/
inductive GateControl where
  | closed
  | opened
  | failedClosed
  deriving DecidableEq, Repr

structure RuntimeGate where
  flag : Bool
  control : GateControl
  deriving DecidableEq, Repr

namespace RuntimeGate

def new : RuntimeGate := ⟨false, .closed⟩

/-- `GateReader::is_open`: readers see the flag only. -/
def isOpen (g : RuntimeGate) : Bool := g.flag

def openCas (g : RuntimeGate) : Option RuntimeGate :=
  if g.control = .closed then some { g with control := .opened } else none

def storeFlag (g : RuntimeGate) (value : Bool) : RuntimeGate := { g with flag := value }

def closeControl (g : RuntimeGate) : RuntimeGate := { g with control := .failedClosed }

def openGate (g : RuntimeGate) : Bool × RuntimeGate :=
  match g.openCas with
  | some g' => (true, g'.storeFlag true)
  | none => (false, g)

def close (g : RuntimeGate) : RuntimeGate := g.closeControl.storeFlag false

def isClosed (g : RuntimeGate) : Bool := g.control = .failedClosed

end RuntimeGate

namespace Gate

inductive Op where
  | openGate
  | close
  | publishGlobalFailure
  deriving DecidableEq, Repr

/-- What a thread has left to do of the call it is in. -/
inductive Pc where
  | idle
  /-- `open` has won its compare-exchange; the flag store is next. -/
  | opening
  /-- `close` has stored the control word; the flag store is next. -/
  | closing
  /-- as `closing`, inside `publish_global_failure`. -/
  | publishing
  /-- `publish_global_failure` has closed the gate; `failed` is next. -/
  | failing
  deriving DecidableEq, Repr

structure Threads where
  gate : RuntimeGate
  failed : Bool
  /-- Some `close` has returned. -/
  closeReturned : Bool
  pc : Nat → Pc

def Threads.init : Threads := ⟨.new, false, false, fun _ => .idle⟩

inductive Action where
  | start (thread : Nat) (op : Op)
  | resume (thread : Nat)
  deriving DecidableEq, Repr

def Threads.goto (s : Threads) (t : Nat) (pc : Pc) : Threads :=
  { s with pc := Function.update s.pc t pc }

def step (s : Threads) : Action → Option Threads
  | .start t op =>
    if s.pc t = .idle then
      match op with
      | .openGate =>
        match s.gate.openCas with
        | some g => some ({ s with gate := g }.goto t .opening)
        | none => some s
      | .close => some ({ s with gate := s.gate.closeControl }.goto t .closing)
      | .publishGlobalFailure => some ({ s with gate := s.gate.closeControl }.goto t .publishing)
    else none
  | .resume t =>
    match s.pc t with
    | .idle => none
    | .opening => some ({ s with gate := s.gate.storeFlag true }.goto t .idle)
    | .closing =>
      some ({ s with gate := s.gate.storeFlag false, closeReturned := true }.goto t .idle)
    | .publishing =>
      some ({ s with gate := s.gate.storeFlag false, closeReturned := true }.goto t .failing)
    | .failing => some ({ s with failed := true }.goto t .idle)

/-- What readers are promised: no open gate once a `close` has returned, and
none once `failed` reads true. -/
def StaysClosed (s : Threads) : Prop :=
  (s.closeReturned = true → s.gate.isOpen = false) ∧ (s.failed = true → s.gate.isOpen = false)

/-- The flag store of an `open` that won its compare-exchange happens before
any `close` has returned. -/
def OpensInTime (s : Threads) : Action → Prop
  | .start _ _ => True
  | .resume t => s.pc t = .opening → s.closeReturned = false

def Pc.Closing (pc : Pc) : Prop := pc = .closing ∨ pc = .publishing

/-- The control word is stuck as soon as a `close` is under way. -/
structure Inv (s : Threads) : Prop where
  closers : ∀ t, (s.pc t).Closing → s.gate.control = .failedClosed
  control : s.closeReturned = true → s.gate.control = .failedClosed
  shut : s.closeReturned = true → s.gate.flag = false
  failing : ∀ t, s.pc t = .failing → s.closeReturned = true
  failed : s.failed = true → s.closeReturned = true

theorem Inv.init : Inv .init := by
  constructor <;> simp [Threads.init, Pc.Closing]

theorem Inv.staysClosed (h : Inv s) : StaysClosed s :=
  ⟨h.shut, fun hf => h.shut (h.failed hf)⟩

theorem goto_pc (s : Threads) (t u : Nat) (pc : Pc) :
    (s.goto t pc).pc u = if u = t then pc else s.pc u := by
  simp [Threads.goto, Function.update_apply]

theorem of_goto {s : Threads} (p : Pc → Prop) (hpc : ¬ p pc) (hu : p ((s.goto t pc).pc u)) :
    p (s.pc u) := by
  rw [goto_pc] at hu
  split at hu
  · exact absurd hu hpc
  · exact hu

theorem openCas_some {g g' : RuntimeGate} (h : g.openCas = some g') :
    g.control = .closed ∧ g' = { g with control := .opened } := by
  unfold RuntimeGate.openCas at h
  split at h
  · exact ⟨‹_›, by simpa using h.symm⟩
  · cases h

theorem Inv.openCas (h : Inv s) (hc : s.gate.openCas = some g) :
    Inv ({ s with gate := g }.goto t .opening) := by
  obtain ⟨hclosed, rfl⟩ := openCas_some hc
  refine ⟨fun u hu => ?_, fun hr => ?_, h.shut, fun u hu => ?_, h.failed⟩
  · have := h.closers u (of_goto Pc.Closing (by simp [Pc.Closing]) hu)
    simp [hclosed] at this
  · have := h.control hr
    simp [hclosed] at this
  · exact h.failing u (of_goto (· = .failing) (by simp) hu)

theorem Inv.closeControl (h : Inv s) (hpc : pc ≠ .failing) :
    Inv ({ s with gate := s.gate.closeControl }.goto t pc) :=
  ⟨fun _ _ => rfl, fun _ => rfl, h.shut,
    fun u hu => h.failing u (of_goto (· = .failing) hpc hu), h.failed⟩

theorem closeFlag_inv (s : Threads) (hc : s.gate.control = .failedClosed) :
    Inv ({ s with gate := s.gate.storeFlag false, closeReturned := true }.goto t pc) :=
  ⟨fun _ _ => hc, fun _ => hc, fun _ => rfl, fun _ _ => rfl, fun _ => rfl⟩

theorem Inv.openStore (h : Inv s) (hr : s.closeReturned = false) :
    Inv ({ s with gate := s.gate.storeFlag true }.goto t .idle) := by
  refine ⟨fun u hu => ?_, h.control, fun hr' => ?_, fun u hu => ?_, h.failed⟩
  · exact h.closers u (of_goto Pc.Closing (by simp [Pc.Closing]) hu)
  · simp [Threads.goto, hr] at hr'
  · exact h.failing u (of_goto (· = .failing) (by simp) hu)

theorem Inv.setFailed (h : Inv s) (hr : s.closeReturned = true) :
    Inv ({ s with failed := true }.goto t .idle) :=
  ⟨fun u hu => h.closers u (of_goto Pc.Closing (by simp [Pc.Closing]) hu),
    h.control, h.shut, fun _ _ => hr, fun _ => hr⟩

theorem Inv.step (h : Inv s) (hg : OpensInTime s a) (hs : Gate.step s a = some s') : Inv s' := by
  cases a with
  | start t op =>
    simp only [Gate.step] at hs
    split at hs
    case isFalse => cases hs
    cases op with
    | openGate =>
      cases hc : s.gate.openCas with
      | none => simp only [hc, Option.some.injEq] at hs; exact hs ▸ h
      | some g => simp only [hc, Option.some.injEq] at hs; exact hs ▸ h.openCas hc
    | close | publishGlobalFailure =>
      simp only [Option.some.injEq] at hs
      exact hs ▸ h.closeControl (by simp)
  | resume t =>
    simp only [Gate.step] at hs
    cases hpc : s.pc t <;> simp only [hpc, Option.some.injEq, reduceCtorEq] at hs
    all_goals subst hs
    case opening => exact h.openStore (hg hpc)
    case closing => exact closeFlag_inv s (h.closers t (.inl hpc))
    case publishing => exact closeFlag_inv s (h.closers t (.inr hpc))
    case failing => exact h.setFailed (h.failing t hpc)

/-- An `open` that stores its flag after a `close` has returned reopens the
gate in that very step. -/
theorem opensInTime_of_staysClosed (hs : Gate.step s a = some s') (hp : StaysClosed s') :
    OpensInTime s a := by
  cases a with
  | start t op => trivial
  | resume t =>
    intro hpc
    simp only [Gate.step, hpc, Option.some.injEq] at hs
    subst hs
    cases hr : s.closeReturned with
    | false => rfl
    | true =>
      exact absurd (hp.1 hr) (by simp [RuntimeGate.isOpen, Threads.goto, RuntimeGate.storeFlag])

/-- A call no other thread interrupts is the sequential operation. -/
theorem exec_alone (s : Threads) (t : Nat) (hpc : s.pc t = .idle) :
    (Machine.exec Gate.step s [.start t .close, .resume t]).map (·.gate) = some s.gate.close ∧
    (s.gate.openCas.isSome →
      (Machine.exec Gate.step s [.start t .openGate, .resume t]).map (·.gate) =
        some s.gate.openGate.2) := by
  refine ⟨by simp [Machine.exec, Gate.step, hpc, RuntimeGate.close, Threads.goto], ?_⟩
  intro hc
  obtain ⟨g, hc⟩ := Option.isSome_iff_exists.mp hc
  simp [Machine.exec, Gate.step, hpc, RuntimeGate.openGate, Threads.goto, hc]

/-- A gate stays closed after `close` in exactly the runs where no `open`
stores its flag behind a `close` that has returned. -/
theorem staysClosed_iff (as : List Action) :
    Machine.Always Gate.step StaysClosed .init as ↔ Machine.Each Gate.step OpensInTime .init as :=
  Machine.always_iff_each (fun _ => Inv.staysClosed) (fun _ _ _ => Inv.step)
    (fun _ _ _ _ => opensInTime_of_staysClosed) .init

/-- Thread 0 wins the compare-exchange of `open`; thread 1 publishes a global
failure to its end; thread 0 then stores the flag. -/
theorem reopens_after_close : ¬ ∀ as, Machine.Always Gate.step StaysClosed .init as := by
  intro h
  have := (h [.start 0 .openGate, .start 1 .publishGlobalFailure, .resume 1, .resume 1,
    .resume 0]).exec rfl
  exact absurd (this.2 rfl) (by decide)

end Gate
end ShinySongTools
