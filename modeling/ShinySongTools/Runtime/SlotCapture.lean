import ShinySongTools.Machine
import ShinySongTools.Runtime.Bootstrap

/-!
# The captured original of the scheduler slot

The part of `run_bootstrap` that touches the scheduler's slot, interleaved
with foreign writes to it. The slot is bound twice: the first binding gives the
typed original that frames call, the second, which `SchedulerHook::new` makes
after the App was built, what the install expects to find.
-/

namespace ShinySongTools.Runtime

inductive CapturePc where
  | bind
  /-- The App is built, with all its plugins. -/
  | build
  | newHook
  | publish
  | install
  | readback
  | handoff
  | returned
  | panicked
  deriving DecidableEq, Repr

structure Capture where
  word : Addr
  pc : CapturePc
  /-- The first binding's. -/
  original : Addr
  hook : Option SchedulerHook
  /-- What the install CAS has replaced. -/
  replaced : Option Addr
  error : Option HookError
  result : Option Bool

def Capture.start (word : Addr) : Capture :=
  { word, pc := .bind, original := 0, hook := none, replaced := none, error := none,
    result := none }

inductive CaptureAction where
  | foreign (word : Addr)
  /-- `answer` is what the one-shot context and the handoff say. -/
  | boot (answer : Bool)

def Capture.returns (s : Capture) (value : Bool) : Capture :=
  { s with pc := .returned, result := some value }

def Capture.fails (s : Capture) (error : HookError) : Capture :=
  { s with error := some error }.returns false

/-- `install_hook` up to its readback. -/
def Capture.installHook (s : Capture) (hook : SchedulerHook) : Capture :=
  if hook.installed then s.fails .siteAlreadyRegistered
  else
    let s := { s with hook := some { hook with installed := true } }
    match RawSlotMemory.compareExchange s.word hook.slot.original hook.replacement with
    | (.ok _, word) => { s with word, replaced := some s.word, pc := .readback }
    | (.error _, word) => { s with word }.fails .slotConflict

def Capture.step (replacement : Addr) (s : Capture) : CaptureAction → Option Capture
  | .foreign word => some { s with word }
  | .boot answer =>
    match s.pc with
    | .bind =>
      match MethodPointerSlot.bind (RawSlotMemory.read s.word) with
      | .ok slot => some { s with original := slot.original, pc := .build }
      | .error error => some (s.fails error)
    | .build => some { s with pc := .newHook }
    | .newHook =>
      match SchedulerHook.new (RawSlotMemory.read s.word) s.original replacement with
      | some hook => some { s with hook := some hook, pc := .publish }
      | none => some { s with pc := .panicked }
    | .publish => some (if answer then { s with pc := .install } else s.returns false)
    | .install => s.hook.map s.installHook
    | .readback =>
      if RawSlotMemory.read s.word = some replacement then some { s with pc := .handoff }
      else some (s.fails .installationFailed)
    | .handoff => some (s.returns answer)
    | .returned | .panicked => none

/-- What frames call is what the install replaced; over any other pointer
nothing is written. -/
structure OriginalReplaced (s : Capture) : Prop where
  called : s.result = some true → ∃ hook, s.hook = some hook ∧ s.replaced = some hook.original
  replaced : ∀ hook word, s.hook = some hook → s.replaced = some word → word = hook.original
  conflict : s.error = some .slotConflict → s.replaced = none

/-- The install does not find the slot at a pointer that only the second
binding has seen. -/
def CapturesAgree (s : Capture) : CaptureAction → Prop
  | .boot _ => s.pc = .install → ∀ hook, s.hook = some hook → s.word = hook.slot.original →
      hook.slot.original = hook.original
  | .foreign _ => True

structure CaptureInv (s : Capture) : Prop where
  before : s.pc = .bind ∨ s.pc = .build ∨ s.pc = .newHook → s.hook = none
  unreplaced : s.hook = none ∨ s.pc = .publish ∨ s.pc = .install → s.replaced = none
  fresh : s.pc = .publish ∨ s.pc = .install → ∀ hook, s.hook = some hook → hook.installed = false
  running : s.pc ≠ .returned → s.result = none ∧ s.error = none
  written : s.pc = .readback ∨ s.pc = .handoff ∨ s.result = some true →
    ∃ hook, s.hook = some hook ∧ s.replaced = some hook.original
  honest : OriginalReplaced s

theorem CaptureInv.start (word : Addr) : CaptureInv (.start word) := by
  refine ⟨fun _ => rfl, fun _ => rfl, nofun, fun _ => ⟨rfl, rfl⟩, ?_, ⟨nofun, nofun, nofun⟩⟩
  rintro (h | h | h) <;> cases h

theorem CaptureInv.foreign (h : CaptureInv s) (word : Addr) : CaptureInv { s with word } :=
  ⟨h.before, h.unreplaced, h.fresh, h.running, h.written,
    ⟨h.honest.called, h.honest.replaced, h.honest.conflict⟩⟩

/-- The CAS succeeds where the slot holds what the second binding has taken. -/
theorem installHook_eq (s : Capture) (h : hook.installed = false) :
    s.installHook hook =
      if s.word = hook.slot.original then
        { s with
          word := hook.replacement, hook := some { hook with installed := true }
          replaced := some s.word, pc := .readback }
      else { s with hook := some { hook with installed := true } }.fails .slotConflict := by
  by_cases hword : s.word = hook.slot.original <;>
    simp [Capture.installHook, h, RawSlotMemory.compareExchange, hword]

theorem CaptureInv.fails (h : CaptureInv s) (error : HookError)
    (hnone : error = .slotConflict → s.replaced = none) : CaptureInv (s.fails error) := by
  refine ⟨?_, ?_, ?_, fun hn => absurd rfl hn, ?_, ⟨nofun, h.honest.replaced, fun hc => ?_⟩⟩
  · rintro (hpc | hpc | hpc) <;> cases hpc
  · rintro (hn | hpc | hpc)
    · exact h.unreplaced (.inl hn)
    · cases hpc
    · cases hpc
  · rintro (hpc | hpc) <;> cases hpc
  · rintro (hpc | hpc | hpc) <;> cases hpc
  · exact hnone (Option.some.inj hc)

theorem CaptureInv.install (h : CaptureInv s) (hpc : s.pc = .install) (hhook : s.hook = some hook)
    (hg : s.word = hook.slot.original → hook.slot.original = hook.original) :
    CaptureInv (s.installHook hook) := by
  have hnone := h.unreplaced (.inr (.inr hpc))
  obtain ⟨hresult, herror⟩ := h.running (by simp [hpc])
  rw [installHook_eq s (h.fresh (.inr hpc) hook hhook)]
  split
  case isTrue hword =>
    have hsame : s.word = hook.original := hword.trans (hg hword)
    refine ⟨?_, ?_, ?_, fun _ => ⟨hresult, herror⟩, fun _ =>
      ⟨_, rfl, congrArg some hsame⟩, ⟨?_, ?_, ?_⟩⟩
    · rintro (hpc' | hpc' | hpc') <;> cases hpc'
    · rintro (hpc' | hpc' | hpc') <;> cases hpc'
    · rintro (hpc' | hpc') <;> cases hpc'
    · intro hr
      cases hresult.symm.trans hr
    · intro hook' word hh hr
      cases hh
      cases hr
      exact hsame
    · intro hc
      cases herror.symm.trans hc
  case isFalse =>
    refine ⟨?_, fun _ => hnone, ?_, fun hn => absurd rfl hn, ?_, ⟨nofun, ?_, fun _ => hnone⟩⟩
    · rintro (hpc' | hpc' | hpc') <;> cases hpc'
    · rintro (hpc' | hpc') <;> cases hpc'
    · rintro (hpc' | hpc' | hpc') <;> cases hpc'
    · intro hook' word _ hreplaced
      cases hnone.symm.trans hreplaced

/-- A step that goes on to `pc` without touching what was captured. -/
theorem CaptureInv.goes (h : CaptureInv s) (hrun : s.pc ≠ .returned) (pc : CapturePc)
    (hbefore : pc = .bind ∨ pc = .build ∨ pc = .newHook → s.hook = none)
    (hunreplaced : pc = .publish ∨ pc = .install → s.replaced = none)
    (hfresh : pc = .publish ∨ pc = .install → ∀ hook, s.hook = some hook → hook.installed = false)
    (hwritten : pc = .readback ∨ pc = .handoff →
      ∃ hook, s.hook = some hook ∧ s.replaced = some hook.original)
    (original : Addr) : CaptureInv { s with original, pc } := by
  obtain ⟨hresult, herror⟩ := h.running hrun
  refine ⟨hbefore, ?_, hfresh, fun _ => ⟨hresult, herror⟩, ?_, ⟨h.honest.called, h.honest.replaced,
    h.honest.conflict⟩⟩
  · rintro (hn | hpc)
    · exact h.unreplaced (.inl hn)
    · exact hunreplaced hpc
  · rintro (hpc | hpc | hr)
    · exact hwritten (.inl hpc)
    · exact hwritten (.inr hpc)
    · cases hresult.symm.trans hr

theorem CaptureInv.returns (h : CaptureInv s) (hrun : s.pc ≠ .returned) (value : Bool)
    (hwritten : value = true → ∃ hook, s.hook = some hook ∧ s.replaced = some hook.original) :
    CaptureInv (s.returns value) := by
  obtain ⟨-, herror⟩ := h.running hrun
  refine ⟨?_, ?_, ?_, fun hn => absurd rfl hn, ?_, ⟨?_, h.honest.replaced, fun hc => ?_⟩⟩
  · rintro (hpc | hpc | hpc) <;> cases hpc
  · rintro (hn | hpc | hpc)
    · exact h.unreplaced (.inl hn)
    · cases hpc
    · cases hpc
  · rintro (hpc | hpc) <;> cases hpc
  · rintro (hpc | hpc | hr)
    · cases hpc
    · cases hpc
    · cases hr
      exact hwritten rfl
  · intro hr
    cases hr
    exact hwritten rfl
  · cases herror.symm.trans hc

theorem CaptureInv.step (h : CaptureInv s) (hg : CapturesAgree s a)
    (hs : Capture.step replacement s a = some s') : CaptureInv s' := by
  cases a with
  | foreign word =>
    cases hs
    exact h.foreign word
  | boot answer =>
    cases hpc : s.pc <;> simp only [Capture.step, hpc] at hs
    case bind =>
      have hhook := h.before (.inl hpc)
      split at hs <;> cases hs
      · exact h.goes (by simp [hpc]) .build (fun _ => hhook) (by simp) (by simp) (by simp) _
      · exact h.fails _ fun _ => h.unreplaced (.inl hhook)
    case build =>
      cases hs
      exact h.goes (by simp [hpc]) .newHook (fun _ => h.before (.inr (.inl hpc))) (by simp)
        (by simp) (by simp) _
    case newHook =>
      have hhook := h.before (.inr (.inr hpc))
      have hnone := h.unreplaced (.inl hhook)
      obtain ⟨hresult, herror⟩ := h.running (by simp [hpc])
      split at hs <;> cases hs
      · rename_i hook hnew
        refine ⟨?_, fun _ => hnone, ?_, fun _ => ⟨hresult, herror⟩, ?_, ⟨?_, ?_, fun _ => hnone⟩⟩
        · rintro (hpc' | hpc' | hpc') <;> cases hpc'
        · intro _ hook' hh
          cases hh
          unfold SchedulerHook.new at hnew
          split at hnew <;> cases hnew
          rfl
        · rintro (hpc' | hpc' | hr)
          · cases hpc'
          · cases hpc'
          · cases hresult.symm.trans hr
        · intro hr
          cases hresult.symm.trans hr
        · intro hook word _ hr
          cases hnone.symm.trans hr
      · exact h.goes (by simp [hpc]) .panicked (by simp) (by simp) (by simp) (by simp) _
    case publish =>
      have hnone := h.unreplaced (.inr (.inl hpc))
      cases answer <;> cases hs
      · exact h.returns (by simp [hpc]) false (by simp)
      · exact h.goes (by simp [hpc]) .install (by simp) (fun _ => hnone)
          (fun _ => h.fresh (.inl hpc)) (by simp) _
    case install =>
      obtain ⟨hook, hhook, rfl⟩ := Option.map_eq_some_iff.mp hs
      exact h.install hpc hhook (hg hpc hook hhook)
    case readback =>
      have hwritten := h.written (.inl hpc)
      split at hs <;> cases hs
      · exact h.goes (by simp [hpc]) .handoff (by simp) (by simp) (by simp) (fun _ => hwritten) _
      · exact h.fails _ (by simp)
    case handoff =>
      cases hs
      exact h.returns (by simp [hpc]) answer fun _ =>
        h.written (.inr (.inl hpc))
    case returned | panicked => cases hs

/-- The CAS replaces what the second binding has taken. -/
theorem capturesAgree_of_original (h : CaptureInv s) (hs : Capture.step replacement s a = some s')
    (hp : OriginalReplaced s') : CapturesAgree s a := by
  cases a with
  | foreign word => trivial
  | boot answer =>
    intro hpc hook hhook hword
    simp only [Capture.step, hpc, hhook, Option.map_some, Option.some.injEq] at hs
    rw [installHook_eq s (h.fresh (.inr hpc) hook hhook), if_pos hword] at hs
    subst hs
    exact hword.symm.trans (hp.replaced { hook with installed := true } s.word rfl rfl)

theorem original_replaced_iff (replacement word : Addr) (as : List CaptureAction) :
    Machine.Always (Capture.step replacement) OriginalReplaced (.start word) as ↔
      Machine.Each (Capture.step replacement) CapturesAgree (.start word) as :=
  Machine.always_iff_each (fun _ => CaptureInv.honest) (fun _ _ _ h hg hs => h.step hg hs)
    (fun _ _ _ => capturesAgree_of_original) (.start word)

/-- Another owner's pointer 20 takes the slot after it was bound at 10; the
second binding takes it for the original. -/
theorem foreign_owner_bypassed : ¬ ∀ (replacement word : Addr) (as : List CaptureAction),
    Machine.Always (Capture.step replacement) OriginalReplaced (.start word) as := by
  intro h
  have := (h 30 10 [.boot true, .foreign 20, .boot true, .boot true, .boot true, .boot true,
    .boot true, .boot true]).exec rfl
  obtain ⟨hook, hhook, hreplaced⟩ := this.called rfl
  cases hhook
  cases hreplaced

end ShinySongTools.Runtime
