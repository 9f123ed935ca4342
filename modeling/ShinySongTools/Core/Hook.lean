import ShinySongTools.Machine
import ShinySongTools.Core.MethodSlot
import ShinySongTools.Core.Original
import Mathlib.Logic.Function.Basic

/-!
# One hook site under concurrency

A site, its installer, any number of restorers and any number of game calls,
over one slot word that other parties write as they like. A game call loads
the slot pointer and, where it finds the replacement, runs `dispatch`; every
step makes one access to shared state.

`EntersOnce` is the promise of `dispatch`: a call that came in through the
replacement enters the original exactly once. `entersOnce_iff` says what
dispatch's own second look at the slot makes of it.
-/

namespace ShinySongTools.Hook

structure ActiveHook where
  slot : MethodPointerSlot
  replacementAddr : Addr
  deriving DecidableEq, Repr

/-- `SiteInner`, with the `OnceLock` around it as `published`. -/
structure HookSite where
  published : Bool
  originalAddr : Addr
  active : Option ActiveHook
  installed : Bool
  runtimeGate : Bool
  pluginGate : Bool
  deriving DecidableEq, Repr

def HookSite.new : HookSite := ⟨false, 0, none, false, false, false⟩

-- ---------------------------------------------------------------------------
-- Who runs what
-- ---------------------------------------------------------------------------

inductive InstallPc where
  | handler
  | bind
  | storeOriginal (slot : MethodPointerSlot)
  | storeActive (slot : MethodPointerSlot)
  | cas (slot : MethodPointerSlot)
  | readback (slot : MethodPointerSlot)
  | rollbackCas (slot : MethodPointerSlot)
  | rollbackRead (slot : MethodPointerSlot)
  | storeInstalled (slot : MethodPointerSlot)
  | done (result : Except HookError MethodPointerSlot)

/-- `HookState::restore` and the ledger action, which differ in what they
report only. -/
inductive RestorePc where
  | idle
  | cas
  | readback
  | rearm
  deriving DecidableEq, Repr

/-- Where the value a dispatch returns comes from. -/
inductive Outcome where
  | handler
  | passthrough
  | fallback
  deriving DecidableEq, Repr

inductive CallPc where
  | idle
  | loadPublished
  | loadActive
  | loadSlot (replacementAddr : Addr)
  | loadOriginal
  | loadRuntimeGate (original : Addr)
  | loadPluginGate (original : Addr)
  /-- The handler runs, outside `call_original`. -/
  | handler (original : Addr)
  /-- The closure of `call_original` runs and has entered the original. -/
  | inOriginal (original : Addr)
  | passthrough (original : Addr)
  | inPassthrough
  | returned (outcome : Outcome)
  deriving DecidableEq, Repr

structure GameCall where
  pc : CallPc
  guard : OriginalGuard
  /-- Entries of the original. -/
  entries : Nat
  deriving DecidableEq, Repr

def GameCall.new : GameCall := ⟨.idle, .new, 0⟩

structure State where
  slot : Addr
  site : HookSite
  installer : InstallPc
  restorers : Nat → RestorePc
  calls : Nat → GameCall

def State.init (slot : Addr) : State :=
  ⟨slot, .new, .handler, fun _ => .idle, fun _ => .new⟩

inductive Action where
  /-- The installer's next step; `resolved` is what resolving and validating
  the target came to. -/
  | install (resolved : Except HookError Unit)
  | restore (restorer : Nat)
  | foreignWrite (word : Addr)
  | setGates (runtime plugin : Bool)
  /-- A game call loads the slot pointer. -/
  | loadPointer (call : Nat)
  | resume (call : Nat)
  | callOriginal (call : Nat)
  | originalReturns (call : Nat)
  | handlerReturns (call : Nat)
  | handlerPanics (call : Nat)

def State.goInstall (s : State) (pc : InstallPc) : State := { s with installer := pc }

def State.setRestorer (s : State) (i : Nat) (pc : RestorePc) : State :=
  { s with restorers := Function.update s.restorers i pc }

def State.setCall (s : State) (c : Nat) (call : GameCall) : State :=
  { s with calls := Function.update s.calls c call }

-- ---------------------------------------------------------------------------
-- The steps
-- ---------------------------------------------------------------------------

def installStep (replacement : Addr) (s : State) (resolved : Except HookError Unit) :
    Option State :=
  match s.installer with
  | .handler => some ({ s with site := { s.site with published := true } }.goInstall .bind)
  | .bind =>
    match resolved with
    | .error e => some (s.goInstall (.done (.error e)))
    | .ok _ =>
      match MethodPointerSlot.bind (RawSlotMemory.read s.slot) with
      | .error e => some (s.goInstall (.done (.error e)))
      | .ok slot => some (s.goInstall (.storeOriginal slot))
  | .storeOriginal slot =>
    some ({ s with site := { s.site with originalAddr := slot.original } }.goInstall
      (.storeActive slot))
  | .storeActive slot =>
    match s.site.active with
    | some _ => some (s.goInstall (.done (.error .siteAlreadyRegistered)))
    | none =>
      some ({ s with site := { s.site with active := some ⟨slot, replacement⟩ } }.goInstall
        (.cas slot))
  | .cas slot =>
    match RawSlotMemory.compareExchange s.slot slot.original replacement with
    | (.ok _, word) => some ({ s with slot := word }.goInstall (.readback slot))
    | (.error _, word) =>
      some ({ s with slot := word }.goInstall (.done (.error .slotConflict)))
  | .readback slot =>
    if RawSlotMemory.read s.slot = some replacement then some (s.goInstall (.storeInstalled slot))
    else some (s.goInstall (.rollbackCas slot))
  | .rollbackCas slot =>
    match RawSlotMemory.compareExchange s.slot replacement slot.original with
    | (.ok _, word) => some ({ s with slot := word }.goInstall (.rollbackRead slot))
    | (.error _, word) =>
      some ({ s with slot := word }.goInstall (.done (.error .installationFailed)))
  | .rollbackRead _ => some (s.goInstall (.done (.error .installationFailed)))
  | .storeInstalled slot =>
    some ({ s with site := { s.site with installed := true } }.goInstall (.done (.ok slot)))
  | .done _ => none

/-- A restore exists once `install` has returned. -/
def restoreStep (replacement : Addr) (s : State) (i : Nat) : Option State :=
  match s.installer with
  | .done (.ok slot) =>
    match s.restorers i with
    | .idle =>
      let armed := s.site.installed
      some ({ s with site := { s.site with installed := false } }.setRestorer i
        (if armed then .cas else .idle))
    | .cas =>
      match RawSlotMemory.compareExchange s.slot replacement slot.original with
      | (.ok _, word) => some ({ s with slot := word }.setRestorer i .readback)
      | (.error _, word) => some ({ s with slot := word }.setRestorer i .idle)
    | .readback =>
      some (s.setRestorer i
        (if RawSlotMemory.read s.slot = some slot.original then .idle else .rearm))
    | .rearm =>
      some ({ s with site := { s.site with installed := true } }.setRestorer i .idle)
  | _ => none

/-- `dispatch` up to the handler, and the passthrough. -/
def dispatchStep (s : State) (call : GameCall) : Option GameCall :=
  match call.pc with
  | .loadPublished =>
    some { call with pc := if s.site.published then .loadActive else .returned .fallback }
  | .loadActive =>
    match s.site.active with
    | some active => some { call with pc := .loadSlot active.replacementAddr }
    | none => some { call with pc := .returned .fallback }
  | .loadSlot replacementAddr =>
    some { call with pc :=
      if RawSlotMemory.read s.slot ≠ some replacementAddr then .returned .fallback
      else .loadOriginal }
  | .loadOriginal =>
    some { call with pc :=
      if s.site.originalAddr = 0 then .returned .fallback
      else .loadRuntimeGate s.site.originalAddr }
  | .loadRuntimeGate original =>
    some { call with pc :=
      if s.site.runtimeGate then .loadPluginGate original else .passthrough original }
  | .loadPluginGate original =>
    some (if s.site.pluginGate then { call with pc := .handler original, guard := .new }
      else { call with pc := .passthrough original })
  | .passthrough _ => some { call with pc := .inPassthrough, entries := call.entries + 1 }
  | .inPassthrough => some { call with pc := .returned .passthrough }
  | .idle | .handler _ | .inOriginal _ | .returned _ => none

def callOriginal (call : GameCall) : Option GameCall :=
  match call.pc with
  | .handler original =>
    match call.guard.beginCall with
    | (true, guard) =>
      some { pc := .inOriginal original, guard, entries := call.entries + 1 }
    | (false, _) => some call
  -- from inside the closure, a further attempt
  | .inOriginal _ => if call.guard.beginCall.1 then none else some call
  | _ => none

def originalReturns (call : GameCall) : Option GameCall :=
  match call.pc with
  | .inOriginal original => some { call with pc := .handler original, guard := call.guard.endCall }
  | _ => none

def handlerReturns (call : GameCall) : Option GameCall :=
  match call.pc with
  | .handler original =>
    some { call with pc :=
      if call.guard.needsOriginal then .passthrough original else .returned .handler }
  | _ => none

/-- The handler unwinds, in its own code or in the original. -/
def handlerPanics (call : GameCall) : Option GameCall :=
  match call.pc with
  | .handler original | .inOriginal original =>
    some { call with pc :=
      match call.guard.phase with
      | .beforeOriginal => .passthrough original
      | .callingOriginal | .afterOriginal => .returned .fallback }
  | _ => none

def step (replacement : Addr) (s : State) : Action → Option State
  | .install resolved => installStep replacement s resolved
  | .restore i => restoreStep replacement s i
  | .foreignWrite word => some { s with slot := word }
  | .setGates runtime plugin =>
    some { s with site := { s.site with runtimeGate := runtime, pluginGate := plugin } }
  | .loadPointer c =>
    if (s.calls c).pc = .idle ∧ s.slot = replacement then
      some (s.setCall c { s.calls c with pc := .loadPublished })
    else none
  | .resume c => (dispatchStep s (s.calls c)).map (s.setCall c)
  | .callOriginal c => (callOriginal (s.calls c)).map (s.setCall c)
  | .originalReturns c => (originalReturns (s.calls c)).map (s.setCall c)
  | .handlerReturns c => (handlerReturns (s.calls c)).map (s.setCall c)
  | .handlerPanics c => (handlerPanics (s.calls c)).map (s.setCall c)

-- ---------------------------------------------------------------------------
-- Exactly once
-- ---------------------------------------------------------------------------

def EntersOnce (s : State) : Prop :=
  ∀ c, (s.calls c).entries ≤ 1 ∧
    ∀ outcome, (s.calls c).pc = .returned outcome → (s.calls c).entries = 1

/-- What `dispatch` looks up for itself is what the call came in through: the
site is published and active, and the slot still holds the replacement. -/
def FindsReplacement (replacement : Addr) (s : State) : Action → Prop
  | .resume c => match (s.calls c).pc with
    | .loadPublished => s.site.published = true
    | .loadActive => s.site.active.isSome = true
    | .loadSlot _ => s.slot = replacement
    | _ => True
  | _ => True

/-- How often a call has entered the original, by where it is. -/
def EntriesOk (call : GameCall) : Prop :=
  match call.pc with
  | .handler _ => (call.guard.phase = .beforeOriginal ∧ call.entries = 0) ∨
      (call.guard.phase = .afterOriginal ∧ call.entries = 1)
  | .inOriginal _ => call.guard.phase = .callingOriginal ∧ call.entries = 1
  | .inPassthrough | .returned _ => call.entries = 1
  | _ => call.entries = 0

def LooksOk (replacement : Addr) (site : HookSite) : CallPc → Prop
  | .loadSlot replacementAddr => replacementAddr = replacement ∧ site.originalAddr ≠ 0
  | .loadOriginal => site.originalAddr ≠ 0
  | _ => True

structure Inv (replacement : Addr) (s : State) : Prop where
  bound : ∀ slot, s.installer = .storeOriginal slot → slot.original ≠ 0
  stored : ∀ slot, s.installer = .storeActive slot → s.site.originalAddr ≠ 0
  active : ∀ active, s.site.active = some active →
    active.replacementAddr = replacement ∧ s.site.originalAddr ≠ 0
  looks : ∀ c, LooksOk replacement s.site (s.calls c).pc
  entries : ∀ c, EntriesOk (s.calls c)

theorem Inv.init (replacement slot : Addr) : Inv replacement (State.init slot) where
  bound _ h := by cases h
  stored _ h := by cases h
  active _ h := by cases h
  looks _ := trivial
  entries _ := rfl

theorem EntriesOk.entersOnce {call : GameCall} (h : EntriesOk call) :
    call.entries ≤ 1 ∧ ∀ outcome, call.pc = .returned outcome → call.entries = 1 := by
  unfold EntriesOk at h
  cases hpc : call.pc <;> simp only [hpc] at h
  case handler original => exact ⟨by omega, by simp⟩
  all_goals exact ⟨by omega, by simp_all⟩

theorem Inv.entersOnce (h : Inv replacement s) : EntersOnce s := fun c => (h.entries c).entersOnce

/-- The installer and the restorers only ever add to what calls look up. -/
theorem LooksOk.mono {site site' : HookSite} (h : LooksOk replacement site pc)
    (ho : site.originalAddr ≠ 0 → site'.originalAddr ≠ 0) : LooksOk replacement site' pc := by
  cases pc with
  | loadSlot replacementAddr => exact ⟨h.1, ho h.2⟩
  | loadOriginal => exact ho h
  | _ => trivial

theorem Inv.ofSite (h : Inv replacement s) (hcalls : s'.calls = s.calls)
    (horig : s.site.originalAddr ≠ 0 → s'.site.originalAddr ≠ 0)
    (hactive : ∀ active, s'.site.active = some active →
      active.replacementAddr = replacement ∧ s'.site.originalAddr ≠ 0)
    (hbound : ∀ slot, s'.installer = .storeOriginal slot → slot.original ≠ 0)
    (hstored : ∀ slot, s'.installer = .storeActive slot → s'.site.originalAddr ≠ 0) :
    Inv replacement s' :=
  ⟨hbound, hstored, hactive, fun c => hcalls ▸ (h.looks c).mono horig,
    fun c => hcalls ▸ h.entries c⟩

theorem Inv.goInstall (h : Inv replacement s) (word : Addr)
    (hbound : ∀ slot, pc = .storeOriginal slot → slot.original ≠ 0)
    (hstored : ∀ slot, pc ≠ .storeActive slot) :
    Inv replacement ({ s with slot := word }.goInstall pc) :=
  h.ofSite rfl (fun ho => ho) h.active hbound fun slot hp => absurd hp (hstored slot)

theorem Inv.install (h : Inv replacement s) (hs : installStep replacement s resolved = some s') :
    Inv replacement s' := by
  unfold installStep at hs
  cases hpc : s.installer <;> simp only [hpc] at hs
  case handler =>
    cases hs
    exact h.ofSite rfl (fun ho => ho) h.active (by simp [State.goInstall])
      (by simp [State.goInstall])
  case bind =>
    cases resolved with
    | error e => cases hs; exact h.goInstall s.slot (by simp) (by simp)
    | ok _ =>
      cases hb : MethodPointerSlot.bind (RawSlotMemory.read s.slot) with
      | error e =>
        simp only [hb, Option.some.injEq] at hs
        subst hs
        exact h.goInstall s.slot (by simp) (by simp)
      | ok slot =>
        simp only [hb, Option.some.injEq] at hs
        subst hs
        refine h.goInstall s.slot (fun slot' he => ?_) (by simp)
        cases he
        exact (MethodPointerSlot.bind_ok hb).2
  case storeOriginal slot =>
    cases hs
    have hne := h.bound slot hpc
    exact h.ofSite rfl (fun _ => hne) (fun active ha => ⟨(h.active active ha).1, hne⟩)
      (by simp [State.goInstall]) fun _ _ => hne
  case storeActive slot =>
    have hne := h.stored slot hpc
    cases ha : s.site.active with
    | some active =>
      simp only [ha, Option.some.injEq] at hs
      subst hs
      exact h.goInstall s.slot (by simp) (by simp)
    | none =>
      simp only [ha, Option.some.injEq] at hs
      subst hs
      refine h.ofSite rfl (fun _ => hne) (fun active he => ?_) (by simp [State.goInstall])
        (by simp [State.goInstall])
      cases he
      exact ⟨rfl, hne⟩
  case cas slot | rollbackCas slot =>
    split at hs
    all_goals
      cases hs
      exact h.goInstall _ (by simp) (by simp)
  case readback slot =>
    split at hs
    all_goals
      cases hs
      exact h.goInstall s.slot (by simp) (by simp)
  case rollbackRead slot =>
    cases hs
    exact h.goInstall s.slot (by simp) (by simp)
  case storeInstalled slot =>
    cases hs
    exact h.ofSite rfl (fun ho => ho) h.active (by simp [State.goInstall])
      (by simp [State.goInstall])
  case done result => cases hs

/-- Slot, flag, gates and restorers are not what calls depend on. -/
theorem Inv.aside (h : Inv replacement s) (word : Addr) (restorers : Nat → RestorePc)
    (installed runtime plugin : Bool) :
    Inv replacement { s with
      slot := word, restorers
      site := { s.site with installed, runtimeGate := runtime, pluginGate := plugin } } :=
  h.ofSite rfl (fun ho => ho) h.active h.bound h.stored

theorem Inv.restore (h : Inv replacement s) (hs : restoreStep replacement s i = some s') :
    Inv replacement s' := by
  unfold restoreStep at hs
  split at hs
  case h_2 => cases hs
  cases hpc : s.restorers i <;> simp only [hpc] at hs
  case cas =>
    split at hs
    all_goals
      cases hs
      exact h.aside _ _ s.site.installed s.site.runtimeGate s.site.pluginGate
  all_goals
    cases hs
    exact h.aside s.slot _ _ s.site.runtimeGate s.site.pluginGate

theorem Inv.setCall (h : Inv replacement s) (hl : LooksOk replacement s.site call.pc)
    (he : EntriesOk call) : Inv replacement (s.setCall c call) := by
  refine ⟨h.bound, h.stored, h.active, fun d => ?_, fun d => ?_⟩
  · by_cases hd : d = c
    · simpa [State.setCall, hd] using hl
    · simpa [State.setCall, hd] using h.looks d
  · by_cases hd : d = c
    · simpa [State.setCall, hd] using he
    · simpa [State.setCall, hd] using h.entries d

-- ---------------------------------------------------------------------------
-- A call's own steps
-- ---------------------------------------------------------------------------

theorem dispatch_ok (h : Inv replacement s)
    (hg : FindsReplacement replacement s (.resume c))
    (hs : dispatchStep s (s.calls c) = some call) :
    LooksOk replacement s.site call.pc ∧ EntriesOk call := by
  have he := h.entries c
  have hl := h.looks c
  unfold dispatchStep at hs
  unfold FindsReplacement at hg
  unfold EntriesOk at he
  cases hpc : (s.calls c).pc <;> simp only [hpc] at hs hg he hl
  case loadPublished =>
    simp only [hg, if_true, Option.some.injEq] at hs
    subst hs
    exact ⟨trivial, he⟩
  case loadActive =>
    cases ha : s.site.active with
    | none => simp [ha] at hg
    | some active =>
      simp only [ha, Option.some.injEq] at hs
      subst hs
      exact ⟨h.active active ha, he⟩
  case loadSlot replacementAddr =>
    obtain ⟨rfl, hne⟩ := hl
    simp only [RawSlotMemory.read, hg, ne_eq, not_true_eq_false, if_false, Option.some.injEq] at hs
    subst hs
    exact ⟨hne, he⟩
  case loadOriginal =>
    have hne : s.site.originalAddr ≠ 0 := hl
    simp only [hne, if_false, Option.some.injEq] at hs
    subst hs
    exact ⟨trivial, he⟩
  case loadRuntimeGate original =>
    cases hs
    cases s.site.runtimeGate <;> exact ⟨trivial, he⟩
  case loadPluginGate original =>
    cases hs
    cases s.site.pluginGate
    · exact ⟨trivial, he⟩
    · exact ⟨trivial, .inl ⟨rfl, he⟩⟩
  case passthrough original =>
    cases hs
    exact ⟨trivial, congrArg (· + 1) he⟩
  case inPassthrough =>
    cases hs
    exact ⟨trivial, he⟩
  case idle | handler | inOriginal | returned => cases hs

theorem callOriginal_ok {call call' : GameCall} (he : EntriesOk call)
    (hs : callOriginal call = some call') :
    LooksOk replacement site call'.pc ∧ EntriesOk call' := by
  rcases call with ⟨pc, ⟨phase⟩, entries⟩
  cases pc <;> simp only [callOriginal, reduceCtorEq] at hs
  case handler original =>
    cases phase <;> simp only [OriginalGuard.beginCall, Option.some.injEq] at hs <;> subst hs
    case beforeOriginal =>
      have hz : entries = 0 := by simpa [EntriesOk] using he
      exact ⟨trivial, rfl, by simp [hz]⟩
    all_goals exact ⟨trivial, he⟩
  case inOriginal original =>
    obtain ⟨rfl, hone⟩ := he
    cases hs
    exact ⟨trivial, rfl, hone⟩

theorem originalReturns_ok {call call' : GameCall} (he : EntriesOk call)
    (hs : originalReturns call = some call') :
    LooksOk replacement site call'.pc ∧ EntriesOk call' := by
  rcases call with ⟨pc, ⟨phase⟩, entries⟩
  cases pc <;> simp only [originalReturns, reduceCtorEq] at hs
  case inOriginal original =>
    obtain ⟨rfl, hone⟩ := he
    cases hs
    exact ⟨trivial, .inr ⟨rfl, hone⟩⟩

theorem handlerReturns_ok {call call' : GameCall} (he : EntriesOk call)
    (hs : handlerReturns call = some call') :
    LooksOk replacement site call'.pc ∧ EntriesOk call' := by
  rcases call with ⟨pc, ⟨phase⟩, entries⟩
  cases pc <;> simp only [handlerReturns, reduceCtorEq] at hs
  case handler original =>
    cases hs
    rcases he with ⟨rfl, hz⟩ | ⟨rfl, hone⟩
    · exact ⟨trivial, hz⟩
    · exact ⟨trivial, hone⟩

theorem handlerPanics_ok {call call' : GameCall} (he : EntriesOk call)
    (hs : handlerPanics call = some call') :
    LooksOk replacement site call'.pc ∧ EntriesOk call' := by
  rcases call with ⟨pc, ⟨phase⟩, entries⟩
  cases pc <;> simp only [handlerPanics, reduceCtorEq] at hs
  case handler original =>
    cases hs
    rcases he with ⟨rfl, hz⟩ | ⟨rfl, hone⟩
    · exact ⟨trivial, hz⟩
    · exact ⟨trivial, hone⟩
  case inOriginal original =>
    obtain ⟨rfl, hone⟩ := he
    cases hs
    exact ⟨trivial, hone⟩

theorem Inv.step (h : Inv replacement s) (hg : FindsReplacement replacement s a)
    (hs : step replacement s a = some s') : Inv replacement s' := by
  cases a <;> simp only [Hook.step] at hs
  case install resolved => exact h.install hs
  case restore i => exact h.restore hs
  case foreignWrite word =>
    cases hs
    exact h.aside word s.restorers s.site.installed s.site.runtimeGate s.site.pluginGate
  case setGates runtime plugin =>
    cases hs
    exact h.aside s.slot s.restorers s.site.installed runtime plugin
  case loadPointer c =>
    split at hs
    · rename_i hload
      cases hs
      have he := h.entries c
      simp only [EntriesOk, hload.1] at he
      exact h.setCall trivial he
    · cases hs
  case resume c =>
    obtain ⟨call, hc, rfl⟩ := Option.map_eq_some_iff.mp hs
    obtain ⟨hl, he⟩ := dispatch_ok h hg hc
    exact h.setCall hl he
  case callOriginal c =>
    obtain ⟨call, hc, rfl⟩ := Option.map_eq_some_iff.mp hs
    obtain ⟨hl, he⟩ := callOriginal_ok (h.entries c) hc
    exact h.setCall hl he
  case originalReturns c =>
    obtain ⟨call, hc, rfl⟩ := Option.map_eq_some_iff.mp hs
    obtain ⟨hl, he⟩ := originalReturns_ok (h.entries c) hc
    exact h.setCall hl he
  case handlerReturns c =>
    obtain ⟨call, hc, rfl⟩ := Option.map_eq_some_iff.mp hs
    obtain ⟨hl, he⟩ := handlerReturns_ok (h.entries c) hc
    exact h.setCall hl he
  case handlerPanics c =>
    obtain ⟨call, hc, rfl⟩ := Option.map_eq_some_iff.mp hs
    obtain ⟨hl, he⟩ := handlerPanics_ok (h.entries c) hc
    exact h.setCall hl he

/-- A dispatch that does not find what the call came in through returns the
fallback, and the original is skipped. -/
theorem dispatch_skips (h : Inv replacement s)
    (hs : dispatchStep s (s.calls c) = some call)
    (hg : ¬ FindsReplacement replacement s (.resume c)) :
    call.pc = .returned .fallback ∧ call.entries = 0 := by
  have he := h.entries c
  have hl := h.looks c
  unfold dispatchStep at hs
  unfold FindsReplacement at hg
  unfold EntriesOk at he
  cases hpc : (s.calls c).pc <;> simp only [hpc] at hs hg he hl
  case loadPublished =>
    cases hs
    simp [hg, he]
  case loadActive =>
    have ha : s.site.active = none := by simpa using hg
    simp only [ha, Option.some.injEq] at hs
    subst hs
    exact ⟨rfl, he⟩
  case loadSlot replacementAddr =>
    cases hs
    obtain ⟨rfl, -⟩ := hl
    simp [RawSlotMemory.read, hg, he]
  all_goals exact absurd trivial hg

theorem findsReplacement_of_entersOnce (h : Inv replacement s)
    (hs : step replacement s a = some s') (hp : EntersOnce s') :
    FindsReplacement replacement s a := by
  cases a with
  | resume c =>
    by_contra hg
    obtain ⟨call, hc, rfl⟩ := Option.map_eq_some_iff.mp hs
    obtain ⟨hpc, hz⟩ := dispatch_skips h hc hg
    have hone := (hp c).2 .fallback (by simp [State.setCall, hpc])
    simp [State.setCall, hz] at hone
  | _ => trivial

/-- Every call that came in through the replacement enters the original once,
in exactly the runs where each dispatch finds the site active and the slot
still holding the replacement when it looks for itself. -/
theorem entersOnce_iff (replacement slot : Addr) (as : List Action) :
    Machine.Always (step replacement) EntersOnce (State.init slot) as ↔
      Machine.Each (step replacement) (FindsReplacement replacement) (State.init slot) as :=
  Machine.always_iff_each (fun _ => Inv.entersOnce) (fun _ _ _ => Inv.step)
    (fun _ _ _ => findsReplacement_of_entersOnce) (Inv.init replacement slot)

/-- The hook is installed; a game call loads the replacement; the restore puts
the original back; dispatch then reads the slot and falls back. -/
theorem restore_skips_original : ¬ ∀ (replacement slot : Addr) (as : List Action),
    Machine.Always (step replacement) EntersOnce (State.init slot) as := by
  intro h
  let ok := Action.install (.ok ())
  have := (h 2 1 [ok, ok, ok, ok, ok, ok, ok, .loadPointer 0, .restore 0, .restore 0,
    .resume 0, .resume 0, .resume 0]).exec rfl
  exact absurd ((this 0).2 .fallback rfl) (by decide)

end ShinySongTools.Hook
