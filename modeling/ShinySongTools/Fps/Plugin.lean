import ShinySongTools.Core.Container
import ShinySongTools.Core.Dispatch

/-!
# The frame-rate plugin

The setting in its three copies, the two setter hooks and the main-side
handlers. Of Unity there is what the two originals were last called with.
-/

namespace ShinySongTools.Fps

open Hook

def unlockedTarget : Int32 := 120
def lockedTarget : Int32 := 60

structure FpsDiagnostics where
  applyCount : UInt64
  lastApplied : Int32
  rateHookHits : UInt64
  rateLastInput : Int32
  vsyncHookHits : UInt64
  vsyncLastInput : Int32
  deriving DecidableEq, Repr

def FpsDiagnostics.default : FpsDiagnostics := ⟨0, 0, 0, 0, 0, 0⟩

/-- The site with the word in its method slot and what `HookState` holds. -/
structure InstalledHook where
  site : HookSite
  slot : Addr
  replacement : Addr
  original : Addr
  deriving DecidableEq, Repr

/-- What the originals were last called with. -/
structure Unity where
  targetFrameRate : Option Int32
  vSyncCount : Option Int32
  deriving DecidableEq, Repr

/-- `FpsState`, with the cell that `FpsWriter` and `FpsSites` share and the
hooks of `FpsHooks`. -/
structure FpsState where
  unlockFps : Bool
  updates : UInt64
  diagnostics : FpsDiagnostics
  setting : LatestCell Bool
  rate : InstalledHook
  vsync : InstalledHook
  unity : Unity

namespace FpsState

def passRate (s : FpsState) (value : Int32) : FpsState :=
  { s with unity := { s.unity with targetFrameRate := some value } }

def passVsync (s : FpsState) (value : Int32) : FpsState :=
  { s with unity := { s.unity with vSyncCount := some value } }

-- ---------------------------------------------------------------------------
-- The replacements
-- ---------------------------------------------------------------------------

def rateHit (s : FpsState) (value : Int32) : FpsState :=
  { s with
    diagnostics :=
      { s.diagnostics with
        rateHookHits := s.diagnostics.rateHookHits + 1
        rateLastInput := value } }

/-- What the callback passes to the original. -/
def rateTarget (s : FpsState) (value : Int32) : Int32 :=
  match s.setting.tryRead with
  | none => value
  | some setting => if setting then unlockedTarget else value

/-- The handler, whose result is the state it leaves. -/
def rateHandler (s : FpsState) (value : Int32) : Handler FpsState :=
  .callOriginal (fun _ => .returns ((s.rateHit value).passRate (s.rateTarget value))) fun
    | some (.returned s) => .returns s
    | some .panicked => .panics
    | none => .returns (s.rateHit value)

/-- A game call of `set_targetFrameRate` that the slot sends here; a panic ends
in the outer `catch_unwind`. -/
def rateReplacement (s : FpsState) (value : Int32) : FpsState :=
  match (dispatch s.rate.site s.rate.slot (fun _ => .returned (s.passRate value)) (.returned s)
    (s.rateHandler value)).result with
  | .returned s => s
  | .panicked => s

def vsyncHit (s : FpsState) (value : Int32) : FpsState :=
  { s with
    diagnostics :=
      { s.diagnostics with
        vsyncHookHits := s.diagnostics.vsyncHookHits + 1
        vsyncLastInput := value } }

def vsyncTarget (s : FpsState) (value : Int32) : Int32 :=
  match s.setting.tryRead with
  | none => value
  | some setting => if setting then 0 else value

def vsyncHandler (s : FpsState) (value : Int32) : Handler FpsState :=
  .callOriginal (fun _ => .returns ((s.vsyncHit value).passVsync (s.vsyncTarget value))) fun
    | some (.returned s) => .returns s
    | some .panicked => .panics
    | none => .returns (s.vsyncHit value)

def vsyncReplacement (s : FpsState) (value : Int32) : FpsState :=
  match (dispatch s.vsync.site s.vsync.slot (fun _ => .returned (s.passVsync value)) (.returned s)
    (s.vsyncHandler value)).result with
  | .returned s => s
  | .panicked => s

end FpsState

-- ---------------------------------------------------------------------------
-- The main side
-- ---------------------------------------------------------------------------

def InstalledHook.owned (hook : InstalledHook) : Bool :=
  hook.site.installed && RawSlotMemory.read hook.slot = some hook.replacement

/-- `call` gets the original. -/
def InstalledHook.callOriginalOnMain (hook : InstalledHook) (call : Addr → R) :
    Except HookError R :=
  if !hook.site.installed || RawSlotMemory.read hook.slot ≠ some hook.replacement then
    .error .ownershipDrift
  else .ok (call hook.original)

theorem InstalledHook.callOriginalOnMain_eq (hook : InstalledHook) (call : Addr → R) :
    hook.callOriginalOnMain call =
      if hook.owned = false then .error .ownershipDrift else .ok (call hook.original) := by
  unfold callOriginalOnMain owned
  cases hook.site.installed <;> simp

def targetOf (unlockFps : Bool) : Int32 := if unlockFps then unlockedTarget else lockedTarget

def vsyncOf (unlockFps : Bool) : Int32 := if unlockFps then 0 else 1

namespace FpsState

/-- `FpsPlugin::build`, for the hooks it has installed. -/
def build (unlockFps : Bool) (rate vsync : InstalledHook) (unity : Unity) : FpsState where
  unlockFps
  updates := 0
  diagnostics := .default
  setting := .new
  rate
  vsync
  unity

/-- The diagnostics of a setting that is applied. -/
def countApply (s : FpsState) (target : Int32) : FpsState :=
  { s with
    diagnostics :=
      { s.diagnostics with
        lastApplied := target
        applyCount := s.diagnostics.applyCount + 1 } }

def applySetting (s : FpsState) (unlockFps : Bool) : Except HookError Unit × FpsState :=
  match s.vsync.callOriginalOnMain fun _ => s.passVsync (vsyncOf unlockFps) with
  | .error e => (.error e, s)
  | .ok s =>
    match s.rate.callOriginalOnMain fun _ => s.passRate (targetOf unlockFps) with
    | .error e => (.error e, s)
    | .ok s => (.ok (), s.countApply (targetOf unlockFps))

def fpsStartup (s : FpsState) : Except String Unit × FpsState :=
  match s.applySetting s.unlockFps with
  | (.ok (), s) => (.ok (), s)
  | (.error _, s) => (.error "unlock_fps startup apply failed", s)

structure FpsGetResponse where
  unlockFps : Bool
  diagnostics : FpsDiagnostics
  deriving DecidableEq, Repr

def fpsGetHandler (s : FpsState) : FpsGetResponse := ⟨s.unlockFps, s.diagnostics⟩

structure FpsSetResponse where
  applied : Bool
  deriving DecidableEq, Repr

/-- The state is stored and sent to the callbacks. -/
def store (s : FpsState) (unlockFps : Bool) : FpsState :=
  { s with
    unlockFps
    updates := s.updates + 1
    setting := (s.setting.trySend unlockFps).2 }

def fpsSetHandler (s : FpsState) (unlockFps : Bool) : Except String FpsSetResponse × FpsState :=
  match (s.store unlockFps).applySetting unlockFps with
  | (.ok (), s) => (.ok ⟨true⟩, s)
  | (.error _, s) => (.error "unlock_fps apply failed", s)

/-- Both originals are called and counted, or the first one only, or none. -/
theorem applySetting_eq (s : FpsState) (unlockFps : Bool) :
    s.applySetting unlockFps =
      if s.vsync.owned = false then (.error .ownershipDrift, s)
      else if s.rate.owned = false then (.error .ownershipDrift, s.passVsync (vsyncOf unlockFps))
      else
        (.ok (), ((s.passVsync (vsyncOf unlockFps)).passRate (targetOf unlockFps)).countApply
          (targetOf unlockFps)) := by
  have hvsync := s.vsync.callOriginalOnMain_eq fun _ => s.passVsync (vsyncOf unlockFps)
  have hrate := (s.passVsync (vsyncOf unlockFps)).rate.callOriginalOnMain_eq
    fun _ => (s.passVsync (vsyncOf unlockFps)).passRate (targetOf unlockFps)
  have hsame : (s.passVsync (vsyncOf unlockFps)).rate = s.rate := rfl
  rw [applySetting, hvsync]
  by_cases howned : s.vsync.owned = false
  · rw [if_pos howned, if_pos howned]
  rw [if_neg howned, if_neg howned]
  simp only [hrate]
  rw [hsame]
  by_cases howned' : s.rate.owned = false
  · rw [if_pos howned', if_pos howned']
  · rw [if_neg howned', if_neg howned']

end FpsState

end ShinySongTools.Fps
