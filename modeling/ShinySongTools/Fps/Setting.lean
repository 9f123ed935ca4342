import ShinySongTools.Machine
import ShinySongTools.Fps.Plugin

/-!
# The copies of the setting

The state, the cell that the callbacks read and what was applied last, along
runs of requests and game calls; and what a request leaves of them that fails.
-/

namespace ShinySongTools.Fps

open Hook FpsState

/-- Installed, with the replacement in the slot and both gates open. -/
structure InstalledHook.Ready (hook : InstalledHook) : Prop where
  published : hook.site.published = true
  active : ∃ slot, hook.site.active = some ⟨slot, hook.replacement⟩
  original : hook.site.originalAddr ≠ 0
  installed : hook.site.installed = true
  runtimeGate : hook.site.runtimeGate = true
  pluginGate : hook.site.pluginGate = true
  slot : hook.slot = hook.replacement

theorem InstalledHook.Ready.owned {hook : InstalledHook} (h : hook.Ready) : hook.owned = true := by
  simp [InstalledHook.owned, h.installed, h.slot, RawSlotMemory.read]

theorem InstalledHook.Ready.dispatch {hook : InstalledHook} (h : hook.Ready)
    (passthrough : Addr → Ending R) (fallback : Ending R) (handler : Handler R) :
    KeepsContract hook.site passthrough fallback handler
      (dispatch hook.site hook.slot passthrough fallback handler) := by
  obtain ⟨slot, hactive⟩ := h.active
  rw [h.slot]
  exact dispatch_open h.published hactive h.original h.runtimeGate h.pluginGate handler

variable {s s' : FpsState}

theorem rateReplacement_eq (h : s.rate.Ready) (value : Int32) :
    s.rateReplacement value = (s.rateHit value).passRate (s.rateTarget value) := by
  have hopened := (h.dispatch (fun _ => .returned (s.passRate value)) (.returned s)
    (s.rateHandler value)).opened h.runtimeGate h.pluginGate
  rw [rateReplacement, hopened.2]
  rfl

theorem vsyncReplacement_eq (h : s.vsync.Ready) (value : Int32) :
    s.vsyncReplacement value = (s.vsyncHit value).passVsync (s.vsyncTarget value) := by
  have hopened := (h.dispatch (fun _ => .returned (s.passVsync value)) (.returned s)
    (s.vsyncHandler value)).opened h.runtimeGate h.pluginGate
  rw [vsyncReplacement, hopened.2]
  rfl

-- ---------------------------------------------------------------------------
-- Runs
-- ---------------------------------------------------------------------------

inductive Action where
  | set (unlockFps : Bool)
  | setTargetFrameRate (value : Int32)
  | setVSyncCount (value : Int32)
  deriving DecidableEq, Repr

def Action.sets : Action → Bool
  | .set _ => true
  | .setTargetFrameRate _ => false
  | .setVSyncCount _ => false

def step (s : FpsState) : Action → Option FpsState
  | .set unlockFps => some (s.fpsSetHandler unlockFps).2
  | .setTargetFrameRate value => some (s.rateReplacement value)
  | .setVSyncCount value => some (s.vsyncReplacement value)

/-- Between requests the originals get what the setting says, and what is
reported, acted on and applied is one setting. -/
structure Follows (s : FpsState) : Prop where
  rate : ∀ value, (s.rateReplacement value).unity.targetFrameRate =
    some (if s.unlockFps then unlockedTarget else value)
  vsync : ∀ value, (s.vsyncReplacement value).unity.vSyncCount =
    some (if s.unlockFps then 0 else value)
  reported : s.fpsGetHandler.unlockFps = s.unlockFps
  applied : s.fpsGetHandler.diagnostics.lastApplied = targetOf s.unlockFps

/-- Both hooks are ready, the applied value is the one of the state, and so is
the cell, unless nothing was sent to it. -/
structure Synced (config sent : Bool) (s : FpsState) : Prop where
  rate : s.rate.Ready
  vsync : s.vsync.Ready
  applied : s.diagnostics.lastApplied = targetOf s.unlockFps
  cell : if sent then s.setting.cell = some s.unlockFps
    else s.setting.cell = none ∧ s.unlockFps = config

variable {config sent : Bool}

theorem applySetting_ready (hrate : s.rate.Ready) (hvsync : s.vsync.Ready) (unlockFps : Bool) :
    s.applySetting unlockFps =
      (.ok (), ((s.passVsync (vsyncOf unlockFps)).passRate (targetOf unlockFps)).countApply
        (targetOf unlockFps)) := by
  rw [applySetting_eq, if_neg (by simp [hvsync.owned]), if_neg (by simp [hrate.owned])]

theorem synced_started {rate vsync : InstalledHook} {unity : Unity} {started : FpsState}
    (hrate : rate.Ready) (hvsync : vsync.Ready)
    (hs : fpsStartup (build config rate vsync unity) = (.ok (), started)) :
    Synced config false started := by
  rw [fpsStartup, applySetting_ready hrate hvsync] at hs
  cases hs
  exact ⟨hrate, hvsync, rfl, rfl, rfl⟩

theorem synced_set (hrate : s.rate.Ready) (hvsync : s.vsync.Ready) (unlockFps : Bool) :
    Synced config true (s.fpsSetHandler unlockFps).2 := by
  have hrate' : (s.store unlockFps).rate.Ready := hrate
  have hvsync' : (s.store unlockFps).vsync.Ready := hvsync
  rw [fpsSetHandler, applySetting_ready hrate' hvsync']
  exact ⟨hrate, hvsync, rfl, rfl⟩

theorem Synced.step {a : Action} (h : Synced config sent s) (hs : step s a = some s') :
    Synced config (sent || a.sets) s' := by
  cases a with
  | set unlockFps =>
    cases hs
    rw [Action.sets, Bool.or_true]
    exact synced_set h.rate h.vsync unlockFps
  | setTargetFrameRate value =>
    cases hs
    rw [Action.sets, Bool.or_false, rateReplacement_eq h.rate]
    exact ⟨h.rate, h.vsync, h.applied, h.cell⟩
  | setVSyncCount value =>
    cases hs
    rw [Action.sets, Bool.or_false, vsyncReplacement_eq h.vsync]
    exact ⟨h.rate, h.vsync, h.applied, h.cell⟩

theorem Synced.exec {as : List Action} (h : Synced config sent s)
    (hs : Machine.exec Fps.step s as = some s') :
    Synced config (sent || as.any Action.sets) s' := by
  induction as generalizing s sent with
  | nil =>
    cases hs
    rwa [List.any_nil, Bool.or_false]
  | cons a as ih =>
    obtain ⟨t, ht, hs⟩ := Option.bind_eq_some_iff.mp hs
    rw [List.any_cons, ← Bool.or_assoc]
    exact ih (h.step ht) hs

theorem Synced.follows_iff (h : Synced config sent s) :
    Follows s ↔ config = false ∨ sent = true := by
  have hrate (value : Int32) : (s.rateReplacement value).unity.targetFrameRate =
      some (s.rateTarget value) := by
    rw [rateReplacement_eq h.rate]
    rfl
  have hvsync (value : Int32) : (s.vsyncReplacement value).unity.vSyncCount =
      some (s.vsyncTarget value) := by
    rw [vsyncReplacement_eq h.vsync]
    rfl
  have hcell := h.cell
  cases sent with
  | true =>
    refine ⟨fun _ => .inr rfl, fun _ => ⟨fun value => ?_, fun value => ?_, rfl, h.applied⟩⟩
    · rw [hrate, rateTarget, LatestCell.tryRead, hcell]
    · rw [hvsync, vsyncTarget, LatestCell.tryRead, hcell]
  | false =>
    obtain ⟨hnone, hconfig⟩ := hcell
    constructor
    · -- the callbacks pass 60 on, whatever the configuration says
      intro hfollows
      have hpassed := hfollows.rate lockedTarget
      rw [hrate, rateTarget, LatestCell.tryRead, hnone, hconfig] at hpassed
      cases config with
      | false => exact .inl rfl
      | true => exact absurd hpassed (by decide)
    · rintro (rfl | h)
      · refine ⟨fun value => ?_, fun value => ?_, rfl, h.applied⟩
        · rw [hrate, rateTarget, LatestCell.tryRead, hnone, hconfig]
          rfl
        · rw [hvsync, vsyncTarget, LatestCell.tryRead, hnone, hconfig]
          rfl
      · cases h

/-- In the states that requests and game calls reach, the callbacks follow the
setting exactly if the configuration has it off or a request has set it. -/
theorem follows_iff_sent (config : Bool) (rate vsync : InstalledHook) (unity : Unity)
    (started : FpsState) (as : List Action) (s : FpsState) (hrate : rate.Ready)
    (hvsync : vsync.Ready)
    (hstarted : fpsStartup (build config rate vsync unity) = (.ok (), started))
    (hs : Machine.exec step started as = some s) :
    Follows s ↔ config = false ∨ ∃ unlockFps, .set unlockFps ∈ as := by
  rw [((synced_started hrate hvsync hstarted).exec hs).follows_iff, Bool.false_or, List.any_eq_true]
  refine or_congr_right ⟨?_, ?_⟩
  · rintro ⟨a, ha, hset⟩
    cases a with
    | set unlockFps => exact ⟨unlockFps, ha⟩
    | _ => cases hset
  · rintro ⟨unlockFps, hset⟩
    exact ⟨_, hset, rfl⟩

def hooked : InstalledHook := ⟨⟨true, 1, some ⟨⟨1⟩, 2⟩, true, true, true⟩, 2, 2, 1⟩

theorem hooked_ready : hooked.Ready := ⟨rfl, ⟨_, rfl⟩, by decide, rfl, rfl, rfl, rfl⟩

def configured : FpsState := (build true hooked hooked ⟨none, none⟩).fpsStartup.2

def playedSet : List Action := [.setTargetFrameRate 30, .set true, .setVSyncCount 1]

theorem follows_after_set : ∃ s, Machine.exec step configured playedSet = some s ∧ Follows s :=
  ⟨_, rfl, (follows_iff_sent true hooked hooked ⟨none, none⟩ configured playedSet _ hooked_ready
    hooked_ready rfl rfl).mpr (.inr ⟨true, by decide⟩)⟩

/-- Configured on, and the game's 30 goes through. -/
theorem configured_unlock_ignored :
    ¬ ∀ (config : Bool) (started s : FpsState) (as : List Action),
      fpsStartup (build config hooked hooked ⟨none, none⟩) = (.ok (), started) →
      Machine.exec step started as = some s → Follows s := by
  intro h
  have hpassed := (h true _ _ [] rfl rfl).rate 30
  exact absurd hpassed (by decide)

-- ---------------------------------------------------------------------------
-- A request that fails
-- ---------------------------------------------------------------------------

structure Unchanged (s s' : FpsState) : Prop where
  unlockFps : s'.unlockFps = s.unlockFps
  cell : s'.setting.cell = s.setting.cell
  unity : s'.unity = s.unity
  diagnostics : s'.diagnostics = s.diagnostics

theorem fpsSetHandler_eq (s : FpsState) (unlockFps : Bool) :
    s.fpsSetHandler unlockFps =
      if s.vsync.owned = false then (.error "unlock_fps apply failed", s.store unlockFps)
      else if s.rate.owned = false then
        (.error "unlock_fps apply failed", (s.store unlockFps).passVsync (vsyncOf unlockFps))
      else
        (.ok ⟨true⟩, (((s.store unlockFps).passVsync (vsyncOf unlockFps)).passRate
          (targetOf unlockFps)).countApply (targetOf unlockFps)) := by
  have hvsync : (s.store unlockFps).vsync = s.vsync := rfl
  have hrate : (s.store unlockFps).rate = s.rate := rfl
  rw [fpsSetHandler, applySetting_eq, hvsync, hrate]
  by_cases howned : s.vsync.owned = false
  · simp only [if_pos howned]
  by_cases howned' : s.rate.owned = false
  · simp only [if_neg howned, if_pos howned']
  · simp only [if_neg howned, if_neg howned']

theorem unchanged_store (unlockFps : Bool) :
    Unchanged s (s.store unlockFps) ↔ s.unlockFps = unlockFps ∧ s.setting.cell = some unlockFps :=
  ⟨fun h => ⟨h.unlockFps.symm, h.cell.symm⟩, fun h => ⟨h.1.symm, h.2.symm, rfl, rfl⟩⟩

theorem unchanged_passVsync (unlockFps : Bool) (value : Int32) :
    Unchanged s ((s.store unlockFps).passVsync value) ↔
      s.unlockFps = unlockFps ∧ s.setting.cell = some unlockFps ∧
        s.unity.vSyncCount = some value := by
  constructor
  · intro h
    exact ⟨h.unlockFps.symm, h.cell.symm, (congrArg Unity.vSyncCount h.unity).symm⟩
  · rintro ⟨hunlock, hcell, hvsync⟩
    refine ⟨hunlock.symm, hcell.symm, ?_, rfl⟩
    simp only [passVsync, store, ← hvsync]

/-- A request that fails leaves everything as it was exactly if it cannot fail
or asks for what is set, sent and, where the vSync hook is owned, applied. -/
theorem failed_set_unchanged_iff (s : FpsState) (unlockFps : Bool) :
    ((∃ e, (s.fpsSetHandler unlockFps).1 = .error e) →
        Unchanged s (s.fpsSetHandler unlockFps).2) ↔
      (s.vsync.owned = true ∧ s.rate.owned = true) ∨
        (s.unlockFps = unlockFps ∧ s.setting.cell = some unlockFps ∧
          (s.vsync.owned = true → s.unity.vSyncCount = some (vsyncOf unlockFps))) := by
  rw [fpsSetHandler_eq]
  cases hvsync : s.vsync.owned with
  | false =>
    simp [unchanged_store]
  | true =>
    cases hrate : s.rate.owned with
    | false => simp [unchanged_passVsync]
    | true => simp

/-- Both slots are taken by another party, and the setting changes all the same. -/
theorem drifted_set_changes :
    ¬ ∀ (s : FpsState) (unlockFps : Bool), (∃ e, (s.fpsSetHandler unlockFps).1 = .error e) →
      Unchanged s (s.fpsSetHandler unlockFps).2 := by
  intro h
  have hdrifted := h (build false { hooked with slot := 3 } { hooked with slot := 3 } ⟨none, none⟩)
    true ⟨_, rfl⟩
  exact absurd hdrifted.unlockFps (by decide)

end ShinySongTools.Fps
