import ShinySongTools.Core.Hook

/-!
# One dispatch and an arbitrary handler

`HookSite::dispatch` from its first look-up to the value it returns, over a
handler that is any program with `call_original` in it. What a panic carries
is left out, and so are handlers that never end.
-/

namespace ShinySongTools.Hook

inductive Ending (R : Type u) where
  | returned (value : R)
  | panicked
  deriving DecidableEq, Repr

/-- A program that can reach the callback: a handler, or the closure of a
`call_original`, which gets the original and may use the callback again. The
code after a `call_original` sees how its closure ended; a panic it does not
catch is one it goes on to panic from. -/
inductive Handler (R : Type u) where
  | returns (value : R)
  | panics
  | callOriginal (closure : Addr → Handler R) (next : Option (Ending R) → Handler R)

/-- The guard of a dispatch, and the attempts on the original made so far: the
addresses that were handed to somebody who calls them. -/
structure Attempts where
  guard : OriginalGuard
  made : List Addr
  deriving DecidableEq, Repr

def Attempts.none : Attempts := ⟨.new, []⟩

variable {R : Type u}

/-- The handler's code; `call_original` asks the guard, runs its closure and
tells the guard if that has returned. -/
def Handler.run (originalAddr : Addr) : Handler R → Attempts → Ending R × Attempts
  | .returns value, a => (.returned value, a)
  | .panics, a => (.panicked, a)
  | .callOriginal closure next, a =>
    match a.guard.beginCall with
    | (false, guard) => (next none).run originalAddr { a with guard }
    | (true, guard) =>
      match (closure originalAddr).run originalAddr ⟨guard, a.made ++ [originalAddr]⟩ with
      | (.returned value, a) =>
        (next (some (.returned value))).run originalAddr { a with guard := a.guard.endCall }
      | (.panicked, a) => (next (some .panicked)).run originalAddr a

structure Dispatched (R : Type u) where
  result : Ending R
  attempts : List Addr
  handlerRan : Bool

def dispatch (site : HookSite) (slot : Addr) (passthrough : Addr → Ending R) (fallback : Ending R)
    (handler : Handler R) : Dispatched R :=
  if !site.published then ⟨fallback, [], false⟩
  else
    match site.active with
    | none => ⟨fallback, [], false⟩
    | some active =>
      if RawSlotMemory.read slot ≠ some active.replacementAddr then ⟨fallback, [], false⟩
      else if site.originalAddr = 0 then ⟨fallback, [], false⟩
      else if !site.runtimeGate || !site.pluginGate then
        ⟨passthrough site.originalAddr, [site.originalAddr], false⟩
      else
        match handler.run site.originalAddr .none with
        | (.returned result, a) =>
          if a.guard.needsOriginal then
            ⟨passthrough site.originalAddr, a.made ++ [site.originalAddr], true⟩
          else ⟨.returned result, a.made, true⟩
        | (.panicked, a) =>
          match a.guard.phase with
          | .beforeOriginal =>
            ⟨passthrough site.originalAddr, a.made ++ [site.originalAddr], true⟩
          | .callingOriginal | .afterOriginal => ⟨fallback, a.made, true⟩

/-- What `dispatch` owes to a handler that ended so, having made these
attempts on the original. -/
def owed (original : Addr) (passthrough : Addr → Ending R) (fallback : Ending R) :
    Ending R → List Addr → Ending R
  | _, [] => passthrough original
  | .returned value, _ :: _ => .returned value
  | .panicked, _ :: _ => fallback

/-- The contract of `dispatch`, for a call whose slot holds the replacement. -/
structure KeepsContract (site : HookSite) (passthrough : Addr → Ending R) (fallback : Ending R)
    (handler : Handler R) (d : Dispatched R) : Prop where
  once : d.attempts = [site.originalAddr]
  closed : site.runtimeGate = false ∨ site.pluginGate = false →
    d.handlerRan = false ∧ d.result = passthrough site.originalAddr
  opened : site.runtimeGate = true → site.pluginGate = true →
    let ended := handler.run site.originalAddr .none
    d.handlerRan = true ∧
      d.result = owed site.originalAddr passthrough fallback ended.1 ended.2.made

-- ---------------------------------------------------------------------------
-- The guard along a handler
-- ---------------------------------------------------------------------------

def Attempts.Ok (original : Addr) (a : Attempts) : Prop :=
  match a.guard.phase with
  | .beforeOriginal => a.made = []
  | .callingOriginal | .afterOriginal => a.made = [original]

theorem Attempts.Ok.refused {a : Attempts} {guard : OriginalGuard} (h : a.Ok original)
    (hbegin : a.guard.beginCall = (false, guard)) : { a with guard }.Ok original := by
  obtain ⟨⟨phase⟩, made⟩ := a
  cases phase with
  | beforeOriginal => cases hbegin
  | callingOriginal | afterOriginal => cases hbegin; exact h

theorem Attempts.Ok.granted {a : Attempts} {guard : OriginalGuard} (h : a.Ok original)
    (hbegin : a.guard.beginCall = (true, guard)) :
    Attempts.Ok original ⟨guard, a.made ++ [original]⟩ := by
  obtain ⟨⟨phase⟩, made⟩ := a
  cases phase with
  | beforeOriginal =>
    cases hbegin
    have hmade : made = [] := h
    simp [Attempts.Ok, hmade]
  | callingOriginal | afterOriginal => cases hbegin

theorem Attempts.Ok.endCall {a : Attempts} (h : a.Ok original) :
    { a with guard := a.guard.endCall }.Ok original := by
  obtain ⟨⟨phase⟩, made⟩ := a
  cases phase <;> exact h

theorem Handler.run_ok (original : Addr) (handler : Handler R) {a : Attempts}
    (h : a.Ok original) : (handler.run original a).2.Ok original := by
  induction handler generalizing a with
  | returns value => exact h
  | panics => exact h
  | callOriginal closure next ihclosure ihnext =>
    rw [Handler.run]
    split
    · next hbegin => exact ihnext none (h.refused hbegin)
    · next guard hbegin =>
      have hclosure := ihclosure original (h.granted hbegin)
      split
      · next heq =>
        rw [heq] at hclosure
        exact ihnext _ hclosure.endCall
      · next heq =>
        rw [heq] at hclosure
        exact ihnext _ hclosure

-- ---------------------------------------------------------------------------
-- The site
-- ---------------------------------------------------------------------------

/-- What installing promises a call that finds the site active. -/
structure SiteOk (replacement : Addr) (s : State) : Prop where
  bound : ∀ slot, s.installer = .storeOriginal slot → slot.original ≠ 0
  stored : ∀ slot, s.installer = .storeActive slot → s.site.originalAddr ≠ 0
  published : s.installer ≠ .handler → s.site.published = true
  active : ∀ active, s.site.active = some active → s.site.published = true ∧
    active.replacementAddr = replacement ∧ s.site.originalAddr ≠ 0

/-- Two states whose sites were installed as far. -/
structure SameInstall (s s' : State) : Prop where
  installer : s'.installer = s.installer
  published : s'.site.published = s.site.published
  original : s'.site.originalAddr = s.site.originalAddr
  active : s'.site.active = s.site.active

theorem SiteOk.init (replacement slot : Addr) : SiteOk replacement (State.init slot) where
  bound _ h := by cases h
  stored _ h := by cases h
  published h := absurd rfl h
  active _ h := by cases h

theorem SiteOk.same (h : SiteOk replacement s) (hs : SameInstall s s') : SiteOk replacement s' where
  bound slot hpc := h.bound slot (hs.installer ▸ hpc)
  stored slot hpc := hs.original ▸ h.stored slot (hs.installer ▸ hpc)
  published hpc := hs.published ▸ h.published (hs.installer ▸ hpc)
  active active ha := by
    obtain ⟨hpublished, haddr, hne⟩ := h.active active (hs.active ▸ ha)
    exact ⟨hs.published ▸ hpublished, haddr, hs.original ▸ hne⟩

theorem sameInstall_restore (hs : restoreStep replacement s i = some s') : SameInstall s s' := by
  unfold restoreStep at hs
  split at hs
  case h_2 => cases hs
  cases hpc : s.restorers i <;> simp only [hpc] at hs
  case cas =>
    split at hs
    all_goals
      cases hs
      exact ⟨rfl, rfl, rfl, rfl⟩
  all_goals
    cases hs
    exact ⟨rfl, rfl, rfl, rfl⟩

/-- Only the installer changes what it has installed. -/
theorem sameInstall_of_step (hs : step replacement s a = some s') :
    (∃ resolved, a = .install resolved) ∨ SameInstall s s' := by
  cases a with
  | install resolved => exact .inl ⟨resolved, rfl⟩
  | restore i => exact .inr (sameInstall_restore hs)
  | foreignWrite word | setGates runtime plugin =>
    cases hs
    exact .inr ⟨rfl, rfl, rfl, rfl⟩
  | loadPointer c =>
    simp only [step] at hs
    split at hs
    · cases hs
      exact .inr ⟨rfl, rfl, rfl, rfl⟩
    · cases hs
  | resume c | callOriginal c | originalReturns c | handlerReturns c | handlerPanics c =>
    obtain ⟨call, -, rfl⟩ := Option.map_eq_some_iff.mp hs
    exact .inr ⟨rfl, rfl, rfl, rfl⟩

theorem SiteOk.goInstall (h : SiteOk replacement s) (hpc : s.installer ≠ .handler) (word : Addr)
    (installed : Bool) (hbound : ∀ slot, pc = .storeOriginal slot → slot.original ≠ 0)
    (hstored : ∀ slot, pc ≠ .storeActive slot) :
    SiteOk replacement
      ({ s with slot := word, site := { s.site with installed } }.goInstall pc) where
  bound := hbound
  stored slot hat := absurd hat (hstored slot)
  published _ := h.published hpc
  active := h.active

theorem SiteOk.install (h : SiteOk replacement s)
    (hs : installStep replacement s resolved = some s') : SiteOk replacement s' := by
  unfold installStep at hs
  cases hpc : s.installer <;> simp only [hpc] at hs
  case handler =>
    cases hs
    exact ⟨(fun _ hat => by cases hat), (fun _ hat => by cases hat), fun _ => rfl,
      fun active ha => ⟨rfl, (h.active active ha).2⟩⟩
  case bind =>
    have hstay (pc : InstallPc) (hbound : ∀ slot, pc = .storeOriginal slot → slot.original ≠ 0)
        (hstored : ∀ slot, pc ≠ .storeActive slot) : SiteOk replacement (s.goInstall pc) :=
      h.goInstall (by simp [hpc]) s.slot s.site.installed hbound hstored
    cases resolved with
    | error e =>
      cases hs
      exact hstay _ (by simp) (by simp)
    | ok _ =>
      cases hb : MethodPointerSlot.bind (RawSlotMemory.read s.slot) with
      | error e =>
        simp only [hb, Option.some.injEq] at hs
        exact hs ▸ hstay _ (by simp) (by simp)
      | ok slot =>
        simp only [hb, Option.some.injEq] at hs
        refine hs ▸ hstay _ (fun slot' hat => ?_) (by simp)
        cases hat
        exact (MethodPointerSlot.bind_ok hb).2
  case storeOriginal slot =>
    cases hs
    have hne := h.bound slot hpc
    have hpublished := h.published (by simp [hpc])
    exact ⟨(fun _ hat => by cases hat), (fun _ _ => hne), fun _ => hpublished,
      fun active ha => ⟨hpublished, (h.active active ha).2.1, hne⟩⟩
  case storeActive slot =>
    have hne := h.stored slot hpc
    have hpublished := h.published (by simp [hpc])
    cases ha : s.site.active with
    | some active =>
      simp only [ha, Option.some.injEq] at hs
      exact hs ▸ h.goInstall (by simp [hpc]) s.slot s.site.installed (by simp) (by simp)
    | none =>
      simp only [ha, Option.some.injEq] at hs
      subst hs
      refine ⟨(fun _ hat => by cases hat), (fun _ hat => by cases hat), fun _ => hpublished,
        fun active he => ?_⟩
      cases he
      exact ⟨hpublished, rfl, hne⟩
  case cas slot | rollbackCas slot =>
    split at hs
    all_goals
      cases hs
      exact h.goInstall (by simp [hpc]) _ s.site.installed (by simp) (by simp)
  case readback slot =>
    split at hs
    all_goals
      cases hs
      exact h.goInstall (by simp [hpc]) s.slot s.site.installed (by simp) (by simp)
  case rollbackRead slot =>
    cases hs
    exact h.goInstall (by simp [hpc]) s.slot s.site.installed (by simp) (by simp)
  case storeInstalled slot =>
    cases hs
    exact h.goInstall (by simp [hpc]) s.slot true (by simp) (by simp)
  case done result => cases hs

theorem SiteOk.step (h : SiteOk replacement s) (hs : Hook.step replacement s a = some s') :
    SiteOk replacement s' := by
  obtain ⟨resolved, rfl⟩ | hsame := sameInstall_of_step hs
  · exact h.install hs
  · exact h.same hsame

theorem siteOk_of_exec (he : Machine.exec (Hook.step replacement) (State.init slot) as = some s) :
    SiteOk replacement s :=
  (Machine.Always.of_step (fun _ _ _ h hs => h.step hs) (.init replacement slot)).exec he

-- ---------------------------------------------------------------------------
-- The contract
-- ---------------------------------------------------------------------------

section

variable {site : HookSite} {passthrough : Addr → Ending R} {fallback : Ending R}

theorem dispatch_open (hpublished : site.published = true) (ha : site.active = some active)
    (hne : site.originalAddr ≠ 0) (hruntime : site.runtimeGate = true)
    (hplugin : site.pluginGate = true) (handler : Handler R) :
    KeepsContract site passthrough fallback handler
      (dispatch site active.replacementAddr passthrough fallback handler) := by
  have hok := handler.run_ok site.originalAddr (a := .none) rfl
  refine ⟨?_, fun hclosed => by simp [hruntime, hplugin] at hclosed, fun _ _ => ?_⟩
  all_goals
    simp only [dispatch, hpublished, ha, RawSlotMemory.read, hne, hruntime, hplugin]
    revert hok
    generalize handler.run site.originalAddr .none = ended
    obtain ⟨ending, ⟨⟨phase⟩, made⟩⟩ := ended
    intro hok
    cases phase with
    | beforeOriginal =>
      have hmade : made = [] := hok
      cases ending <;> simp [hmade, OriginalGuard.needsOriginal, owed]
    | callingOriginal | afterOriginal =>
      have hmade : made = [site.originalAddr] := hok
      cases ending <;> simp [hmade, OriginalGuard.needsOriginal, owed]

theorem dispatch_closed (hpublished : site.published = true) (ha : site.active = some active)
    (hne : site.originalAddr ≠ 0) (hclosed : site.runtimeGate = false ∨ site.pluginGate = false)
    (handler : Handler R) :
    KeepsContract site passthrough fallback handler
      (dispatch site active.replacementAddr passthrough fallback handler) := by
  have hgates : (!site.runtimeGate || !site.pluginGate) = true := by
    rcases hclosed with h | h <;> simp [h]
  have hd : dispatch site active.replacementAddr passthrough fallback handler =
      ⟨passthrough site.originalAddr, [site.originalAddr], false⟩ := by
    simp only [dispatch, hpublished, ha, RawSlotMemory.read, hne, hgates]
    simp
  rw [hd]
  refine ⟨rfl, fun _ => ⟨rfl, rfl⟩, fun hruntime hplugin => ?_⟩
  simp [hruntime, hplugin] at hclosed

end

/-- In whatever state installing, restoring and other calls have brought the
site to, as long as it is active and its slot holds the replacement: one
attempt on the original, and the value dispatch owes. -/
theorem dispatch_keepsContract (replacement slot : Addr) (as : List Action) (s : State)
    (he : Machine.exec (Hook.step replacement) (State.init slot) as = some s)
    (hactive : s.site.active.isSome = true) (hslot : s.slot = replacement)
    (passthrough : Addr → Ending R) (fallback : Ending R) (handler : Handler R) :
    KeepsContract s.site passthrough fallback handler
      (dispatch s.site s.slot passthrough fallback handler) := by
  obtain ⟨active, ha⟩ := Option.isSome_iff_exists.mp hactive
  obtain ⟨hpublished, haddr, hne⟩ := (siteOk_of_exec he).active active ha
  rw [hslot, ← haddr]
  by_cases hclosed : s.site.runtimeGate = false ∨ s.site.pluginGate = false
  · exact dispatch_closed hpublished ha hne hclosed handler
  · have hruntime : s.site.runtimeGate = true := by
      simpa using (not_or.mp hclosed).1
    have hplugin : s.site.pluginGate = true := by
      simpa using (not_or.mp hclosed).2
    exact dispatch_open hpublished ha hne hruntime hplugin handler

/-- Both gates open; the original panics in the first attempt, the handler
catches that, tries again and panics itself. -/
theorem dispatch_swallows_panic :
    KeepsContract (R := Nat) ⟨true, 1, some ⟨⟨1⟩, 2⟩, true, true, true⟩ (fun _ => .returned 10)
      (.returned 20)
      (.callOriginal (fun _ => .panics) fun _ => .callOriginal (fun _ => .returns 5) fun _ =>
        .panics)
      (dispatch ⟨true, 1, some ⟨⟨1⟩, 2⟩, true, true, true⟩ 2 (fun _ => .returned 10) (.returned 20)
        (.callOriginal (fun _ => .panics) fun _ =>
          .callOriginal (fun _ => .returns 5) fun _ => .panics)) :=
  dispatch_keepsContract 2 1 [.setGates true true, .install (.ok ()), .install (.ok ()),
    .install (.ok ()), .install (.ok ()), .install (.ok ()), .install (.ok ()),
    .install (.ok ())] _ rfl rfl rfl _ _ _

end ShinySongTools.Hook
