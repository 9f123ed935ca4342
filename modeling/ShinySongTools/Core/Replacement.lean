import ShinySongTools.Effects
import ShinySongTools.Core.Dispatch

/-!
# Replacements with a state

`dispatch` over closures that share the state of a game call and
leave it as it is when they panic: `code_dispatch` says that this is the
dispatch of a handler. Behind it stands the rule by which replacements are
taken apart.
-/

namespace ShinySongTools.Replacement

open Hook Effects

/-- The guard of a dispatch and the state of the game call. -/
structure Shared (σ : Type) where
  attempts : Attempts
  own : σ

def Shared.start (own : σ) : Shared σ := ⟨.none, own⟩

/-- What a panic carries is left out. -/
abbrev Code (σ R : Type) := ExceptT Unit (StateM (Shared σ)) R

variable {σ R : Type}

/-- `Callback::call_original`. -/
def callOriginal (site : HookSite) (call : Addr → Code σ R) : Code σ (Option R) := do
  let s ← get
  match s.attempts.guard.beginCall with
  | (false, guard) => do
    set { s with attempts := { s.attempts with guard } }
    pure none
  | (true, guard) => do
    set { s with attempts := ⟨guard, s.attempts.made ++ [site.originalAddr]⟩ }
    let result ← call site.originalAddr
    modify fun s => { s with attempts := { s.attempts with guard := s.attempts.guard.endCall } }
    pure (some result)

def passOn (site : HookSite) (passthrough : Addr → Code σ R) : Code σ R := do
  modify fun s =>
    { s with attempts := { s.attempts with made := s.attempts.made ++ [site.originalAddr] } }
  passthrough site.originalAddr

def dispatch (site : HookSite) (slot : Addr) (passthrough : Addr → Code σ R)
    (fallback handler : Code σ R) : Code σ R :=
  if !site.published then fallback
  else
    match site.active with
    | none => fallback
    | some active =>
      if RawSlotMemory.read slot ≠ some active.replacementAddr then fallback
      else if site.originalAddr = 0 then fallback
      else if !site.runtimeGate || !site.pluginGate then passOn site passthrough
      else do
        let result ← tryCatch (some <$> handler) fun _ => pure none
        let s ← get
        match result with
        | some result =>
          if s.attempts.guard.needsOriginal then passOn site passthrough else pure result
        | none =>
          match s.attempts.guard.phase with
          | .beforeOriginal => passOn site passthrough
          | .callingOriginal | .afterOriginal => fallback

-- ---------------------------------------------------------------------------
-- The same dispatch
-- ---------------------------------------------------------------------------

/-- How a `call_original` ended for the code after it. -/
def ended (m : Code σ (Option R)) : Code σ (Option (Ending R)) :=
  tryCatch (Option.map .returned <$> m) fun _ => pure (some .panicked)

def ofHandler (site : HookSite) : Handler R → Code σ R
  | .returns value => pure value
  | .panics => throw ()
  | .callOriginal closure next => do
    let result ← ended (callOriginal site fun original => ofHandler site (closure original))
    ofHandler site (next result)

def ofEnding : Ending R → Code σ R
  | .returned value => pure value
  | .panicked => throw ()

def run (m : Code σ R) (s : Shared σ) : Ending R × Shared σ :=
  match StateT.run (ExceptT.run m) s with
  | (.ok value, s) => (.returned value, s)
  | (.error _, s) => (.panicked, s)

variable {site : HookSite} {slot : Addr} {α : Type}

theorem run_bind (m : Code σ α) (f : α → Code σ R) (s : Shared σ) :
    run (m >>= f) s =
      match run m s with
      | (.returned value, s) => run (f value) s
      | (.panicked, s) => (.panicked, s) := by
  unfold run
  rw [ExceptT.run_bind, StateT.run_bind]
  cases StateT.run (ExceptT.run m) s with
  | mk r s =>
    cases r with
    | ok value => rfl
    | error e => rfl

theorem run_map (m : Code σ α) (f : α → R) (s : Shared σ) :
    run (f <$> m) s =
      match run m s with
      | (.returned value, s) => (.returned (f value), s)
      | (.panicked, s) => (.panicked, s) :=
  run_bind m (fun value => pure (f value)) s

theorem run_tryCatch (m : Code σ R) (handler : Unit → Code σ R) (s : Shared σ) :
    run (tryCatch m handler) s =
      match run m s with
      | (.returned value, s) => (.returned value, s)
      | (.panicked, s) => run (handler ()) s := by
  unfold run
  rw [ExceptT.run_tryCatch, StateT.run_bind]
  cases StateT.run (ExceptT.run m) s with
  | mk r s =>
    cases r with
    | ok value => rfl
    | error e => rfl

theorem run_ended (m : Code σ (Option R)) (s : Shared σ) :
    run (ended m) s =
      match run m s with
      | (.returned value, s) => (.returned (value.map .returned), s)
      | (.panicked, s) => (.returned (some .panicked), s) := by
  rw [ended, run_tryCatch, run_map]
  cases run m s with
  | mk ending s => cases ending <;> rfl

theorem run_callOriginal (call : Addr → Code σ R) (s : Shared σ) :
    run (callOriginal site call) s =
      match s.attempts.guard.beginCall with
      | (false, guard) => (.returned none, { s with attempts := { s.attempts with guard } })
      | (true, guard) =>
        match run (call site.originalAddr)
          { s with attempts := ⟨guard, s.attempts.made ++ [site.originalAddr]⟩ } with
        | (.returned value, s) =>
          (.returned (some value),
            { s with attempts := { s.attempts with guard := s.attempts.guard.endCall } })
        | (.panicked, s) => (.panicked, s) := by
  have hget (f : Shared σ → Code σ (Option R)) : run (get >>= f) s = run (f s) s := rfl
  rw [callOriginal, hget]
  cases s.attempts.guard.beginCall with
  | mk granted guard =>
    cases granted with
    | false => rfl
    | true =>
      dsimp only
      have hset (t : Shared σ) (m : Code σ (Option R)) :
          run (set t >>= fun _ => m) s = run m t := rfl
      rw [hset, run_bind]
      cases run (call site.originalAddr)
          { s with attempts := ⟨guard, s.attempts.made ++ [site.originalAddr]⟩ } with
      | mk ending s => cases ending <;> rfl

theorem run_ofHandler (handler : Handler R) (a : Attempts) (own : σ) :
    run (ofHandler site handler) ⟨a, own⟩ =
      ((handler.run site.originalAddr a).1, ⟨(handler.run site.originalAddr a).2, own⟩) := by
  induction handler generalizing a with
  | returns value => rfl
  | panics => rfl
  | callOriginal closure next ihclosure ihnext =>
    rw [ofHandler, run_bind, run_ended, run_callOriginal, Handler.run]
    cases a.guard.beginCall with
    | mk granted guard =>
      cases granted with
      | false => exact ihnext none _
      | true =>
        dsimp only
        rw [ihclosure]
        cases (closure site.originalAddr).run site.originalAddr
            ⟨guard, a.made ++ [site.originalAddr]⟩ with
        | mk ending a =>
          cases ending with
          | returned value => exact ihnext _ _
          | panicked => exact ihnext _ _

theorem run_passOn (passthrough : Addr → Ending R) (s : Shared σ) :
    run (passOn site fun original => ofEnding (passthrough original)) s =
      (passthrough site.originalAddr,
        ⟨⟨s.attempts.guard, s.attempts.made ++ [site.originalAddr]⟩, s.own⟩) := by
  have hmodify : run (passOn site fun original => ofEnding (passthrough original)) s =
      run (ofEnding (passthrough site.originalAddr))
        ⟨⟨s.attempts.guard, s.attempts.made ++ [site.originalAddr]⟩, s.own⟩ := rfl
  rw [hmodify]
  cases passthrough site.originalAddr <;> rfl

theorem run_ofEnding (ending : Ending R) (s : Shared σ) :
    run (ofEnding ending) s = (ending, s) := by
  cases ending <;> rfl

/-- Over a handler, the result and the attempts are those of the dispatch. -/
theorem run_dispatch (passthrough : Addr → Ending R) (fallback : Ending R) (handler : Handler R)
    (own : σ) :
    let ended := run (dispatch site slot (fun original => ofEnding (passthrough original))
      (ofEnding fallback) (ofHandler site handler)) (.start own)
    let dispatched := Hook.dispatch site slot passthrough fallback handler
    ended.1 = dispatched.result ∧ ended.2.attempts.made = dispatched.attempts := by
  dsimp only
  unfold dispatch Hook.dispatch
  have hfallback := run_ofEnding fallback (Shared.start own)
  cases site.published with
  | false => exact ⟨congrArg Prod.fst hfallback, congrArg (·.2.attempts.made) hfallback⟩
  | true =>
    cases site.active with
    | none => exact ⟨congrArg Prod.fst hfallback, congrArg (·.2.attempts.made) hfallback⟩
    | some active =>
      have hget (f : Shared σ → Code σ R) (s : Shared σ) : run (get >>= f) s = run (f s) s := rfl
      simp only [Bool.not_true, Bool.false_eq_true, if_false]
      split
      · exact ⟨congrArg Prod.fst hfallback, congrArg (·.2.attempts.made) hfallback⟩
      split
      · exact ⟨congrArg Prod.fst hfallback, congrArg (·.2.attempts.made) hfallback⟩
      split
      · rw [run_passOn]
        exact ⟨rfl, rfl⟩
      · rw [run_bind, run_tryCatch, run_map, Shared.start, run_ofHandler]
        cases handler.run site.originalAddr .none with
        | mk ending a =>
          cases ending with
          | returned value =>
            dsimp only
            rw [hget]
            dsimp only
            split
            · rw [run_passOn]
              exact ⟨rfl, rfl⟩
            · exact ⟨rfl, rfl⟩
          | panicked =>
            have hnone (s : Shared σ) :
                run (pure none : Code σ (Option R)) s = (.returned none, s) := rfl
            dsimp only
            rw [hnone]
            dsimp only
            rw [hget]
            cases hphase : a.guard.phase with
            | beforeOriginal =>
              dsimp only
              rw [run_passOn]
              exact ⟨rfl, rfl⟩
            | callingOriginal | afterOriginal =>
              dsimp only
              rw [run_ofEnding]
              exact ⟨rfl, rfl⟩

-- ---------------------------------------------------------------------------
-- Taking replacements apart
-- ---------------------------------------------------------------------------

/-- The site is installed and its replacement is in the slot. -/
structure Held (site : HookSite) (slot : Addr) : Prop where
  published : site.published = true
  active : ∃ active, site.active = some active ∧ slot = active.replacementAddr
  original : site.originalAddr ≠ 0

theorem held_of_exec {s : State}
    (he : Machine.exec (Hook.step replacement) (State.init slot) as = some s)
    (hactive : s.site.active.isSome = true) (hslot : s.slot = replacement) :
    Held s.site s.slot := by
  obtain ⟨active, ha⟩ := Option.isSome_iff_exists.mp hactive
  obtain ⟨hpublished, haddr, hne⟩ := (siteOk_of_exec he).active active ha
  exact ⟨hpublished, ⟨active, ha, hslot.trans haddr.symm⟩, hne⟩

def Open (site : HookSite) : Prop := site.runtimeGate = true ∧ site.pluginGate = true

variable {s : Shared σ} {passthrough : Addr → Code σ R} {fallback handler : Code σ R}
variable {post : R → Shared σ → Prop} {thrown : Unit → Shared σ → Prop}

/-- A handler is followed by the original, if that is still owed, or else by the
fallback where it panicked. -/
theorem dispatch_ends (h : Held site slot)
    (hclosed : ¬ Open site → Ends (passOn site passthrough) s post thrown)
    (hopen : Open site → Ends handler s
      (fun value s' =>
        if s'.attempts.guard.needsOriginal then Ends (passOn site passthrough) s' post thrown
        else post value s')
      fun _ s' =>
        if s'.attempts.guard.needsOriginal then Ends (passOn site passthrough) s' post thrown
        else Ends fallback s' post thrown) :
    Ends (dispatch site slot passthrough fallback handler) s post thrown := by
  obtain ⟨active, hactive, rfl⟩ := h.active
  unfold dispatch
  rw [h.published, hactive]
  simp only [Bool.not_true, Bool.false_eq_true, if_false, RawSlotMemory.read, ne_eq,
    not_true_eq_false, h.original]
  split
  · next hgates =>
    refine hclosed fun hopened => ?_
    rw [hopened.1, hopened.2] at hgates
    cases hgates
  · next hgates =>
    have hopened : Open site := by simpa [Open] using hgates
    let owed (s' : Shared σ) (done : Prop) : Prop :=
      if s'.attempts.guard.needsOriginal then Ends (passOn site passthrough) s' post thrown
      else done
    let settles (result : Option R) (s' : Shared σ) : Prop :=
      owed s' (result.elim (Ends fallback s' post thrown) (post · s'))
    have hcaught : Ends (tryCatch (some <$> handler) fun _ => pure none) s settles thrown := by
      refine Ends.tryCatch (C := fun _ s' => settles none s') (Ends.map (hopen hopened)) ?_
      exact fun _ _ h => Ends.pure h
    refine hcaught.bind fun result s' hsettles => Ends.get_bind ?_
    obtain ⟨⟨⟨phase⟩, made⟩, own⟩ := s'
    cases result with
    | some value =>
      cases phase with
      | beforeOriginal => exact hsettles
      | callingOriginal | afterOriginal => exact Ends.pure hsettles
    | none => cases phase <;> exact hsettles

end ShinySongTools.Replacement
