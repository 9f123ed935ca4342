import ShinySongTools.Runtime.App

/-!
# What a plugin's code does

A build, or one run of a system, in the world it finds: what it changes and
inserts, which restore actions it registers, and whether it fails. Nothing is
said here of drivers, ledgers and rollbacks. `Took` is what becomes of an owner
whose code takes its turns in a driver.
-/

namespace ShinySongTools.Runtime

open Ledger

variable {T : Type u} {V : T → Type v}

structure Turn (V : T → Type v) extends Act V where
  restores : List RestoreAction
  failed : Bool

/-- A build adds systems as well. -/
structure Built (V : T → Type v) extends Turn V where
  startup : List (StartupSystem V)
  update : List (UpdateSystem V)

def Act.idle : Act V := ⟨fun _ v => v, []⟩

def Built.ending (failed : Bool) : Built V := ⟨⟨Act.idle, [], failed⟩, [], []⟩

/-- Whether a system that gave this result has failed. -/
def Caught.failed : Caught (Except (PluginError T) Unit) → Bool
  | .returned (.ok ()) => false
  | .returned (.error _) | .panicked => true

def UpdateSystem.turn (frame : Nat) (system : UpdateSystem V) (w : Store V) : Turn V :=
  ⟨⟨(system frame w).changes, []⟩, [], (system frame w).result.failed⟩

variable [DecidableEq T]

/-- A build has an insert refused where there is such a resource already, and
may go on. -/
def Build.outcome : Build V → Store V → Built V
  | .ok, _ => .ending false
  | .err _, _ => .ending true
  | .insertResource resource next, w =>
    match w resource.key with
    | some _ => (next (.error (.resourceConflict resource.key))).outcome w
    | none =>
      let rest := (next (.ok ())).outcome (w.put resource)
      { rest with puts := resource :: rest.puts }
  | .addStartupSystem system next, w =>
    let rest := next.outcome w
    { rest with startup := system :: rest.startup }
  | .addUpdateSystem system next, w =>
    let rest := next.outcome w
    { rest with update := system :: rest.update }
  | .registerRestoreAnyThread run next, w =>
    let rest := next.outcome w
    { rest with restores := .anyThread run :: rest.restores }

/-- The queued resources up to the first that is there already. -/
def accepted : List (Entry V) → Store V → List (Entry V)
  | [], _ => []
  | resource :: rest, w =>
    match w resource.key with
    | some _ => []
    | none => resource :: accepted rest (w.put resource)

/-- A Startup system fails if it does not return `Ok`, and if one of the
resources it queued is there already. -/
def StartupSystem.turn (system : StartupSystem V) (w : Store V) : Turn V :=
  let run := system w
  let puts := if run.result.failed then [] else accepted run.pending (w.change run.changes)
  ⟨⟨run.changes, puts⟩, run.restores, run.result.failed || puts.length < run.pending.length⟩

/-- One takes its turn after the other, up to and including the first that fails. -/
def taken : List (Store V → Turn V) → Store V → List (Turn V)
  | [], _ => []
  | code :: rest, w =>
    code w :: if (code w).failed then [] else taken rest ((code w).apply w)

def startupTurns (systems : List (StartupSystem V)) : Store V → List (Turn V) :=
  taken (systems.map StartupSystem.turn)

def updateTurns (frame : Nat) (systems : List (UpdateSystem V)) : Store V → List (Turn V) :=
  taken (systems.map (UpdateSystem.turn frame))

-- ---------------------------------------------------------------------------
-- Turns fit
-- ---------------------------------------------------------------------------

omit [DecidableEq T] in
@[simp] theorem change_idle (w : Store V) : w.change (Act.idle : Act V).changes = w := by
  funext t
  simp [Store.change, Act.idle]

theorem Build.outcome_changes (b : Build V) (w : Store V) :
    (b.outcome w).changes = (Act.idle : Act V).changes := by
  induction b generalizing w with
  | ok => rfl
  | err error => rfl
  | insertResource resource next ih =>
    unfold outcome
    split
    · exact ih _ w
    · exact ih _ _
  | addStartupSystem system next ih => exact ih w
  | addUpdateSystem system next ih => exact ih w
  | registerRestoreAnyThread run next ih => exact ih w

theorem Build.outcome_fits (b : Build V) (w : Store V) : Fits w (b.outcome w).puts := by
  induction b generalizing w with
  | ok => trivial
  | err error => trivial
  | insertResource resource next ih =>
    unfold outcome
    split
    · exact ih _ w
    · next hfree => exact ⟨hfree, ih _ _⟩
  | addStartupSystem system next ih => exact ih w
  | addUpdateSystem system next ih => exact ih w
  | registerRestoreAnyThread run next ih => exact ih w

theorem accepted_of_fits {l : List (Entry V)} {w : Store V} (h : Fits w l) : accepted l w = l := by
  induction l generalizing w with
  | nil => rfl
  | cons resource rest ih => rw [accepted, h.1, ih h.2]

/-- All have taken their turn if none has failed. -/
theorem taken_ok {codes : List (Store V → Turn V)} {w : Store V}
    (h : ∀ turn ∈ taken codes w, turn.failed ≠ true) :
    (taken codes w).map Turn.failed = List.replicate codes.length false := by
  induction codes generalizing w with
  | nil => rfl
  | cons code rest ih =>
    have hcode : (code w).failed = false := by simpa using h (code w) List.mem_cons_self
    simp only [taken, hcode, Bool.false_eq_true, if_false] at h ⊢
    rw [List.map_cons, hcode, ih fun turn hturn => h turn (List.mem_cons_of_mem _ hturn)]
    rfl

-- ---------------------------------------------------------------------------
-- What a driver makes of them
-- ---------------------------------------------------------------------------

def OwnerEvent.registration : OwnerEvent V → Option RestoreAction
  | .registered action => some action
  | _ => none

def OwnerEvent.run (phase : Phase) : OwnerEvent V → Option (Nat × Bool)
  | .ran p index failed => if p = phase then some (index, failed) else none
  | _ => none

/-- The restore actions in the order of registration. -/
def PluginRecord.registered (r : PluginRecord V) : List RestoreAction :=
  r.history.filterMap OwnerEvent.registration

/-- The systems of a phase that ran, and whether each failed. -/
def runs (phase : Phase) (h : List (OwnerEvent V)) : List (Nat × Bool) :=
  h.filterMap (OwnerEvent.run phase)

/-- What an accepted insert does. -/
theorem applyInsert_ok {s s' : Scope V} (h : s.applyInsert phase resource order = .ok s') :
    s.world resource.key = none ∧ s' = s.accept phase resource order := by
  unfold Scope.applyInsert at h
  split at h <;> cases h
  next hfree => exact ⟨hfree, rfl⟩

theorem applyInsert_error {s : Scope V} (h : s.applyInsert phase resource order = .error e) :
    (∃ v, s.world resource.key = some v) ∧ e = .resourceConflict resource.key := by
  unfold Scope.applyInsert at h
  split at h <;> cases h
  next v hv => exact ⟨⟨v, hv⟩, rfl⟩

/-- The systems a pass runs, given how each of them would go, from the first to
the first that fails. -/
def executed : Nat → List Bool → List (Nat × Bool)
  | _, [] => []
  | index, false :: rest => (index, false) :: executed (index + 1) rest
  | index, true :: _ => [(index, true)]

omit [DecidableEq T] in
theorem runs_ran (s : Scope V) (phase : Phase) (index : Nat) (failed : Bool) :
    runs phase (s.log (.ran phase index failed)).record.history =
      runs phase s.record.history ++ [(index, failed)] := by
  simp [Scope.log, runs, OwnerEvent.run]

omit [DecidableEq T] in
theorem runs_ran_other {s : Scope V} {p phase : Phase} (h : p ≠ phase) (index : Nat)
    (failed : Bool) :
    runs p (s.log (.ran phase index failed)).record.history = runs p s.record.history := by
  simp [Scope.log, runs, OwnerEvent.run, h.symm]

def enter (ledger : List (ResourceLedgerEntry T)) (resource : Entry V) :
    List (ResourceLedgerEntry T) :=
  ⟨resource.key, nextOrder ledger⟩ :: ledger

/-- An owner's code has put these resources and registered these restore actions. -/
structure Gained (s s' : Scope V) (puts : List (Entry V)) (restores : List RestoreAction) :
    Prop where
  world : s'.world = s.world.putAll puts
  fits : Fits s.world puts
  inserted : s'.record.inserted = puts.foldl enter s.record.inserted
  effects : s'.record.effects = restores.reverse ++ s.record.effects
  registered : s'.record.registered = s.record.registered ++ restores
  state : s'.record.state = s.record.state
  runs : ∀ phase, runs phase s'.record.history = runs phase s.record.history

namespace Gained

variable {s s' s'' : Scope V} {puts puts' : List (Entry V)}
variable {restores restores' : List RestoreAction}

theorem refl (s : Scope V) : Gained s s [] [] where
  world := rfl
  fits := trivial
  inserted := rfl
  effects := rfl
  registered := by simp
  state := rfl
  runs _ := rfl

theorem trans (h : Gained s s' puts restores) (h' : Gained s' s'' puts' restores') :
    Gained s s'' (puts ++ puts') (restores ++ restores') where
  world := by rw [h'.world, h.world, Store.putAll, Store.putAll, Store.putAll, List.foldl_append]
  fits := fits_append.mpr ⟨h.fits, h.world ▸ h'.fits⟩
  inserted := by rw [h'.inserted, h.inserted, List.foldl_append]
  effects := by rw [h'.effects, h.effects, List.reverse_append, List.append_assoc]
  registered := by rw [h'.registered, h.registered, List.append_assoc]
  state := h'.state.trans h.state
  runs phase := (h'.runs phase).trans (h.runs phase)

theorem registerRestore (s : Scope V) (action : RestoreAction) :
    Gained s (s.registerRestore action) [] [action] where
  world := rfl
  fits := trivial
  inserted := rfl
  effects := rfl
  registered := by
    simp [PluginRecord.registered, Scope.registerRestore, Scope.log, OwnerEvent.registration]
  state := rfl
  runs _ := by simp [Runtime.runs, Scope.registerRestore, Scope.log, OwnerEvent.run]

theorem registerRestores (l : List RestoreAction) (s : Scope V) :
    Gained s (l.foldl Scope.registerRestore s) [] l := by
  induction l generalizing s with
  | nil => exact refl s
  | cons action rest ih => exact (registerRestore s action).trans (ih _)

theorem accept {phase : Phase} {resource : Entry V} {order : Nat}
    (horder : order = nextOrder s.record.inserted) (hfree : s.world resource.key = none) :
    Gained s (s.accept phase resource order) [resource] [] where
  world := rfl
  fits := ⟨hfree, trivial⟩
  inserted := by simp [Scope.accept, Scope.log, enter, horder]
  effects := rfl
  registered := by
    simp [PluginRecord.registered, Scope.accept, Scope.log, OwnerEvent.registration]
  state := rfl
  runs _ := by simp [Runtime.runs, Scope.accept, Scope.log, OwnerEvent.run]

theorem build (b : Build V) (s : Scope V) :
    Gained s (s.build b).1 (b.outcome s.world).puts (b.outcome s.world).restores := by
  induction b generalizing s with
  | ok => exact refl s
  | err error => exact refl s
  | insertResource resource next ih =>
    simp only [Scope.build, Scope.insertResourceDyn]
    split
    · next e hs =>
      obtain ⟨⟨v, htaken⟩, rfl⟩ := applyInsert_error hs
      simp only [Build.outcome, htaken]
      exact ih _ s
    · next s' hs =>
      obtain ⟨hfree, rfl⟩ := applyInsert_ok hs
      simp only [Build.outcome, hfree]
      exact (accept rfl hfree).trans (ih (.ok ()) _)
  | addStartupSystem system next ih =>
    obtain ⟨hworld, hfits, hinserted, heffects, hregistered, hstate, hruns⟩ :=
      ih { s with record := { s.record with startup := s.record.startup ++ [system] } }
    exact ⟨hworld, hfits, hinserted, heffects, hregistered, hstate, hruns⟩
  | addUpdateSystem system next ih =>
    obtain ⟨hworld, hfits, hinserted, heffects, hregistered, hstate, hruns⟩ :=
      ih { s with record := { s.record with update := s.record.update ++ [system] } }
    exact ⟨hworld, hfits, hinserted, heffects, hregistered, hstate, hruns⟩
  | registerRestoreAnyThread run next ih =>
    exact (registerRestore s (.anyThread run)).trans (ih _)

theorem applyPending (l : List (Entry V)) {order : Nat} (s : Scope V)
    (horder : order = nextOrder s.record.inserted) :
    Gained s (Scope.applyPending l order s).1 (accepted l s.world) [] ∧
      (Scope.applyPending l order s).2.1 =
        nextOrder (Scope.applyPending l order s).1.record.inserted ∧
      (Scope.applyPending l order s).2.2 = decide ((accepted l s.world).length < l.length) := by
  induction l generalizing s order with
  | nil => exact ⟨refl s, horder, rfl⟩
  | cons resource rest ih =>
    unfold Scope.applyPending
    split
    · next s' hs =>
      obtain ⟨hfree, rfl⟩ := applyInsert_ok hs
      simp only [accepted, hfree]
      obtain ⟨hgained, horder', hfailed⟩ := ih (s.accept .startup resource order) rfl
      exact ⟨(accept horder hfree).trans hgained, horder',
        hfailed.trans (decide_eq_decide.mpr Nat.succ_lt_succ_iff.symm)⟩
    · next e hs =>
      obtain ⟨⟨v, htaken⟩, -⟩ := applyInsert_error hs
      simp only [accepted, htaken]
      exact ⟨refl s, horder, rfl⟩

end Gained

/-- An owner's code has taken these turns. -/
structure Took (s s' : Scope V) (turns : List (Turn V)) : Prop where
  world : s'.world = s.world.perform (turns.map Turn.toAct)
  fits : FitsAll s.world (turns.map Turn.toAct)
  inserted : s'.record.inserted = (turns.flatMap (·.puts)).foldl enter s.record.inserted
  effects : s'.record.effects = (turns.flatMap (·.restores)).reverse ++ s.record.effects
  registered : s'.record.registered = s.record.registered ++ turns.flatMap (·.restores)
  state : s'.record.state = s.record.state

namespace Took

variable {s s' s'' : Scope V} {turns turns' : List (Turn V)}

theorem refl (s : Scope V) : Took s s [] where
  world := rfl
  fits := trivial
  inserted := rfl
  effects := rfl
  registered := by simp
  state := rfl

theorem trans (h : Took s s' turns) (h' : Took s' s'' turns') : Took s s'' (turns ++ turns') where
  world := by
    rw [h'.world, h.world, List.map_append, Store.perform, Store.perform, Store.perform,
      List.foldl_append]
  fits := by
    rw [List.map_append, fitsAll_append]
    exact ⟨h.fits, h.world ▸ h'.fits⟩
  inserted := by rw [h'.inserted, h.inserted, List.flatMap_append, List.foldl_append]
  effects := by
    rw [h'.effects, h.effects, List.flatMap_append, List.reverse_append, List.append_assoc]
  registered := by rw [h'.registered, h.registered, List.flatMap_append, List.append_assoc]
  state := h'.state.trans h.state

theorem log (h : Took s s' turns) (hevent : event.registration = none) :
    Took s (s'.log event) turns where
  world := h.world
  fits := h.fits
  inserted := h.inserted
  effects := h.effects
  registered := by
    rw [← h.registered]
    simp [PluginRecord.registered, Scope.log, hevent]
  state := h.state

theorem turn (turn : Turn V)
    (h : Gained { s with world := s.world.change turn.changes } s' turn.puts turn.restores) :
    Took s s' [turn] where
  world := h.world
  fits := ⟨h.fits, trivial⟩
  inserted := by simpa using h.inserted
  effects := by simpa using h.effects
  registered := by simpa using h.registered
  state := h.state

theorem build (b : Build V) (s : Scope V) : Took s (s.build b).1 [(b.outcome s.world).toTurn] := by
  refine turn _ ?_
  rw [b.outcome_changes, change_idle]
  exact Gained.build b s

/-- What one Startup system does, and the order the next ledger entry gets. -/
theorem runStartupSystem (system : StartupSystem V) (s : Scope V)
    (horder : order = nextOrder s.record.inserted) :
    Took s (Scope.runStartupSystem system order s).1 [system.turn s.world] ∧
      (Scope.runStartupSystem system order s).2 =
        (nextOrder (Scope.runStartupSystem system order s).1.record.inserted,
          (system.turn s.world).failed) ∧
      ∀ phase, runs phase (Scope.runStartupSystem system order s).1.record.history =
        runs phase s.record.history := by
  have hrestores := Gained.registerRestores (system s.world).restores
    { s with world := s.world.change (system s.world).changes }
  have horder' : order = nextOrder ((system s.world).restores.foldl Scope.registerRestore
      { s with world := s.world.change (system s.world).changes }).record.inserted := by
    rw [hrestores.inserted]
    exact horder
  have hstopped (hfailed : (system s.world).result.failed = true) :
      system.turn s.world = ⟨⟨(system s.world).changes, []⟩, (system s.world).restores, true⟩ := by
    simp [StartupSystem.turn, hfailed]
  simp only [Scope.runStartupSystem]
  split
  · next hresult =>
    obtain ⟨hpending, horder₁, hfailed⟩ := Gained.applyPending (system s.world).pending _ horder'
    have hturn : system.turn s.world =
        ⟨⟨(system s.world).changes,
            accepted (system s.world).pending (s.world.change (system s.world).changes)⟩,
          (system s.world).restores,
          decide ((accepted (system s.world).pending
            (s.world.change (system s.world).changes)).length <
              (system s.world).pending.length)⟩ := by
      simp [StartupSystem.turn, hresult, Caught.failed]
    rw [hrestores.world] at hpending hfailed
    have hgained := hrestores.trans hpending
    rw [List.append_nil] at hgained
    rw [hturn]
    exact ⟨turn _ hgained, Prod.ext horder₁ hfailed, hgained.runs⟩
  · next hresult =>
    rw [hstopped (by rw [hresult]; rfl)]
    exact ⟨turn _ hrestores, Prod.ext horder' rfl, hrestores.runs⟩
  · next hresult =>
    rw [hstopped (by rw [hresult]; rfl)]
    exact ⟨turn _ hrestores, Prod.ext horder' rfl, hrestores.runs⟩

end Took

/-- A pass over an owner's systems, from one of them on, and these are the turns
they have taken. -/
structure Passed (phase : Phase) (index : Nat) (s : Scope V) (turns : List (Turn V))
    (result : Scope V × Bool) : Prop where
  took : Took s result.1 turns
  failed : result.2 = turns.any Turn.failed
  runs : runs phase result.1.record.history =
    runs phase s.record.history ++ executed index (turns.map Turn.failed)
  others : ∀ p, p ≠ phase → Runtime.runs p result.1.record.history =
    Runtime.runs p s.record.history

namespace Passed

variable {s s' : Scope V} {phase : Phase} {turn : Turn V}

theorem nil (phase : Phase) (index : Nat) (s : Scope V) : Passed phase index s [] (s, false) where
  took := .refl s
  failed := rfl
  runs := by simp [executed]
  others _ _ := rfl

theorem next (htook : Took s s' [turn]) (hruns : ∀ p, Runtime.runs p s'.record.history =
    Runtime.runs p s.record.history) (hfailed : turn.failed = false)
    (h : Passed phase (index + 1) (s'.log (.ran phase index false)) turns result) :
    Passed phase index s (turn :: turns) result where
  took := (htook.log rfl).trans h.took
  failed := by simp [h.failed, hfailed]
  runs := by
    rw [h.runs, runs_ran, hruns, List.map_cons, hfailed]
    simp [executed]
  others p hp := by rw [h.others p hp, runs_ran_other hp, hruns]

theorem stop (htook : Took s s' [turn]) (hruns : ∀ p, Runtime.runs p s'.record.history =
    Runtime.runs p s.record.history) (hfailed : turn.failed = true) :
    Passed phase index s [turn] (s'.log (.ran phase index true), true) where
  took := htook.log rfl
  failed := by simp [hfailed]
  runs := by
    rw [runs_ran, hruns, List.map_singleton, hfailed]
    simp [executed]
  others p hp := by rw [runs_ran_other hp, hruns]

theorem runStartupSystems (systems : List (StartupSystem V)) (index : Nat) (s : Scope V)
    (horder : order = nextOrder s.record.inserted) :
    Passed .startup index s (startupTurns systems s.world)
      (Scope.runStartupSystems systems index order s) := by
  induction systems generalizing index order s with
  | nil => exact nil _ _ s
  | cons system rest ih =>
    obtain ⟨htook, hresult, hruns⟩ := Took.runStartupSystem system s horder
    cases hrun : Scope.runStartupSystem system order s with
    | mk s₁ result =>
      rw [hrun] at htook hresult hruns
      obtain rfl : result = (nextOrder s₁.record.inserted, (system.turn s.world).failed) := hresult
      have hworld : s₁.world = (system.turn s.world).apply s.world := htook.world
      simp only [Scope.runStartupSystems, hrun, startupTurns, List.map_cons, taken, ← hworld]
      cases hfailed : (system.turn s.world).failed with
      | false => exact next htook hruns hfailed (ih _ _ rfl)
      | true => exact stop htook hruns hfailed

theorem runUpdateSystems (frame : Nat) (systems : List (UpdateSystem V)) (index : Nat)
    (s : Scope V) :
    Passed .update index s (updateTurns frame systems s.world)
      (Scope.runUpdateSystems frame systems index s) := by
  induction systems generalizing index s with
  | nil => exact nil _ _ s
  | cons system rest ih =>
    have htook : Took s { s with world := s.world.change (system frame s.world).changes }
        [system.turn frame s.world] := .turn _ (.refl _)
    have hworld : s.world.change (system frame s.world).changes =
        (system.turn frame s.world).apply s.world := htook.world
    simp only [Scope.runUpdateSystems, updateTurns, List.map_cons, taken, ← hworld]
    cases hresult : (system frame s.world).result with
    | returned value =>
      have hfailed : (system.turn frame s.world).failed = Caught.failed (.returned value) :=
        congrArg Caught.failed hresult
      rw [hfailed]
      cases value with
      | ok => exact next htook (fun _ => rfl) hfailed (ih _ _)
      | error e => exact stop htook (fun _ => rfl) hfailed
    | panicked =>
      have hfailed : (system.turn frame s.world).failed = true := congrArg Caught.failed hresult
      rw [hfailed]
      exact stop htook (fun _ => rfl) hfailed

end Passed

-- ---------------------------------------------------------------------------
-- How it ends
-- ---------------------------------------------------------------------------

theorem build_result (b : Build V) (s : Scope V) :
    (s.build b).2.isOk = !(b.outcome s.world).failed := by
  induction b generalizing s with
  | ok => rfl
  | err error => rfl
  | insertResource resource next ih =>
    simp only [Scope.build, Scope.insertResourceDyn]
    split
    · next e hs =>
      obtain ⟨⟨v, htaken⟩, rfl⟩ := applyInsert_error hs
      simp only [Build.outcome, htaken]
      exact ih _ s
    · next s' hs =>
      obtain ⟨hfree, rfl⟩ := applyInsert_ok hs
      simp only [Build.outcome, hfree]
      exact ih (.ok ()) _
  | addStartupSystem system next ih => exact ih _
  | addUpdateSystem system next ih => exact ih _
  | registerRestoreAnyThread run next ih => exact ih _

theorem build_systems (b : Build V) (s : Scope V) :
    (s.build b).1.record.startup = s.record.startup ++ (b.outcome s.world).startup ∧
      (s.build b).1.record.update = s.record.update ++ (b.outcome s.world).update := by
  induction b generalizing s with
  | ok => simp [Scope.build, Build.outcome, Built.ending]
  | err error => simp [Scope.build, Build.outcome, Built.ending]
  | insertResource resource next ih =>
    simp only [Scope.build, Scope.insertResourceDyn]
    split
    · next e hs =>
      obtain ⟨⟨v, htaken⟩, rfl⟩ := applyInsert_error hs
      simp only [Build.outcome, htaken]
      exact ih _ s
    · next s' hs =>
      obtain ⟨hfree, rfl⟩ := applyInsert_ok hs
      simp only [Build.outcome, hfree]
      exact ih (.ok ()) _
  | addStartupSystem system next ih =>
    obtain ⟨hstartup, hupdate⟩ :=
      ih { s with record := { s.record with startup := s.record.startup ++ [system] } }
    exact ⟨hstartup.trans (List.append_assoc ..), hupdate⟩
  | addUpdateSystem system next ih =>
    obtain ⟨hstartup, hupdate⟩ :=
      ih { s with record := { s.record with update := s.record.update ++ [system] } }
    exact ⟨hstartup, hupdate.trans (List.append_assoc ..)⟩
  | registerRestoreAnyThread run next ih => exact ih _

/-- A plugin whose build fails is rolled back. -/
theorem addPlugin_eq (plugin : Plugin V) (s : Scope V) :
    s.addPlugin plugin =
      if (plugin.build.outcome s.world).failed then (s.build plugin.build).1.rollback false
      else (s.build plugin.build).1 := by
  have hfailed : (plugin.build.outcome s.world).failed = !(s.build plugin.build).2.isOk := by
    rw [build_result, Bool.not_not]
  rw [hfailed]
  unfold Scope.addPlugin
  split <;> next heq => rw [heq]; rfl

/-- An owner is rolled back if one of its Startup systems fails. -/
theorem runStartup_eq (s : Scope V) :
    s.runStartup =
      let s' := (Scope.runStartupSystems s.record.startup 0 (nextOrder s.record.inserted) s).1
      if (startupTurns s.record.startup s.world).any Turn.failed then s'.rollback true
      else s'.openGate := by
  rw [← (Passed.runStartupSystems s.record.startup 0 s rfl).failed]
  unfold Scope.runStartup
  split <;> next heq => rw [heq]; rfl

theorem runUpdate_eq (frame : Nat) (s : Scope V) :
    s.runUpdate frame =
      if (updateTurns frame s.record.update s.world).any Turn.failed then
        (Scope.runUpdateSystems frame s.record.update 0 s).1.updateRetire true
      else (Scope.runUpdateSystems frame s.record.update 0 s).1 := by
  rw [← (Passed.runUpdateSystems frame s.record.update 0 s).failed]
  unfold Scope.runUpdate
  split <;> next heq => rw [heq]; rfl

end ShinySongTools.Runtime
