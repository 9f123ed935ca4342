import ShinySongTools.Machine
import ShinySongTools.Histories
import ShinySongTools.Runtime.Frame

/-!
# Owner retirement

Four paths retire an owner: build, startup, update and teardown. `Allowed` is
the order of events they all keep to; what an owner promises over a whole run,
`Disciplined`, is read off histories in which every event was allowed.
-/

namespace ShinySongTools.Runtime

open Ledger Histories

variable {T : Type u} {V : T → Type v}

def OwnerEvent.restoration : OwnerEvent V → Option RestoreAction
  | .restored action _ _ => some action
  | _ => none

/-- The restore actions in the order they were consumed. -/
def PluginRecord.consumed (r : PluginRecord V) : List RestoreAction :=
  r.history.filterMap OwnerEvent.restoration

/-- What a restore action comes to with a main thread token or without. -/
inductive RestoreAction.Gives : RestoreAction → Bool → Except RestoreError Unit → Prop where
  | anyThread (token : Bool) : Gives (.anyThread (.returned result)) token result
  | anyThreadPanic (token : Bool) : Gives (.anyThread .panicked) token (.error .failed)
  | mainThread : Gives (.mainThread (.returned result)) true result
  | mainThreadPanic : Gives (.mainThread .panicked) true (.error .failed)
  /-- Consumed, but not executed. -/
  | noToken : Gives (.mainThread run) false (.error .failed)

/-- All of `n` systems ran, in order, and none failed. -/
def allRan (n : Nat) : List (Nat × Bool) := (List.range n).map fun index => (index, false)

def GateOpen (h : List (OwnerEvent V)) : Prop := .gateOpened ∈ h ∧ .gateClosed ∉ h

/-- What may happen to an owner with `n` Startup systems after `h`. -/
def Allowed (n : Nat) (h : List (OwnerEvent V)) : OwnerEvent V → Prop
  | .registered _ | .inserted _ _ => .gateOpened ∉ h ∧ .gateClosed ∉ h
  | .ran .update _ _ => .gateOpened ∈ h ∧ .gateClosed ∉ h
  | .ran _ _ _ => .gateOpened ∉ h ∧ .gateClosed ∉ h
  | .gateOpened => .gateOpened ∉ h ∧ .gateClosed ∉ h ∧ runs .startup h = allRan n
  | .gateClosed => .gateClosed ∉ h
  | .restored action token result => .gateClosed ∈ h ∧ action.Gives token result
  | .retired => .gateClosed ∈ h ∧ .retired ∉ h

/-- What holds of an owner between two calls into the App. -/
structure Disciplined (r : PluginRecord V) : Prop where
  /-- What was consumed is the end of what was registered, backwards. -/
  restores : r.consumed ++ r.effects = r.registered.reverse
  drained : r.state = .retired → r.effects = []
  outcomes : ∀ action token result, .restored action token result ∈ r.history →
    action.Gives token result
  gate : r.gate.isOpen = true → r.state = .active ∧
    runs .startup r.history = allRan r.startup.length
  opened : ∀ pre post, r.history = pre ++ post → GateOpen pre →
    .retired ∉ pre ∧ runs .startup pre = allRan r.startup.length
  /-- Nothing but restore actions happens to a retired owner. -/
  quiet : ∀ pre e post, r.history = pre ++ e :: post → .retired ∈ pre → e.restoration.isSome

/-- The systems of an owner are those its build added. -/
def SameSystems (r r' : PluginRecord V) : Prop := r'.startup = r.startup ∧ r'.update = r.update

theorem SameSystems.trans {r r' r'' : PluginRecord V} (h : SameSystems r r')
    (h' : SameSystems r' r'') : SameSystems r r'' :=
  ⟨h'.1.trans h.1, h'.2.trans h.2⟩

/-- An owner is retired, and its restore actions have been executed with a main
thread token or without; nothing else has happened to it. -/
structure Retires (main : Bool) (r r' : PluginRecord V) : Prop where
  state : r'.state = .retired
  systems : SameSystems r r'
  registered : r'.registered = r.registered
  runs : ∀ phase, runs phase r'.history = runs phase r.history
  attended : ∀ action token result, .restored action token result ∈ r'.history → token = main

/-- What a pass makes of an owner whose systems take these turns: they have run,
what they asked for is registered, and the owner is retired if one has failed. -/
structure Visited (phase : Phase) (turns : List (Turn V)) (r r' : PluginRecord V) : Prop where
  runs : runs phase r'.history = runs phase r.history ++ executed 0 (turns.map Turn.failed)
  others : ∀ p, p ≠ phase → Runtime.runs p r'.history = Runtime.runs p r.history
  registered : r'.registered = r.registered ++ turns.flatMap (·.restores)
  retired : r'.state = .retired ↔ ∃ turn ∈ turns, turn.failed = true
  systems : SameSystems r r'
  attended : ∀ action token result, .restored action token result ∈ r'.history → token = true

/-- What a build makes of its owner. -/
structure Added [DecidableEq T] (plugin : Plugin V) (w : Store V) (r : PluginRecord V) :
    Prop where
  registered : r.registered = (plugin.build.outcome w).restores
  retired : r.state = .retired ↔ (plugin.build.outcome w).failed = true
  startup : r.startup = (plugin.build.outcome w).startup
  update : r.update = (plugin.build.outcome w).update
  runs : ∀ phase, runs phase r.history = []
  attended : ∀ action token result, .restored action token result ∈ r.history → token = false

-- ---------------------------------------------------------------------------
-- Histories of owners
-- ---------------------------------------------------------------------------

theorem executeRestore_gives (action : RestoreAction) (token : Bool) :
    action.Gives token (executeRestore action token) := by
  cases action with
  | anyThread run =>
    cases run with
    | returned result => exact .anyThread token
    | panicked => exact .anyThreadPanic token
  | mainThread run =>
    cases token with
    | false => exact .noToken
    | true =>
      cases run with
      | returned result => exact .mainThread
      | panicked => exact .mainThreadPanic

theorem RestoreAction.Gives.anyThread_result
    (h : (RestoreAction.anyThread run).Gives token result) : result = run.restored := by
  cases h <;> rfl

theorem executed_replicate (index n : Nat) :
    executed index (List.replicate n false) = (List.range' index n).map (·, false) := by
  induction n generalizing index with
  | zero => rfl
  | succ n ih => rw [List.replicate_succ, executed, ih, List.range'_succ, List.map_cons]

theorem executed_ok (n : Nat) : executed 0 (List.replicate n false) = allRan n := by
  rw [executed_replicate, allRan, List.range_eq_range']

theorem runs_append (phase : Phase) (h h' : List (OwnerEvent V)) :
    runs phase (h ++ h') = runs phase h ++ runs phase h' :=
  List.filterMap_append ..

theorem closed_of_retired {h : List (OwnerEvent V)} (hl : Lawful (Allowed n) h)
    (hr : .retired ∈ h) : .gateClosed ∈ h := by
  obtain ⟨pre, post, rfl, hclosed, -⟩ := hl.of_mem hr
  exact List.mem_append_left _ hclosed

theorem consumed_eq_nil {h : List (OwnerEvent V)} (hl : Lawful (Allowed n) h)
    (hc : .gateClosed ∉ h) : h.filterMap OwnerEvent.restoration = [] := by
  rw [List.filterMap_eq_nil_iff]
  intro e he
  obtain ⟨pre, post, rfl, hallowed⟩ := hl.of_mem he
  cases e with
  | restored action token result => exact absurd (List.mem_append_left _ hallowed.1) hc
  | _ => rfl

theorem opened_of_lawful {h : List (OwnerEvent V)} (hl : Lawful (Allowed n) h) (ho : GateOpen h) :
    .retired ∉ h ∧ runs .startup h = allRan n := by
  refine ⟨fun hr => ho.2 (closed_of_retired hl hr), ?_⟩
  obtain ⟨pre, post, rfl, -, -, hruns⟩ := hl.of_mem ho.1
  have hpost : runs .startup post = [] := by
    rw [runs, List.filterMap_eq_nil_iff]
    intro e he
    obtain ⟨a, b, rfl⟩ := List.append_of_mem he
    have hallowed := hl (pre ++ .gateOpened :: a) e b (by simp)
    cases e with
    | ran phase index failed =>
      cases phase with
      | startup => exact absurd (by simp) hallowed.1
      | build | update => rfl
    | _ => rfl
  have hopened : runs .startup (.gateOpened :: post) = runs .startup post := rfl
  rw [runs_append, hopened, hpost, hruns, List.append_nil]

theorem quiet_of_lawful {pre post : List (OwnerEvent V)} {e : OwnerEvent V}
    (hl : Lawful (Allowed n) (pre ++ e :: post)) (hr : .retired ∈ pre) : e.restoration.isSome := by
  have hclosed := closed_of_retired hl.before hr
  have hallowed := hl pre e post rfl
  cases e with
  | restored action token result => rfl
  | ran phase index failed => cases phase <;> exact absurd hclosed hallowed.2
  | registered action => exact absurd hclosed hallowed.2
  | inserted phase resource => exact absurd hclosed hallowed.2
  | gateOpened => exact absurd hclosed hallowed.2.1
  | gateClosed => exact absurd hclosed hallowed
  | retired => exact absurd hr hallowed.2

-- ---------------------------------------------------------------------------
-- One owner
-- ---------------------------------------------------------------------------

structure Sound (r : PluginRecord V) : Prop where
  restores : r.consumed ++ r.effects = r.registered.reverse
  lawful : Lawful (Allowed r.startup.length) r.history

/-- An owner that has not been retired. -/
structure Present (r : PluginRecord V) : Prop extends Sound r where
  active : r.state = .active
  notClosed : .gateClosed ∉ r.history

/-- An owner that has not been started either. -/
structure Fresh (r : PluginRecord V) : Prop extends Present r where
  gate : r.gate = .new
  notOpened : .gateOpened ∉ r.history

structure Live (r : PluginRecord V) : Prop extends Present r where
  opened : .gateOpened ∈ r.history

structure Gone (r : PluginRecord V) : Prop extends Sound r where
  retired : r.state = .retired
  drained : r.effects = []
  shut : r.gate.isOpen = false

theorem Sound.log {s : Scope V} (h : Sound s.record)
    (hallowed : Allowed s.record.startup.length s.record.history event)
    (hregistration : event.registration = none) (hrestoration : event.restoration = none) :
    Sound (s.log event).record where
  restores := by
    simpa [PluginRecord.consumed, PluginRecord.registered, Scope.log, hregistration,
      hrestoration] using h.restores
  lawful := lawful_concat.mpr ⟨h.lawful, hallowed⟩

theorem Sound.retire {s : Scope V} (h : Sound s.record) (hclosed : .gateClosed ∈ s.record.history)
    (hretired : .retired ∉ s.record.history) : Sound s.retire.record :=
  Sound.log (s := { s with record := { s.record with state := .retired } })
    ⟨h.restores, h.lawful⟩ ⟨hclosed, hretired⟩ rfl rfl

theorem Sound.registerRestore {s : Scope V} (h : Sound s.record)
    (hopened : .gateOpened ∉ s.record.history) (hclosed : .gateClosed ∉ s.record.history)
    (action : RestoreAction) : Sound (s.registerRestore action).record where
  restores := by
    have hconsumed : s.record.consumed = [] := consumed_eq_nil h.lawful hclosed
    have hrestores := h.restores
    rw [hconsumed, List.nil_append] at hrestores
    have hconsumed' : (s.registerRestore action).record.consumed = [] := by
      simpa [PluginRecord.consumed, Scope.registerRestore, Scope.log, OwnerEvent.restoration]
        using hconsumed
    rw [hconsumed', List.nil_append]
    simp [PluginRecord.registered, Scope.registerRestore, Scope.log, OwnerEvent.registration,
      hrestores]
  lawful := lawful_concat.mpr ⟨h.lawful, hopened, hclosed⟩

/-- What the drain of the restore actions keeps. -/
structure Drains (main : Bool) (r r' : PluginRecord V) : Prop where
  state : r'.state = r.state
  gate : r'.gate = r.gate
  systems : SameSystems r r'
  retired : .retired ∈ r'.history ↔ .retired ∈ r.history
  closed : .gateClosed ∈ r'.history ↔ .gateClosed ∈ r.history
  attended : ∀ action token result, .restored action token result ∈ r'.history →
    .restored action token result ∈ r.history ∨ token = main

theorem Sound.drainEffects (main : Bool) {l : List RestoreAction} {s : Scope V}
    (h : Sound s.record) (hclosed : .gateClosed ∈ s.record.history) (hl : s.record.effects = l) :
    Sound (s.drainEffects main l).record ∧ (s.drainEffects main l).record.effects = [] ∧
      Drains main s.record (s.drainEffects main l).record := by
  induction l generalizing s with
  | nil => exact ⟨h, hl, rfl, rfl, ⟨rfl, rfl⟩, .rfl, .rfl, fun _ _ _ => .inl⟩
  | cons action rest ih =>
    let s₁ : Scope V := { s with record := { s.record with effects := rest } }.log
      (.restored action main (executeRestore action main))
    have h₁ : Sound s₁.record := by
      refine ⟨?_, lawful_concat.mpr ⟨h.lawful, hclosed, executeRestore_gives action main⟩⟩
      have hrestores := h.restores
      rw [hl] at hrestores
      simpa [PluginRecord.consumed, PluginRecord.registered, s₁, Scope.log, List.filterMap_cons,
        OwnerEvent.registration, OwnerEvent.restoration] using hrestores
    obtain ⟨hsound, heffects, hdrains⟩ := ih h₁ (List.mem_append_left _ hclosed) rfl
    refine ⟨hsound, heffects, hdrains.state, hdrains.gate, hdrains.systems,
      hdrains.retired.trans ?_, hdrains.closed.trans ?_, fun action' token result hmem => ?_⟩
    · simp [s₁, Scope.log]
    · simp [s₁, Scope.log]
    · rcases hdrains.attended action' token result hmem with hmem | htoken
      · rcases List.mem_append.mp hmem with hmem | hmem
        · exact .inl hmem
        · cases List.mem_singleton.mp hmem
          exact .inr rfl
      · exact .inr htoken

theorem Present.notRetired {r : PluginRecord V} (h : Present r) : .retired ∉ r.history :=
  fun hr => h.notClosed (closed_of_retired h.lawful hr)

theorem Present.closeGate {s : Scope V} (h : Present s.record) : Sound s.closeGate.record :=
  Sound.log (s := { s with record := { s.record with gate := s.record.gate.close } })
    ⟨h.restores, h.lawful⟩ h.notClosed rfl rfl

theorem Present.notRestored {r : PluginRecord V} (h : Present r) :
    .restored action token result ∉ r.history := by
  intro hmem
  obtain ⟨pre, post, heq, hallowed⟩ := h.lawful.of_mem hmem
  exact h.notClosed (heq ▸ List.mem_append_left _ hallowed.1)

theorem Present.updateRetire {s : Scope V} (h : Present s.record) (main : Bool) :
    Gone (s.updateRetire main).record ∧ Retires main s.record (s.updateRetire main).record := by
  have hretire : Sound s.closeGate.retire.record :=
    h.closeGate.retire (by simp [Scope.closeGate, Scope.log])
      (by simpa [Scope.closeGate, Scope.log] using h.notRetired)
  obtain ⟨hsound, heffects, hdrains⟩ := hretire.drainEffects main
    (by simp [Scope.closeGate, Scope.retire, Scope.log]) rfl
  have hlogged {β : Type _} (f : OwnerEvent V → Option β) (hclosed : f .gateClosed = none)
      (hrestored : ∀ action token result, f (.restored action token result) = none)
      (hretired : f .retired = none) :
      (s.updateRetire main).record.history.filterMap f = s.record.history.filterMap f :=
    (filterMap_drainEffects hrestored main _ _).trans
      ((filterMap_log hretired).trans (filterMap_log hclosed))
  refine ⟨⟨hsound, hdrains.state, heffects, congrArg RuntimeGate.isOpen hdrains.gate⟩,
    hdrains.state, hdrains.systems, hlogged _ rfl (fun _ _ _ => rfl) rfl,
    fun phase => hlogged _ rfl (fun _ _ _ => rfl) rfl, fun action token result hmem => ?_⟩
  refine (hdrains.attended action token result hmem).resolve_left fun hbefore => ?_
  have hin : .restored action token result ∈ s.record.history := by
    simpa [Scope.closeGate, Scope.retire, Scope.log] using hbefore
  exact h.notRestored hin

theorem filterMap_openGate {f : OwnerEvent V → Option β} (h : f .gateOpened = none)
    (s : Scope V) : s.openGate.record.history.filterMap f = s.record.history.filterMap f := by
  unfold Scope.openGate
  split
  · exact filterMap_log h
  · rfl

theorem openGate_systems (s : Scope V) : SameSystems s.record s.openGate.record := by
  unfold Scope.openGate
  split <;> exact ⟨rfl, rfl⟩

namespace Fresh

variable {s : Scope V}

theorem logged (h : Fresh s.record) (hregistration : event.registration = none)
    (hrestoration : event.restoration = none)
    (hallowed : Allowed s.record.startup.length s.record.history event)
    (hopened : event ≠ .gateOpened) (hclosed : event ≠ .gateClosed) :
    Fresh (s.log event).record where
  toSound := h.toSound.log hallowed hregistration hrestoration
  active := h.active
  notClosed := by simpa [Scope.log, hclosed.symm] using h.notClosed
  gate := h.gate
  notOpened := by simpa [Scope.log, hopened.symm] using h.notOpened

theorem registerRestore (h : Fresh s.record) (action : RestoreAction) :
    Fresh (s.registerRestore action).record where
  toSound := h.toSound.registerRestore h.notOpened h.notClosed action
  active := h.active
  notClosed := by simpa [Scope.registerRestore, Scope.log] using h.notClosed
  gate := h.gate
  notOpened := by simpa [Scope.registerRestore, Scope.log] using h.notOpened

/-- Systems may be added as long as the gate has not been opened. -/
theorem addStartup (h : Fresh s.record) (system : StartupSystem V) :
    Fresh { s.record with startup := s.record.startup ++ [system] } := by
  refine ⟨⟨⟨h.restores, h.lawful.mono fun pre e he hallowed => ?_⟩, h.active, h.notClosed⟩, h.gate,
    h.notOpened⟩
  cases e with
  | gateOpened => exact absurd he h.notOpened
  | ran phase index failed => cases phase <;> exact hallowed
  | _ => exact hallowed

theorem registerRestores (h : Fresh s.record) (l : List RestoreAction) :
    Fresh (l.foldl Scope.registerRestore s).record ∧
      SameSystems s.record (l.foldl Scope.registerRestore s).record := by
  induction l generalizing s with
  | nil => exact ⟨h, rfl, rfl⟩
  | cons action rest ih => exact ih (h.registerRestore action)

theorem ran (h : Fresh s.record) (index : Nat) (failed : Bool) :
    Fresh (s.log (.ran .startup index failed)).record :=
  h.logged rfl rfl ⟨h.notOpened, h.notClosed⟩ nofun nofun

theorem openGate (h : Fresh s.record) (hruns : runs .startup s.record.history =
    allRan s.record.startup.length) : Live s.openGate.record := by
  have hopen : s.openGate = { s with record := { s.record with gate := ⟨true, .opened⟩ } }.log
      .gateOpened := by
    unfold Scope.openGate
    rw [h.gate]
    rfl
  rw [hopen]
  refine ⟨⟨Sound.log (s := { s with record := { s.record with gate := ⟨true, .opened⟩ } })
    ⟨h.restores, h.lawful⟩ ⟨h.notOpened, h.notClosed, hruns⟩ rfl rfl, h.active, ?_⟩, ?_⟩
  · simpa [Scope.log] using h.notClosed
  · simp [Scope.log]

end Fresh

theorem Live.ran {s : Scope V} (h : Live s.record) (index : Nat) (failed : Bool) :
    Live (s.log (.ran .update index failed)).record where
  toSound := h.toSound.log ⟨h.opened, h.notClosed⟩ rfl rfl
  active := h.active
  notClosed := by simpa [Scope.log] using h.notClosed
  opened := List.mem_append_left _ h.opened

theorem Live.runUpdateSystems {s : Scope V} (h : Live s.record) (frame : Nat)
    (systems : List (UpdateSystem V)) (index : Nat) :
    Live (Scope.runUpdateSystems frame systems index s).1.record ∧
      SameSystems s.record (Scope.runUpdateSystems frame systems index s).1.record := by
  induction systems generalizing s index with
  | nil => exact ⟨h, rfl, rfl⟩
  | cons system rest ih =>
    let s₁ : Scope V := { s with world := s.world.change (system frame s.world).changes }
    have hran (failed : Bool) : Live (s₁.log (.ran .update index failed)).record :=
      Live.ran (s := s₁) h index failed
    simp only [Scope.runUpdateSystems]
    split
    · exact ih (hran false) (index + 1)
    · exact ⟨hran true, rfl, rfl⟩
    · exact ⟨hran true, rfl, rfl⟩

theorem Sound.outcomes {r : PluginRecord V} (h : Sound r)
    (hmem : .restored action token result ∈ r.history) : action.Gives token result := by
  obtain ⟨pre, post, -, -, hresult⟩ := h.lawful.of_mem hmem
  exact hresult

theorem Sound.disciplined {r : PluginRecord V} (h : Sound r)
    (hdrained : r.state = .retired → r.effects = [])
    (hgate : r.gate.isOpen = true → r.state = .active ∧ GateOpen r.history) : Disciplined r where
  restores := h.restores
  drained := hdrained
  outcomes _ _ _ := h.outcomes
  gate hopen := ⟨(hgate hopen).1, (opened_of_lawful h.lawful (hgate hopen).2).2⟩
  opened _ _ heq := opened_of_lawful (Lawful.before (heq ▸ h.lawful))
  quiet _ _ _ heq := quiet_of_lawful (heq ▸ h.lawful)

theorem Fresh.disciplined {r : PluginRecord V} (h : Fresh r) : Disciplined r :=
  h.toSound.disciplined (fun hr => by cases h.active.symm.trans hr) fun hopen => by
    rw [h.gate] at hopen
    cases hopen

theorem Live.disciplined {r : PluginRecord V} (h : Live r) : Disciplined r :=
  h.toSound.disciplined (fun hr => by cases h.active.symm.trans hr)
    fun _ => ⟨h.active, h.opened, h.notClosed⟩

theorem Gone.disciplined {r : PluginRecord V} (h : Gone r) : Disciplined r :=
  h.toSound.disciplined (fun _ => h.drained) fun hopen => by cases h.shut.symm.trans hopen

theorem not_active_of_gone {app : App V} {r : PluginRecord V} (hr : app.records[owner]? = some r)
    (hgone : Gone r) : owner ∉ app.activeOwnerIds := by
  rw [mem_activeOwnerIds, isActive_iff]
  rintro ⟨r', hr', hactive⟩
  cases hr.symm.trans hr'
  cases hactive.symm.trans hgone.retired

theorem active_of_present {app : App V} {r : PluginRecord V} (hr : app.records[owner]? = some r)
    (hpresent : Present r) : owner ∈ app.activeOwnerIds :=
  mem_activeOwnerIds.mpr (isActive_iff.mpr ⟨r, hr, hpresent.active⟩)

variable [DecidableEq T]

theorem Present.rollback {s : Scope V} (h : Present s.record) (main : Bool) :
    Gone (s.rollback main).record ∧ Retires main s.record (s.rollback main).record := by
  have hclosed : .gateClosed ∈ s.closeGate.record.history := by simp [Scope.closeGate, Scope.log]
  have hrecord := removeResources_record _ s.closeGate rfl
  have hremove : Sound (s.closeGate.removeResources s.closeGate.record.inserted).record := by
    rw [hrecord]
    exact ⟨h.closeGate.restores, h.closeGate.lawful⟩
  obtain ⟨hsound, heffects, hdrains⟩ := hremove.drainEffects main
    (by rw [hrecord]; exact hclosed) rfl
  refine ⟨⟨hsound.retire (hdrains.closed.mpr ?_) (mt hdrains.retired.mp ?_), rfl, heffects, ?_⟩,
    rfl, ⟨hdrains.systems.1.trans ?_, hdrains.systems.2.trans ?_⟩,
    filterMap_rollback rfl (fun _ _ _ => rfl) rfl s main,
    fun phase => filterMap_rollback rfl (fun _ _ _ => rfl) rfl s main,
    fun action token result hmem => ?_⟩
  · rw [hrecord]
    exact hclosed
  · rw [hrecord]
    simpa [Scope.closeGate, Scope.log] using h.notRetired
  · exact (congrArg RuntimeGate.isOpen hdrains.gate).trans (by rw [hrecord]; rfl)
  · rw [hrecord]
    rfl
  · rw [hrecord]
    rfl
  · have hdrained := hdrains.attended action token result
      (by simpa [Scope.rollback, Scope.retire, Scope.log] using hmem)
    refine hdrained.resolve_left fun hbefore => ?_
    rw [hrecord] at hbefore
    have hin : .restored action token result ∈ s.record.history := by
      simpa [Scope.closeGate, Scope.log] using hbefore
    exact h.notRestored hin

/-- A pass in which a system fails retires the owner after its turns. -/
theorem Passed.retires {s : Scope V} {phase : Phase} {turns : List (Turn V)}
    {result : Scope V × Bool} {r : PluginRecord V} (h : Passed phase 0 s turns result)
    (hsystems : SameSystems s.record result.1.record) (hretires : Retires true result.1.record r)
    (hfailed : turns.any Turn.failed = true) : Visited phase turns s.record r where
  runs := (hretires.runs _).trans h.runs
  others p hp := (hretires.runs p).trans (h.others p hp)
  registered := hretires.registered.trans h.took.registered
  retired := ⟨fun _ => List.any_eq_true.mp hfailed, fun _ => hretires.state⟩
  systems := hsystems.trans hretires.systems
  attended := hretires.attended

namespace Fresh

variable {s s' : Scope V}

theorem accept (h : Fresh s.record) (phase : Phase) (resource : Entry V) (order : Nat) :
    Fresh (s.accept phase resource order).record :=
  logged (s := { world := s.world.put resource
                 record := { s.record with
                   inserted := ⟨resource.key, order⟩ :: s.record.inserted } })
    ⟨⟨⟨h.restores, h.lawful⟩, h.active, h.notClosed⟩, h.gate, h.notOpened⟩ rfl rfl
    ⟨h.notOpened, h.notClosed⟩ nofun nofun

theorem build (b : Build V) (h : Fresh s.record) : Fresh (s.build b).1.record := by
  induction b generalizing s with
  | ok => exact h
  | err error => exact h
  | insertResource resource next ih =>
    simp only [Scope.build, Scope.insertResourceDyn]
    split
    · exact ih _ h
    · next s' hs =>
      obtain ⟨-, rfl⟩ := applyInsert_ok hs
      exact ih (.ok ()) (h.accept .build resource _)
  | addStartupSystem system next ih =>
    exact ih (s := { s with record := { s.record with startup := s.record.startup ++ [system] } })
      (h.addStartup system)
  | addUpdateSystem system next ih =>
    exact ih (s := { s with record := { s.record with update := s.record.update ++ [system] } })
      ⟨⟨⟨h.restores, h.lawful⟩, h.active, h.notClosed⟩, h.gate, h.notOpened⟩
  | registerRestoreAnyThread run next ih => exact ih (h.registerRestore (.anyThread run))

/-- A plugin that has been added. -/
theorem addPlugin (plugin : Plugin V) (w : Store V) :
    (Fresh (Scope.addPlugin plugin ⟨w, .new plugin.name⟩).record ∨
        Gone (Scope.addPlugin plugin ⟨w, .new plugin.name⟩).record) ∧
      Added plugin w (Scope.addPlugin plugin ⟨w, .new plugin.name⟩).record := by
  have hnew : Fresh (PluginRecord.new plugin.name : PluginRecord V) :=
    ⟨⟨⟨rfl, .nil⟩, rfl, nofun⟩, rfl, nofun⟩
  have hfresh := Fresh.build plugin.build (s := ⟨w, .new plugin.name⟩) hnew
  have hgained := Gained.build plugin.build ⟨w, .new plugin.name⟩
  obtain ⟨hstartup, hupdate⟩ := build_systems plugin.build ⟨w, .new plugin.name⟩
  rw [addPlugin_eq]
  split
  · next hfailed =>
    obtain ⟨hgone, hretires⟩ := hfresh.toPresent.rollback false
    exact ⟨.inr hgone, hretires.registered.trans hgained.registered,
      ⟨fun _ => hfailed, fun _ => hretires.state⟩, hretires.systems.1.trans hstartup,
      hretires.systems.2.trans hupdate,
      fun phase => (hretires.runs phase).trans (hgained.runs phase), hretires.attended⟩
  · next hok =>
    refine ⟨.inl hfresh, hgained.registered, ⟨fun hretired => ?_, fun hfailed => ?_⟩, hstartup,
      hupdate, hgained.runs, fun _ _ _ hmem => absurd hmem hfresh.notRestored⟩
    · cases hfresh.active.symm.trans hretired
    · exact absurd hfailed hok

theorem applyPending (h : Fresh s.record) (l : List (Entry V)) (order : Nat) :
    Fresh (Scope.applyPending l order s).1.record ∧
      SameSystems s.record (Scope.applyPending l order s).1.record := by
  induction l generalizing s order with
  | nil => exact ⟨h, rfl, rfl⟩
  | cons resource rest ih =>
    simp only [Scope.applyPending]
    split
    · next s' hs =>
      obtain ⟨-, rfl⟩ := applyInsert_ok hs
      exact ih (h.accept .startup resource order) (order + 1)
    · exact ⟨h, rfl, rfl⟩

theorem runStartupSystem (h : Fresh s.record) (system : StartupSystem V) (order : Nat) :
    Fresh (Scope.runStartupSystem system order s).1.record ∧
      SameSystems s.record (Scope.runStartupSystem system order s).1.record := by
  obtain ⟨hfresh, hsystems⟩ := registerRestores
    (s := { s with world := s.world.change (system s.world).changes }) h (system s.world).restores
  simp only [Scope.runStartupSystem]
  split
  · obtain ⟨hfresh', hsystems'⟩ := hfresh.applyPending (system s.world).pending order
    exact ⟨hfresh', hsystems.trans hsystems'⟩
  · exact ⟨hfresh, hsystems⟩
  · exact ⟨hfresh, hsystems⟩

theorem runStartupSystems (h : Fresh s.record) (systems : List (StartupSystem V))
    (index order : Nat) :
    Fresh (Scope.runStartupSystems systems index order s).1.record ∧
      SameSystems s.record (Scope.runStartupSystems systems index order s).1.record := by
  induction systems generalizing s index order with
  | nil => exact ⟨h, rfl, rfl⟩
  | cons system rest ih =>
    have hsystem := h.runStartupSystem system order
    simp only [Scope.runStartupSystems]
    split
    · next s₁ order₁ heq =>
      rw [heq] at hsystem
      obtain ⟨hfresh, hsystems⟩ := hsystem
      obtain ⟨hfresh', hsystems'⟩ := ih (hfresh.ran index false) (index + 1) order₁
      exact ⟨hfresh', hsystems.trans hsystems'⟩
    · next s₁ order₁ heq =>
      rw [heq] at hsystem
      exact ⟨hsystem.1.ran index true, hsystem.2⟩

/-- A Startup pass over one owner. -/
theorem runStartup (h : Fresh s.record) (hruns : runs .startup s.record.history = []) :
    (Live s.runStartup.record ∨ Gone s.runStartup.record) ∧
      Visited .startup (startupTurns s.record.startup s.world) s.record s.runStartup.record := by
  obtain ⟨hfresh, hsystems⟩ := h.runStartupSystems s.record.startup 0 (nextOrder s.record.inserted)
  have hpassed := Passed.runStartupSystems s.record.startup 0 s rfl
  rw [runStartup_eq]
  split
  · next hfailed =>
    obtain ⟨hgone, hretires⟩ := hfresh.toPresent.rollback true
    exact ⟨.inr hgone, hpassed.retires hsystems hretires hfailed⟩
  · next hok =>
    have hnone : ∀ turn ∈ startupTurns s.record.startup s.world, turn.failed ≠ true :=
      fun turn hturn hfailed => hok (List.any_eq_true.mpr ⟨turn, hturn, hfailed⟩)
    have hall : runs .startup (Scope.runStartupSystems s.record.startup 0
        (nextOrder s.record.inserted) s).1.record.history = allRan s.record.startup.length := by
      rw [hpassed.runs, hruns, List.nil_append, startupTurns, taken_ok hnone, List.length_map,
        executed_ok]
    have hlive := hfresh.openGate (by rw [hsystems.1]; exact hall)
    refine ⟨.inl hlive, (filterMap_openGate rfl _).trans hpassed.runs,
      fun p hp => (filterMap_openGate rfl _).trans (hpassed.others p hp),
      (filterMap_openGate rfl _).trans hpassed.took.registered,
      ⟨fun hretired => ?_, fun hfailed => ?_⟩,
      hsystems.trans (openGate_systems _), fun _ _ _ hmem => absurd hmem hlive.notRestored⟩
    · cases hlive.active.symm.trans hretired
    · exact absurd (List.any_eq_true.mpr hfailed) hok

end Fresh

/-- An Update pass over one owner. -/
theorem Live.runUpdate {s : Scope V} (h : Live s.record) (frame : Nat) :
    (Live (s.runUpdate frame).record ∨ Gone (s.runUpdate frame).record) ∧
      Visited .update (updateTurns frame s.record.update s.world) s.record
        (s.runUpdate frame).record := by
  obtain ⟨hlive, hsystems⟩ := h.runUpdateSystems frame s.record.update 0
  have hpassed := Passed.runUpdateSystems frame s.record.update 0 s
  rw [runUpdate_eq]
  split
  · next hfailed =>
    obtain ⟨hgone, hretires⟩ := hlive.toPresent.updateRetire true
    exact ⟨.inr hgone, hpassed.retires hsystems hretires hfailed⟩
  · next hok =>
    refine ⟨.inl hlive, hpassed.runs, hpassed.others, hpassed.took.registered,
      ⟨fun hretired => ?_, fun hfailed => ?_⟩, hsystems,
      fun _ _ _ hmem => absurd hmem hlive.notRestored⟩
    · cases hlive.active.symm.trans hretired
    · exact absurd (List.any_eq_true.mpr hfailed) hok

-- ---------------------------------------------------------------------------
-- Whole runs
-- ---------------------------------------------------------------------------

inductive Stage where
  | building
  | running
  | tornDown
  deriving DecidableEq, Repr

structure AppRun (V : T → Type v) where
  stage : Stage
  app : App V

namespace AppRun

inductive Action (V : T → Type v) where
  | addPlugin (plugin : Plugin V)
  | teardownAll
  | runStartup
  | runUpdate (frame : Nat)

def init : AppRun V := ⟨.building, .new⟩

/-- Builds, then teardown or one Startup and any number of Update passes. -/
def step (s : AppRun V) : Action V → Option (AppRun V)
  | .addPlugin plugin =>
    if s.stage = .building then some { s with app := s.app.addPlugin plugin } else none
  | .teardownAll => if s.stage = .building then some ⟨.tornDown, s.app.teardownAll⟩ else none
  | .runStartup => if s.stage = .building then some ⟨.running, s.app.runStartup⟩ else none
  | .runUpdate frame =>
    if s.stage = .running then some { s with app := s.app.runUpdate frame } else none

/-- What a call makes of the owners: of those that are active when it starts,
and that it leaves the others alone. -/
def PassOk (s : AppRun V) : Action V → Prop
  | .addPlugin plugin => ∃ r, (s.app.addPlugin plugin).records = s.app.records ++ [r] ∧
    Added plugin s.app.world r
  | .teardownAll => ∀ (owner : Nat) (r : PluginRecord V), s.app.records[owner]? = some r →
    ∃ r', s.app.teardownAll.records[owner]? = some r' ∧
      (r.state = .active → Retires false r r') ∧ (r.state = .retired → r' = r)
  | .runStartup => ∀ (owner : Nat) (r : PluginRecord V), s.app.records[owner]? = some r →
    ∃ r', s.app.runStartup.records[owner]? = some r' ∧
      (r.state = .active → Visited .startup
        (startupTurns r.startup (s.app.worldAt Scope.runStartup owner)) r r') ∧
      (r.state = .retired → r' = r)
  | .runUpdate frame => ∀ (owner : Nat) (r : PluginRecord V), s.app.records[owner]? = some r →
    ∃ r', (s.app.runUpdate frame).records[owner]? = some r' ∧
      (r.state = .active → Visited .update
        (updateTurns frame r.update (s.app.worldAt (Scope.runUpdate frame) owner)) r r') ∧
      (r.state = .retired → r' = r)

/-- What the owners are at a stage, if they have not been retired. -/
def Standing : Stage → PluginRecord V → Prop
  | .building, r => Fresh r ∧ runs .startup r.history = []
  | .running, r => Live r
  | .tornDown, _ => False

def Inv (s : AppRun V) : Prop := ∀ r ∈ s.app.records, Standing s.stage r ∨ Gone r

end AppRun

namespace AppRun.Inv

variable {s : AppRun V}

omit [DecidableEq T] in
theorem init : Inv (AppRun.init : AppRun V) := nofun

theorem addPlugin (h : Inv s) (hstage : s.stage = .building) (plugin : Plugin V) :
    Inv { s with app := s.app.addPlugin plugin } := by
  obtain ⟨hadded, hbuilt⟩ := Fresh.addPlugin plugin s.app.world
  refine addPlugin_records h plugin (hadded.imp_left fun hfresh => ?_)
  rw [hstage]
  exact ⟨hfresh, hbuilt.runs .startup⟩

theorem teardownAll (h : Inv s) (hstage : s.stage = .building) :
    Inv ⟨.tornDown, s.app.teardownAll⟩ := by
  refine forOwners_records _ (List.nodup_reverse.mpr List.nodup_range) h ?_ ?_
  · rintro owner r w - - (hstanding | hgone)
    · rw [hstage] at hstanding
      have hteardown : Scope.teardown ⟨w, r⟩ = Scope.rollback false ⟨w, r⟩ := by
        simp only [Scope.teardown, hstanding.1.active]
      rw [hteardown]
      exact .inr (hstanding.1.toPresent.rollback (s := ⟨w, r⟩) false).1
    · have hteardown : Scope.teardown ⟨w, r⟩ = ⟨w, r⟩ := by
        simp only [Scope.teardown, hgone.retired]
      rw [hteardown]
      exact .inr hgone
  · intro owner r hout hr
    exact absurd
      (List.mem_reverse.mpr (List.mem_range.mpr (List.getElem?_eq_some_iff.mp hr).1)) hout

theorem runStartup (h : Inv s) (hstage : s.stage = .building) :
    Inv ⟨.running, s.app.runStartup⟩ := by
  refine forOwners_records _ (activeOwnerIds_nodup s.app) h ?_ ?_
  · rintro owner r w hin hr (hstanding | hgone)
    · rw [hstage] at hstanding
      exact (hstanding.1.runStartup (s := ⟨w, r⟩) hstanding.2).1
    · exact absurd hin (not_active_of_gone hr hgone)
  · rintro owner r hout hr (hstanding | hgone)
    · rw [hstage] at hstanding
      exact absurd (active_of_present hr hstanding.1.toPresent) hout
    · exact .inr hgone

theorem runUpdate (h : Inv s) (hstage : s.stage = .running) (frame : Nat) :
    Inv { s with app := s.app.runUpdate frame } := by
  refine forOwners_records _ (activeOwnerIds_nodup s.app) h ?_ ?_
  · rintro owner r w hin hr (hstanding | hgone)
    · rw [hstage] at hstanding ⊢
      exact (hstanding.runUpdate (s := ⟨w, r⟩) frame).1
    · exact absurd hin (not_active_of_gone hr hgone)
  · rintro owner r hout hr hstanding
    exact hstanding

theorem step {a : Action V} {s' : AppRun V} (h : Inv s) (hs : AppRun.step s a = some s') :
    Inv s' := by
  cases a with
  | addPlugin plugin =>
    obtain ⟨hstage, hs⟩ := Option.ite_none_right_eq_some.mp hs
    cases hs
    exact h.addPlugin hstage plugin
  | teardownAll =>
    obtain ⟨hstage, hs⟩ := Option.ite_none_right_eq_some.mp hs
    cases hs
    exact h.teardownAll hstage
  | runStartup =>
    obtain ⟨hstage, hs⟩ := Option.ite_none_right_eq_some.mp hs
    cases hs
    exact h.runStartup hstage
  | runUpdate frame =>
    obtain ⟨hstage, hs⟩ := Option.ite_none_right_eq_some.mp hs
    cases hs
    exact h.runUpdate hstage frame

omit [DecidableEq T] in
theorem disciplined (h : Inv s) : ∀ r ∈ s.app.records, Disciplined r := by
  intro r hr
  rcases h r hr with hstanding | hgone
  · cases hstage : s.stage with
    | building =>
      rw [hstage] at hstanding
      exact hstanding.1.disciplined
    | running =>
      rw [hstage] at hstanding
      exact hstanding.disciplined
    | tornDown =>
      rw [hstage] at hstanding
      exact hstanding.elim
  · exact hgone.disciplined

omit [DecidableEq T] in
theorem standing (h : Inv s) {owner : Nat} {r : PluginRecord V}
    (hr : s.app.records[owner]? = some r) (hactive : r.state = .active) : Standing s.stage r :=
  (h r (List.mem_of_getElem? hr)).resolve_right fun hgone => by
    cases hactive.symm.trans hgone.retired

theorem passOk {a : Action V} {s' : AppRun V} (h : Inv s) (hs : AppRun.step s a = some s') :
    PassOk s a := by
  cases a with
  | addPlugin plugin =>
    refine ⟨_, ?_, (Fresh.addPlugin plugin s.app.world).2⟩
    simp [App.addPlugin, App.withOwner]
  | teardownAll =>
    obtain ⟨hstage, -⟩ := Option.ite_none_right_eq_some.mp hs
    intro owner r hr
    obtain ⟨w, hrecord⟩ := teardownAll_at hr
    refine ⟨_, hrecord, fun hactive => ?_, fun hretired => ?_⟩
    · have hstanding := h.standing hr hactive
      rw [hstage] at hstanding
      simp only [Scope.teardown, hactive]
      exact (hstanding.1.toPresent.rollback (s := ⟨_, r⟩) false).2
    · simp only [Scope.teardown, hretired]
  | runStartup =>
    obtain ⟨hstage, -⟩ := Option.ite_none_right_eq_some.mp hs
    intro owner r hr
    cases hstate : r.state with
    | retired => exact ⟨r, pass_skips _ hr hstate, fun h => absurd h (by decide), fun _ => rfl⟩
    | active =>
      have hstanding := h.standing hr hstate
      rw [hstage] at hstanding
      exact ⟨_, pass_at _ hr hstate, fun _ => (hstanding.1.runStartup (s := ⟨_, r⟩) hstanding.2).2,
        fun h => absurd h (by decide)⟩
  | runUpdate frame =>
    obtain ⟨hstage, -⟩ := Option.ite_none_right_eq_some.mp hs
    intro owner r hr
    cases hstate : r.state with
    | retired => exact ⟨r, pass_skips _ hr hstate, fun h => absurd h (by decide), fun _ => rfl⟩
    | active =>
      have hstanding := h.standing hr hstate
      rw [hstage] at hstanding
      exact ⟨_, pass_at _ hr hstate, fun _ => (hstanding.runUpdate (s := ⟨_, r⟩) frame).2,
        fun h => absurd h (by decide)⟩

end AppRun.Inv

/-- In every run of builds followed by teardown or by Startup and Update passes
the owners are disciplined, and every call does to them what it should. -/
theorem retirement_discipline (as : List (AppRun.Action V)) :
    Machine.Always AppRun.step (fun s => ∀ r ∈ s.app.records, Disciplined r) .init as ∧
      Machine.Each AppRun.step AppRun.PassOk .init as := by
  constructor
  · exact (Machine.Always.of_step (fun _ _ _ h hs => h.step hs) AppRun.Inv.init).mono fun _ h =>
      h.disciplined
  · exact Machine.Each.of_step (fun _ _ _ h hs => h.step hs) (fun _ _ _ h hs => h.passOk hs)
      AppRun.Inv.init

end ShinySongTools.Runtime
