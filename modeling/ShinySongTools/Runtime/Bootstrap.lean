import ShinySongTools.Core.MethodSlot
import ShinySongTools.Runtime.Retirement

/-!
# The bootstrap

`run_bootstrap` with every exit. What its fallible steps answer is given
beforehand (`BootstrapDeps`); `Boot` is the attempt so far, with a trace of
what it did. An attempt that panics has no result.
-/

namespace ShinySongTools.Runtime

open Histories

variable {T : Type u} {V : T → Type v}

inductive Il2CppError where
  | imageNotFound
  | imageIdentityMismatch
  | exportMissing (symbol : String)
  | readinessSymbolMissing (symbol : String)
  | readinessDeadlineExceeded
  | classNotFound (name : String)
  | domainUnavailable
  | attachFailed
  | identityMismatch
  | methodResolutionFailed (reason : String)
  | notReady
  deriving DecidableEq, Repr

def schedulerTarget : TargetId where
  assembly := "UniRx.dll"
  «namespace» := "UniRx"
  «class» := "MainThreadDispatcher"
  method := "LateUpdate"
  paramCount := 0
  isStatic := false
  returnType := "void"
  parameterTypes := []

/-- What `production_plugins` reads of the configuration. -/
structure RuntimeConfig where
  debugEnabled : Bool
  unlockFps : Bool
  translationDump : Bool
  reconEnabled : Bool

structure BootstrapDeps (V : T → Type v) where
  unityFrameworkImage : Except Il2CppError Unit
  loadExports : Except Il2CppError Unit
  /-- The answers of `is_ready`, up to the deadline. -/
  isReady : List (Except Il2CppError Bool)
  domainGet : Except Il2CppError Unit
  attachCurrentThread : Except Il2CppError Unit
  hydrateMetadata : Except Il2CppError Unit
  runtimeIdentity : Except Il2CppError Unit
  resolve : TargetId → Except HookError MethodRef
  /-- The slot word when it is bound, and when the hook binds it again. -/
  slotRead : Option Addr
  hookSlotRead : Option Addr
  config : RuntimeConfig
  debugPlugin : Plugin V
  fpsPlugin : Plugin V
  translationDumpPlugin : Plugin V
  reconPlugin : Plugin V
  /-- `SCHEDULER` has not been set. -/
  contextFree : Bool
  replacement : Addr
  /-- Whether the slot still holds the original, and what the readback sees. -/
  installCas : Bool
  readback : Option Addr
  /-- The handoff's lock is not poisoned and its slot is empty. -/
  handoffFree : Bool

inductive Step where
  | unityFrameworkImage
  | loadExports
  | readiness
  | domainGet
  | attachCurrentThread
  | hydrateMetadata
  | runtimeIdentity
  | resolve
  | bind
  deriving DecidableEq, Repr

/-- What others can see of an attempt. `failedSet` is the store of the
context's `failed`, which is false to begin with. -/
inductive BootEvent where
  | called (step : Step) (ok : Bool)
  | contextPublished
  | cas (expected new : Addr) (ok : Bool)
  | readback (value : Option Addr)
  | gateClosed
  | failedSet
  | teardownAll
  deriving DecidableEq, Repr

structure Boot (V : T → Type v) where
  trace : List BootEvent
  gate : RuntimeGate
  /-- The App once all plugins are built. -/
  built : Option (App V)
  /-- The App as it was when it was dropped. -/
  dropped : Option (App V)
  handoff : Option (App V)
  result : Option Bool

structure SchedulerHook where
  slot : MethodPointerSlot
  original : Addr
  replacement : Addr
  installed : Bool

/-- Polls until an answer settles it or the deadline has passed. -/
def awaitBootstrapReadiness : List (Except Il2CppError Bool) → Except Il2CppError Unit
  | [] => .error .readinessDeadlineExceeded
  | .error e :: _ => .error e
  | .ok true :: _ => .ok ()
  | .ok false :: rest => awaitBootstrapReadiness rest

def productionPlugins (deps : BootstrapDeps V) : List (Plugin V) :=
  (if deps.config.debugEnabled then [deps.debugPlugin] else []) ++
    (if deps.config.unlockFps then [deps.fpsPlugin] else []) ++
    (if deps.config.translationDump then [deps.translationDumpPlugin] else []) ++
    (if deps.config.reconEnabled then [deps.reconPlugin] else [])

def validateSchedulerMethod (method : MethodRef) : Bool := method.matchesTarget schedulerTarget

/-- `SchedulerHook::new`, which panics if the slot cannot be bound. -/
def SchedulerHook.new (slotRead : Option Addr) (original replacement : Addr) :
    Option SchedulerHook :=
  match MethodPointerSlot.bind slotRead with
  | .ok slot => some { slot, original, replacement, installed := false }
  | .error _ => none

namespace Boot

def init : Boot V := ⟨[], .new, none, none, none, none⟩

def log (s : Boot V) (event : BootEvent) : Boot V := { s with trace := s.trace ++ [event] }

def returns (s : Boot V) (value : Bool) : Boot V := { s with result := some value }

def closeGate (s : Boot V) : Boot V := { s with gate := s.gate.close }.log .gateClosed

def install (s : Boot V) (slot : MethodPointerSlot) (replacement : Addr) (casOk : Bool)
    (readback : Option Addr) : Boot V × Except HookError Unit :=
  if casOk then
    let s := (s.log (.cas slot.original replacement true)).log (.readback readback)
    if readback = some replacement then (s, .ok ()) else (s, .error .installationFailed)
  else (s.log (.cas slot.original replacement false), .error .slotConflict)

def installHook (s : Boot V) (hook : SchedulerHook) (casOk : Bool) (readback : Option Addr) :
    Boot V × Except HookError Unit :=
  if hook.installed then (s, .error .siteAlreadyRegistered)
  else s.install hook.slot hook.replacement casOk readback

variable [DecidableEq T]

def teardownAll (s : Boot V) (app : App V) : Boot V :=
  { s with dropped := some app.teardownAll }.log .teardownAll

def bootstrapFailed (s : Boot V) (app : Option (App V)) : Boot V :=
  match app with
  | some app => (s.closeGate.teardownAll app).returns false
  | none => s.closeGate.returns false

/-- A step that fails the whole bootstrap if it fails. -/
def attempt (s : Boot V) (step : Step) (answer : Except ε α) (next : α → Boot V → Boot V) :
    Boot V :=
  match answer with
  | .ok a => next a (s.log (.called step true))
  | .error _ => (s.log (.called step false)).bootstrapFailed none

/-- From the context's publication on. -/
def handOver (deps : BootstrapDeps V) (hook : SchedulerHook) (app : App V) (s : Boot V) : Boot V :=
  match s.installHook hook deps.installCas deps.readback with
  | (s, .error _) => (s.teardownAll app).closeGate.returns false
  | (s, .ok ()) =>
    if deps.handoffFree then { s with handoff := some app }.returns true
    else
      -- `publish` was given the App and drops it, so there is none left to tear down
      { s with dropped := some app }.closeGate.returns false

/-- The App build and the context's publication. -/
def buildApp (deps : BootstrapDeps V) (slot : MethodPointerSlot) (s : Boot V) : Boot V :=
  let app := afterBuilds (productionPlugins deps)
  let s := { s with built := some app }
  match SchedulerHook.new deps.hookSlotRead slot.original deps.replacement with
  | none => { s with dropped := some app }
  | some hook =>
    if deps.contextFree then handOver deps hook app (s.log .contextPublished)
    else (s.teardownAll app).returns false

end Boot

open Boot in
def runBootstrap [DecidableEq T] (deps : BootstrapDeps V) : Boot V :=
  attempt .init .unityFrameworkImage deps.unityFrameworkImage fun _ s =>
  attempt s .loadExports deps.loadExports fun _ s =>
  attempt s .readiness (awaitBootstrapReadiness deps.isReady) fun _ s =>
  attempt s .domainGet deps.domainGet fun _ s =>
  attempt s .attachCurrentThread deps.attachCurrentThread fun _ s =>
  attempt s .hydrateMetadata deps.hydrateMetadata fun _ s =>
  attempt s .runtimeIdentity deps.runtimeIdentity fun _ s =>
  attempt s .resolve (deps.resolve schedulerTarget) fun method s =>
  if validateSchedulerMethod method then
    attempt s .bind (MethodPointerSlot.bind deps.slotRead) fun slot s => buildApp deps slot s
  else s.bootstrapFailed none

def DomainOk (before : List BootEvent) (e : BootEvent) : Prop :=
  ∀ ok, e = .called .domainGet ok →
    .called .readiness true ∈ before ∧ ∀ ok', .called .domainGet ok' ∉ before

/-- All restore actions of `r` were run, once and backwards, and it retired. -/
structure TornDown (r final : PluginRecord V) : Prop where
  retired : final.state = .retired
  consumed : final.consumed = r.registered.reverse
  executed : ∀ action token result, .restored action token result ∈ final.history →
    ∃ run, action = .anyThread run ∧ result = run.restored

def BootEvent.isCas (expected new : Addr) : BootEvent → Bool
  | .cas e n _ => e = expected && n = new
  | _ => false

/-- What a bootstrap that returns false promises. -/
structure FailureLaw (s : Boot V) : Prop where
  domainGet : Lawful DomainOk s.trace
  tornDown : s.result = some false → ∀ app ∈ s.built, ∀ (owner : Nat) (r : PluginRecord V),
    app.records[owner]? = some r → r.state = .active →
    ∃ app' ∈ s.dropped, ∃ final, app'.records[owner]? = some final ∧ TornDown r final
  handoff : s.result = some false → s.handoff = none
  /-- The gate was closed and `failed` set, before any restore action ran. -/
  passThrough : s.result = some false → .contextPublished ∈ s.trace →
    s.gate.isClosed = true ∧
      [.gateClosed, .failedSet].Sublist (s.trace.takeWhile (· ≠ .teardownAll))
  /-- An unconfirmed install is answered by one CAS back to the original. -/
  restored : s.result = some false → ∀ pre post original replacement value,
    s.trace = pre ++ .cas original replacement true :: .readback value :: post →
    value ≠ some replacement → post.countP (BootEvent.isCas replacement original) = 1

structure Publishes (deps : BootstrapDeps V) : Prop where
  unityFrameworkImage : deps.unityFrameworkImage = .ok ()
  loadExports : deps.loadExports = .ok ()
  isReady : awaitBootstrapReadiness deps.isReady = .ok ()
  domainGet : deps.domainGet = .ok ()
  attachCurrentThread : deps.attachCurrentThread = .ok ()
  hydrateMetadata : deps.hydrateMetadata = .ok ()
  runtimeIdentity : deps.runtimeIdentity = .ok ()
  resolve : ∃ method, deps.resolve schedulerTarget = .ok method ∧
    validateSchedulerMethod method = true
  slotRead : ∃ slot, MethodPointerSlot.bind deps.slotRead = .ok slot
  hookSlotRead : ∃ slot, MethodPointerSlot.bind deps.hookSlotRead = .ok slot
  contextFree : deps.contextFree = true

structure FailsAfterPublication (deps : BootstrapDeps V) : Prop where
  publishes : Publishes deps
  fails : deps.installCas = false ∨ deps.readback ≠ some deps.replacement ∨ deps.handoffFree = false

-- ---------------------------------------------------------------------------
-- The builds and their teardown
-- ---------------------------------------------------------------------------

def AnyThread (r : PluginRecord V) : Prop :=
  ∀ action ∈ r.registered, ∃ run, action = .anyThread run

section

variable [DecidableEq T]

theorem AnyThread.build (b : Build V) {s : Scope V} (h : AnyThread s.record) :
    AnyThread (s.build b).1.record := by
  induction b generalizing s with
  | ok => exact h
  | err error => exact h
  | insertResource resource next ih =>
    simp only [Scope.build, Scope.insertResourceDyn]
    split
    · exact ih _ h
    · next s' hs =>
      obtain ⟨-, rfl⟩ := applyInsert_ok hs
      refine ih (.ok ()) fun action hmem => h action ?_
      rwa [PluginRecord.registered, Scope.accept, filterMap_log rfl] at hmem
  | addStartupSystem system next ih =>
    exact ih (s := { s with record := { s.record with startup := s.record.startup ++ [system] } }) h
  | addUpdateSystem system next ih =>
    exact ih (s := { s with record := { s.record with update := s.record.update ++ [system] } }) h
  | registerRestoreAnyThread run next ih =>
    refine ih fun action hmem => ?_
    simp only [PluginRecord.registered, Scope.registerRestore, Scope.log, List.filterMap_append,
      List.mem_append] at hmem
    rcases hmem with hmem | hmem
    · exact h action hmem
    · exact ⟨run, by simpa [OwnerEvent.registration] using hmem⟩

theorem registered_rollback (s : Scope V) (main : Bool) :
    (s.rollback main).record.registered = s.record.registered :=
  filterMap_rollback rfl (fun _ _ _ => rfl) rfl s main

theorem AnyThread.addPlugin (plugin : Plugin V) (w : Ledger.Store V) :
    AnyThread (Scope.addPlugin plugin ⟨w, .new plugin.name⟩).record := by
  have hbuild : AnyThread (Scope.build plugin.build ⟨w, .new plugin.name⟩).1.record :=
    AnyThread.build plugin.build nofun
  unfold Scope.addPlugin
  split <;> next heq =>
    rw [heq] at hbuild
    first
    | exact hbuild
    | exact fun action hmem => hbuild action (by rwa [← registered_rollback])

theorem Fresh.tornDown {s : Scope V} (h : Fresh s.record) (hany : AnyThread s.record) :
    TornDown s.record (s.rollback false).record := by
  obtain ⟨hgone, -⟩ := h.toPresent.rollback false
  have hconsumed : (s.rollback false).record.consumed = s.record.registered.reverse := by
    have hrestores := hgone.restores
    rwa [hgone.drained, List.append_nil, registered_rollback] at hrestores
  refine ⟨hgone.retired, hconsumed, fun action token result hmem => ?_⟩
  have hin : action ∈ (s.rollback false).record.consumed :=
    List.mem_filterMap.mpr ⟨_, hmem, rfl⟩
  rw [hconsumed, List.mem_reverse] at hin
  obtain ⟨run, rfl⟩ := hany action hin
  exact ⟨run, rfl, (hgone.outcomes hmem).anyThread_result⟩

theorem teardownAll_tornDown (plugins : List (Plugin V)) {owner : Nat} {r : PluginRecord V}
    (hr : (afterBuilds plugins).records[owner]? = some r) (hactive : r.state = .active) :
    ∃ final, (afterBuilds plugins).teardownAll.records[owner]? = some final ∧ TornDown r final := by
  have hfresh : Fresh r := by
    rcases afterBuilds_records (P := fun r => Fresh r ∨ Gone r) plugins
      (fun plugin w => (Fresh.addPlugin plugin w).1) r (List.mem_of_getElem? hr) with hfresh | hgone
    · exact hfresh
    · cases hactive.symm.trans hgone.retired
  have hany : AnyThread r :=
    afterBuilds_records plugins AnyThread.addPlugin r (List.mem_of_getElem? hr)
  obtain ⟨w, hrecord⟩ := teardownAll_at hr
  refine ⟨_, hrecord, ?_⟩
  simp only [Scope.teardown, hactive]
  exact hfresh.tornDown (s := ⟨_, r⟩) hany

end

-- ---------------------------------------------------------------------------
-- The exits before publication
-- ---------------------------------------------------------------------------

structure Unpublished (s : Boot V) : Prop where
  domainGet : Lawful DomainOk s.trace
  handoff : s.handoff = none
  noContext : .contextPublished ∉ s.trace
  noCas : ∀ expected new ok, .cas expected new ok ∉ s.trace

/-- On the ladder: no App has been built yet. -/
structure Climbing (s : Boot V) : Prop extends Unpublished s where
  built : s.built = none
  result : s.result = none

theorem domainOk_other (before : List BootEvent) (h : ∀ ok, e ≠ .called .domainGet ok) :
    DomainOk before e :=
  fun ok heq => absurd heq (h ok)

theorem ladder_ok (before : List BootEvent) (h : step ≠ .domainGet) (ok : Bool) :
    DomainOk before (.called step ok) :=
  domainOk_other before fun _ heq => h (BootEvent.called.inj heq).1

theorem FailureLaw.of_result {s : Boot V} (hdomain : Lawful DomainOk s.trace)
    (h : s.result ≠ some false) : FailureLaw s :=
  ⟨hdomain, fun hr => absurd hr h, fun hr => absurd hr h, fun hr => absurd hr h,
    fun hr => absurd hr h⟩

/-- Without a context there is only the App to undo. -/
theorem Unpublished.law {s : Boot V} (h : Unpublished s) (htornDown : ∀ app ∈ s.built,
      ∀ (owner : Nat) (r : PluginRecord V), app.records[owner]? = some r → r.state = .active →
      ∃ app' ∈ s.dropped, ∃ final, app'.records[owner]? = some final ∧ TornDown r final) :
    FailureLaw s where
  domainGet := h.domainGet
  tornDown _ := htornDown
  handoff _ := h.handoff
  passThrough _ hcontext := absurd hcontext h.noContext
  restored _ pre post original replacement _ htrace _ :=
    absurd (by rw [htrace]; simp) (h.noCas original replacement true)

theorem Unpublished.log {s : Boot V} (h : Unpublished s) (hdomain : DomainOk s.trace e)
    (hcontext : e ≠ .contextPublished) (hcas : ∀ expected new ok, e ≠ .cas expected new ok) :
    Unpublished (s.log e) where
  domainGet := lawful_concat.mpr ⟨h.domainGet, hdomain⟩
  handoff := h.handoff
  noContext := by simpa [Boot.log, hcontext.symm] using h.noContext
  noCas expected new ok := by
    simpa [Boot.log, (hcas expected new ok).symm] using h.noCas expected new ok

theorem Climbing.init : Climbing (Boot.init : Boot V) := ⟨⟨.nil, rfl, nofun, nofun⟩, rfl, rfl⟩

section

variable [DecidableEq T] {s : Boot V} {deps : BootstrapDeps V}

theorem Climbing.bootstrapFailed (h : Climbing s) : FailureLaw (s.bootstrapFailed none) := by
  have hclosed : Unpublished s.closeGate :=
    Unpublished.log (s := { s with gate := s.gate.close })
      ⟨h.domainGet, h.handoff, h.noContext, h.noCas⟩ (domainOk_other _ nofun) nofun nofun
  refine Unpublished.law (s := s.closeGate.returns false) ⟨hclosed.domainGet, hclosed.handoff,
    hclosed.noContext, hclosed.noCas⟩ fun app happ => ?_
  rw [show (s.closeGate.returns false).built = s.built from rfl, h.built] at happ
  cases happ

/-- One rung: a failure ends in `bootstrap_failed`, a success goes on. -/
theorem Climbing.attempt {answer : Except ε α} {next : α → Boot V → Boot V} (h : Climbing s)
    (hstep : ∀ ok, DomainOk s.trace (.called step ok))
    (hnext : ∀ a, answer = .ok a → Climbing (s.log (.called step true)) →
      FailureLaw (next a (s.log (.called step true)))) :
    FailureLaw (s.attempt step answer next) := by
  have hlog : ∀ ok, Climbing (s.log (.called step ok)) := fun ok =>
    ⟨h.log (hstep ok) nofun nofun, h.built, h.result⟩
  cases answer with
  | error e => exact (hlog false).bootstrapFailed
  | ok a => exact hnext a rfl (hlog true)

theorem Climbing.buildApp (h : Climbing s) (slot : MethodPointerSlot)
    (hlate : ∀ hookSlot, MethodPointerSlot.bind deps.hookSlotRead = .ok hookSlot →
      deps.contextFree = true →
      deps.installCas = true ∧ deps.readback = some deps.replacement ∧ deps.handoffFree = true) :
    FailureLaw (s.buildApp deps slot) := by
  unfold Boot.buildApp SchedulerHook.new
  cases hbind : MethodPointerSlot.bind deps.hookSlotRead with
  | error e =>
    refine .of_result h.domainGet ?_
    simp [h.result]
  | ok hookSlot =>
    cases hfree : deps.contextFree with
    | false =>
      simp only [Bool.false_eq_true, if_false]
      have hlog := h.log (domainOk_other s.trace (e := .teardownAll) nofun) nofun nofun
      refine Unpublished.law ⟨hlog.domainGet, hlog.handoff, hlog.noContext, hlog.noCas⟩
        fun app happ owner r hr hactive => ?_
      cases happ
      exact ⟨_, rfl, teardownAll_tornDown (productionPlugins deps) hr hactive⟩
    | true =>
      obtain ⟨hcas, hreadback, hhandoff⟩ := hlate hookSlot hbind hfree
      simp only [Boot.handOver, Boot.installHook, Boot.install, hcas, hreadback, hhandoff, if_true,
        Bool.false_eq_true, if_false]
      refine .of_result ?_ nofun
      refine lawful_concat.mpr ⟨lawful_concat.mpr ⟨lawful_concat.mpr ⟨h.domainGet, ?_⟩, ?_⟩, ?_⟩
      all_goals exact domainOk_other _ nofun

end

-- ---------------------------------------------------------------------------
-- Failures after publication
-- ---------------------------------------------------------------------------

/-- A published context, and nothing set `failed` when the attempt gave up. -/
structure LeftUnfailed (s : Boot V) : Prop where
  result : s.result = some false
  published : .contextPublished ∈ s.trace
  notFailed : .failedSet ∉ s.trace

theorem LeftUnfailed.not_law {s : Boot V} (h : LeftUnfailed s) : ¬ FailureLaw s := by
  intro hlaw
  obtain ⟨-, hsub⟩ := hlaw.passThrough h.result h.published
  have hmem : .failedSet ∈ s.trace.takeWhile (· ≠ .teardownAll) := hsub.subset (by simp)
  exact h.notFailed ((List.takeWhile_sublist _).subset hmem)

section

variable [DecidableEq T] {deps : BootstrapDeps V}

theorem leftUnfailed_handOver {s : Boot V} (hpublished : .contextPublished ∈ s.trace)
    (hnotFailed : .failedSet ∉ s.trace) {hook : SchedulerHook} (hinstalled : hook.installed = false)
    (app : App V) (hfails : deps.installCas = false ∨ deps.readback ≠ some hook.replacement ∨
      deps.handoffFree = false) : LeftUnfailed (s.handOver deps hook app) := by
  unfold Boot.handOver Boot.installHook Boot.install
  simp only [hinstalled, Bool.false_eq_true, if_false]
  cases hcas : deps.installCas with
  | false => constructor <;> simp [Boot.teardownAll, Boot.closeGate, Boot.returns, Boot.log, *]
  | true =>
    by_cases hreadback : deps.readback = some hook.replacement
    · have hhandoff : deps.handoffFree = false := by simpa [hcas, hreadback] using hfails
      constructor <;> simp [Boot.closeGate, Boot.returns, Boot.log, *]
    · constructor <;>
        simp [Boot.teardownAll, Boot.closeGate, Boot.returns, Boot.log, *]

theorem FailsAfterPublication.leftUnfailed (h : FailsAfterPublication deps) :
    LeftUnfailed (runBootstrap deps) := by
  obtain ⟨⟨himage, hexports, hready, hdomain, hattach, hhydrate, hidentity,
    ⟨method, hresolve, hvalid⟩, ⟨slot, hslot⟩, ⟨hookSlot, hhook⟩, hfree⟩, hfails⟩ := h
  simp only [runBootstrap, Boot.attempt, Boot.buildApp, SchedulerHook.new, himage, hexports,
    hready, hdomain, hattach, hhydrate, hidentity, hresolve, hvalid, hslot, hhook, hfree, if_true]
  apply leftUnfailed_handOver _ _ rfl _ hfails <;> simp [Boot.log, Boot.init]

/-- The failure law holds of a bootstrap iff it does not fail after it has
published its context. -/
theorem failureLaw_iff (deps : BootstrapDeps V) :
    FailureLaw (runBootstrap deps) ↔ ¬ FailsAfterPublication deps := by
  refine ⟨fun hlaw hfails => hfails.leftUnfailed.not_law hlaw, fun hnot => ?_⟩
  refine Climbing.init.attempt (ladder_ok _ nofun) fun _ himage h => ?_
  refine h.attempt (ladder_ok _ nofun) fun _ hexports h => ?_
  refine h.attempt (ladder_ok _ nofun) fun _ hready h => ?_
  refine h.attempt (fun _ _ _ => by simp [Boot.log, Boot.init]) fun _ hdomain h => ?_
  refine h.attempt (ladder_ok _ nofun) fun _ hattach h => ?_
  refine h.attempt (ladder_ok _ nofun) fun _ hhydrate h => ?_
  refine h.attempt (ladder_ok _ nofun) fun _ hidentity h => ?_
  refine h.attempt (ladder_ok _ nofun) fun method hresolve h => ?_
  by_cases hvalid : validateSchedulerMethod method = true
  · rw [if_pos hvalid]
    refine h.attempt (ladder_ok _ nofun) fun slot hslot h => ?_
    refine h.buildApp slot fun hookSlot hhook hfree => ?_
    have hpublishes : Publishes deps := ⟨himage, hexports, hready, hdomain, hattach, hhydrate,
      hidentity, ⟨method, hresolve, hvalid⟩, ⟨slot, hslot⟩, ⟨hookSlot, hhook⟩, hfree⟩
    by_contra hfails
    refine hnot ⟨hpublishes, ?_⟩
    simpa [Classical.or_iff_not_imp_left] using hfails
  · rw [if_neg hvalid]
    exact h.bootstrapFailed

end

/-- The CAS goes through and the readback still sees the original. -/
def unconfirmedInstall : BootstrapDeps (fun _ : Unit => Unit) where
  unityFrameworkImage := .ok ()
  loadExports := .ok ()
  isReady := [.ok false, .ok true]
  domainGet := .ok ()
  attachCurrentThread := .ok ()
  hydrateMetadata := .ok ()
  runtimeIdentity := .ok ()
  resolve target := .ok { target with isGeneric := false, isInflated := false }
  slotRead := some 0x1000
  hookSlotRead := some 0x1000
  config := ⟨false, true, false, false⟩
  debugPlugin := ⟨"debug", .ok⟩
  fpsPlugin := ⟨"unlock_fps", .registerRestoreAnyThread (.returned (.ok ())) .ok⟩
  translationDumpPlugin := ⟨"translation_dump", .ok⟩
  reconPlugin := ⟨"recon", .ok⟩
  contextFree := true
  replacement := 0x2000
  installCas := true
  readback := some 0x1000
  handoffFree := true

/-- The slot is not restored, `failed` is not set, and the gate is closed only
after the restore actions have run. -/
theorem unconfirmed_install_breaks_law :
    (runBootstrap unconfirmedInstall).trace.drop 9 =
      [.contextPublished, .cas 0x1000 0x2000 true, .readback (some 0x1000), .teardownAll,
        .gateClosed] ∧
      ¬ FailureLaw (runBootstrap unconfirmedInstall) := by
  refine ⟨by decide, LeftUnfailed.not_law (FailsAfterPublication.leftUnfailed ⟨?_, ?_⟩)⟩
  · exact ⟨rfl, rfl, rfl, rfl, rfl, rfl, rfl, ⟨_, rfl, by decide⟩, ⟨_, rfl⟩, ⟨_, rfl⟩, rfl⟩
  · exact .inr (.inl (by decide))

end ShinySongTools.Runtime
