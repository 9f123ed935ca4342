import ShinySongTools.Ledger
import ShinySongTools.Core.Gate

/-!
# The App

`App` with its plugin records, the build facade, and the Startup and Update
drivers with the retirement paths. A driver works on one owner's record and
the world at a time; `Scope` is that pair.

What plugins bring along (builds, systems, restore actions) is data here:
everything such a piece of code can do through its context, for every answer
it gets, and what it makes of the resources that are there. Vecs that are
popped are kept newest first. An owner's id is its position. Containers, routes
and topics of an owner, and the reports of the drivers, are left out.
-/

namespace ShinySongTools.Runtime

open Ledger

variable {T : Type u} {V : T → Type v}

/-- What `catch_unwind` gives back. -/
inductive Caught (α : Type u) where
  | returned (value : α)
  | panicked

inductive PluginError (T : Type u) where
  | resourceConflict (typeId : T)
  | other (message : String)

inductive RestoreError where
  | ownershipLost
  | failed
  deriving DecidableEq, Repr

inductive RestoreAction where
  | anyThread (run : Caught (Except RestoreError Unit))
  | mainThread (run : Caught (Except RestoreError Unit))

/-- What a Startup system does to the world and with its context, in one run. -/
structure StartupRun (V : T → Type v) where
  /-- What it makes, in place, of the resources that are there (`ResMut`). -/
  changes : (t : T) → V t → V t
  pending : List (Entry V)
  restores : List RestoreAction
  result : Caught (Except (PluginError T) Unit)

def StartupSystem (V : T → Type v) := Store V → StartupRun V

/-- What an Update system does in one run. -/
structure UpdateRun (V : T → Type v) where
  changes : (t : T) → V t → V t
  result : Caught (Except (PluginError T) Unit)

/-- An Update system; each frame may go differently. -/
def UpdateSystem (V : T → Type v) := Nat → Store V → UpdateRun V

/-- `Plugin::build` on its context. -/
inductive Build (V : T → Type v) where
  | ok
  | err (error : PluginError T)
  | insertResource (resource : Entry V) (next : Except (PluginError T) Unit → Build V)
  | addStartupSystem (system : StartupSystem V) (next : Build V)
  | addUpdateSystem (system : UpdateSystem V) (next : Build V)
  | registerRestoreAnyThread (run : Caught (Except RestoreError Unit)) (next : Build V)

structure Plugin (V : T → Type v) where
  name : String
  build : Build V

inductive PluginState where
  | active
  | retired
  deriving DecidableEq, Repr

inductive Phase where
  | build
  | startup
  | update
  deriving DecidableEq, Repr

structure ResourceLedgerEntry (T : Type u) where
  typeId : T
  order : Nat

/-- What happened to an owner; `token` says whether the caller had a main
thread token. -/
inductive OwnerEvent (V : T → Type v) where
  | registered (action : RestoreAction)
  | inserted (phase : Phase) (resource : Entry V)
  | ran (phase : Phase) (index : Nat) (failed : Bool)
  | gateOpened
  | gateClosed
  | restored (action : RestoreAction) (token : Bool) (result : Except RestoreError Unit)
  | retired

structure PluginRecord (V : T → Type v) where
  name : String
  state : PluginState
  startup : List (StartupSystem V)
  update : List (UpdateSystem V)
  effects : List RestoreAction
  inserted : List (ResourceLedgerEntry T)
  gate : RuntimeGate
  history : List (OwnerEvent V)

def PluginRecord.new (name : String) : PluginRecord V :=
  { name, state := .active, startup := [], update := [], effects := [], inserted := []
    gate := .new, history := [] }

structure Scope (V : T → Type v) where
  world : Store V
  record : PluginRecord V

def nextOrder : List (ResourceLedgerEntry T) → Nat
  | [] => 0
  | e :: _ => e.order + 1

/-- The result of a restore closure inside its `catch_unwind`. -/
def Caught.restored : Caught (Except RestoreError Unit) → Except RestoreError Unit
  | .returned result => result
  | .panicked => .error .failed

def executeRestore (action : RestoreAction) (main : Bool) : Except RestoreError Unit :=
  match action with
  | .anyThread run => run.restored
  | .mainThread run => if main then run.restored else .error .failed

namespace Scope

def log (s : Scope V) (event : OwnerEvent V) : Scope V :=
  { s with record := { s.record with history := s.record.history ++ [event] } }

def registerRestore (s : Scope V) (action : RestoreAction) : Scope V :=
  { s with record := { s.record with effects := action :: s.record.effects } }.log
    (.registered action)

def openGate (s : Scope V) : Scope V :=
  match s.record.gate.openGate with
  | (true, gate) => { s with record := { s.record with gate } }.log .gateOpened
  | (false, gate) => { s with record := { s.record with gate } }

def closeGate (s : Scope V) : Scope V :=
  { s with record := { s.record with gate := s.record.gate.close } }.log .gateClosed

def retire (s : Scope V) : Scope V :=
  { s with record := { s.record with state := .retired } }.log .retired

def drainEffects (main : Bool) : List RestoreAction → Scope V → Scope V
  | [], s => s
  | action :: rest, s =>
    drainEffects main rest
      ({ s with record := { s.record with effects := rest } }.log
        (.restored action main (executeRestore action main)))

variable [DecidableEq T]

def accept (s : Scope V) (phase : Phase) (resource : Entry V) (order : Nat) : Scope V :=
  log
    { world := s.world.put resource
      record := { s.record with inserted := ⟨resource.key, order⟩ :: s.record.inserted } }
    (.inserted phase resource)

/-- The insert closure with its conflict check, and the ledger entry. -/
def applyInsert (s : Scope V) (phase : Phase) (resource : Entry V) (order : Nat) :
    Except (PluginError T) (Scope V) :=
  match s.world resource.key with
  | some _ => .error (.resourceConflict resource.key)
  | none => .ok (s.accept phase resource order)

def insertResourceDyn (s : Scope V) (resource : Entry V) :
    Scope V × Except (PluginError T) Unit :=
  match s.applyInsert .build resource (nextOrder s.record.inserted) with
  | .error e => (s, .error e)
  | .ok s => (s, .ok ())

def build : Build V → Scope V → Scope V × Except (PluginError T) Unit
  | .ok, s => (s, .ok ())
  | .err error, s => (s, .error error)
  | .insertResource resource next, s =>
    build (next (s.insertResourceDyn resource).2) (s.insertResourceDyn resource).1
  | .addStartupSystem system next, s =>
    build next { s with record := { s.record with startup := s.record.startup ++ [system] } }
  | .addUpdateSystem system next, s =>
    build next { s with record := { s.record with update := s.record.update ++ [system] } }
  | .registerRestoreAnyThread run next, s => build next (s.registerRestore (.anyThread run))

def removeResources : List (ResourceLedgerEntry T) → Scope V → Scope V
  | [], s => s
  | e :: rest, s =>
    removeResources rest
      { world := s.world.remove e.typeId, record := { s.record with inserted := rest } }

/-- Gate closed, LIFO resource removal, reverse restore actions, Retired. -/
def rollback (main : Bool) (s : Scope V) : Scope V :=
  let s := s.closeGate
  let s := s.removeResources s.record.inserted
  let s := s.drainEffects main s.record.effects
  s.retire

def buildRollback (s : Scope V) : Scope V := s.rollback false

/-- `add_plugin_dyn` from the build on. -/
def addPlugin (plugin : Plugin V) (s : Scope V) : Scope V :=
  match s.build plugin.build with
  | (s, .ok ()) => s
  | (s, .error _) => s.buildRollback

def startupRollback (s : Scope V) (main : Bool) : Scope V := s.rollback main

def teardown (s : Scope V) : Scope V :=
  match s.record.state with
  | .active => s.rollback false
  | .retired => s

/-- Gate closed, Retired, reverse restore actions; the resources stay. -/
def updateRetire (s : Scope V) (main : Bool) : Scope V :=
  let s := s.closeGate.retire
  s.drainEffects main s.record.effects

/-- The queued inserts of one system, up to the first that conflicts. -/
def applyPending : List (Entry V) → Nat → Scope V → Scope V × Nat × Bool
  | [], order, s => (s, order, false)
  | resource :: rest, order, s =>
    match s.applyInsert .startup resource order with
    | .ok s => applyPending rest (order + 1) s
    | .error _ => (s, order, true)

/-- One Startup system and, if it returned `Ok`, its queued inserts. -/
def runStartupSystem (system : StartupSystem V) (order : Nat) (s : Scope V) :
    Scope V × Nat × Bool :=
  let run := system s.world
  let s := run.restores.foldl registerRestore { s with world := s.world.change run.changes }
  match run.result with
  | .returned (.ok ()) => applyPending run.pending order s
  | .returned (.error _) => (s, order, true)
  | .panicked => (s, order, true)

def runStartupSystems : List (StartupSystem V) → Nat → Nat → Scope V → Scope V × Bool
  | [], _, _, s => (s, false)
  | system :: rest, index, order, s =>
    match runStartupSystem system order s with
    | (s, order, false) =>
      runStartupSystems rest (index + 1) order (s.log (.ran .startup index false))
    | (s, _, true) => (s.log (.ran .startup index true), true)

def runStartup (s : Scope V) : Scope V :=
  match runStartupSystems s.record.startup 0 (nextOrder s.record.inserted) s with
  | (s, false) => s.openGate
  | (s, true) => s.startupRollback true

def runUpdateSystems (frame : Nat) : List (UpdateSystem V) → Nat → Scope V → Scope V × Bool
  | [], _, s => (s, false)
  | system :: rest, index, s =>
    let run := system frame s.world
    let s := { s with world := s.world.change run.changes }
    match run.result with
    | .returned (.ok ()) =>
      runUpdateSystems frame rest (index + 1) (s.log (.ran .update index false))
    | .returned (.error _) => (s.log (.ran .update index true), true)
    | .panicked => (s.log (.ran .update index true), true)

def runUpdate (frame : Nat) (s : Scope V) : Scope V :=
  match runUpdateSystems frame s.record.update 0 s with
  | (s, false) => s
  | (s, true) => s.updateRetire true

end Scope

structure App (V : T → Type v) where
  world : Store V
  records : List (PluginRecord V)
  startupCompleted : Bool

namespace App

def new : App V := ⟨.empty, [], false⟩

/-- `record_mut` for an id of this manager. -/
def withOwner (app : App V) (owner : Nat) (f : Scope V → Scope V) : App V :=
  match app.records[owner]? with
  | some record =>
    let s := f ⟨app.world, record⟩
    { app with world := s.world, records := app.records.set owner s.record }
  | none => app

def isActive (app : App V) (owner : Nat) : Bool :=
  match app.records[owner]? with
  | some record => record.state = .active
  | none => false

def activeOwnerIds (app : App V) : List Nat := (List.range app.records.length).filter app.isActive

/-- The loop of a driver over the owners. -/
def forOwners (app : App V) (owners : List Nat) (f : Scope V → Scope V) : App V :=
  owners.foldl (fun app owner => app.withOwner owner f) app

variable [DecidableEq T]

def addPlugin (app : App V) (plugin : Plugin V) : App V :=
  let owner := app.records.length
  { app with records := app.records ++ [PluginRecord.new plugin.name] }.withOwner owner
    (Scope.addPlugin plugin)

def teardownAll (app : App V) : App V :=
  app.forOwners (List.range app.records.length).reverse Scope.teardown

def runStartup (app : App V) : App V :=
  { app.forOwners app.activeOwnerIds Scope.runStartup with startupCompleted := true }

def runUpdate (app : App V) (frame : Nat) : App V :=
  app.forOwners app.activeOwnerIds (Scope.runUpdate frame)

end App
end ShinySongTools.Runtime
