import ShinySongTools.Machine
import ShinySongTools.Runtime.Bootstrap
import ShinySongTools.Runtime.Observability

/-!
# The start

`scsp_start` called any number of times, from any threads, with the worker it
spawns, the file it reads and all who edit that file meanwhile. A call is a
line of accesses to what is shared; it can be unwound before each of them. What
the file's text is parsed to is the TOML parser's answer, a parameter.
-/

namespace ShinySongTools.Runtime.Startup

open Machine
open Observability (CompactEvent)

-- ---------------------------------------------------------------------------
-- The configuration
-- ---------------------------------------------------------------------------

/-- A TOML value, as far as its kind is looked at. -/
inductive Toml where
  | boolean (value : Bool)
  | table (entries : List (String × Toml))
  | other

namespace Toml

def asBool : Toml → Option Bool
  | .boolean value => some value
  | .table _ | .other => none

def asTable : Toml → Option (List (String × Toml))
  | .table entries => some entries
  | .boolean _ | .other => none

def get (value : Toml) (key : String) : Option Toml := value.asTable.bind (·.lookup key)

end Toml

/-- The fields the schema defines, each false unless it is set. -/
inductive Field where
  | debugEnabled
  | unlockFps
  | translationDump
  | reconEnabled
  deriving DecidableEq, Repr

namespace Field

def «section» : Field → String
  | .debugEnabled => "debug"
  | .unlockFps => "fps"
  | .translationDump => "translation"
  | .reconEnabled => "recon"

def key : Field → String
  | .debugEnabled => "enabled"
  | .unlockFps => "unlock_fps"
  | .translationDump => "dump"
  | .reconEnabled => "enabled"

def read (config : RuntimeConfig) : Field → Bool
  | .debugEnabled => config.debugEnabled
  | .unlockFps => config.unlockFps
  | .translationDump => config.translationDump
  | .reconEnabled => config.reconEnabled

end Field

def defaultConfig : RuntimeConfig := ⟨false, false, false, false⟩

def parseField (value : Toml) (field : Field) : Option Bool :=
  match value.get field.section with
  | none => some false
  | some part => do
    let table ← part.asTable
    match table.lookup field.key with
    | none => some false
    | some value => value.asBool

def parseConfig (fromStr : String → Option Toml) (text : String) : Option RuntimeConfig := do
  let value ← fromStr text
  let _ ← value.asTable
  let debugEnabled ← parseField value .debugEnabled
  let unlockFps ← parseField value .unlockFps
  let translationDump ← parseField value .translationDump
  let reconEnabled ← parseField value .reconEnabled
  return { debugEnabled, unlockFps, translationDump, reconEnabled }

/-- A field that is not there, or is a boolean in a section that is a table. -/
def WellTyped (entries : List (String × Toml)) (field : Field) : Prop :=
  ∀ part ∈ entries.lookup field.section, ∃ table, part = .table table ∧
    ∀ value ∈ table.lookup field.key, ∃ b, value = .boolean b

def SetTrue (entries : List (String × Toml)) (field : Field) : Prop :=
  ∃ table, entries.lookup field.section = some (.table table) ∧
    table.lookup field.key = some (.boolean true)

theorem parseField_iff {entries : List (String × Toml)} {field : Field} {b : Bool} :
    parseField (.table entries) field = some b ↔
      WellTyped entries field ∧ (b = true ↔ SetTrue entries field) := by
  have hget : (Toml.table entries).get field.section = entries.lookup field.section := rfl
  rw [parseField, hget]
  unfold WellTyped SetTrue
  cases entries.lookup field.section with
  | none => simp
  | some part =>
    cases part with
    | boolean value => simp [Toml.asTable]
    | other => simp [Toml.asTable]
    | table table =>
      cases hvalue : table.lookup field.key with
      | none => simp [Toml.asTable, hvalue]
      | some value =>
        cases value with
        | boolean value => simp [Toml.asTable, Toml.asBool, hvalue, eq_comm]
        | table | other => simp [Toml.asTable, Toml.asBool, hvalue]

theorem parseConfig_iff {fromStr : String → Option Toml} {text : String} {config : RuntimeConfig} :
    parseConfig fromStr text = some config ↔ ∃ entries, fromStr text = some (.table entries) ∧
      ∀ field, parseField (.table entries) field = some (field.read config) := by
  rw [parseConfig]
  cases hvalue : fromStr text with
  | none => simp
  | some value =>
    cases value with
    | boolean | other => simp [Toml.asTable]
    | table entries =>
      constructor
      · intro hparsed
        simp only [Toml.asTable, Option.bind_eq_bind, Option.bind_some,
          Option.bind_eq_some_iff, Option.pure_def, Option.some.injEq] at hparsed
        obtain ⟨debug, hdebug, fps, hfps, dump, hdump, recon, hrecon, rfl⟩ := hparsed
        refine ⟨entries, rfl, fun field => ?_⟩
        cases field <;> assumption
      · rintro ⟨_, ⟨rfl⟩, hfields⟩
        simp [Toml.asTable, hfields, Field.read]

/-- The configuration a start ends up with, of the text it could read. -/
def configOf (fromStr : String → Option Toml) (text : Option String) : RuntimeConfig :=
  (text.bind (parseConfig fromStr)).getD defaultConfig

/-- The text sets the field, and no field of it is malformed. -/
def EnabledBy (fromStr : String → Option Toml) (text : Option String) (field : Field) : Prop :=
  ∃ t ∈ text, ∃ entries, fromStr t = some (.table entries) ∧
    (∀ other, WellTyped entries other) ∧ SetTrue entries field

theorem read_configOf_iff {fromStr : String → Option Toml} {text : Option String}
    (field : Field) :
    field.read (configOf fromStr text) = true ↔ EnabledBy fromStr text field := by
  constructor
  · intro hread
    rw [configOf] at hread
    cases hparsed : text.bind (parseConfig fromStr) with
    | none =>
      rw [hparsed] at hread
      cases field <;> cases hread
    | some config =>
      rw [hparsed] at hread
      obtain ⟨t, ht, hconfig⟩ := Option.bind_eq_some_iff.mp hparsed
      obtain ⟨entries, hentries, hfields⟩ := parseConfig_iff.mp hconfig
      refine ⟨t, ht, entries, hentries, fun other => (parseField_iff.mp (hfields other)).1, ?_⟩
      exact (parseField_iff.mp (hfields field)).2.mp hread
  · rintro ⟨t, ht, entries, hentries, htyped, hset⟩
    have hvalues : ∀ other, ∃ b, parseField (.table entries) other = some b := fun other => by
      by_cases htrue : SetTrue entries other
      · exact ⟨true, parseField_iff.mpr ⟨htyped other, by simpa using htrue⟩⟩
      · exact ⟨false, parseField_iff.mpr ⟨htyped other, by simpa using htrue⟩⟩
    choose value hvalue using hvalues
    have hconfig : parseConfig fromStr t =
        some ⟨value .debugEnabled, value .unlockFps, value .translationDump, value .reconEnabled⟩ :=
      parseConfig_iff.mpr ⟨entries, hentries, fun other => by cases other <;> exact hvalue _⟩
    have hfield := (parseField_iff.mp (hvalue field)).2.mpr hset
    rw [configOf, ht, Option.bind_some, hconfig]
    cases field <;> exact hfield

-- ---------------------------------------------------------------------------
-- The files
-- ---------------------------------------------------------------------------

structure DataRoot where
  path : String
  deriving DecidableEq, Repr

/-- `shiny-song-tools/scsp.toml` under every root: which file it names, and what
the files hold. -/
structure Files where
  entry : DataRoot → Option Nat
  content : Nat → List UInt8
  next : Nat
  lt_next : ∀ root file, entry root = some file → file < next

inductive ReadError where
  | notFound
  | other
  deriving DecidableEq, Repr

/-- What others do to the files. -/
inductive Edit where
  | replace (root : DataRoot) (bytes : List UInt8)
  | rewrite (file : Nat) (bytes : List UInt8)
  | remove (root : DataRoot)

namespace Files

def create (files : Files) (root : DataRoot) (bytes : List UInt8) : Files where
  entry := Function.update files.entry root (some files.next)
  content := Function.update files.content files.next bytes
  next := files.next + 1
  lt_next := by
    intro other file hfile
    by_cases hother : other = root
    · rw [hother, Function.update_self] at hfile
      cases hfile
      exact Nat.lt_succ_self _
    · rw [Function.update_of_ne hother] at hfile
      exact Nat.lt_succ_of_lt (files.lt_next other file hfile)

def remove (files : Files) (root : DataRoot) : Files where
  entry := Function.update files.entry root none
  content := files.content
  next := files.next
  lt_next := by
    intro other file hfile
    by_cases hother : other = root
    · rw [hother, Function.update_self] at hfile
      cases hfile
    · rw [Function.update_of_ne hother] at hfile
      exact files.lt_next other file hfile

def setContent (files : Files) (file : Nat) (bytes : List UInt8) : Files :=
  { files with content := Function.update files.content file bytes }

def edit (files : Files) : Edit → Files
  | .replace root bytes => files.create root bytes
  | .rewrite file bytes => files.setContent file bytes
  | .remove root => files.remove root

def readToString (files : Files) (root : DataRoot) (ok : Bool) : Except ReadError String :=
  if ok then
    match files.entry root with
    | none => .error .notFound
    | some file =>
      match String.fromUTF8? ⟨(files.content file).toArray⟩ with
      | none => .error .other
      | some text => .ok text
  else .error .other

def writeAll (files : Files) (file : Nat) (bytes : List UInt8) : Files :=
  files.setContent file (bytes ++ (files.content file).drop bytes.length)

end Files

def emptyConfig : String :=
  "# Shiny Song Tools runtime configuration.\n" ++
    "# Empty by default: all optional plugins remain disabled.\n"

-- ---------------------------------------------------------------------------
-- The process
-- ---------------------------------------------------------------------------

/-- What a call does next. -/
inductive Phase where
  | claim
  | copyPath
  | read (root : DataRoot)
  | create (root : DataRoot)
  | write (root : DataRoot) (file : Nat)
  | spawn (root : DataRoot) (config : RuntimeConfig)
  | recover
  | returned

structure Call where
  /-- The C string's bytes, unless the pointer is null. -/
  path : Option (List UInt8)
  phase : Phase
  /-- It has found the marker unset. -/
  first : Bool
  /-- What it has read of the configuration. -/
  text : Option String

inductive WorkerPhase where
  | awaitImage
  | bootstrap
  | ended
  deriving DecidableEq, Repr

structure Worker where
  call : Nat
  root : DataRoot
  config : RuntimeConfig
  phase : WorkerPhase

variable {T : Type u} {V : T → Type v}

structure Process (V : T → Type v) where
  /-- `STARTED` -/
  started : Bool
  calls : List Call
  files : Files
  /-- The files that calls have created. -/
  created : List Nat
  workers : List Worker
  /-- `SCHEDULER` has been set. -/
  contextSet : Bool
  /-- What the bootstrap attempts were given. -/
  boots : List (BootstrapDeps V)
  /-- The compact events of calls that were unwound. -/
  submitted : List CompactEvent

/-- `ok` is whether the access succeeds, `written` how much of a write does. -/
inductive Action (V : T → Type v) where
  | start (path : Option (List UInt8))
  | step (call : Nat) (ok : Bool) (written : Nat)
  | unwind (call : Nat)
  | image (worker : Nat) (found : Bool)
  | bootstrap (worker : Nat) (deps : BootstrapDeps V)
  | edit (edit : Edit)

def copyDocumentsPath : Option (List UInt8) → Option DataRoot
  | none => none
  | some bytes =>
    match String.fromUTF8? ⟨bytes.toArray⟩ with
    | none => none
    | some text => if text.isEmpty then none else some ⟨text⟩

namespace Process

def init (files : Files) : Process V where
  started := false
  calls := []
  files := files
  created := []
  workers := []
  contextSet := false
  boots := []
  submitted := []

def setCall (s : Process V) (i : Nat) (call : Call) : Process V :=
  { s with calls := s.calls.set i call }

def goTo (s : Process V) (i : Nat) (call : Call) (phase : Phase) : Process V :=
  s.setCall i { call with phase }

def createConfig (s : Process V) (root : DataRoot) : Process V :=
  { s with files := s.files.create root [], created := s.created ++ [s.files.next] }

def writeConfig (s : Process V) (file written : Nat) : Process V :=
  { s with files := s.files.writeAll file (emptyConfig.toUTF8.toList.take written) }

def spawn (s : Process V) (worker : Worker) : Process V :=
  { s with workers := s.workers ++ [worker] }

def tryEmit (s : Process V) (event : CompactEvent) : Process V :=
  { s with submitted := s.submitted ++ [event] }

/-- The next access of a call. -/
def stepCall (fromStr : String → Option Toml) (s : Process V) (i : Nat) (call : Call) (ok : Bool)
    (written : Nat) : Option (Process V) :=
  match call.phase with
  | .claim =>
    if s.started then s.goTo i call .returned
    else { s with started := true }.setCall i { call with first := true, phase := .copyPath }
  | .copyPath =>
    match copyDocumentsPath call.path with
    | none => s.goTo i call .returned
    | some root => s.goTo i call (.read root)
  | .read root =>
    match s.files.readToString root ok with
    | .ok text =>
      let config := (parseConfig fromStr text).getD defaultConfig
      s.setCall i { call with text := some text, phase := .spawn root config }
    | .error .notFound => s.goTo i call (.create root)
    | .error .other => s.goTo i call (.spawn root defaultConfig)
  | .create root =>
    if ok = true ∧ s.files.entry root = none then
      (s.createConfig root).goTo i call (.write root s.files.next)
    else s.goTo i call (.spawn root defaultConfig)
  | .write root file =>
    (s.writeConfig file written).goTo i call (.spawn root defaultConfig)
  | .spawn root config =>
    if ok then (s.spawn ⟨i, root, config, .awaitImage⟩).goTo i call .returned
    else s.goTo i call .returned
  | .recover =>
    (s.tryEmit (.new Observability.CompactCodes.ffiEntryPanicked .error)).goTo i call .returned
  | .returned => none

def setWorker (s : Process V) (i : Nat) (worker : Worker) : Process V :=
  { s with workers := s.workers.set i worker }

section

variable [DecidableEq T]

def boot (s : Process V) (deps : BootstrapDeps V) : Process V :=
  { s with
    contextSet := s.contextSet || (runBootstrap deps).trace.contains .contextPublished
    boots := s.boots ++ [deps] }

def step (fromStr : String → Option Toml) (s : Process V) : Action V → Option (Process V)
  | .start path => some { s with calls := s.calls ++ [⟨path, .claim, false, none⟩] }
  | .step i ok written => (s.calls[i]?).bind fun call => s.stepCall fromStr i call ok written
  | .unwind i => (s.calls[i]?).bind fun call =>
    match call.phase with
    | .recover | .returned => none
    | _ => s.goTo i call .recover
  | .image i found => (s.workers[i]?).bind fun worker =>
    match worker.phase with
    | .awaitImage => s.setWorker i { worker with phase := if found then .bootstrap else .ended }
    | .bootstrap | .ended => none
  | .bootstrap i deps => (s.workers[i]?).bind fun worker =>
    match worker.phase with
    | .bootstrap =>
      (s.setWorker i { worker with phase := .ended }).boot
        { deps with config := worker.config, contextFree := !s.contextSet }
    | .awaitImage | .ended => none
  | .edit edit => some { s with files := s.files.edit edit }

end

end Process

/-- The call that spawned a worker, and what it had found out by then. -/
def Process.StartedBy (fromStr : String → Option Toml) (s : Process V) (worker : Worker) : Prop :=
  ∃ call, s.calls[worker.call]? = some call ∧ call.phase = .returned ∧ call.first = true ∧
    copyDocumentsPath call.path = some worker.root ∧ worker.config = configOf fromStr call.text

/-- There has been one start, if any: the first call's. -/
structure SingleStart (fromStr : String → Option Toml) (s : Process V) : Prop where
  claims : s.calls.countP Call.first ≤ 1
  workers : s.workers.length ≤ 1
  startedBy : ∀ worker ∈ s.workers, s.StartedBy fromStr worker
  boots : s.boots.length ≤ 1
  /-- The attempt finds the scheduler's context unset. -/
  attempts : ∀ deps ∈ s.boots, deps.contextFree = true ∧
    ∃ worker ∈ s.workers, deps.config = worker.config

-- ---------------------------------------------------------------------------
-- The right to start
-- ---------------------------------------------------------------------------

/-- A call that has won the marker and not yet used or lost the right to spawn. -/
def Call.mayStart (call : Call) : Bool :=
  match call.phase with
  | .copyPath | .read _ | .create _ | .write _ _ | .spawn _ _ => true
  | .claim | .recover | .returned => false

def Worker.mayBoot (worker : Worker) : Bool :=
  match worker.phase with
  | .awaitImage | .bootstrap => true
  | .ended => false

/-- What a call has found out by the time it is where it is. -/
def Call.Sound (fromStr : String → Option Toml) (call : Call) : Prop :=
  match call.phase with
  | .claim => call.first = false ∧ call.text = none
  | .copyPath => call.first = true ∧ call.text = none
  | .read root | .create root | .write root _ =>
    call.first = true ∧ call.text = none ∧ copyDocumentsPath call.path = some root
  | .spawn root config =>
    call.first = true ∧ copyDocumentsPath call.path = some root ∧
      config = configOf fromStr call.text
  | .recover | .returned => True

/-- The right to start is the unset marker's, then a call's, then a worker's. -/
structure Inv (fromStr : String → Option Toml) (s : Process V) : Prop where
  starts : (!s.started).toNat + s.calls.countP Call.mayStart + s.workers.length ≤ 1
  claims : (!s.started).toNat + s.calls.countP Call.first ≤ 1
  boots : s.boots.length + s.workers.countP Worker.mayBoot ≤ s.workers.length
  context : s.contextSet = true → s.boots ≠ []
  sound : ∀ call ∈ s.calls, call.Sound fromStr
  startedBy : ∀ worker ∈ s.workers, s.StartedBy fromStr worker
  attempts : ∀ deps ∈ s.boots, deps.contextFree = true ∧
    ∃ worker ∈ s.workers, deps.config = worker.config

variable {fromStr : String → Option Toml} {s s' : Process V} {i : Nat} {call call' : Call}

theorem Inv.singleStart (h : Inv fromStr s) : SingleStart fromStr s where
  claims := Nat.le_trans (Nat.le_add_left ..) h.claims
  workers := Nat.le_trans (Nat.le_add_left ..) h.starts
  startedBy := h.startedBy
  boots := by
    have hstarts := h.starts
    have hboots := h.boots
    omega
  attempts := h.attempts

theorem Inv.init (files : Files) : Inv fromStr (.init files : Process V) := by
  constructor <;> simp [Process.init]

theorem countP_set_add {α : Type u} {p : α → Bool} {l : List α} {a : α} (h : l[i]? = some a)
    (b : α) : (l.set i b).countP p + (p a).toNat = l.countP p + (p b).toNat := by
  obtain ⟨hi, rfl⟩ := List.getElem?_eq_some_iff.mp h
  have hle : (if p l[i] then 1 else 0) ≤ l.countP p := List.boole_getElem_le_countP hi
  rw [List.countP_set hi]
  cases hp : p l[i] <;> cases p b <;> simp_all

/-- What is known of a worker's call stays, since that call has returned. -/
theorem Process.StartedBy.setCall {worker : Worker} (h : s.StartedBy fromStr worker)
    (hcall : s.calls[i]? = some call) (hphase : call.phase ≠ .returned)
    (hcalls : s'.calls = s.calls.set i call') : s'.StartedBy fromStr worker := by
  obtain ⟨started, hstarted, hreturned, hrest⟩ := h
  refine ⟨started, ?_, hreturned, hrest⟩
  have hne : i ≠ worker.call := by
    rintro rfl
    cases hcall.symm.trans hstarted
    exact hphase hreturned
  rwa [hcalls, List.getElem?_set_ne hne]

structure Turn (s s' : Process V) (i : Nat) (call' : Call) : Prop where
  calls : s'.calls = s.calls.set i call'
  workers : s'.workers = s.workers
  boots : s'.boots = s.boots
  contextSet : s'.contextSet = s.contextSet

theorem Inv.turn (h : Inv fromStr s) (ht : Turn s s' i call') (hcall : s.calls[i]? = some call)
    (hphase : call.phase ≠ .returned) (hsound : call'.Sound fromStr)
    (hstart : (!s'.started).toNat + call'.mayStart.toNat ≤
      (!s.started).toNat + call.mayStart.toNat)
    (hfirst : (!s'.started).toNat + call'.first.toNat ≤ (!s.started).toNat + call.first.toNat) :
    Inv fromStr s' where
  starts := by
    have hcount := countP_set_add (p := Call.mayStart) hcall call'
    have hstarts := h.starts
    rw [ht.calls, ht.workers]
    omega
  claims := by
    have hcount := countP_set_add (p := Call.first) hcall call'
    have hclaims := h.claims
    rw [ht.calls]
    omega
  boots := by rw [ht.boots, ht.workers]; exact h.boots
  context := by rw [ht.boots, ht.contextSet]; exact h.context
  sound other hother := by
    rw [ht.calls] at hother
    rcases List.mem_or_eq_of_mem_set hother with hold | rfl
    · exact h.sound other hold
    · exact hsound
  startedBy worker hworker :=
    (h.startedBy worker (ht.workers ▸ hworker)).setCall hcall hphase ht.calls
  attempts deps hdeps := by rw [ht.workers]; exact h.attempts deps (ht.boots ▸ hdeps)

theorem Inv.goOn (h : Inv fromStr s) (ht : Turn s s' i call') (hcall : s.calls[i]? = some call)
    (hphase : call.phase ≠ .returned) (hsound : call'.Sound fromStr)
    (hmay : call'.mayStart = true → call.mayStart = true) (hfirst : call'.first = call.first)
    (hstarted : s'.started = s.started) : Inv fromStr s' := by
  refine h.turn ht hcall hphase hsound ?_ ?_
  · rw [hstarted]
    exact Nat.add_le_add_left (Bool.toNat_le_toNat hmay) _
  · rw [hstarted, hfirst]

theorem Inv.spawn (h : Inv fromStr s) {root : DataRoot} {config : RuntimeConfig}
    (hcall : s.calls[i]? = some call) (hphase : call.phase = .spawn root config) :
    Inv fromStr ((s.spawn ⟨i, root, config, .awaitImage⟩).goTo i call .returned) where
  starts := by
    have hcount := countP_set_add (p := Call.mayStart) hcall { call with phase := .returned }
    have hstarts := h.starts
    have hmay : call.mayStart = true := by rw [Call.mayStart, hphase]
    rw [hmay] at hcount
    simp only [Process.goTo, Process.setCall, Process.spawn, List.length_append,
      List.length_singleton]
    simp only [Call.mayStart, Bool.toNat_true, Bool.toNat_false] at hcount ⊢
    omega
  claims := by
    have hcount := countP_set_add (p := Call.first) hcall { call with phase := .returned }
    have hclaims := h.claims
    simp only [Process.goTo, Process.setCall, Process.spawn] at hcount ⊢
    omega
  boots := by
    have hboots := h.boots
    simp only [Process.goTo, Process.setCall, Process.spawn, List.length_append,
      List.length_singleton, List.countP_append, List.countP_singleton, Worker.mayBoot, if_true]
    omega
  context := h.context
  sound other hother := by
    rcases List.mem_or_eq_of_mem_set hother with hold | rfl
    · exact h.sound other hold
    · trivial
  startedBy worker hworker := by
    rcases List.mem_append.mp hworker with hold | hnew
    · exact (h.startedBy worker hold).setCall hcall (by rw [hphase]; nofun) rfl
    · obtain rfl := List.mem_singleton.mp hnew
      have hsound := h.sound call (List.mem_of_getElem? hcall)
      simp only [Call.Sound, hphase] at hsound
      obtain ⟨hi, -⟩ := List.getElem?_eq_some_iff.mp hcall
      exact ⟨{ call with phase := .returned }, List.getElem?_set_self hi, rfl, hsound⟩
  attempts deps hdeps := by
    obtain ⟨hfree, worker, hworker, hconfig⟩ := h.attempts deps hdeps
    exact ⟨hfree, worker, List.mem_append_left _ hworker, hconfig⟩

/-- One access of a call, whatever it answers. -/
theorem Inv.stepCall (h : Inv fromStr s) (hcall : s.calls[i]? = some call)
    (hs : s.stepCall fromStr i call ok written = some s') : Inv fromStr s' := by
  have hsound := h.sound call (List.mem_of_getElem? hcall)
  have hne : call.phase ≠ .returned := by
    intro hreturned
    simp [Process.stepCall, hreturned] at hs
  have hdefault (htext : call.text = none) : defaultConfig = configOf fromStr call.text := by
    rw [htext]
    rfl
  rw [Process.stepCall] at hs
  cases hphase : call.phase with
  | claim =>
    simp only [hphase] at hs
    simp only [Call.Sound, hphase] at hsound
    split at hs
    · cases hs
      exact h.goOn ⟨rfl, rfl, rfl, rfl⟩ hcall hne trivial nofun rfl rfl
    · next hstarted =>
      cases hs
      refine h.turn ⟨rfl, rfl, rfl, rfl⟩ hcall hne ⟨rfl, hsound.2⟩ ?_ ?_
      · simp [Process.setCall, Call.mayStart, hstarted]
      · simp [Process.setCall, hstarted]
  | copyPath =>
    simp only [hphase] at hs
    simp only [Call.Sound, hphase] at hsound
    split at hs
    · cases hs
      exact h.goOn ⟨rfl, rfl, rfl, rfl⟩ hcall hne trivial nofun rfl rfl
    · next root hroot =>
      cases hs
      refine h.goOn ⟨rfl, rfl, rfl, rfl⟩ hcall hne ⟨hsound.1, hsound.2, hroot⟩ ?_ rfl rfl
      simp [Call.mayStart, hphase]
  | read root =>
    simp only [hphase] at hs
    simp only [Call.Sound, hphase] at hsound
    obtain ⟨hfirst, htext, hroot⟩ := hsound
    split at hs
    · cases hs
      refine h.goOn ⟨rfl, rfl, rfl, rfl⟩ hcall hne ⟨hfirst, hroot, rfl⟩ ?_ rfl rfl
      simp [Call.mayStart, hphase]
    · cases hs
      refine h.goOn ⟨rfl, rfl, rfl, rfl⟩ hcall hne ⟨hfirst, htext, hroot⟩ ?_ rfl rfl
      simp [Call.mayStart, hphase]
    · cases hs
      refine h.goOn ⟨rfl, rfl, rfl, rfl⟩ hcall hne ⟨hfirst, hroot, hdefault htext⟩ ?_ rfl rfl
      simp [Call.mayStart, hphase]
  | create root =>
    simp only [hphase] at hs
    simp only [Call.Sound, hphase] at hsound
    obtain ⟨hfirst, htext, hroot⟩ := hsound
    split at hs
    · cases hs
      refine h.goOn ⟨rfl, rfl, rfl, rfl⟩ hcall hne ⟨hfirst, htext, hroot⟩ ?_ rfl rfl
      simp [Call.mayStart, hphase]
    · cases hs
      refine h.goOn ⟨rfl, rfl, rfl, rfl⟩ hcall hne ⟨hfirst, hroot, hdefault htext⟩ ?_ rfl rfl
      simp [Call.mayStart, hphase]
  | write root file =>
    simp only [hphase] at hs
    simp only [Call.Sound, hphase] at hsound
    obtain ⟨hfirst, htext, hroot⟩ := hsound
    cases hs
    refine h.goOn ⟨rfl, rfl, rfl, rfl⟩ hcall hne ⟨hfirst, hroot, hdefault htext⟩ ?_ rfl rfl
    simp [Call.mayStart, hphase]
  | spawn root config =>
    simp only [hphase] at hs
    split at hs
    · cases hs
      exact h.spawn hcall hphase
    · cases hs
      exact h.goOn ⟨rfl, rfl, rfl, rfl⟩ hcall hne trivial nofun rfl rfl
  | recover =>
    simp only [hphase] at hs
    cases hs
    exact h.goOn ⟨rfl, rfl, rfl, rfl⟩ hcall hne trivial nofun rfl rfl
  | returned => exact absurd hphase hne

-- ---------------------------------------------------------------------------
-- The one attempt
-- ---------------------------------------------------------------------------

theorem Inv.start (h : Inv fromStr s) (path : Option (List UInt8)) :
    Inv fromStr { s with calls := s.calls ++ [⟨path, .claim, false, none⟩] } where
  starts := by simpa [Call.mayStart] using h.starts
  claims := by simpa using h.claims
  boots := h.boots
  context := h.context
  sound call hcall := by
    rcases List.mem_append.mp hcall with hold | hnew
    · exact h.sound call hold
    · obtain rfl := List.mem_singleton.mp hnew
      exact ⟨rfl, rfl⟩
  startedBy worker hworker := by
    obtain ⟨call, hcall, hrest⟩ := h.startedBy worker hworker
    obtain ⟨hi, -⟩ := List.getElem?_eq_some_iff.mp hcall
    exact ⟨call, (List.getElem?_append_left hi).trans hcall, hrest⟩
  attempts := h.attempts

variable {worker : Worker}

theorem Inv.setWorker (h : Inv fromStr s) (hworker : s.workers[i]? = some worker)
    (phase : WorkerPhase)
    (hmay : Worker.mayBoot { worker with phase } = true → worker.mayBoot = true) :
    Inv fromStr (s.setWorker i { worker with phase }) where
  starts := by simpa [Process.setWorker] using h.starts
  claims := h.claims
  boots := by
    have hcount := countP_set_add (p := Worker.mayBoot) hworker { worker with phase }
    have hle := Bool.toNat_le_toNat hmay
    have hboots := h.boots
    simp only [Process.setWorker, List.length_set] at hcount ⊢
    omega
  context := h.context
  sound := h.sound
  startedBy other hother := by
    rcases List.mem_or_eq_of_mem_set hother with hold | rfl
    · exact h.startedBy other hold
    · exact h.startedBy worker (List.mem_of_getElem? hworker)
  attempts deps hdeps := by
    obtain ⟨hfree, other, hother, hconfig⟩ := h.attempts deps hdeps
    refine ⟨hfree, ?_⟩
    obtain ⟨j, hj⟩ := List.getElem?_of_mem hother
    obtain ⟨hi, -⟩ := List.getElem?_eq_some_iff.mp hworker
    by_cases hij : i = j
    · subst hij
      cases hworker.symm.trans hj
      exact ⟨_, List.mem_of_getElem? (List.getElem?_set_self hi), hconfig⟩
    · exact ⟨other, List.mem_of_getElem? ((List.getElem?_set_ne hij).trans hj), hconfig⟩

section

variable [DecidableEq T]

/-- A worker that may boot is the first to: nothing has set the context yet. -/
theorem Inv.bootstrap (h : Inv fromStr s) (hworker : s.workers[i]? = some worker)
    (hphase : worker.phase = .bootstrap) (deps : BootstrapDeps V) :
    Inv fromStr ((s.setWorker i { worker with phase := .ended }).boot
      { deps with config := worker.config, contextFree := !s.contextSet }) := by
  have hmay : worker.mayBoot = true := by rw [Worker.mayBoot, hphase]
  have hended : Worker.mayBoot { worker with phase := .ended } = false := rfl
  have hcount := countP_set_add (p := Worker.mayBoot) hworker { worker with phase := .ended }
  rw [hmay, hended, Bool.toNat_true, Bool.toNat_false] at hcount
  have hset := h.setWorker hworker .ended nofun
  obtain ⟨hi, -⟩ := List.getElem?_eq_some_iff.mp hworker
  have hnone : s.boots = [] := by
    have hstarts := h.starts
    have hboots := h.boots
    exact List.eq_nil_of_length_eq_zero (by omega)
  have hcontext : s.contextSet = false := by
    by_contra hcontext
    exact h.context (Bool.eq_true_of_not_eq_false hcontext) hnone
  refine ⟨hset.starts, hset.claims, ?_, fun _ => by simp [Process.boot], hset.sound,
    hset.startedBy, fun other hother => ?_⟩
  · have hboots := h.boots
    simp only [Process.boot, Process.setWorker, List.length_append, List.length_singleton,
      List.length_set]
    omega
  · rcases List.mem_append.mp hother with hold | hnew
    · exact hset.attempts other hold
    · obtain rfl := List.mem_singleton.mp hnew
      exact ⟨by simp [hcontext], _, List.mem_of_getElem? (List.getElem?_set_self hi), rfl⟩

theorem Inv.step (h : Inv fromStr s) {a : Action V} (hs : s.step fromStr a = some s') :
    Inv fromStr s' := by
  cases a with
  | start path =>
    cases hs
    exact h.start path
  | step i ok written =>
    obtain ⟨call, hcall, hs⟩ := Option.bind_eq_some_iff.mp hs
    exact h.stepCall hcall hs
  | unwind i =>
    obtain ⟨call, hcall, hs⟩ := Option.bind_eq_some_iff.mp hs
    split at hs
    · cases hs
    · cases hs
    · next hne =>
      cases hs
      exact h.goOn ⟨rfl, rfl, rfl, rfl⟩ hcall hne trivial nofun rfl rfl
  | image i found =>
    obtain ⟨worker, hworker, hs⟩ := Option.bind_eq_some_iff.mp hs
    split at hs
    · next hphase =>
      cases hs
      exact h.setWorker hworker _ fun _ => by rw [Worker.mayBoot, hphase]
    · cases hs
    · cases hs
  | bootstrap i deps =>
    obtain ⟨worker, hworker, hs⟩ := Option.bind_eq_some_iff.mp hs
    split at hs
    · next hphase =>
      cases hs
      exact h.bootstrap hworker hphase deps
    · cases hs
    · cases hs
  | edit edit =>
    cases hs
    exact ⟨h.starts, h.claims, h.boots, h.context, h.sound, h.startedBy, h.attempts⟩

theorem inv_always (files : Files) (actions : List (Action V)) :
    Always (Process.step fromStr) (Inv fromStr) (.init files) actions :=
  Always.of_step (fun _ _ _ h hs => h.step hs) (Inv.init files)

/-- However calls, unwinds, workers and edits interleave, one call at most gets
past the marker and one worker is spawned for it, with that call's root and what
it read; its attempt to bootstrap is the only one, and finds no context set. -/
theorem starts_once (fromStr : String → Option Toml) (files : Files) (actions : List (Action V)) :
    Always (Process.step fromStr) (SingleStart fromStr) (.init files) actions :=
  (inv_always files actions).mono fun _ h => h.singleStart

end

-- ---------------------------------------------------------------------------
-- What is built
-- ---------------------------------------------------------------------------

def fields : List Field := [.debugEnabled, .unlockFps, .translationDump, .reconEnabled]

def Field.plugin (deps : BootstrapDeps V) : Field → Plugin V
  | .debugEnabled => deps.debugPlugin
  | .unlockFps => deps.fpsPlugin
  | .translationDump => deps.translationDumpPlugin
  | .reconEnabled => deps.reconPlugin

theorem productionPlugins_eq (deps : BootstrapDeps V) : productionPlugins deps =
    (fields.filter (·.read deps.config)).map (Field.plugin deps) := by
  simp only [productionPlugins, fields, List.filter_cons, List.filter_nil, Field.read]
  cases deps.config.debugEnabled <;> cases deps.config.unlockFps <;>
    cases deps.config.translationDump <;> cases deps.config.reconEnabled <;> rfl

theorem installHook_built (s : Boot V) (hook : SchedulerHook) (casOk : Bool)
    (readback : Option Addr) : (s.installHook hook casOk readback).1.built = s.built := by
  rw [Boot.installHook, Boot.install]
  repeat' split
  all_goals rfl

section

variable [DecidableEq T]

/-- If an attempt has built an App, it has built it of the production plugins. -/
def BuildsProduction (deps : BootstrapDeps V) (s : Boot V) : Prop :=
  ∀ app ∈ s.built, app = afterBuilds (productionPlugins deps)

theorem attempt_buildsProduction {deps : BootstrapDeps V} {s : Boot V} {answer : Except ε α}
    {next : α → Boot V → Boot V} (hs : s.built = none)
    (hnext : ∀ a t, t.built = none → BuildsProduction deps (next a t)) :
    BuildsProduction deps (s.attempt rung answer next) := by
  cases answer with
  | error e =>
    intro app happ
    cases hs.symm.trans happ
  | ok a => exact hnext a _ hs

theorem handOver_built (deps : BootstrapDeps V) (hook : SchedulerHook) (app : App V) (s : Boot V) :
    (s.handOver deps hook app).built = s.built := by
  have hinstall := installHook_built s hook deps.installCas deps.readback
  rw [Boot.handOver]
  split
  next t _ heq =>
    rw [heq] at hinstall
    exact hinstall
  next t heq =>
    rw [heq] at hinstall
    split <;> exact hinstall

theorem buildApp_buildsProduction (deps : BootstrapDeps V) (slot : MethodPointerSlot) (s : Boot V) :
    BuildsProduction deps (s.buildApp deps slot) := by
  have hbuilt : (s.buildApp deps slot).built = some (afterBuilds (productionPlugins deps)) := by
    rw [Boot.buildApp]
    split
    · rfl
    · split
      · exact handOver_built ..
      · rfl
  intro app happ
  cases hbuilt.symm.trans happ
  rfl

theorem runBootstrap_buildsProduction (deps : BootstrapDeps V) :
    BuildsProduction deps (runBootstrap deps) := by
  refine attempt_buildsProduction rfl fun _ s hs => ?_
  refine attempt_buildsProduction hs fun _ s hs => ?_
  refine attempt_buildsProduction hs fun _ s hs => ?_
  refine attempt_buildsProduction hs fun _ s hs => ?_
  refine attempt_buildsProduction hs fun _ s hs => ?_
  refine attempt_buildsProduction hs fun _ s hs => ?_
  refine attempt_buildsProduction hs fun _ s hs => ?_
  refine attempt_buildsProduction hs fun method s hs => ?_
  split
  · exact attempt_buildsProduction hs fun slot s _ => buildApp_buildsProduction deps slot s
  · intro app happ
    cases hs.symm.trans happ

/-- In every run, the plugins an App is built of are those whose fields the text
sets that the first call has read: none, if there is a malformed field in it. -/
theorem built_only_enabled (fromStr : String → Option Toml) (files : Files)
    (actions : List (Action V)) :
    Always (Process.step fromStr) (fun s => ∀ deps ∈ s.boots, ∃ call ∈ s.calls,
      call.first = true ∧ ∃ enabled : List Field, enabled.Sublist fields ∧
        (∀ field, field ∈ enabled ↔ EnabledBy fromStr call.text field) ∧
        ∀ app ∈ (runBootstrap deps).built, app = afterBuilds (enabled.map (Field.plugin deps)))
      (.init files) actions := by
  refine (inv_always files actions).mono fun s h deps hdeps => ?_
  obtain ⟨-, worker, hworker, hconfig⟩ := h.attempts deps hdeps
  obtain ⟨call, hcall, -, hfirst, -, hread⟩ := h.startedBy worker hworker
  refine ⟨call, List.mem_of_getElem? hcall, hfirst, fields.filter (·.read deps.config),
    List.filter_sublist, fun field => ?_, fun app happ => ?_⟩
  · have hall : field ∈ fields := by cases field <;> decide
    rw [List.mem_filter, and_iff_right hall, hconfig, hread]
    exact read_configOf_iff field
  · rw [← productionPlugins_eq]
    exact runBootstrap_buildsProduction deps app happ

end

-- ---------------------------------------------------------------------------
-- The files of others
-- ---------------------------------------------------------------------------

def Action.isEdit : Action V → Bool
  | .edit _ => true
  | .start _ | .step _ _ _ | .unwind _ | .image _ _ | .bootstrap _ _ => false

/-- No file is replaced or removed, and none is changed but those that calls
have created, where there was no file. -/
structure KeepsFiles (s s' : Process V) : Prop where
  entry : ∀ root file, s.files.entry root = some file → s'.files.entry root = some file
  content : ∀ file, file ∉ s'.created → s'.files.content file = s.files.content file
  created : ∀ file ∈ s'.created, file ∈ s.created ∨ ∀ root, s.files.entry root ≠ some file

/-- A call writes to a file that a call has created. -/
def WritesCreated (s : Process V) : Prop :=
  ∀ call ∈ s.calls, ∀ root file, call.phase = .write root file → file ∈ s.created

theorem KeepsFiles.of_eq (hfiles : s'.files = s.files) (hcreated : s'.created = s.created) :
    KeepsFiles s s' where
  entry := by simp [hfiles]
  content := by simp [hfiles]
  created file hfile := .inl (hcreated ▸ hfile)

theorem keepsFiles_createConfig {root : DataRoot} (hnone : s.files.entry root = none) :
    KeepsFiles s (s.createConfig root) where
  entry other file hfile := by
    have hne : other ≠ root := by
      rintro rfl
      cases hnone.symm.trans hfile
    exact (Function.update_of_ne hne _ _).trans hfile
  content file hfile := by
    have hne : file ≠ s.files.next := by
      rintro rfl
      exact hfile (List.mem_append_right _ (List.mem_singleton_self _))
    exact Function.update_of_ne hne _ _
  created file hfile := by
    rcases List.mem_append.mp hfile with hold | hnew
    · exact .inl hold
    · obtain rfl := List.mem_singleton.mp hnew
      exact .inr fun root hroot => Nat.lt_irrefl _ (s.files.lt_next root _ hroot)

theorem keepsFiles_writeConfig {file : Nat} (hfile : file ∈ s.created) (written : Nat) :
    KeepsFiles s (s.writeConfig file written) where
  entry _ _ h := h
  content other hother := by
    have hne : other ≠ file := by
      rintro rfl
      exact hother hfile
    exact Function.update_of_ne hne _ _
  created _ h := .inl h

theorem WritesCreated.set (h : WritesCreated s) (hcalls : s'.calls = s.calls.set i call')
    (hcreated : s.created ⊆ s'.created)
    (hcall' : ∀ root file, call'.phase = .write root file → file ∈ s'.created) :
    WritesCreated s' := by
  intro call hcall root file hphase
  rw [hcalls] at hcall
  rcases List.mem_or_eq_of_mem_set hcall with hold | rfl
  · exact hcreated (h call hold root file hphase)
  · exact hcall' root file hphase

/-- Only the two steps that create and write touch a file. -/
theorem WritesCreated.stepCall (h : WritesCreated s) (hcall : s.calls[i]? = some call)
    (hs : s.stepCall fromStr i call ok written = some s') :
    WritesCreated s' ∧ KeepsFiles s s' := by
  rw [Process.stepCall] at hs
  split at hs
  case h_1 | h_2 | h_3 | h_6 =>
    split at hs <;> cases hs <;>
      exact ⟨h.set rfl (List.Subset.refl _) nofun, .of_eq rfl rfl⟩
  case h_4 root =>
    split at hs
    · next hnone =>
      cases hs
      refine ⟨h.set rfl (List.subset_append_left _ _) ?_, ?_⟩
      · rintro root file ⟨⟩
        exact List.mem_append_right _ (List.mem_singleton_self _)
      · have hcreate := keepsFiles_createConfig hnone.2
        exact ⟨hcreate.entry, hcreate.content, hcreate.created⟩
    · cases hs
      exact ⟨h.set rfl (List.Subset.refl _) nofun, .of_eq rfl rfl⟩
  case h_5 root file hphase =>
    cases hs
    refine ⟨h.set rfl (List.Subset.refl _) nofun, ?_⟩
    have hwrite := keepsFiles_writeConfig (h call (List.mem_of_getElem? hcall) root file hphase)
      written
    exact ⟨hwrite.entry, hwrite.content, hwrite.created⟩
  case h_7 =>
    cases hs
    exact ⟨h.set rfl (List.Subset.refl _) nofun, .of_eq rfl rfl⟩
  case h_8 => cases hs

variable [DecidableEq T]

theorem WritesCreated.step (h : WritesCreated s) {a : Action V}
    (hs : s.step fromStr a = some s') :
    WritesCreated s' ∧ (a.isEdit = false → KeepsFiles s s') := by
  cases a with
  | start path =>
    cases hs
    refine ⟨fun call hcall root file hphase => ?_, fun _ => .of_eq rfl rfl⟩
    rcases List.mem_append.mp hcall with hold | hnew
    · exact h call hold root file hphase
    · obtain rfl := List.mem_singleton.mp hnew
      cases hphase
  | step i ok written =>
    obtain ⟨call, hcall, hs⟩ := Option.bind_eq_some_iff.mp hs
    exact ⟨(h.stepCall hcall hs).1, fun _ => (h.stepCall hcall hs).2⟩
  | unwind i =>
    obtain ⟨call, hcall, hs⟩ := Option.bind_eq_some_iff.mp hs
    split at hs
    · cases hs
    · cases hs
    · cases hs
      exact ⟨h.set rfl (List.Subset.refl _) nofun, fun _ => .of_eq rfl rfl⟩
  | image i found | bootstrap i deps =>
    obtain ⟨worker, -, hs⟩ := Option.bind_eq_some_iff.mp hs
    split at hs <;> cases hs
    exact ⟨h, fun _ => .of_eq rfl rfl⟩
  | edit edit =>
    cases hs
    exact ⟨h, nofun⟩

/-- A start never takes a file from those who edit the configuration, nor
changes one it has not created, whenever they edit it. -/
theorem keeps_files (fromStr : String → Option Toml) (files : Files) (actions : List (Action V)) :
    Each (Process.step fromStr)
      (fun s a => a.isEdit = false → ∀ s', s.step fromStr a = some s' → KeepsFiles s s')
      (.init files) actions := by
  have hinit : WritesCreated (.init files : Process V) :=
    fun call hcall => absurd hcall List.not_mem_nil
  refine Each.of_step (fun s a s' h hs => ?_) (fun s a s' h _ hedit t ht => ?_) hinit
  · exact (WritesCreated.step h hs).1
  · exact (WritesCreated.step h ht).2 hedit

end ShinySongTools.Runtime.Startup
