import ShinySongTools.Effects
import ShinySongTools.Publish.Manifest

/-!
# `bundle-publish`

The transaction that publishes a bundle with its sidecar, and `verify-candidate`,
which reads what it leaves. A run comes with what its primitives meet, in order:
one that meets a fault stops the run there, with what is left of it.
-/

namespace ShinySongTools.Publish

open Effects

-- ---------------------------------------------------------------------------
-- The output root
-- ---------------------------------------------------------------------------

inductive Path where
  | finalBundle
  | finalManifest
  | stageBundle
  | oldBundle
  | stageManifest
  deriving DecidableEq, Repr

/-- What is at the paths of the output root. -/
abbrev Root := Path → Option Node

structure Fault where
  /-- The run is killed, where it would fail. -/
  killed : Bool
  /-- What is then at the path that was being written or deleted. -/
  left : Option Node

inductive Stop where
  | failed (message : String)
  | killed
  deriving DecidableEq, Repr

structure World (α : Type) where
  held : α
  faults : List (Option Fault)

abbrev M (α : Type) := ExceptT Stop (StateM (World α))

section

variable {α : Type}

def attempt (message : String) (partly : Option Node → α → α) : M α Unit := do
  let w ← get
  match w.faults with
  | some fault :: faults =>
    set { w with held := partly fault.left w.held, faults }
    throw (if fault.killed then .killed else .failed message)
  | _ => set { w with faults := w.faults.tail }

/-- A primitive that changes nothing where it fails. -/
def step (message : String) : M α Unit := attempt message fun _ held => held

def held : M α α := return (← get).held

def change (f : α → α) : M α Unit := modify fun w => { w with held := f w.held }

end

-- ---------------------------------------------------------------------------
-- Copying
-- ---------------------------------------------------------------------------

def Dir.find (name : Bytes) : Dir → Option Node
  | .nil => none
  | .cons name' node rest => if name' = name then some node else rest.find name

def Dir.put (name : Bytes) (node : Node) : Dir → Dir
  | .nil => .cons name node .nil
  | .cons name' node' rest =>
    if name' = name then .cons name node rest else .cons name' node' (rest.put name node)

/-- Where a node is, in a directory or in the output root. -/
structure Place (α : Type) where
  find : α → Option Node
  put : Node → α → α

def entry (name : Bytes) : Place Dir := ⟨Dir.find name, Dir.put name⟩

def Path.place (p : Path) : Place Root :=
  ⟨fun root => root p, fun node root => Function.update root p (some node)⟩

def copyFailed : String := "copy to stage failed"

section

variable {α : Type}

def createDirPath (place : Place α) : M α Unit := do
  step copyFailed
  match place.find (← held) with
  | none => change (place.put (.directory .nil))
  | some (.directory _) => return
  | some _ => throw (.failed copyFailed)

/-- `writeFile` of what was read, with the mode of the source. -/
def writeFile (place : Place α) (message : String) (content : Bytes) : M α Unit := do
  attempt message fun left held => left.elim held (place.put · held)
  match place.find (← held) with
  | some (.directory _) => throw (.failed message)
  | _ => change (place.put (.file content))

def copyFile (place : Place α) (content : Bytes) : M α Unit := do
  step copyFailed
  if content.length < 512 * 1024 * 1024 then
    writeFile place copyFailed content
    -- `copyMode`; a mode is not content
    step copyFailed
  else throw (.failed copyFailed)

/-- In the directory at a place, which keeps what is done there also where it
stops. -/
def inside (place : Place α) (m : M Dir Unit) : M α Unit := fun w =>
  let dir :=
    match place.find w.held with
    | some (.directory dir) => dir
    | _ => .nil
  let (r, w') := m { held := dir, faults := w.faults }
  (r, { held := place.put (.directory w'.held) w.held, faults := w'.faults })

/-- `copyDir` up to the loop over the entries, which is given. -/
def copyInto (place : Place α) (entries : M Dir Unit) : M α Unit := do
  createDirPath place
  step copyFailed
  inside place entries

end

mutual

def copyEntry (name : Bytes) : Node → M Dir Unit
  | .directory children => copyInto (entry name) (copyEntries children)
  | .file content => copyFile (entry name) content
  | .other => throw (.failed copyFailed)

def copyEntries : Dir → M Dir Unit
  | .nil => step copyFailed
  | .cons name node rest => do
    step copyFailed
    copyEntry name node
    copyEntries rest

end

def copyDir (src : Option Node) (dst : Path) : M Root Unit :=
  match src with
  | some (.directory children) => copyInto dst.place (copyEntries children)
  | _ => do
    createDirPath dst.place
    throw (.failed copyFailed)

-- ---------------------------------------------------------------------------
-- The transaction
-- ---------------------------------------------------------------------------

def deleteTree (message : String) (p : Path) : M Root Unit := do
  attempt message fun left root => Function.update root p ((root p).bind fun _ => left)
  change (Function.update · p none)

def deleteStale (p : Path) : M Root Unit := deleteTree "cannot clean stale transaction path" p

/-- Whether a node can be renamed to where this is. -/
def Node.yields : Option Node → Node → Bool
  | none, _ => true
  | some (.directory .nil), .directory _ => true
  | some (.directory _), _ => false
  | some _, .directory _ => false
  | some _, _ => true

/-- Returns false where the source is not found; other errors stop the run. -/
def rename (message : String) (src dst : Path) : M Root Bool := do
  step message
  let root ← held
  match root src with
  | none => return false
  | some node =>
    if Node.yields (root dst) node then
      change fun root => Function.update (Function.update root src none) dst (some node)
      return true
    else throw (.failed message)

def renamed (message : String) (src dst : Path) : M Root Unit := do
  if ← rename message src dst then return else throw (.failed message)

/-- What `--bundle` and `--manifest` name. -/
structure Input where
  bundle : Option Node
  valid : ∀ node ∈ bundle, node.Valid
  manifest : Option Bytes

def readManifest (input : Input) : M Root Bytes := do
  step "cannot read manifest"
  match input.manifest with
  | some bytes =>
    if bytes.length < 16 * 1024 * 1024 then return bytes else throw (.failed "cannot read manifest")
  | none => throw (.failed "cannot read manifest")

section

variable (sha256 : Bytes → Bytes)

def verifyStage (manifest : Bytes) : M Root Unit := do
  step "cannot read the stage"
  match (← held) .stageBundle with
  | some (.directory bundle) =>
    if verifyEntries sha256 bundle manifest then return else throw (.failed "fingerprint mismatch")
  | _ => throw (.failed "cannot read the stage")

/-- Up to step 2 of `main`. -/
def stage (input : Input) : M Root Bytes := do
  step "cannot create output root"
  step "cannot open output root"
  deleteStale .stageBundle
  deleteStale .oldBundle
  deleteStale .stageManifest
  copyDir input.bundle .stageBundle
  let manifest ← readManifest input
  verifyStage sha256 manifest
  return manifest

/-- Step 3; returns `old_moved`. -/
def publishBundle : M Root Bool := do
  let oldMoved ← rename "cannot move aside the previous bundle" .finalBundle .oldBundle
  renamed "cannot publish the staged bundle" .stageBundle .finalBundle
  return oldMoved

/-- Step 4. -/
def publishManifest (manifest : Bytes) : M Root Unit := do
  writeFile Path.stageManifest.place "cannot create staged manifest" []
  writeFile Path.stageManifest.place "cannot write staged manifest" manifest
  renamed "cannot publish the staged manifest" .stageManifest .finalManifest

/-- `main`. -/
def publish (input : Input) : M Root Unit := do
  let manifest ← stage sha256 input
  let oldMoved ← publishBundle
  publishManifest manifest
  when oldMoved (deleteTree "cannot remove the old bundle copy" .oldBundle)
  step "cannot print"

structure Run where
  input : Input
  faults : List (Option Fault)

/-- How a run ends that is started over this root, and what it leaves. -/
def Run.outcome (run : Run) (root : Root) : Except Stop Unit × World Root :=
  (publish sha256 run.input).run.run { held := root, faults := run.faults }

def Run.leaves (run : Run) (root : Root) : Root := (run.outcome sha256 root).2.held

/-- What a sequence of runs leaves of an empty root. -/
def rootAfter (runs : List Run) : Root :=
  runs.foldl (fun root run => run.leaves sha256 root) fun _ => none

-- ---------------------------------------------------------------------------
-- `verify-candidate`
-- ---------------------------------------------------------------------------

/-- What is read of the parsed sidecar; a key may be missing. -/
structure Sidecar where
  executable : Option Bytes
  executableSha256 : Option Bytes
  entries : List (Option Bytes × Option Bytes)

/-- `str/blank?` of UTF-8 text. -/
def blank : Bytes → Bool
  | [] => true
  | 0xE1 :: 0x9A :: 0x80 :: rest => blank rest
  | 0xE2 :: 0x80 :: c :: rest =>
    ((0x80 ≤ c && c ≤ 0x8A && c ≠ 0x87) || c = 0xA8 || c = 0xA9) && blank rest
  | 0xE2 :: 0x81 :: 0x9F :: rest => blank rest
  | 0xE3 :: 0x80 :: 0x80 :: rest => blank rest
  | c :: rest => ((9 ≤ c && c ≤ 13) || (28 ≤ c && c ≤ 32)) && blank rest

/-- Whether `rel-posix` returns the path. -/
def relPosix (rel : Bytes) : Bool :=
  !(blank rel || rel.head? = some 47 || (Scan.indexOf (ascii "..") rel).isSome)

def computeFingerprint : Node → Option (List Entry)
  | .directory dir => (walkWith sha256 (fun child _ => relPosix child) [] dir).map sortEntries
  | _ => some []

def fileName (path : Bytes) : Bytes := (path.reverse.takeWhile (· ≠ 47)).reverse

/-- The digest of the executable of this name; of several, of the last. -/
def executableSha (entries : List Entry) (name : Bytes) : Option Bytes :=
  (entries.reverse.find? fun e => fileName e.path = name).map (·.sha256)

def Sidecar.hasEntries (sidecar : Sidecar) (entries : List Entry) : Bool :=
  sidecar.entries = entries.map fun e => (some e.path, some e.sha256)

/-- `:ok` of `verify-candidate`; `parse` is the JSON reader. -/
def verifyCandidate (parse : Bytes → Option Sidecar) (root : Root) : Bool :=
  match root .finalBundle, root .finalManifest with
  | some bundle, some (.file text) =>
    match parse text, computeFingerprint sha256 bundle with
    | some sidecar, some entries =>
      sidecar.hasEntries entries && sidecar.executableSha256.isSome &&
        sidecar.executableSha256 = sidecar.executable.bind (executableSha entries)
    | _, _ => false
  | _, _ => false

end

end ShinySongTools.Publish
