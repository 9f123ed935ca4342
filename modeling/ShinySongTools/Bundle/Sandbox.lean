import Mathlib.Data.List.Sort
import Mathlib.Data.String.Basic

/-!
# The bundle sandbox

What the install transaction works on: the bundle at its formal path with the
two paths beside it, the candidate with its manifest, and the records under the
artifacts. A tree is its regular files; `sha256` is the digest, a parameter.
-/

namespace ShinySongTools.Bundle

/-- Relative POSIX paths with contents. -/
abbrev Tree := List (String × String)

/-- `BundleFingerprintV1`: relative POSIX paths with digests, by path. -/
abbrev Entries := List (String × String)

structure Identity where
  entries : Entries
  executableSha : Option String
  deriving DecidableEq, Repr

/-- `state.edn`. -/
structure Book where
  baseline : Option Identity
  lastInstall : Option Identity
  deriving DecidableEq, Repr

/-- What is left of a file that was to be written when the write threw. -/
inductive Left where
  | untouched
  | torn
  | written
  deriving DecidableEq, Repr

inductive StateFile where
  | absent
  | torn
  | whole (book : Book)
  deriving DecidableEq, Repr

/-- The sidecar manifest; a key may be missing. -/
structure Manifest where
  executable : Option String
  executableSha256 : Option String
  entries : List (Option String × Option String)

inductive Op where
  | patch
  | restore
  deriving DecidableEq, Repr

inductive Outcome where
  | success
  | idempotent
  | failed (error : String)
  deriving DecidableEq, Repr

/-- An entry of the transaction history. -/
structure Record where
  op : Op
  outcome : Outcome
  executableSha : Option String
  deriving DecidableEq, Repr

/-- `current` is whether `current.edn` exists; nothing reads what is in it. -/
structure Sandbox where
  bundle : Option Tree
  stage : Option Tree
  old : Option Tree
  baseline : Option Tree
  candidate : Option Tree
  manifest : Option Manifest
  state : StateFile
  current : Bool
  history : List Record

/-- The paths a transaction copies, moves and deletes. -/
inductive Path where
  | bundle
  | stage
  | old
  | baseline
  | candidate
  deriving DecidableEq, Repr

namespace Sandbox

def tree (s : Sandbox) : Path → Option Tree
  | .bundle => s.bundle
  | .stage => s.stage
  | .old => s.old
  | .baseline => s.baseline
  | .candidate => s.candidate

def put (s : Sandbox) (p : Path) (tree : Option Tree) : Sandbox :=
  match p with
  | .bundle => { s with bundle := tree }
  | .stage => { s with stage := tree }
  | .old => { s with old := tree }
  | .baseline => { s with baseline := tree }
  | .candidate => { s with candidate := tree }

end Sandbox

-- ---------------------------------------------------------------------------
-- Fingerprints
-- ---------------------------------------------------------------------------

section

variable (sha256 : String → String)

def computeFingerprint (tree : Tree) : Entries :=
  (tree.map fun (path, content) => (path, sha256 content)).insertionSort fun a b => a.1 ≤ b.1

/-- The file name a path ends in. -/
def fileName (path : String) : String := .ofList (path.toList.reverse.takeWhile (· ≠ '/')).reverse

/-- The digest of the executable of this name; of several, of the last. -/
def executableSha (entries : Entries) (name : String) : Option String :=
  (entries.reverse.find? fun e => fileName e.1 = name).map Prod.snd

structure Candidate where
  ok : Bool
  issues : List String
  executableSha : Option String
  entries : Entries
  deriving DecidableEq

def Manifest.hasEntries (m : Manifest) (entries : Entries) : Bool :=
  m.entries = entries.map fun (path, sha) => (some path, some sha)

def Sandbox.verifyCandidate (s : Sandbox) : Candidate :=
  match s.candidate, s.manifest with
  | some tree, some manifest =>
    let entries := computeFingerprint sha256 tree
    let actual := manifest.executable.bind (executableSha entries)
    let issues :=
      (if manifest.hasEntries entries then [] else ["重算 fingerprint 与 sidecar 条目不一致"]) ++
        if manifest.executableSha256.isSome ∧ manifest.executableSha256 = actual then []
        else ["executable SHA-256 与 manifest 不一致"]
    ⟨issues.isEmpty, issues, manifest.executableSha256, entries⟩
  | _, _ => ⟨false, ["candidate bundle 或 sidecar manifest 不存在"], none, []⟩

def Sandbox.installedEntries (s : Sandbox) : Option Entries :=
  s.bundle.map (computeFingerprint sha256)

-- ---------------------------------------------------------------------------
-- Status
-- ---------------------------------------------------------------------------

inductive StateName where
  | interrupted
  | unmanaged
  | clean
  | patched
  | drifted
  deriving DecidableEq, Repr

def StateName.name : StateName → String
  | .interrupted => "interrupted"
  | .unmanaged => "unmanaged"
  | .clean => "clean"
  | .patched => "patched"
  | .drifted => "drifted"

def Sandbox.residueKinds (s : Sandbox) : List String :=
  (if s.current then ["transaction"] else []) ++ (if s.stage.isSome then ["stage"] else []) ++
    if s.old.isSome then ["old"] else []

/-- `:state` of `status`, for the book it reads. -/
def Sandbox.stateName (s : Sandbox) (book : Option Book) : StateName :=
  let installed := s.installedEntries sha256
  if s.residueKinds ≠ [] then .interrupted
  else
    match book.bind (·.baseline) with
    | none => .unmanaged
    | some baseline =>
      if some baseline.entries = installed then .clean
      else
        match book.bind (·.lastInstall) with
        | some lastInstall => if some lastInstall.entries = installed then .patched else .drifted
        | none => .drifted

/-- What `read-state` finds; a torn file does not read. -/
def StateFile.read : StateFile → Option (Option Book)
  | .absent => some none
  | .torn => none
  | .whole book => some (some book)

def StateFile.baseline : StateFile → Option Identity
  | .whole book => book.baseline
  | _ => none

def StateFile.lastInstall : StateFile → Option Identity
  | .whole book => book.lastInstall
  | _ => none

/-- `:state` of `status`, when the book reads. -/
def Sandbox.status (s : Sandbox) : Option StateName :=
  s.state.read.map (s.stateName sha256)

end

end ShinySongTools.Bundle
