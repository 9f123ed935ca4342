import ShinySongTools.Effects
import ShinySongTools.Bundle.Sandbox

/-!
# `patch!` and `restore!`

The calls as they are written, over primitives that may fail. A call comes with
the failures it meets, in the order it meets them; each names the primitive and
says what that leaves. `formal` is a log of the proof: what the formal path held
after each change of it.
-/

namespace ShinySongTools.Bundle

open Effects

/-- The reads and signature checks of the two calls. -/
inductive Check where
  | gameRunning
  | candidate
  | candidateSignature
  | book
  | status
  | baseline
  | installed
  | installedExecutable
  | baselineCopy
  | stageFingerprint
  | stageSignature
  | swapFingerprint
  | swapSignature
  | bookAgain
  deriving DecidableEq, Repr

inductive File where
  | current
  /-- `state.edn`, when the baseline is recorded. -/
  | baselineBook
  /-- `state.edn`, when the outcome is. -/
  | book
  | history (outcome : String)
  deriving DecidableEq, Repr

inductive Fault where
  | throws (c : Check)
  /-- The signature is not valid. -/
  | unsigned (c : Check)
  | copy (dst : Path) (left : Option Tree)
  | delete (p : Path) (left : Tree)
  | move (src dst : Path)
  | write (f : File) (left : Left)
  /-- `.delete` of `current.edn` returns false. -/
  | unlink
  deriving DecidableEq, Repr

inductive Exn where
  | refused (msg : String)
  | idempotent
  | failed (msg : String)
  deriving DecidableEq, Repr

def Exn.message : Exn → String
  | .refused msg => "拒绝执行: " ++ msg
  | .idempotent => "idempotent"
  | .failed msg => msg

structure World where
  fs : Sandbox
  faults : List Fault
  formal : List (Option Tree)

abbrev M := ExceptT Exn (StateM World)

/-- Whether the next failure is this one, which is then met. -/
def meets (p : Fault → Option β) : M (Option β) := do
  let w ← get
  match w.faults with
  | [] => return none
  | fault :: faults =>
    match p fault with
    | none => return none
    | some b =>
      set { w with faults }
      return some b

def fs : M Sandbox := return (← get).fs

-- ---------------------------------------------------------------------------
-- Primitives
-- ---------------------------------------------------------------------------

def refuse (msg : String) : M α := throw (.refused msg)

def check (c : Check) : M Unit := do
  let met ← meets fun fault => if fault = .throws c then some () else none
  when (met = some ()) (throw (.failed "check"))

def codesignOk (c : Check) : M Bool := do
  check c
  let met ← meets fun fault => if fault = .unsigned c then some () else none
  return met.isNone

def setTree (p : Path) (tree : Option Tree) : M Unit :=
  modify fun w =>
    { w with
      fs := w.fs.put p tree
      formal := if p = .bundle then w.formal ++ [tree] else w.formal }

/-- A tree copied over what is at the path already. -/
def overlay (src dst : Tree) : Tree :=
  src ++ dst.filter fun e => e.1 ∉ src.map Prod.fst

def copyTree (src dst : Path) : M Unit := do
  match ← meets fun fault =>
      match fault with
      | .copy p left => if p = dst then some left else none
      | _ => none with
  | some left =>
    setTree dst left
    throw (.failed "copy-tree")
  | none =>
    match (← fs).tree src with
    | none => throw (.failed "copy-tree")
    | some tree => setTree dst (some (overlay tree (((← fs).tree dst).getD [])))

/-- A directory that is not empty is not replaced. -/
def atomicMove (src dst : Path) : M Unit := do
  let met ← meets fun fault => if fault = .move src dst then some () else none
  when (met = some ()) (throw (.failed "move"))
  match (← fs).tree src, (← fs).tree dst with
  | some tree, none =>
    setTree src none
    setTree dst (some tree)
  | _, _ => throw (.failed "move")

def deleteTree (p : Path) : M Unit := do
  when (((← fs).tree p).isSome = true) do
    match ← meets fun fault =>
        match fault with
        | .delete q left => if q = p then some left else none
        | _ => none with
    | some left =>
      setTree p (some left)
      throw (.failed "delete-tree")
    | none => setTree p none

/-- `spit`, with what it does to the file when it is written and when it is
torn. -/
def spit (f : File) (written torn : Sandbox → Sandbox) : M Unit := do
  match ← meets fun fault =>
      match fault with
      | .write g left => if g = f then some left else none
      | _ => none with
  | none => modify fun w => { w with fs := written w.fs }
  | some left =>
    modify fun w =>
      { w with
        fs :=
          match left with
          | .untouched => w.fs
          | .torn => torn w.fs
          | .written => written w.fs }
    throw (.failed "spit")

-- ---------------------------------------------------------------------------
-- The transaction
-- ---------------------------------------------------------------------------

def readState (c : Check) : M (Option Book) := do
  check c
  match (← fs).state.read with
  | some book => return book
  | none => throw (.failed "edn")

def writeState (f : File) (book : Book) : M Unit :=
  spit f (fun s => { s with state := .whole book }) fun s => { s with state := .torn }

def beginTxn : M Unit :=
  spit .current (fun s => { s with current := true }) fun s => { s with current := true }

def outcomeName : Outcome → String
  | .success => "success"
  | .idempotent => "idempotent"
  | .failed _ => "failed"

def finishTxn (record : Record) : M Unit := do
  spit (.history (outcomeName record.outcome))
    (fun s => { s with history := s.history ++ [record] }) id
  let met ← meets fun fault => if fault = .unlink then some () else none
  when (met = none) (modify fun w => { w with fs := { w.fs with current := false } })

def rollbackToOld : M Unit := do
  when ((← fs).old.isSome = true) do
    deleteTree .bundle
    atomicMove .old .bundle

def cleanupResidue : M Unit := do
  deleteTree .stage
  deleteTree .old

/-- The records both calls end with. -/
def settle (book : Book) (record : Record) : M Unit := do
  writeState .book book
  finishTxn record
  cleanupResidue

section

variable (sha256 : String → String)

def fingerprintOf (c : Check) (p : Path) : M Entries := do
  check c
  match (← fs).tree p with
  | some tree => return computeFingerprint sha256 tree
  | none => return []

def swapAndVerify (expected : Entries) : M Unit := do
  when ((← fs).bundle.isSome = true) (atomicMove .bundle .old)
  try
    atomicMove .stage .bundle
    let installed ← fingerprintOf sha256 .swapFingerprint .bundle
    when (expected ≠ installed) (throw (.failed "换入后 fingerprint 验证失败"))
    let signed ← codesignOk .swapSignature
    when (signed = false) (throw (.failed "换入后签名验证失败"))
  catch e =>
    rollbackToOld
    deleteTree .stage
    throw e

/-- The copy to the stage that both calls make, and its fingerprint. -/
def stageCopy (src : Path) : M Entries := do
  deleteTree .stage
  copyTree src .stage
  fingerprintOf sha256 .stageFingerprint .stage

structure Answer where
  idempotent : Bool
  executableSha : Option String
  firstPatch : Option Bool
  deriving DecidableEq, Repr

/-- The first patch: the installed bundle becomes the baseline. -/
def establishBaseline (expected : Option String) (installed : Option Entries) : M Unit := do
  when (expected = none)
    (refuse "首次 patch 需要提供 --expected-installed-executable-sha 以建立 baseline")
  check .installedExecutable
  let installedSha := ((← fs).installedEntries sha256).bind (executableSha · "AKInterface")
  when (installedSha = none) (throw (.failed "sha256-file"))
  when (expected ≠ installedSha)
    (refuse "--expected-installed-executable-sha 与当前 installed 不一致")
  deleteTree .baseline
  copyTree .bundle .baseline
  let baseline ← fingerprintOf sha256 .baselineCopy .baseline
  when (some baseline ≠ installed) (refuse "baseline 复制后 fingerprint 不一致")
  writeState .baselineBook ⟨some ⟨baseline, installedSha⟩, none⟩

/-- What `patch!` does once its transaction is begun. -/
def patchBody (cand : Candidate) (book : Option Book) (installed : Option Entries)
    (expectedInstalledExecutableSha : Option String) : M Answer := do
  when ((book.bind (·.lastInstall)).isSome ∧
      (book.bind (·.lastInstall)).map Identity.entries = installed ∧ some cand.entries = installed)
    (throw .idempotent)
  when (book.bind (·.baseline) = none)
    (establishBaseline sha256 expectedInstalledExecutableSha installed)
  let stage ← stageCopy sha256 .candidate
  when (stage ≠ cand.entries) (refuse "staged bundle fingerprint 与 candidate 不一致")
  let signed ← codesignOk .stageSignature
  when (signed = false) (refuse "staged bundle 签名验证失败")
  swapAndVerify sha256 cand.entries
  deleteTree .old
  let now ← readState .bookAgain
  settle ⟨now.bind (·.baseline), some ⟨cand.entries, cand.executableSha⟩⟩
    ⟨.patch, .success, cand.executableSha⟩
  return ⟨false, cand.executableSha, some (book.bind (·.baseline)).isNone⟩

def refuseUnsettled (state : StateName) (suffix : String) : M Unit :=
  when (state = .interrupted ∨ state = .drifted) (refuse ("当前状态 " ++ state.name ++ suffix))

def patchPreconditions (running : Bool) (expectedExecutableSha : Option String) :
    M (Candidate × Option Book × Option Entries) := do
  check .gameRunning
  when (running = true) (refuse "游戏正在运行")
  when ((← fs).bundle = none) (refuse "游戏 PlugIns 中未找到 AKInterface.bundle")
  check .candidate
  let cand := (← fs).verifyCandidate sha256
  when (cand.ok = false) (refuse "candidate 校验失败")
  let signed ← codesignOk .candidateSignature
  when (signed = false) (refuse "candidate 签名验证失败")
  when (expectedExecutableSha = none ∨ expectedExecutableSha ≠ cand.executableSha)
    (refuse "--expected-executable-sha 与 candidate 不一致")
  let book ← readState .book
  check .status
  let state := (← fs).stateName sha256 book
  check .installed
  let installed := (← fs).installedEntries sha256
  refuseUnsettled state "，先解决事务残留/漂移"
  return (cand, book, installed)

def patch (running : Bool) (expectedExecutableSha expectedInstalledExecutableSha : Option String) :
    M Answer := do
  let (cand, book, installed) ← patchPreconditions sha256 running expectedExecutableSha
  beginTxn
  try
    patchBody sha256 cand book installed expectedInstalledExecutableSha
  catch e =>
    if e = .idempotent then do
      finishTxn ⟨.patch, .idempotent, none⟩
      pure ⟨true, cand.executableSha, none⟩
    else do
      rollbackToOld
      finishTxn ⟨.patch, .failed e.message, none⟩
      throw e

/-- What `restore!` does once its transaction is begun. -/
def restoreBody (baseline : Identity) : M Answer := do
  let stage ← stageCopy sha256 .baseline
  when (stage ≠ baseline.entries) (refuse "staged baseline fingerprint 不一致")
  swapAndVerify sha256 baseline.entries
  deleteTree .old
  settle ⟨some baseline, none⟩ ⟨.restore, .success, none⟩
  return ⟨false, none, none⟩

/-- What `restore!` reads of a book with a baseline, and `none` when the bundle
is the baseline already. -/
def restorePreconditions (book : Option Book) (baseline : Identity) : M (Option Identity) := do
  check .status
  let state := (← fs).stateName sha256 book
  refuseUnsettled state ""
  if state = .clean then return none
  else do
    when ((← fs).baseline = none) (refuse "baseline 目录缺失")
    let trusted ← fingerprintOf sha256 .baseline .baseline
    when (trusted ≠ baseline.entries) (refuse "baseline fingerprint 校验失败")
    check .installed
    let installed := (← fs).installedEntries sha256
    when (book.bind (·.lastInstall) = none ∨
        (book.bind (·.lastInstall)).map Identity.entries ≠ installed)
      (refuse "installed 与最后一次成功安装记录不一致")
    return some baseline

def restore (running : Bool) : M Answer := do
  check .gameRunning
  when (running = true) (refuse "游戏正在运行")
  let book ← readState .book
  match book.bind (·.baseline) with
  | none => refuse "尚未建立受信任 baseline"
  | some baseline =>
    match ← restorePreconditions sha256 book baseline with
    | none => return ⟨true, none, none⟩
    | some baseline =>
      beginTxn
      try
        restoreBody sha256 baseline
      catch e =>
        rollbackToOld
        finishTxn ⟨.restore, .failed e.message, none⟩
        throw e

end

end ShinySongTools.Bundle
