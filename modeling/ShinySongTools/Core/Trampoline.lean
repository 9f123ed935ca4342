import ShinySongTools.Arm.Code
import ShinySongTools.Core.MethodSlot

/-!
# Trampolines

The relocation of displaced instructions in `core/src/entry_patch.rs`:
classification, sizes, emission, and the layout `build_trampoline` writes to
its page. The page itself, and the failures to get one, are left out.
-/

namespace ShinySongTools.Trampoline

open Arm (Word)

def ldrX16Literal8 : Word := 0x58000050

def brX16 : Word := 0xD61F0200

def pacibsp : Word := 0xD503237F

def nop : Word := 0xD503201F

/-- `Range<usize>`. -/
structure Window where
  start : Addr
  stop : Addr

def Window.contains (window : Window) (t : Addr) : Bool := window.start ≤ t && t < window.stop

inductive Plan where
  | verbatim (op : Word)
  | b (target : Addr)
  | bl (target : Addr)
  | bcond (cond : Word) (inverted : Bool) (target : Addr)
  | cbzCbnz (op rt : Word) (target : Addr)
  | tbzTbnz (op rt : Word) (target : Addr)
  deriving DecidableEq, Repr

def sext (value : Word) (bits : Nat) : BitVec 64 :=
  let shift := 32 - bits
  ((value <<< shift).sshiftRight shift).signExtend 64

def planOp (op : Word) (origPc : Addr) : Except HookError Plan :=
  let targetOf (imm : BitVec 64) : Addr := origPc + imm
  let top8 := op >>> 24
  if op = pacibsp then .ok (.verbatim op)
  else if op &&& 0x7C000000 = 0x14000000 ∨ op &&& 0xFC000000 = 0x94000000 then
    let target := targetOf (sext (op &&& 0x03FFFFFF) 26 * 4)
    if op >>> 26 = 0b100101 then .ok (.bl target) else .ok (.b target)
  else if top8 &&& 0xFE = 0x54 then
    .ok (.bcond (op &&& 0xF) false (targetOf (sext ((op >>> 5) &&& 0x7FFFF) 19 * 4)))
  else if top8 &&& 0x9F = 0x10 ∨ top8 &&& 0x9F = 0x90 then
    .error (.entryPatchUnsupported "adr/adrp in the displaced prologue")
  else if top8 &&& 0x1F = 0x18 then
    .error (.entryPatchUnsupported "literal load in the displaced prologue")
  else if top8 &&& 0x7E = 0x34 then
    .ok (.cbzCbnz op (op &&& 0x1F) (targetOf (sext ((op >>> 5) &&& 0x7FFFF) 19 * 4)))
  else if top8 &&& 0x7E = 0x36 then
    .ok (.tbzTbnz op (op &&& 0x1F) (targetOf (sext ((op >>> 5) &&& 0x3FFFF) 14 * 4)))
  else if op &&& 0xFFFFFC1F = 0xD65F0000 then .ok (.verbatim op)
  else .ok (.verbatim op)

def planSize (plan : Plan) (window : Window) : Nat :=
  match plan with
  | .verbatim _ => 1
  | .b target => if window.contains target then 1 else 4
  | .bl target => if window.contains target then 1 else 7
  | .bcond _ _ target | .cbzCbnz _ _ target | .tbzTbnz _ _ target =>
    if window.contains target then 1 else 5

/-- `x as u32` of a number of words. -/
def u32 (words : Int) : Word := BitVec.ofInt 32 words

def bEnc (top6 : Word) (imm26Words : Int) : Word := top6 <<< 26 ||| u32 imm26Words &&& 0x03FFFFFF

def movImm48 (rd : Word) (value : Addr) : List Word :=
  let lo : Word := (value &&& 0xFFFF).setWidth 32
  let mid : Word := (value >>> 16 &&& 0xFFFF).setWidth 32
  let hi : Word := (value >>> 32 &&& 0xFFFF).setWidth 32
  [0xD2800000#32 ||| lo <<< 5 ||| rd, 0xF2800000#32 ||| 0x00200000#32 ||| mid <<< 5 ||| rd,
    0xF2800000#32 ||| 0x00400000#32 ||| hi <<< 5 ||| rd]

def farJumpSeq (target : Addr) : List Word := movImm48 16 target ++ [brX16]

def targetIndex (target : Addr) (window : Window) : Nat := (target - window.start).toNat / 4

/-- The words of one relocated instruction at word `pos`. An in-window target
has an index, so the default is never read. -/
def emitOp (plan : Plan) (index pos : Nat) (opsPos : List Nat) (window : Window)
    (trampBase : Addr) : List Word :=
  let wordDelta (target : Addr) : Int := opsPos.getD (targetIndex target window) 0 - pos
  match plan with
  | .verbatim op => [op]
  | .b target =>
    if window.contains target then [bEnc 0b000101 (wordDelta target)] else farJumpSeq target
  | .bl target =>
    if window.contains target then [bEnc 0b100101 (wordDelta target)]
    else
      let ret :=
        match opsPos[index + 1]? with
        | some next => trampBase + BitVec.ofNat 64 (next * 4)
        | none => window.stop
      movImm48 16 target ++ movImm48 30 ret ++ [brX16]
  | .bcond cond inverted target =>
    if window.contains target then
      let imm19 := u32 (wordDelta target) &&& 0x7FFFF
      let condV := if inverted then cond ^^^ 1 else cond
      [0x54000000#32 ||| imm19 <<< 5 ||| condV]
    else
      let inv := if inverted then cond else cond ^^^ 1
      (0x54000000#32 ||| 5#32 <<< 5 ||| inv) :: farJumpSeq target
  | .cbzCbnz op rt target =>
    if window.contains target then
      let imm19 := u32 (wordDelta target) &&& 0x7FFFF
      [op &&& 0xFF000000#32 ||| imm19 <<< 5 ||| rt]
    else ((op ^^^ 0x01000000#32) &&& 0xFF00001F#32 ||| 5#32 <<< 5 ||| rt) :: farJumpSeq target
  | .tbzTbnz op rt target =>
    if window.contains target then
      let imm14 := u32 (wordDelta target) &&& 0x3FFFF
      [op &&& 0xFFFF8000#32 ||| imm14 <<< 5 ||| rt]
    else ((op ^^^ 0x01000000#32) &&& 0xFFFF001F#32 ||| 5#32 <<< 5 ||| rt) :: farJumpSeq target

def planOps (entry : Addr) : Nat → List Word → Except HookError (List Plan)
  | _, [] => .ok []
  | index, op :: rest =>
    match planOp op (entry + BitVec.ofNat 64 (4 * index)) with
    | .error e => .error e
    | .ok plan =>
      match planOps entry (index + 1) rest with
      | .error e => .error e
      | .ok plans => .ok (plan :: plans)

/-- The word offsets of the relocated instructions. -/
def layout : Nat → List Nat → List Nat
  | _, [] => []
  | acc, size :: rest => acc :: layout (acc + size) rest

def emitOps (opsPos : List Nat) (window : Window) (trampBase : Addr) :
    Nat → List Plan → List Word → List Word
  | _, [], buf => buf
  | index, plan :: rest, buf =>
    let pos := opsPos.getD index 0
    let buf := buf ++ List.replicate (pos - buf.length) nop
    emitOps opsPos window trampBase (index + 1) rest
      (buf ++ emitOp plan index pos opsPos window trampBase)

/-- The jump back, with its address as a little-endian literal. -/
def tail (back : Addr) : List Word :=
  [ldrX16Literal8, brX16, back.extractLsb' 0 32, back.extractLsb' 32 32]

def window (entry : Addr) (ops : List Word) : Window :=
  ⟨entry, entry + BitVec.ofNat 64 (4 * ops.length)⟩

def relocated (plans : List Plan) (window : Window) (trampBase : Addr) : List Word :=
  let opsPos := layout 0 (plans.map fun plan => planSize plan window)
  emitOps opsPos window trampBase 0 plans []

/-- The words `build_trampoline` writes at `base`. -/
def buildTrampoline (entry : Addr) (ops : List Word) (base : Addr) : Except HookError (List Word) :=
  match planOps entry 0 ops with
  | .error e => .error e
  | .ok plans => .ok (relocated plans (window entry ops) base ++ tail (window entry ops).stop)

end ShinySongTools.Trampoline
