import ShinySongTools.BitFields
import Mathlib.Logic.Function.Basic

/-!
# A fragment of A64

Direct branches, wide moves, `br` and the literal load of a doubleword. What
any other word does is a parameter: it goes on, jumps through a register or
faults, and `rest` holds the state it works on besides the general registers
and the flags.
-/

namespace Arm

open BitFields

abbrev Word := BitVec 32

abbrev Address := BitVec 64

structure Flags where
  n : Bool
  z : Bool
  c : Bool
  v : Bool
  deriving DecidableEq, Repr

/-- `ConditionHolds`. -/
def Flags.holds (f : Flags) (cond : BitVec 4) : Bool :=
  let base :=
    match cond.extractLsb' 1 3 with
    | 0 => f.z
    | 1 => f.c
    | 2 => f.n
    | 3 => f.v
    | 4 => f.c && !f.z
    | 5 => f.n == f.v
    | 6 => f.n == f.v && !f.z
    | _ => true
  if cond.getLsbD 0 && cond ≠ 15 then !base else base

structure Cpu (σ : Type u) where
  x : Fin 31 → BitVec 64
  flags : Flags
  rest : σ

inductive Instr where
  | b (imm : BitVec 26)
  | bl (imm : BitVec 26)
  /-- `b.cond`, or `bc.cond` where it is `consistent`. -/
  | bcond (consistent : Bool) (cond : BitVec 4) (imm : BitVec 19)
  | cbz (wide nonzero : Bool) (rt : BitVec 5) (imm : BitVec 19)
  | tbz (nonzero : Bool) (bit : BitVec 6) (rt : BitVec 5) (imm : BitVec 14)
  | movz (hw : BitVec 2) (imm : BitVec 16) (rd : BitVec 5)
  | movk (hw : BitVec 2) (imm : BitVec 16) (rd : BitVec 5)
  | br (rn : BitVec 5)
  | ldr (rt : BitVec 5) (imm : BitVec 19)
  /-- Unallocated, or relative to the program counter in a way of its own. -/
  | reserved
  | other
  deriving DecidableEq, Repr

/-- What a word does that is not one of the fragment's. -/
inductive Effect (σ : Type u) where
  | next (s : Cpu σ)
  | jumps (target : Address) (s : Cpu σ)
  | faults

inductive Flow (σ : Type u) where
  | plain (effect : Effect σ)
  | branches (target : Address) (s : Cpu σ)
  | calls (target : Address) (s : Cpu σ)

def Semantics (σ : Type u) := Address → Word → Cpu σ → Effect σ

namespace Cpu

variable {σ : Type u}

/-- Register 31 reads as zero. -/
def read (s : Cpu σ) (r : BitVec 5) : BitVec 64 :=
  if h : r.toNat < 31 then s.x ⟨r.toNat, h⟩ else 0

def write (s : Cpu σ) (r : BitVec 5) (value : BitVec 64) : Cpu σ :=
  if h : r.toNat < 31 then { s with x := Function.update s.x ⟨r.toNat, h⟩ value } else s

end Cpu

def decode (op : Word) : Instr :=
  if op &&& 0xFC000000 = 0x14000000 then .b (op.extractLsb' 0 26)
  else if op &&& 0xFC000000 = 0x94000000 then .bl (op.extractLsb' 0 26)
  else if op &&& 0xFF000010 = 0x54000000 then
    .bcond false (op.extractLsb' 0 4) (op.extractLsb' 5 19)
  else if op &&& 0xFF000010 = 0x54000010 then
    .bcond true (op.extractLsb' 0 4) (op.extractLsb' 5 19)
  else if op &&& 0xFF000000 = 0x55000000 then .reserved
  else if op &&& 0x7E000000 = 0x34000000 then
    .cbz (op.getLsbD 31) (op.getLsbD 24) (op.extractLsb' 0 5) (op.extractLsb' 5 19)
  else if op &&& 0x7E000000 = 0x36000000 then
    .tbz (op.getLsbD 24) (op.extractLsb' 31 1 ++ op.extractLsb' 19 5) (op.extractLsb' 0 5)
      (op.extractLsb' 5 14)
  else if op &&& 0xFF800000 = 0xD2800000 then
    .movz (op.extractLsb' 21 2) (op.extractLsb' 5 16) (op.extractLsb' 0 5)
  else if op &&& 0xFF800000 = 0xF2800000 then
    .movk (op.extractLsb' 21 2) (op.extractLsb' 5 16) (op.extractLsb' 0 5)
  else if op &&& 0xFFFFFC1F = 0xD61F0000 then .br (op.extractLsb' 5 5)
  else if op &&& 0xFF000000 = 0x58000000 then .ldr (op.extractLsb' 0 5) (op.extractLsb' 5 19)
  else .other

/-- The byte offset of a branch by `imm` words. -/
def offset (imm : BitVec n) : BitVec 64 := imm.signExtend 64 * 4

def movz (hw : BitVec 2) (imm : BitVec 16) : BitVec 64 := imm.setWidth 64 <<< (16 * hw.toNat)

def movk (hw : BitVec 2) (imm : BitVec 16) (old : BitVec 64) : BitVec 64 :=
  (old &&& ~~~((0xFFFF : BitVec 64) <<< (16 * hw.toNat))) ||| imm.setWidth 64 <<< (16 * hw.toNat)

/-- Whether a `cbz` or `cbnz` branches. -/
def compares (wide nonzero : Bool) (value : BitVec 64) : Bool :=
  (if wide then value = 0 else value.extractLsb' 0 32 = 0) != nonzero

/-- Whether a `tbz` or `tbnz` branches. -/
def tests (nonzero : Bool) (bit : BitVec 6) (value : BitVec 64) : Bool :=
  value.getLsbD bit.toNat == nonzero

section

variable {σ : Type u} (sem : Semantics σ)

def conditional (taken : Bool) (target : Address) (s : Cpu σ) : Flow σ :=
  if taken then .branches target s else .plain (.next s)

/-- One instruction at `pc`; `load` reads the doublewords that are known. -/
def exec (load : Address → Option (BitVec 64)) (pc : Address) (op : Word) (s : Cpu σ) : Flow σ :=
  match decode op with
  | .b imm => .branches (pc + offset imm) s
  | .bl imm => .calls (pc + offset imm) (s.write 30 (pc + 4))
  | .bcond _ cond imm => conditional (s.flags.holds cond) (pc + offset imm) s
  | .cbz wide nonzero rt imm => conditional (compares wide nonzero (s.read rt)) (pc + offset imm) s
  | .tbz nonzero bit rt imm => conditional (tests nonzero bit (s.read rt)) (pc + offset imm) s
  | .movz hw imm rd => .plain (.next (s.write rd (movz hw imm)))
  | .movk hw imm rd => .plain (.next (s.write rd (movk hw imm (s.read rd))))
  | .br rn => .plain (.jumps (s.read rn) s)
  | .ldr rt imm =>
    match load (pc + offset imm) with
    | some value => .plain (.next (s.write rt value))
    | none => .plain (sem pc op s)
  | .reserved => .plain .faults
  | .other => .plain (sem pc op s)

/-- The direct branches. -/
def IsBranch (op : Word) : Prop :=
  match decode op with
  | .b _ | .bl _ | .bcond .. | .cbz .. | .tbz .. => True
  | _ => False

/-- It does the same at any address. -/
def PositionIndependent (op : Word) : Prop :=
  match decode op with
  | .movz .. | .movk .. | .br _ => True
  | .other => ∀ pc pc' s, sem pc op s = sem pc' op s
  | _ => False

end

theorem PositionIndependent.exec {σ : Type u} {sem : Semantics σ} {op : Word}
    (h : PositionIndependent sem op) (s : Cpu σ) :
    ∃ effect, ∀ load pc, exec sem load pc op s = .plain effect := by
  cases hdecode : decode op with
  | movz hw imm rd => exact ⟨.next (s.write rd (movz hw imm)), fun _ _ => by rw [Arm.exec, hdecode]⟩
  | movk hw imm rd =>
    exact ⟨.next (s.write rd (movk hw imm (s.read rd))), fun _ _ => by rw [Arm.exec, hdecode]⟩
  | br rn => exact ⟨.jumps (s.read rn) s, fun _ _ => by rw [Arm.exec, hdecode]⟩
  | other =>
    simp only [PositionIndependent, hdecode] at h
    exact ⟨sem 0 op s, fun _ pc => by rw [Arm.exec, hdecode, h pc 0 s]⟩
  | _ => simp only [PositionIndependent, hdecode] at h

-- ---------------------------------------------------------------------------
-- Decoding
-- ---------------------------------------------------------------------------

section

variable {op : Word}

theorem decode_b (h : op &&& 0xFC000000 = 0x14000000) : decode op = .b (op.extractLsb' 0 26) := by
  rw [decode, if_pos h]

theorem decode_bl (h : op &&& 0xFC000000 = 0x94000000) : decode op = .bl (op.extractLsb' 0 26) := by
  rw [decode, if_neg (and_ne h (by decide)), if_pos h]

theorem decode_eq_bl (h : decode op = .bl imm) :
    op &&& 0xFC000000 = 0x94000000 ∧ imm = op.extractLsb' 0 26 := by
  by_cases hbl : op &&& 0xFC000000 = 0x94000000
  · rw [decode_bl hbl] at h
    cases h
    exact ⟨hbl, rfl⟩
  · simp only [decode, hbl, if_false] at h
    split_ifs at h

theorem decode_bcond_plain (h : op &&& 0xFF000010 = 0x54000000) :
    decode op = .bcond false (op.extractLsb' 0 4) (op.extractLsb' 5 19) := by
  rw [decode, if_neg (and_ne h (by decide)), if_neg (and_ne h (by decide)), if_pos h]

theorem decode_bcond_consistent (h : op &&& 0xFF000010 = 0x54000010) :
    decode op = .bcond true (op.extractLsb' 0 4) (op.extractLsb' 5 19) := by
  rw [decode, if_neg (and_ne h (by decide)), if_neg (and_ne h (by decide)),
    if_neg (and_ne h (by decide)), if_pos h]

theorem decode_bcond (h : op &&& 0xFF000000 = 0x54000000) :
    ∃ consistent, decode op = .bcond consistent (op.extractLsb' 0 4) (op.extractLsb' 5 19) := by
  have hb4 : op &&& 0xFF000010 = 0x54000000 ∨ op &&& 0xFF000010 = 0x54000010 :=
    and_or_bit h 4 (by decide) (by decide)
  rcases hb4 with hplain | hconsistent
  · exact ⟨false, decode_bcond_plain hplain⟩
  · exact ⟨true, decode_bcond_consistent hconsistent⟩

theorem decode_reserved (h : op &&& 0xFF000000 = 0x55000000) : decode op = .reserved := by
  rw [decode, if_neg (and_ne h (by decide)), if_neg (and_ne h (by decide)),
    if_neg (and_ne h (by decide)), if_neg (and_ne h (by decide)), if_pos h]

theorem decode_cbz (h : op &&& 0x7E000000 = 0x34000000) :
    decode op =
      .cbz (op.getLsbD 31) (op.getLsbD 24) (op.extractLsb' 0 5) (op.extractLsb' 5 19) := by
  rw [decode, if_neg (and_ne h (by decide)), if_neg (and_ne h (by decide)),
    if_neg (and_ne h (by decide)), if_neg (and_ne h (by decide)), if_neg (and_ne h (by decide)),
    if_pos h]

theorem decode_tbz (h : op &&& 0x7E000000 = 0x36000000) :
    decode op = .tbz (op.getLsbD 24) (op.extractLsb' 31 1 ++ op.extractLsb' 19 5)
      (op.extractLsb' 0 5) (op.extractLsb' 5 14) := by
  rw [decode, if_neg (and_ne h (by decide)), if_neg (and_ne h (by decide)),
    if_neg (and_ne h (by decide)), if_neg (and_ne h (by decide)), if_neg (and_ne h (by decide)),
    if_neg (and_ne h (by decide)), if_pos h]

theorem decode_movz (h : op &&& 0xFF800000 = 0xD2800000) :
    decode op = .movz (op.extractLsb' 21 2) (op.extractLsb' 5 16) (op.extractLsb' 0 5) := by
  rw [decode, if_neg (and_ne h (by decide)), if_neg (and_ne h (by decide)),
    if_neg (and_ne h (by decide)), if_neg (and_ne h (by decide)), if_neg (and_ne h (by decide)),
    if_neg (and_ne h (by decide)), if_neg (and_ne h (by decide)), if_pos h]

theorem decode_movk (h : op &&& 0xFF800000 = 0xF2800000) :
    decode op = .movk (op.extractLsb' 21 2) (op.extractLsb' 5 16) (op.extractLsb' 0 5) := by
  rw [decode, if_neg (and_ne h (by decide)), if_neg (and_ne h (by decide)),
    if_neg (and_ne h (by decide)), if_neg (and_ne h (by decide)), if_neg (and_ne h (by decide)),
    if_neg (and_ne h (by decide)), if_neg (and_ne h (by decide)), if_neg (and_ne h (by decide)),
    if_pos h]

theorem IsBranch.masks (h : IsBranch op) :
    op &&& 0xFC000000 = 0x14000000 ∨ op &&& 0xFC000000 = 0x94000000 ∨
      op &&& 0xFF000000 = 0x54000000 ∨ op &&& 0x7E000000 = 0x34000000 ∨
      op &&& 0x7E000000 = 0x36000000 := by
  by_contra hnot
  simp only [not_or] at hnot
  obtain ⟨hb, hbl, hbcond, hcbz, htbz⟩ := hnot
  have hplain : op &&& 0xFF000010 ≠ 0x54000000 := fun h => hbcond (and_subset h rfl)
  have hconsistent : op &&& 0xFF000010 ≠ 0x54000010 := fun h => hbcond (and_subset h rfl)
  simp only [IsBranch, decode, hb, hbl, hplain, hconsistent, hcbz, htbz, if_false] at h
  split at h
  · next heq => split_ifs at heq
  · next heq => split_ifs at heq
  · next heq => split_ifs at heq
  · next heq => split_ifs at heq
  · next heq => split_ifs at heq
  · exact h

end

-- ---------------------------------------------------------------------------
-- Registers and conditions
-- ---------------------------------------------------------------------------

theorem holds_invert (f : Flags) (cond : BitVec 4) (h : cond.toNat < 14) :
    f.holds (cond ^^^ 1) = !f.holds cond := by
  obtain ⟨n, z, c, v⟩ := f
  revert n z c v cond
  decide

theorem holds_always (f : Flags) (cond : BitVec 4) (h : 14 ≤ cond.toNat) : f.holds cond = true := by
  obtain ⟨n, z, c, v⟩ := f
  revert n z c v cond
  decide

theorem compares_invert (wide nonzero : Bool) (value : BitVec 64) :
    compares wide (!nonzero) value = !compares wide nonzero value := by
  simp [compares]

theorem tests_invert (nonzero : Bool) (bit : BitVec 6) (value : BitVec 64) :
    tests (!nonzero) bit value = !tests nonzero bit value := by
  cases nonzero <;> simp [tests]

/-- Equal but for some registers. -/
structure SameBut (scratch : List (BitVec 5)) (s s' : Cpu σ) : Prop where
  flags : s'.flags = s.flags
  rest : s'.rest = s.rest
  read : ∀ r, r ∉ scratch → s'.read r = s.read r

theorem read_write (s : Cpu σ) (r : BitVec 5) (value : BitVec 64) (hr : r ≠ 31) :
    (s.write r value).read r = value := by
  have h : r.toNat < 31 := by
    have hlt := r.isLt
    have hne : r.toNat ≠ 31 := fun heq => hr (BitVec.eq_of_toNat_eq heq)
    omega
  simp [Cpu.write, Cpu.read, h]

theorem read_write_other (s : Cpu σ) (value : BitVec 64) (h : r' ≠ r) :
    (s.write r value).read r' = s.read r' := by
  have hne : r'.toNat ≠ r.toNat := fun heq => h (BitVec.eq_of_toNat_eq heq)
  unfold Cpu.write Cpu.read
  split
  · split
    · simp [Function.update, hne]
    · rfl
  · rfl

theorem write_write (s : Cpu σ) (r : BitVec 5) (value value' : BitVec 64) :
    (s.write r value).write r value' = s.write r value' := by
  unfold Cpu.write
  split <;> simp

theorem write_flags (s : Cpu σ) (r : BitVec 5) (value : BitVec 64) :
    (s.write r value).flags = s.flags := by
  unfold Cpu.write
  split <;> rfl

theorem write_rest (s : Cpu σ) (r : BitVec 5) (value : BitVec 64) :
    (s.write r value).rest = s.rest := by
  unfold Cpu.write
  split <;> rfl

namespace SameBut

variable {s s' s'' : Cpu σ}

theorem refl (s : Cpu σ) : SameBut l s s := ⟨rfl, rfl, fun _ _ => rfl⟩

theorem write (h : SameBut l s s') (hr : r ∈ l) (value : BitVec 64) :
    SameBut l s (s'.write r value) where
  flags := (write_flags s' r value).trans h.flags
  rest := (write_rest s' r value).trans h.rest
  read r' hr' := by
    have hne : r' ≠ r := fun heq => hr' (heq ▸ hr)
    rw [read_write_other _ _ hne, h.read r' hr']

theorem write_both (h : SameBut l s s') (hr : r ∈ l) (value value' : BitVec 64) :
    SameBut l (s.write r value) (s'.write r value') where
  flags := by rw [write_flags, write_flags, h.flags]
  rest := by rw [write_rest, write_rest, h.rest]
  read r' hr' := by
    have hne : r' ≠ r := fun heq => hr' (heq ▸ hr)
    rw [read_write_other _ _ hne, read_write_other _ _ hne, h.read r' hr']

end SameBut

end Arm
