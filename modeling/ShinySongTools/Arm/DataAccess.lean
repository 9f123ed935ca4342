import ShinySongTools.Arm.Isa

/-!
# Data relative to the program counter

The words of A64 that compute or read an address relative to their own: `adr`,
`adrp` and the literal loads.
-/

namespace Arm

open BitFields

/-- What a literal load fills; `d` and `q` are SIMD&FP registers. -/
inductive Literal where
  | w
  | x
  | sw
  | prefetch
  | s
  | d
  | q
  deriving DecidableEq, Repr

inductive DataAccess where
  | adr
  | adrp
  | literal (into : Literal)
  deriving DecidableEq, Repr

/-- `opc` is bits 31 and 30, `V` bit 26. -/
def literal? (op : Word) : Option Literal :=
  if op &&& 0x3B000000 = 0x18000000 then
    match op.getLsbD 26, op.extractLsb' 30 2 with
    | false, 0 => some .w
    | false, 1 => some .x
    | false, 2 => some .sw
    | false, _ => some .prefetch
    | true, 0 => some .s
    | true, 1 => some .d
    | true, 2 => some .q
    | true, _ => none
  else none

def dataAccess? (op : Word) : Option DataAccess :=
  if op &&& 0x9F000000 = 0x10000000 then some .adr
  else if op &&& 0x9F000000 = 0x90000000 then some .adrp
  else .literal <$> literal? op

/-- A literal load of a SIMD&FP register. -/
def LoadsVector (op : Word) : Prop :=
  literal? op = some .s ∨ literal? op = some .d ∨ literal? op = some .q

/-- The load/store class with bits 29 to 24 `111000`: unscaled, indexed by an
immediate or by a register, unprivileged, atomic. -/
def LoadsRegister (op : Word) : Prop := op &&& 0x3F000000 = 0x38000000

instance (op : Word) : Decidable (LoadsVector op) := by unfold LoadsVector; infer_instance

instance (op : Word) : Decidable (LoadsRegister op) := by unfold LoadsRegister; infer_instance

variable {op : Word}

theorem literal?_general (h : op &&& 0x3F000000 = 0x18000000) : (literal? op).isSome := by
  have hclass : op &&& 0x3B000000 = 0x18000000 := and_subset h rfl
  have hv : op.getLsbD 26 = false := by
    have hbit := congrArg (·.getLsbD 26) h
    simpa using hbit
  rw [literal?, if_pos hclass, hv]
  split <;> first | rfl | contradiction

theorem literal?_vector (h : op &&& 0x3F000000 = 0x1C000000) :
    literal? op = none ∨ LoadsVector op := by
  have hclass : op &&& 0x3B000000 = 0x18000000 := and_subset h rfl
  have hv : op.getLsbD 26 = true := by
    have hbit := congrArg (·.getLsbD 26) h
    simpa using hbit
  rw [LoadsVector, literal?, if_pos hclass, hv]
  split <;> simp_all

theorem LoadsVector.mask (h : LoadsVector op) : op &&& 0x3F000000 = 0x1C000000 := by
  unfold LoadsVector literal? at h
  split at h
  case isFalse => simp at h
  next hclass =>
  have hv : op &&& 0x3F000000 = 0x18000000 ∨ op &&& 0x3F000000 = 0x1C000000 :=
    and_or_bit hclass 26 (by decide) (by decide)
  refine hv.resolve_left fun hgeneral => ?_
  have hbit : op.getLsbD 26 = false := by
    have hbit := congrArg (·.getLsbD 26) hgeneral
    simpa using hbit
  rw [hbit] at h
  split at h <;> simp_all

theorem LoadsVector.dataAccess? (h : LoadsVector op) : (dataAccess? op).isSome := by
  unfold Arm.dataAccess?
  split_ifs
  · rfl
  · rfl
  · rcases h with h | h | h <;> rw [h] <;> rfl

theorem dataAccess?_adr (h : op &&& 0x1F000000 = 0x10000000) : (dataAccess? op).isSome := by
  have hbit : op &&& 0x9F000000 = 0x10000000 ∨ op &&& 0x9F000000 = 0x90000000 :=
    and_or_bit h 31 (by decide) (by decide)
  unfold dataAccess?
  split_ifs with hadr hadrp
  · rfl
  · rfl
  · exact absurd (hbit.resolve_left hadr) hadrp

theorem dataAccess?_none (hadr : op &&& 0x1F000000 ≠ 0x10000000)
    (hliteral : literal? op = none) : dataAccess? op = none := by
  unfold dataAccess?
  rw [if_neg fun h => hadr (and_subset h rfl), if_neg fun h => hadr (and_subset h rfl), hliteral]
  rfl

end Arm
