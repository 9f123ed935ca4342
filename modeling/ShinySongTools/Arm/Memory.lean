import ShinySongTools.Arm.Isa

/-!
# Code as bytes

The machine over a byte memory: words are fetched and doublewords loaded
little-endian, one instruction a step.
-/

namespace Arm

abbrev Memory := Address → BitVec 8

namespace Memory

def word (mem : Memory) (a : Address) : Word := mem (a + 3) ++ mem (a + 2) ++ mem (a + 1) ++ mem a

def doubleword (mem : Memory) (a : Address) : BitVec 64 := mem.word (a + 4) ++ mem.word a

/-- The memory with these bytes from an address on. -/
def overwrite (mem : Memory) (origin : Address) (bytes : List (BitVec 8)) : Memory :=
  fun a => (bytes[(a - origin).toNat]?).getD (mem a)

end Memory

/-- `to_le_bytes` of a word. -/
def wordBytes (op : Word) : List (BitVec 8) :=
  [op.extractLsb' 0 8, op.extractLsb' 8 8, op.extractLsb' 16 8, op.extractLsb' 24 8]

def doublewordBytes (value : BitVec 64) : List (BitVec 8) :=
  wordBytes (value.extractLsb' 0 32) ++ wordBytes (value.extractLsb' 32 32)

section

variable {σ : Type u} (sem : Semantics σ) (mem : Memory)

/-- The next address and state; an instruction that is not aligned faults. -/
def advance : Address × Cpu σ → Option (Address × Cpu σ)
  | (pc, s) =>
    if pc.toNat % 4 = 0 then
      match exec sem (fun a => some (mem.doubleword a)) pc (mem.word pc) s with
      | .plain (.next s) => some (pc + 4, s)
      | .plain (.jumps target s) | .branches target s | .calls target s => some (target, s)
      | .plain .faults => none
    else none

def steps : Nat → Address × Cpu σ → Option (Address × Cpu σ)
  | 0, i => some i
  | n + 1, i => (advance sem mem i).bind (steps n)

end

-- ---------------------------------------------------------------------------
-- Reading back
-- ---------------------------------------------------------------------------

section

variable {mem : Memory} {origin : Address} {bytes block : List (BitVec 8)} {k : Nat}

theorem overwrite_apply (mem : Memory) (origin : Address) (hk : bytes[k]? = some byte)
    (hlen : bytes.length ≤ 2 ^ 64) :
    mem.overwrite origin bytes (origin + BitVec.ofNat 64 k) = byte := by
  have hindex : (origin + BitVec.ofNat 64 k - origin).toNat = k := by
    rw [BitVec.add_comm, BitVec.add_sub_cancel, BitVec.toNat_ofNat]
    exact Nat.mod_eq_of_lt (Nat.lt_of_lt_of_le (List.getElem?_eq_some_iff.mp hk).1 hlen)
  simp only [Memory.overwrite, hindex, hk, Option.getD_some]

theorem word_bytes (op : Word) :
    op.extractLsb' 24 8 ++ op.extractLsb' 16 8 ++ op.extractLsb' 8 8 ++
      op.extractLsb' 0 8 = op := by
  apply BitVec.eq_of_getLsbD_eq
  intro i hi
  simp only [BitVec.getLsbD_append, BitVec.getLsbD_extractLsb']
  rcases (by omega : i < 8 ∨ (8 ≤ i ∧ i < 16) ∨ (16 ≤ i ∧ i < 24) ∨ 24 ≤ i) with
    h | ⟨hlo, hhi⟩ | ⟨hlo, hhi⟩ | h
  · simp [h]
  · simp [show ¬ i < 8 by omega, show i - 8 < 8 by omega, show 8 + (i - 8) = i by omega]
  · simp [show ¬ i < 8 by omega, show ¬ i - 8 < 8 by omega, show i - 8 - 8 < 8 by omega,
      show 16 + (i - 8 - 8) = i by omega]
  · simp [show ¬ i < 8 by omega, show ¬ i - 8 < 8 by omega, show ¬ i - 8 - 8 < 8 by omega,
      show i - 8 - 8 - 8 < 8 by omega, show 24 + (i - 8 - 8 - 8) = i by omega]

/-- A word that was written is fetched. -/
theorem word_overwrite (mem : Memory) (origin : Address) {op : Word} {pre post : List (BitVec 8)}
    (hbytes : bytes = pre ++ wordBytes op ++ post) (hlen : bytes.length ≤ 2 ^ 64) :
    (mem.overwrite origin bytes).word (origin + BitVec.ofNat 64 pre.length) = op := by
  have hat : ∀ i byte, (wordBytes op)[i]? = some byte → mem.overwrite origin bytes
      (origin + BitVec.ofNat 64 pre.length + BitVec.ofNat 64 i) = byte := by
    intro i byte hi
    rw [BitVec.add_assoc, ← BitVec.ofNat_add]
    refine overwrite_apply mem origin ?_ hlen
    have hlt := (List.getElem?_eq_some_iff.mp hi).1
    rw [hbytes, List.append_assoc, List.getElem?_append_right (Nat.le_add_right ..),
      Nat.add_sub_cancel_left, List.getElem?_append_left hlt]
    exact hi
  have h0 := hat 0 _ rfl
  rw [BitVec.add_zero] at h0
  rw [← word_bytes op, ← h0, ← hat 1 _ rfl, ← hat 2 _ rfl, ← hat 3 _ rfl]
  rfl

end

end Arm
