import ShinySongTools.Arm.Memory
import ShinySongTools.Core.EntryPatchMemory
import ShinySongTools.Core.Relocation

/-!
# The bytes of an entry patch

`entry_patch_bytes`, and what a processor does that starts at an entry which
holds them.
-/

namespace ShinySongTools.Trampoline

open Arm

def branchImm26Words : Int := 2 ^ 25

/-- The distance is of two `usize`s, in a type that holds every such. -/
def entryPatchBytes (entry replacement : Addr) : List Byte :=
  let offset : Int := replacement.toNat - entry.toNat
  let imm26 : BitVec 64 := BitVec.ofInt 64 (offset >>> (2 : Nat))
  let reachable := offset % 4 = 0 ∧ -branchImm26Words ≤ imm26.toInt ∧ imm26.toInt < branchImm26Words
  if reachable then wordBytes (0x14000000 ||| imm26.setWidth 32 &&& 0x03FFFFFF)
  else wordBytes ldrX16Literal8 ++ wordBytes brX16 ++ doublewordBytes replacement

/-- Within the signed 26-bit word range of a `b`. -/
def InReach (entry replacement : Addr) : Prop :=
  let distance : Int := replacement.toNat - entry.toNat
  4 ∣ distance ∧ -2 ^ 27 ≤ distance ∧ distance < 2 ^ 27

variable {entry replacement : Addr}

theorem imm26_toInt (entry replacement : Addr) :
    (BitVec.ofInt 64 (((replacement.toNat : Int) - entry.toNat) >>> (2 : Nat))).toInt =
      ((replacement.toNat : Int) - entry.toNat) / 4 := by
  have he := entry.isLt
  have hr := replacement.isLt
  rw [Int.shiftRight_eq_div_pow]
  exact BitVec.toInt_ofInt_eq_self (by decide) (by push_cast; omega) (by push_cast; omega)

theorem entryPatchBytes_near (h : InReach entry replacement) :
    entryPatchBytes entry replacement =
      wordBytes (bEnc 0b000101 (((replacement.toNat : Int) - entry.toNat) / 4)) := by
  obtain ⟨hdvd, hlo, hhi⟩ := h
  have himm := imm26_toInt entry replacement
  simp only [entryPatchBytes, branchImm26Words, himm]
  rw [if_pos ⟨Int.emod_eq_zero_of_dvd hdvd, by omega, by omega⟩]
  have hword :
      (BitVec.ofInt 64 (((replacement.toNat : Int) - entry.toNat) >>> (2 : Nat))).setWidth 32 =
      u32 (((replacement.toNat : Int) - entry.toNat) / 4) := by
    rw [BitVec.setWidth_eq_extractLsb' (by decide), BitFields.extractLsb'_ofInt _ (by decide), u32,
      Int.shiftRight_eq_div_pow]
    rfl
  rw [hword]
  rfl

theorem entryPatchBytes_far (h : ¬ InReach entry replacement) :
    entryPatchBytes entry replacement =
      wordBytes ldrX16Literal8 ++ wordBytes brX16 ++ doublewordBytes replacement := by
  have himm := imm26_toInt entry replacement
  simp only [entryPatchBytes, branchImm26Words, himm]
  refine if_neg fun hreach => h ?_
  obtain ⟨hmod, hlo, hhi⟩ := hreach
  exact ⟨Int.dvd_of_emod_eq_zero hmod, by omega, by omega⟩

theorem entryPatchBytes_length (entry replacement : Addr) :
    ((entryPatchBytes entry replacement).length = 4 ↔ InReach entry replacement) ∧
      (¬ InReach entry replacement → (entryPatchBytes entry replacement).length = 16) := by
  by_cases h : InReach entry replacement
  · simp [entryPatchBytes_near h, wordBytes, h]
  · simp [entryPatchBytes_far h, wordBytes, doublewordBytes, h]

-- ---------------------------------------------------------------------------
-- Running them
-- ---------------------------------------------------------------------------

def patched (mem : Memory) (entry replacement : Addr) : Memory :=
  mem.overwrite entry (entryPatchBytes entry replacement)

section

variable {σ : Type u} (sem : Semantics σ) (mem : Memory)

theorem add_offset_near (h : InReach entry replacement) :
    entry + offset (BitVec.ofInt 26 (((replacement.toNat : Int) - entry.toNat) / 4)) =
      replacement := by
  obtain ⟨hdvd, hlo, hhi⟩ := h
  rw [offset, BitFields.signExtend_ofInt (by omega) (by omega),
    show (4 : BitVec 64) = BitVec.ofInt 64 4 from rfl, ← BitVec.ofInt_mul,
    Int.ediv_mul_cancel hdvd]
  have hentry : entry = BitVec.ofInt 64 entry.toNat := by
    rw [BitVec.ofInt_natCast, BitVec.ofNat_toNat, BitVec.setWidth_eq]
  conv_lhs => lhs; rw [hentry]
  rw [← BitVec.ofInt_add, Int.add_comm, Int.sub_add_cancel, BitVec.ofInt_natCast,
    BitVec.ofNat_toNat, BitVec.setWidth_eq]

theorem patched_near (h : InReach entry replacement) :
    (patched mem entry replacement).word entry =
      bEnc 0b000101 (((replacement.toNat : Int) - entry.toNat) / 4) := by
  have hbytes : wordBytes (bEnc 0b000101 (((replacement.toNat : Int) - entry.toNat) / 4)) =
      [] ++ wordBytes (bEnc 0b000101 (((replacement.toNat : Int) - entry.toNat) / 4)) ++ [] :=
    (List.append_nil _).symm
  have hword := word_overwrite mem entry hbytes (by simp [wordBytes])
  rw [List.length_nil, BitVec.add_zero] at hword
  rw [patched, entryPatchBytes_near h, hword]

theorem patched_far (h : ¬ InReach entry replacement) :
    (patched mem entry replacement).word entry = ldrX16Literal8 ∧
      (patched mem entry replacement).word (entry + 4) = brX16 ∧
      (patched mem entry replacement).doubleword (entry + 8) = replacement := by
  have hlen : (entryPatchBytes entry replacement).length ≤ 2 ^ 64 := by
    rw [(entryPatchBytes_length entry replacement).2 h]
    decide
  have hword (pre post : List Byte) (op : Word)
      (hbytes : wordBytes ldrX16Literal8 ++ wordBytes brX16 ++ doublewordBytes replacement =
        pre ++ wordBytes op ++ post) :
      (patched mem entry replacement).word (entry + BitVec.ofNat 64 pre.length) = op :=
    word_overwrite mem entry ((entryPatchBytes_far h).trans hbytes) hlen
  have hldr := hword [] (wordBytes brX16 ++ doublewordBytes replacement) ldrX16Literal8
    (by rw [List.nil_append, List.append_assoc])
  rw [List.length_nil, BitVec.add_zero] at hldr
  have hlo := hword (wordBytes ldrX16Literal8 ++ wordBytes brX16)
    (wordBytes (replacement.extractLsb' 32 32)) (replacement.extractLsb' 0 32)
    (by rw [doublewordBytes, List.append_assoc _ _ (wordBytes _)])
  have hhi := hword (wordBytes ldrX16Literal8 ++ wordBytes brX16 ++
    wordBytes (replacement.extractLsb' 0 32)) [] (replacement.extractLsb' 32 32)
    (by rw [doublewordBytes, List.append_nil, List.append_assoc _ (wordBytes _) (wordBytes _)])
  refine ⟨hldr, hword (wordBytes ldrX16Literal8) (doublewordBytes replacement) brX16 rfl, ?_⟩
  have haddr : entry + 8 + 4 = entry + BitVec.ofNat 64 12 := BitVec.add_assoc entry 8 4
  rw [Memory.doubleword, haddr]
  refine Eq.trans ?_ (@BitVec.extractLsb'_append_extractLsb' 32 32 replacement)
  exact congrArg₂ _ hhi hlo

theorem steps_near (h : InReach entry replacement) (haligned : entry.toNat % 4 = 0) (s : Cpu σ) :
    steps sem (patched mem entry replacement) 1 (entry, s) = some (replacement, s) := by
  have hdecode := decode_near_b (((replacement.toNat : Int) - entry.toNat) / 4)
  simp only [steps, advance, haligned, if_true, patched_near mem h, exec, hdecode,
    add_offset_near h, Option.bind_some]

theorem steps_far (h : ¬ InReach entry replacement) (haligned : entry.toNat % 4 = 0)
    (s : Cpu σ) :
    steps sem (patched mem entry replacement) 2 (entry, s) =
      some (replacement, s.write 16 replacement) := by
  obtain ⟨hldr, hbr, hliteral⟩ := patched_far mem h
  have hdecodeLdr : decode ldrX16Literal8 = .ldr 16 2 := by decide
  have hdecodeBr : decode brX16 = .br 16 := by decide
  have hoffset : offset (2 : BitVec 19) = 8 := by decide
  have haligned' : (entry + 4).toNat % 4 = 0 := by
    rw [BitVec.toNat_add, Nat.mod_mod_of_dvd _ (by decide), Nat.add_mod, haligned]
    rfl
  simp only [steps, advance, haligned, haligned', if_true, hldr, hbr, exec, hdecodeLdr, hdecodeBr,
    hoffset, hliteral, Option.bind_some]
  rw [read_write _ _ _ (by decide)]

/-- Whatever the entry held, and whatever else a processor does: the patch is
4 bytes long exactly within reach of a `b`, else 16 with the literal at its
end, and running it from the entry leads to the replacement with no register
but x16 changed. -/
theorem entry_patch_reaches (entry replacement : Addr) (haligned : entry.toNat % 4 = 0)
    (s : Cpu σ) :
    ((entryPatchBytes entry replacement).length = 4 ↔ InReach entry replacement) ∧
      (¬ InReach entry replacement →
        (entryPatchBytes entry replacement).length = 16 ∧
        ∃ rt imm k, decode ((patched mem entry replacement).word entry) = .ldr rt imm ∧
          entry + offset imm = entry + BitVec.ofNat 64 k ∧
          k + 8 ≤ (entryPatchBytes entry replacement).length ∧
          (patched mem entry replacement).doubleword (entry + offset imm) = replacement) ∧
      ∃ n s', steps sem (patched mem entry replacement) n (entry, s) = some (replacement, s') ∧
        SameBut [16] s s' := by
  obtain ⟨hnear, hfar⟩ := entryPatchBytes_length entry replacement
  refine ⟨hnear, fun h => ⟨hfar h, 16, 2, 8, ?_, rfl, ?_, ?_⟩, ?_⟩
  · rw [(patched_far mem h).1]
    decide
  · rw [hfar h]
  · exact (patched_far mem h).2.2
  · by_cases h : InReach entry replacement
    · exact ⟨1, s, steps_near sem mem h haligned s, .refl s⟩
    · exact ⟨2, _, steps_far sem mem h haligned s, (SameBut.refl s).write (by decide) _⟩

end

/-- From an entry to a replacement 128 MiB below it, which is still in reach. -/
theorem entry_patch_reaches_lowest :
    ∃ n s', steps (σ := Unit) (fun _ _ _ => .faults) (patched (fun _ => 0) 0x8001000 0x1000) n
        (0x8001000, ⟨fun _ => 0, ⟨false, false, false, false⟩, ()⟩) = some (0x1000, s') ∧
      SameBut [16] ⟨fun _ => 0, ⟨false, false, false, false⟩, ()⟩ s' :=
  (entry_patch_reaches (fun _ _ _ => .faults) (fun _ => 0) 0x8001000 0x1000 (by decide)
    ⟨fun _ => 0, ⟨false, false, false, false⟩, ()⟩).2.2

end ShinySongTools.Trampoline
