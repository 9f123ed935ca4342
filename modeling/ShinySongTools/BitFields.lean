import Mathlib.Data.BitVec

/-!
# Bit fields

Masks, shifts and fields of words: which tests of a mask exclude each other,
how a field is read back from a word put together with shifts and ors, and
signed fields.
-/

namespace BitFields

variable {w : Nat} {x m m' v v' : BitVec w}

/-- Two tests of a word that disagree where their masks overlap. -/
theorem and_ne (h : x &&& m = v) (hne : v &&& m' ≠ v' &&& m) : x &&& m' ≠ v' := by
  intro h'
  apply hne
  rw [← h, ← h', BitVec.and_assoc, BitVec.and_assoc, BitVec.and_comm m]

theorem and_ones (h : m = BitVec.allOnes w) : x &&& m = x := by
  rw [h, BitVec.and_allOnes]

theorem and_subset (h : x &&& m = v) (hm : m &&& m' = m') : x &&& m' = v &&& m' := by
  rw [← h, BitVec.and_assoc, hm]

theorem xor_and (x y m : BitVec w) : (x ^^^ y) &&& m = (x &&& m) ^^^ (y &&& m) := by
  apply BitVec.eq_of_getLsbD_eq
  intro i hi
  simp [Bool.and_xor_distrib_right]

theorem shiftLeft_and (x m : BitVec w) (n : Nat) : x <<< n &&& m = (x &&& m >>> n) <<< n := by
  apply BitVec.eq_of_getLsbD_eq
  intro i hi
  simp only [BitVec.getLsbD_and, BitVec.getLsbD_shiftLeft, BitVec.getLsbD_ushiftRight]
  by_cases hn : i < n
  · simp [hn]
  · simp [hn, Bool.and_assoc, Nat.add_sub_cancel' (Nat.le_of_not_lt hn)]

theorem ushiftRight_and_shiftLeft (x m : BitVec w) (n : Nat) :
    (x >>> n &&& m) <<< n = x &&& m <<< n := by
  apply BitVec.eq_of_getLsbD_eq
  intro i hi
  simp only [BitVec.getLsbD_and, BitVec.getLsbD_shiftLeft, BitVec.getLsbD_ushiftRight]
  by_cases hn : i < n
  · simp [hn]
  · simp [hn, hi, Nat.add_sub_cancel' (Nat.le_of_not_lt hn)]

/-- A test of the upper part of a word. -/
theorem ushiftRight_and_eq_iff {n : Nat} (hm : m <<< n >>> n = m) (hv : v <<< n >>> n = v) :
    x >>> n &&& m = v ↔ x &&& m <<< n = v <<< n := by
  constructor
  · rintro rfl
    rw [ushiftRight_and_shiftLeft]
  · intro h
    rw [← hv, ← h, BitVec.ushiftRight_and_distrib, hm]

theorem ushiftRight_eq_iff {n : Nat} (hv : v <<< n >>> n = v) :
    x >>> n = v ↔ x &&& BitVec.allOnes w >>> n <<< n = v <<< n := by
  have hones : BitVec.allOnes w >>> n <<< n >>> n = BitVec.allOnes w >>> n := by
    apply BitVec.eq_of_getLsbD_eq
    intro i hi
    simp only [BitVec.getLsbD_ushiftRight, BitVec.getLsbD_shiftLeft, BitVec.getLsbD_allOnes]
    simp
  rw [← ushiftRight_and_eq_iff hones hv, ← BitVec.ushiftRight_and_distrib, BitVec.and_allOnes]

/-- One more bit of a word, known through a mask. -/
theorem and_or_bit (h : x &&& m = v) (i : Nat) (hm : m ||| BitVec.twoPow w i = m')
    (hv : v ||| BitVec.twoPow w i = v') : x &&& m' = v ∨ x &&& m' = v' := by
  rw [← hm, ← hv, BitVec.and_or_distrib_left, h, BitVec.and_twoPow]
  split
  · exact .inr rfl
  · exact .inl BitVec.or_zero

theorem extractLsb'_shiftLeft {n start len : Nat} (h : n ≤ start) (hw : start + len ≤ w) :
    (x <<< n).extractLsb' start len = x.extractLsb' (start - n) len := by
  apply BitVec.eq_of_getLsbD_eq
  intro i hi
  have hlt : ¬ start + i < n := by omega
  have hwi : start + i < w := by omega
  rw [BitVec.getLsbD_extractLsb', BitVec.getLsbD_extractLsb', BitVec.getLsbD_shiftLeft,
    show start + i - n = start - n + i by omega]
  simp [hlt, hwi]

theorem extractLsb'_shiftLeft_eq_zero {n start len : Nat} (h : start + len ≤ n) :
    (x <<< n).extractLsb' start len = 0 := by
  apply BitVec.eq_of_getLsbD_eq
  intro i hi
  simp [show start + i < n by omega]

theorem extractLsb'_ofInt {len : Nat} (d : Int) (h : len ≤ w) :
    (BitVec.ofInt w d).extractLsb' 0 len = BitVec.ofInt len d := by
  rw [← BitVec.setWidth_eq_extractLsb' h]
  apply BitVec.eq_of_toInt_eq
  rw [BitVec.toInt_setWidth, BitVec.toInt_ofInt, BitVec.toNat_ofInt]
  have hdvd : ((2 ^ len : Nat) : Int) ∣ ((2 ^ w : Nat) : Int) := by
    exact_mod_cast Nat.pow_dvd_pow 2 h
  rw [Int.toNat_of_nonneg (Int.emod_nonneg _ (by exact_mod_cast (Nat.two_pow_pos w).ne')),
    Int.bmod_def, Int.bmod_def,
    Int.emod_emod_of_dvd _ hdvd]

theorem signExtend_ofInt {n k : Nat} {d : Int} (hlo : -2 ^ n ≤ d) (hhi : d < 2 ^ n) :
    (BitVec.ofInt (n + 1) d).signExtend k = BitVec.ofInt k d := by
  have hd : (BitVec.ofInt (n + 1) d).toInt = d := by
    apply BitVec.toInt_ofInt_eq_self (by omega)
    · simpa using hlo
    · simpa using hhi
  rw [BitVec.signExtend, hd]

/-- Sign extension as two shifts. -/
theorem sshiftRight_shiftLeft {n : Nat} (x : BitVec w) (h : n ≤ w) (hn : 0 < n) :
    (x <<< (w - n)).sshiftRight (w - n) = (x.extractLsb' 0 n).signExtend w := by
  apply BitVec.eq_of_getLsbD_eq
  intro i hi
  rw [BitVec.getLsbD_sshiftRight, BitVec.getLsbD_signExtend]
  by_cases hin : i < n
  · have hlt : w - n + i < w := by omega
    have hge : ¬ w - n + i < w - n := by omega
    simp [Nat.not_le.mpr hi, hi, hin, hlt, hge]
  · have hge : ¬ w - n + i < w := by omega
    have hmsb : (x <<< (w - n)).msb = (x.extractLsb' 0 n).msb := by
      rw [BitVec.msb_eq_getLsbD_last, BitVec.msb_eq_getLsbD_last, BitVec.getLsbD_shiftLeft,
        BitVec.getLsbD_extractLsb', show w - 1 - (w - n) = 0 + (n - 1) by omega]
      simp [show w - 1 < w by omega, show n - 1 < n by omega, show ¬ w - 1 < w - n by omega]
    simp only [hge, if_false, hin, hmsb]
    simp [hi]

theorem signExtend_sshiftRight_shiftLeft {n v : Nat} (x : BitVec w) (hn : 0 < n) (hle : n ≤ w)
    (hv : w ≤ v) : ((x <<< (w - n)).sshiftRight (w - n)).signExtend v =
      (x.extractLsb' 0 n).signExtend v := by
  rw [sshiftRight_shiftLeft x hle hn]
  apply BitVec.eq_of_toInt_eq
  rw [BitVec.toInt_signExtend_of_le hv, BitVec.toInt_signExtend_of_le hle,
    BitVec.toInt_signExtend_of_le (Nat.le_trans hle hv)]

end BitFields
