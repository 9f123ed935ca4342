import ShinySongTools.Core.Relocation

/-!
# Displaced instructions

What `plan_op` makes of the words a trampoline is built for, and the turn the
trampoline takes for each of them.
-/

namespace ShinySongTools.Trampoline

open Arm BitFields Lockstep

variable {σ : Type u} {sem : Semantics σ}

/-- The plan of a word at `pc` that is a direct branch or does not depend on
its address. -/
inductive Classified (sem : Semantics σ) (op : Word) (pc : Addr) : Plan → Prop
  | verbatim : PositionIndependent sem op → Classified sem op pc (.verbatim op)
  | b : decode op = .b imm → Classified sem op pc (.b (pc + offset imm))
  | bl : decode op = .bl imm → Classified sem op pc (.bl (pc + offset imm))
  | bcond : decode op = .bcond consistent (op.extractLsb' 0 4) imm →
    Classified sem op pc (.bcond (op &&& 0xF) false (pc + offset imm))
  | cbz : op &&& 0x7E000000 = 0x34000000 →
    Classified sem op pc (.cbzCbnz op (op &&& 0x1F) (pc + offset (op.extractLsb' 5 19)))
  | tbz : op &&& 0x7E000000 = 0x36000000 →
    Classified sem op pc (.tbzTbnz op (op &&& 0x1F) (pc + offset (op.extractLsb' 5 14)))

theorem sext_eq (value : Word) {bits : Nat} (hpos : 0 < bits) (hle : bits ≤ 32) :
    sext value bits = (value.extractLsb' 0 bits).signExtend 64 :=
  signExtend_sshiftRight_shiftLeft value hpos hle (by decide)

theorem sext_imm26 (op : Word) :
    sext (op &&& 0x03FFFFFF) 26 * 4 = offset (op.extractLsb' 0 26) := by
  rw [sext_eq _ (by decide) (by decide), BitVec.extractLsb'_and, and_ones (by decide), offset]

theorem sext_imm19 (op : Word) :
    sext (op >>> 5 &&& 0x7FFFF) 19 * 4 = offset (op.extractLsb' 5 19) := by
  rw [sext_eq _ (by decide) (by decide), BitVec.extractLsb'_and, and_ones (by decide), offset,
    ← BitVec.setWidth_eq_extractLsb' (by decide), BitVec.setWidth_ushiftRight_eq_extractLsb]

theorem sext_imm14 (op : Word) :
    sext (op >>> 5 &&& 0x3FFFF) 14 * 4 = offset (op.extractLsb' 5 14) := by
  rw [sext_eq _ (by decide) (by decide), BitVec.extractLsb'_and, and_ones (by decide), offset,
    ← BitVec.setWidth_eq_extractLsb' (by decide), BitVec.setWidth_ushiftRight_eq_extractLsb]

/-- A test of the top byte, as one of the word. -/
theorem top8_iff {op m v m' v' : Word} (hm : m <<< 24 = m') (hv : v <<< 24 = v')
    (hm' : m' >>> 24 = m) (hv' : v' >>> 24 = v) : op >>> 24 &&& m = v ↔ op &&& m' = v' := by
  rw [← hm, ← hv]
  exact ushiftRight_and_eq_iff (by rw [hm, hm']) (by rw [hv, hv'])

theorem top6_bl_iff {op : Word} : op >>> 26 = 0b100101 ↔ op &&& 0xFC000000 = 0x94000000 := by
  have h := ushiftRight_eq_iff (x := op) (n := 26) (v := 0b100101) (by decide)
  have hmask : BitVec.allOnes 32 >>> 26 <<< 26 = 0xFC000000 := by decide
  rwa [hmask] at h

theorem planOp_classified {op : Word} {pc : Addr} {plan : Plan}
    (hop : IsBranch op ∨ PositionIndependent sem op) (h : planOp op pc = .ok plan) :
    Classified sem op pc plan := by
  simp only [planOp, sext_imm26, sext_imm19, sext_imm14] at h
  have hverbatim : ¬ IsBranch op → plan = .verbatim op → Classified sem op pc plan :=
    fun hnot heq => heq ▸ .verbatim (hop.resolve_left hnot)
  split at h
  · next hpac =>
    refine hverbatim ?_ (Except.ok.inj h).symm
    rw [hpac]
    exact fun hb => hb
  split at h
  · next hbranch =>
    split at h
    · next hbl =>
      cases h
      exact .bl (decode_bl (top6_bl_iff.mp hbl))
    · next hbl =>
      cases h
      rcases hbranch with hb | hb
      · have hb31 : op &&& 0xFC000000 = 0x14000000 ∨ op &&& 0xFC000000 = 0x94000000 :=
          and_or_bit hb 31 (by decide) (by decide)
        rcases hb31 with hb | hb
        · exact .b (decode_b hb)
        · exact absurd (top6_bl_iff.mpr hb) hbl
      · exact absurd (top6_bl_iff.mpr hb) hbl
  next hbranch =>
  split at h
  · next hcond =>
    cases h
    have hmask : op &&& 0xFE000000 = 0x54000000 :=
      (top8_iff (by decide) (by decide) (by decide) (by decide)).mp hcond
    have hb24 : op &&& 0xFF000000 = 0x54000000 ∨ op &&& 0xFF000000 = 0x55000000 :=
      and_or_bit hmask 24 (by decide) (by decide)
    rcases hb24 with hbcond | hreserved
    · obtain ⟨consistent, hdecode⟩ := decode_bcond hbcond
      exact .bcond hdecode
    · have hdecode : decode op = .reserved := decode_reserved hreserved
      simp [IsBranch, PositionIndependent, hdecode] at hop
  next hcond =>
  split at h
  · cases h
  split at h
  · cases h
  split at h
  · next hcbz =>
    cases h
    exact .cbz ((top8_iff (by decide) (by decide) (by decide) (by decide)).mp hcbz)
  next hcbz =>
  split at h
  · next htbz =>
    cases h
    exact .tbz ((top8_iff (by decide) (by decide) (by decide) (by decide)).mp htbz)
  next htbz =>
  have hnot : ¬ IsBranch op := fun hb => by
    rcases hb.masks with hmask | hmask | hmask | hmask | hmask
    · exact hbranch (.inl (and_subset hmask rfl))
    · exact hbranch (.inr hmask)
    · have hcond' : op &&& 0xFE000000 = 0x54000000 := and_subset hmask rfl
      exact hcond ((top8_iff (by decide) (by decide) (by decide) (by decide)).mpr hcond')
    · exact hcbz ((top8_iff (by decide) (by decide) (by decide) (by decide)).mpr hmask)
    · exact htbz ((top8_iff (by decide) (by decide) (by decide) (by decide)).mpr hmask)
  refine hverbatim hnot ?_
  split at h <;> exact (Except.ok.inj h).symm

-- ---------------------------------------------------------------------------
-- The window and the plans
-- ---------------------------------------------------------------------------

/-- The window as the machine runs it where it was taken from. -/
def original (entry : Addr) (ops : List Word) : Code := ⟨entry, ops⟩

def Plan.target? : Plan → Option Addr
  | .verbatim _ => none
  | .b target | .bl target | .bcond _ _ target | .cbzCbnz _ _ target | .tbzTbnz _ _ target =>
    some target

/-- A window a trampoline is built for; all addresses are below 2^48. -/
structure Displaced (sem : Semantics σ) (entry : Addr) (ops : List Word) (plans : List Plan) :
    Prop where
  length : ops.length = 1 ∨ ops.length = 4
  below : entry.toNat + 4 * ops.length < 2 ^ 48
  planned : planOps entry 0 ops = .ok plans
  words : ∀ op ∈ ops, IsBranch op ∨ PositionIndependent sem op
  targets : ∀ plan ∈ plans, ∀ t, plan.target? = some t → t.toNat < 2 ^ 48

theorem planOps_length {index : Nat} {ops : List Word} {plans : List Plan}
    (h : planOps entry index ops = .ok plans) : plans.length = ops.length := by
  induction ops generalizing index plans with
  | nil =>
    cases h
    rfl
  | cons op rest ih =>
    simp only [planOps] at h
    split at h
    · cases h
    split at h
    · cases h
    next hrest =>
    cases h
    rw [List.length_cons, List.length_cons, ih hrest]

theorem planOps_getElem? {index : Nat} {ops : List Word} {plans : List Plan}
    (h : planOps entry index ops = .ok plans) (hop : ops[i]? = some op) :
    ∃ plan, plans[i]? = some plan ∧
      planOp op (entry + BitVec.ofNat 64 (4 * (index + i))) = .ok plan := by
  induction ops generalizing index plans i with
  | nil => simp at hop
  | cons op' rest ih =>
    simp only [planOps] at h
    split at h
    · cases h
    next plan hplan =>
    split at h
    · cases h
    next plans' hrest =>
    cases h
    cases i with
    | zero =>
      cases hop
      exact ⟨plan, rfl, hplan⟩
    | succ i =>
      obtain ⟨plan', hget, hplan'⟩ := ih hrest hop
      refine ⟨plan', hget, ?_⟩
      rw [← hplan', Nat.add_right_comm, Nat.add_assoc]

section

variable {entry : Addr} {ops : List Word}

theorem stop_toNat (hbelow : entry.toNat + 4 * ops.length < 2 ^ 48) :
    (window entry ops).stop.toNat = entry.toNat + 4 * ops.length := by
  rw [window, BitVec.toNat_add, BitVec.toNat_ofNat,
    Nat.mod_eq_of_lt (a := 4 * ops.length) (by omega)]
  exact Nat.mod_eq_of_lt (by omega)

/-- A target is in the window exactly if it is the address of one of its words. -/
theorem contains_iff {t : Addr} (hbelow : entry.toNat + 4 * ops.length < 2 ^ 48)
    (halign : (t - entry).toNat % 4 = 0) :
    (window entry ops).contains t = true ↔
      (original entry ops).index? t = some (targetIndex t (window entry ops)) := by
  have hstop := stop_toNat hbelow
  have hsub : (t - entry).toNat = (2 ^ 64 - entry.toNat + t.toNat) % 2 ^ 64 :=
    BitVec.toNat_sub t entry
  have hlt := t.isLt
  simp only [Window.contains, Code.index?, original, targetIndex, window, Bool.and_eq_true,
    decide_eq_true_eq, BitVec.le_def, BitVec.lt_def, halign, true_and]
  simp only [window] at hstop
  rw [hstop]
  constructor
  · intro h
    rw [if_pos (by omega)]
  · intro h
    have hin := (Option.ite_none_right_eq_some.mp h).1
    omega

theorem target_aligned (entry : Addr) (ops : List Word) (imm : BitVec n) (i : Nat) :
    ((original entry ops).addr i + offset imm - entry).toNat % 4 = 0 := by
  have hsub : (original entry ops).addr i + offset imm - entry =
      4 * (BitVec.ofNat 64 i + imm.signExtend 64) := by
    rw [Code.addr, original, offset, BitVec.mul_add, BitVec.ofNat_mul,
      BitVec.mul_comm 4 (imm.signExtend 64),
      BitVec.add_assoc, BitVec.add_comm, BitVec.add_sub_cancel]
    rfl
  rw [hsub, BitVec.toNat_mul]
  have hfour : (4 : BitVec 64).toNat = 4 := rfl
  rw [hfour]
  omega

theorem addr_toNat (hbelow : entry.toNat + 4 * ops.length < 2 ^ 48) (hj : j < ops.length) :
    ((original entry ops).addr j).toNat = entry.toNat + 4 * j := by
  have hsum : (original entry ops).addr j = entry + BitVec.ofNat 64 (4 * j) := rfl
  rw [hsum, BitVec.toNat_add, BitVec.toNat_ofNat, Nat.mod_eq_of_lt (a := 4 * j) (by omega)]
  exact Nat.mod_eq_of_lt (by omega)

/-- Where a branch of the window goes. -/
theorem target_cases {n i : Nat} (imm : BitVec n) (hbelow : entry.toNat + 4 * ops.length < 2 ^ 48)
    (hn : n ≤ 26) (hi : i < ops.length) (hlen : ops.length ≤ 4) :
    (∃ j, (original entry ops).index? ((original entry ops).addr i + offset imm) = some j ∧
        j < ops.length ∧ imm.toInt = j - i ∧
        (window entry ops).contains ((original entry ops).addr i + offset imm) = true ∧
        targetIndex ((original entry ops).addr i + offset imm) (window entry ops) = j) ∨
      (original entry ops).index? ((original entry ops).addr i + offset imm) = none ∧
        (window entry ops).contains ((original entry ops).addr i + offset imm) = false := by
  have hiff := contains_iff hbelow (target_aligned entry ops imm i)
  cases hindex : (original entry ops).index? ((original entry ops).addr i + offset imm) with
  | none =>
    rw [hindex] at hiff
    exact .inr ⟨rfl, by simpa using hiff⟩
  | some j =>
    obtain ⟨haddr, hj⟩ := Code.index?_some hindex
    change j < ops.length at hj
    have hcontains :
        (window entry ops).contains ((original entry ops).addr i + offset imm) = true := by
      have hstop := stop_toNat hbelow
      have htoNat := addr_toNat hbelow hj
      have hstart : (window entry ops).start = entry := rfl
      rw [haddr]
      simp only [Window.contains, Bool.and_eq_true, decide_eq_true_eq, BitVec.le_def, BitVec.lt_def,
        hstop, htoNat, hstart]
      omega
    rw [hindex] at hiff
    have htarget := Option.some.inj (hiff.mp hcontains)
    exact .inl ⟨j, rfl, hj, Code.toInt_of_addr hn (by omega) (by omega) haddr, hcontains,
      htarget.symm⟩

end

end ShinySongTools.Trampoline
