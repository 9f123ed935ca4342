import ShinySongTools.Arm.DataAccess
import ShinySongTools.Core.Displaced

/-!
# What `plan_op` classifies

The plan every word should get at every address, next to the one it gets.
-/

namespace ShinySongTools.Trampoline

open Arm BitFields

/-- A direct branch with its target and fields; any other word as it is, so
`bc.cond` too. -/
def architecturalPlan (op : Word) (pc : Addr) : Plan :=
  match decode op with
  | .b imm => .b (pc + offset imm)
  | .bl imm => .bl (pc + offset imm)
  | .bcond false cond imm => .bcond (cond.setWidth 32) false (pc + offset imm)
  | .cbz _ _ rt imm => .cbzCbnz op (rt.setWidth 32) (pc + offset imm)
  | .tbz _ _ rt imm => .tbzTbnz op (rt.setWidth 32) (pc + offset imm)
  | _ => .verbatim op

/-- An error for the data accesses relative to the program counter and for no
other word, and the architecture's plan for the rest. -/
def ClassifiesAs (op : Word) (pc : Addr) (result : Except HookError Plan) : Prop :=
  match dataAccess? op with
  | some _ => ∃ e, result = .error e
  | none => result = .ok (architecturalPlan op pc)

/-- Outside the four groups of words that the masks misread. -/
def WellMasked (op : Word) : Prop :=
  ¬ LoadsVector op ∧ ¬ LoadsRegister op ∧ op &&& 0xFF000000 ≠ 0x55000000 ∧
    op &&& 0xFF000010 ≠ 0x54000010

variable {op : Word} {pc : Addr}

theorem planOp_masks (op : Word) (pc : Addr) : planOp op pc =
    if op = pacibsp then .ok (.verbatim op)
    else if op &&& 0x7C000000 = 0x14000000 ∨ op &&& 0xFC000000 = 0x94000000 then
      if op &&& 0xFC000000 = 0x94000000 then .ok (.bl (pc + offset (op.extractLsb' 0 26)))
      else .ok (.b (pc + offset (op.extractLsb' 0 26)))
    else if op &&& 0xFE000000 = 0x54000000 then
      .ok (.bcond (op &&& 0xF) false (pc + offset (op.extractLsb' 5 19)))
    else if op &&& 0x9F000000 = 0x10000000 ∨ op &&& 0x9F000000 = 0x90000000 then
      .error (.entryPatchUnsupported "adr/adrp in the displaced prologue")
    else if op &&& 0x1F000000 = 0x18000000 then
      .error (.entryPatchUnsupported "literal load in the displaced prologue")
    else if op &&& 0x7E000000 = 0x34000000 then
      .ok (.cbzCbnz op (op &&& 0x1F) (pc + offset (op.extractLsb' 5 19)))
    else if op &&& 0x7E000000 = 0x36000000 then
      .ok (.tbzTbnz op (op &&& 0x1F) (pc + offset (op.extractLsb' 5 14)))
    else .ok (.verbatim op) := by
  have top8 (m v m' v' : Word) (hm : m <<< 24 = m') (hv : v <<< 24 = v') (hm' : m' >>> 24 = m)
      (hv' : v' >>> 24 = v) : (op >>> 24 &&& m = v) = (op &&& m' = v') :=
    propext (top8_iff hm hv hm' hv')
  simp only [planOp, sext_imm26, sext_imm19, sext_imm14, propext top6_bl_iff, ite_self,
    top8 0xFE 0x54 0xFE000000 0x54000000 (by decide) (by decide)
      (by decide) (by decide),
    top8 0x9F 0x10 0x9F000000 0x10000000 (by decide) (by decide)
      (by decide) (by decide),
    top8 0x9F 0x90 0x9F000000 0x90000000 (by decide) (by decide)
      (by decide) (by decide),
    top8 0x1F 0x18 0x1F000000 0x18000000 (by decide) (by decide)
      (by decide) (by decide),
    top8 0x7E 0x34 0x7E000000 0x34000000 (by decide) (by decide)
      (by decide) (by decide),
    top8 0x7E 0x36 0x7E000000 0x36000000 (by decide) (by decide)
      (by decide) (by decide)]

theorem and_low_eq_extractLsb' {n : Nat} {m : Word} (h : m = (BitVec.allOnes n).setWidth 32)
    (op : Word) : op &&& m = (op.extractLsb' 0 n).setWidth 32 := by
  subst h
  apply BitVec.eq_of_getLsbD_eq
  intro i hi
  simp only [BitVec.getLsbD_and, BitVec.getLsbD_setWidth, BitVec.getLsbD_allOnes,
    BitVec.getLsbD_extractLsb', Nat.zero_add]
  by_cases hin : i < n <;> simp [hi, hin]

-- ---------------------------------------------------------------------------
-- One word at a time
-- ---------------------------------------------------------------------------

theorem architecturalPlan_of_not_branch (h : ¬ IsBranch op) :
    architecturalPlan op pc = .verbatim op := by
  unfold IsBranch at h
  unfold architecturalPlan
  split <;> simp_all

theorem classifiesAs_ok (hadr : op &&& 0x1F000000 ≠ 0x10000000)
    (hliteral : op &&& 0x3B000000 ≠ 0x18000000) (hregister : op &&& 0x3F000000 ≠ 0x38000000)
    (hreserved : op &&& 0xFF000000 ≠ 0x55000000) (hconsistent : op &&& 0xFF000010 ≠ 0x54000010)
    (hplan : plan = architecturalPlan op pc) :
    ClassifiesAs op pc (.ok plan) ↔ WellMasked op := by
  have hnone : dataAccess? op = none := dataAccess?_none hadr (if_neg hliteral)
  simp only [ClassifiesAs, hnone, hplan, true_iff]
  refine ⟨fun hvector => ?_, hregister, hreserved, hconsistent⟩
  exact absurd hvector.dataAccess? (by simp [hnone])

theorem classifiesAs_reserved (h : op &&& 0xFF000000 = 0x55000000) :
    ¬ ClassifiesAs op pc (.ok (.bcond flag inverted target)) := by
  have hnone : dataAccess? op = none :=
    dataAccess?_none (and_ne h (by decide)) (if_neg (and_ne h (by decide)))
  simp [ClassifiesAs, hnone, architecturalPlan, decode_reserved h]

theorem classifiesAs_consistent (h : op &&& 0xFF000010 = 0x54000010) :
    ¬ ClassifiesAs op pc (.ok (.bcond flag inverted target)) := by
  have hnone : dataAccess? op = none :=
    dataAccess?_none (and_ne h (by decide)) (if_neg (and_ne h (by decide)))
  simp [ClassifiesAs, hnone, architecturalPlan, decode_bcond_consistent h]

theorem classifiesAs_error : ClassifiesAs op pc (.error e) ↔ (dataAccess? op).isSome := by
  unfold ClassifiesAs
  cases dataAccess? op <;> simp

theorem wellMasked_adr (h : op &&& 0x1F000000 = 0x10000000) : WellMasked op := by
  refine ⟨fun hvector => ?_, and_ne h (by decide), and_ne h (by decide), and_ne h (by decide)⟩
  exact absurd hvector.mask (and_ne h (by decide))

theorem classifiesAs_literal (h : op &&& 0x1F000000 = 0x18000000) :
    ClassifiesAs op pc (.error e) ↔ WellMasked op := by
  have hclass : op &&& 0x3F000000 = 0x18000000 ∨ op &&& 0x3F000000 = 0x38000000 :=
    and_or_bit h 29 (by decide) (by decide)
  rw [classifiesAs_error]
  rcases hclass with hgeneral | hregister
  · obtain ⟨into, hinto⟩ := Option.isSome_iff_exists.mp (literal?_general hgeneral)
    have hsome : (dataAccess? op).isSome := by
      unfold dataAccess?
      split_ifs <;> simp [hinto]
    refine iff_of_true hsome ⟨fun hvector => ?_, ?_, and_ne h (by decide), and_ne h (by decide)⟩
    · exact absurd hvector.mask (and_ne hgeneral (by decide))
    · exact and_ne hgeneral (by decide)
  · have hnone : dataAccess? op = none :=
      dataAccess?_none (and_ne h (by decide)) (if_neg (and_ne hregister (by decide)))
    refine iff_of_false (by simp [hnone]) fun hmasked => hmasked.2.1 hregister

theorem classifiesAs_rest (hbranch : ¬ IsBranch op)
    (hcond : op &&& 0xFE000000 ≠ 0x54000000)
    (hadr : op &&& 0x1F000000 ≠ 0x10000000) (hliteral : op &&& 0x1F000000 ≠ 0x18000000) :
    ClassifiesAs op pc (.ok (.verbatim op)) ↔ WellMasked op := by
  by_cases hvector : LoadsVector op
  · obtain ⟨access, haccess⟩ := Option.isSome_iff_exists.mp hvector.dataAccess?
    refine iff_of_false ?_ fun hmasked => hmasked.1 hvector
    simp [ClassifiesAs, haccess]
  · have hnone : literal? op = none := by
      by_cases hclass : op &&& 0x3B000000 = 0x18000000
      · have hv : op &&& 0x3F000000 = 0x18000000 ∨ op &&& 0x3F000000 = 0x1C000000 :=
          and_or_bit hclass 26 (by decide) (by decide)
        rcases hv with hgeneral | hv
        · exact absurd (and_subset hgeneral rfl) hliteral
        · exact (literal?_vector hv).resolve_right hvector
      · exact if_neg hclass
    simp only [ClassifiesAs, dataAccess?_none hadr hnone, architecturalPlan_of_not_branch hbranch,
      true_iff]
    refine ⟨hvector, fun hregister => hliteral (and_subset hregister rfl), fun hreserved => ?_,
      fun hconsistent => hcond (and_subset hconsistent rfl)⟩
    exact hcond (and_subset hreserved rfl)

/-- `plan_op` classifies a word as the architecture does, at whatever address,
exactly when the word is in none of the groups its masks misread. -/
theorem planOp_classifiesAs_iff (op : Word) (pc : Addr) :
    ClassifiesAs op pc (planOp op pc) ↔ WellMasked op := by
  rw [planOp_masks]
  have hand5 := and_low_eq_extractLsb' (n := 5) (m := 0x1F) (by decide) op
  have hand4 := and_low_eq_extractLsb' (n := 4) (m := 0xF) (by decide) op
  split_ifs with hpac hbranch hbl hcond hadr hliteral hcbz htbz
  · subst hpac
    exact classifiesAs_rest (fun hb => hb) (by decide) (by decide) (by decide)
  · refine classifiesAs_ok (and_ne hbl (by decide)) (and_ne hbl (by decide))
      (and_ne hbl (by decide)) (and_ne hbl (by decide)) (and_ne hbl (by decide)) ?_
    rw [architecturalPlan, decode_bl hbl]
  · have hb := hbranch.resolve_right hbl
    have hb31 : op &&& 0xFC000000 = 0x14000000 ∨ op &&& 0xFC000000 = 0x94000000 :=
      and_or_bit hb 31 (by decide) (by decide)
    refine classifiesAs_ok (and_ne hb (by decide)) (and_ne hb (by decide))
      (and_ne hb (by decide)) (and_ne hb (by decide)) (and_ne hb (by decide)) ?_
    rw [architecturalPlan, decode_b (hb31.resolve_right hbl)]
  · have hb24 : op &&& 0xFF000000 = 0x54000000 ∨ op &&& 0xFF000000 = 0x55000000 :=
      and_or_bit hcond 24 (by decide) (by decide)
    rcases hb24 with hbcond | hreserved
    · have hb4 : op &&& 0xFF000010 = 0x54000000 ∨ op &&& 0xFF000010 = 0x54000010 :=
        and_or_bit hbcond 4 (by decide) (by decide)
      rcases hb4 with hplain | hconsistent
      · refine classifiesAs_ok (and_ne hcond (by decide)) (and_ne hcond (by decide))
          (and_ne hcond (by decide)) (and_ne hbcond (by decide)) (and_ne hplain (by decide)) ?_
        rw [architecturalPlan, decode_bcond_plain hplain, hand4]
      · exact iff_of_false (classifiesAs_consistent hconsistent)
          fun hmasked => hmasked.2.2.2 hconsistent
    · exact iff_of_false (classifiesAs_reserved hreserved) fun hmasked => hmasked.2.2.1 hreserved
  · have hmask : op &&& 0x1F000000 = 0x10000000 := by
      rcases hadr with h | h <;> exact and_subset h rfl
    exact iff_of_true (classifiesAs_error.mpr (dataAccess?_adr hmask)) (wellMasked_adr hmask)
  · exact classifiesAs_literal hliteral
  · refine classifiesAs_ok (and_ne hcbz (by decide)) (and_ne hcbz (by decide))
      (and_ne hcbz (by decide)) (and_ne hcbz (by decide)) (and_ne hcbz (by decide)) ?_
    rw [architecturalPlan, decode_cbz hcbz, hand5]
  · refine classifiesAs_ok (and_ne htbz (by decide)) (and_ne htbz (by decide))
      (and_ne htbz (by decide)) (and_ne htbz (by decide)) (and_ne htbz (by decide)) ?_
    rw [architecturalPlan, decode_tbz htbz, hand5]
  · refine classifiesAs_rest (fun hb => ?_) hcond (fun hmask => ?_) hliteral
    · rcases hb.masks with hmask | hmask | hmask | hmask | hmask
      · exact hbranch (.inl (and_subset hmask rfl))
      · exact hbranch (.inr hmask)
      · exact hcond (and_subset hmask rfl)
      · exact hcbz hmask
      · exact htbz hmask
    · have hbit : op &&& 0x9F000000 = 0x10000000 ∨ op &&& 0x9F000000 = 0x90000000 :=
        and_or_bit hmask 31 (by decide) (by decide)
      exact hadr hbit

/-- `ldr d0, #8` is copied. -/
theorem vector_literal_copied :
    ¬ ∀ (op : Word) (pc : Addr), ClassifiesAs op pc (planOp op pc) := by
  intro h
  obtain ⟨e, he⟩ : ∃ e, planOp 0x5C000040 0 = .error e := h 0x5C000040 0
  have hcopied : planOp 0x5C000040 0 = .ok (.verbatim 0x5C000040) := by decide
  cases he.symm.trans hcopied

end ShinySongTools.Trampoline
