import ShinySongTools.Core.Trampoline

/-!
# Relocated instructions

A trampoline runs the displaced instructions in lockstep with the window they
were taken from, where the relocation of each instruction that is executed
keeps its meaning (`Relocatable`).
-/

namespace ShinySongTools.Trampoline

open Arm BitFields Lockstep

-- ---------------------------------------------------------------------------
-- Emitted words
-- ---------------------------------------------------------------------------

section

variable {op : Word}

theorem decode_near_b (d : Int) : decode (bEnc 0b000101 d) = .b (BitVec.ofInt 26 d) := by
  rw [decode_b]
  · simp (disch := decide) [bEnc, u32, BitVec.extractLsb'_or, BitVec.extractLsb'_and,
      extractLsb'_ofInt, and_ones]
  · simp [bEnc, BitVec.and_or_distrib_right, BitVec.and_assoc]

theorem decode_near_bl (d : Int) : decode (bEnc 0b100101 d) = .bl (BitVec.ofInt 26 d) := by
  rw [decode_bl]
  · simp (disch := decide) [bEnc, u32, BitVec.extractLsb'_or, BitVec.extractLsb'_and,
      extractLsb'_ofInt, and_ones]
  · simp [bEnc, BitVec.and_or_distrib_right, BitVec.and_assoc]

theorem decode_near_bcond (d : Int) (op : Word) :
    decode (0x54000000#32 ||| (u32 d &&& 0x7FFFF) <<< 5 ||| op &&& 0xF) =
      .bcond false (op.extractLsb' 0 4) (BitVec.ofInt 19 d) := by
  rw [decode_bcond_plain]
  · simp (disch := decide) [u32, BitVec.extractLsb'_or, BitVec.extractLsb'_and, extractLsb'_ofInt,
      extractLsb'_shiftLeft, extractLsb'_shiftLeft_eq_zero, and_ones]
  · simp [BitVec.and_or_distrib_right, shiftLeft_and, BitVec.and_assoc]

theorem decode_skip_bcond (op : Word) :
    decode (0x54000000#32 ||| 5#32 <<< 5 ||| (op &&& 0xF) ^^^ 1) =
      .bcond false (op.extractLsb' 0 4 ^^^ 1) 5 := by
  rw [decode_bcond_plain]
  · simp (disch := decide) [BitVec.extractLsb'_or, BitVec.extractLsb'_and, BitVec.extractLsb'_xor,
      and_ones]
  · simp [BitVec.and_or_distrib_right, xor_and, BitVec.and_assoc]

theorem decode_near_cbz (d : Int) (h : op &&& 0x7E000000 = 0x34000000) :
    decode (op &&& 0xFF000000#32 ||| (u32 d &&& 0x7FFFF) <<< 5 ||| op &&& 0x1F) =
      .cbz (op.getLsbD 31) (op.getLsbD 24) (op.extractLsb' 0 5) (BitVec.ofInt 19 d) := by
  rw [decode_cbz]
  · simp (disch := decide) [u32, BitVec.extractLsb'_or, BitVec.extractLsb'_and, extractLsb'_ofInt,
      extractLsb'_shiftLeft, extractLsb'_shiftLeft_eq_zero, and_ones]
  · simpa [BitVec.and_or_distrib_right, shiftLeft_and, BitVec.and_assoc] using h

theorem decode_skip_cbz (h : op &&& 0x7E000000 = 0x34000000) :
    decode ((op ^^^ 0x01000000#32) &&& 0xFF00001F#32 ||| 5#32 <<< 5 ||| op &&& 0x1F) =
      .cbz (op.getLsbD 31) (!op.getLsbD 24) (op.extractLsb' 0 5) 5 := by
  rw [decode_cbz]
  · simp (disch := decide) [BitVec.extractLsb'_or, BitVec.extractLsb'_and, BitVec.extractLsb'_xor,
      and_ones]
  · simpa [BitVec.and_or_distrib_right, xor_and, BitVec.and_assoc] using h

/-- The mask of the new immediate reaches into the number of the tested bit. -/
theorem decode_near_tbz (d : Int) (h : op &&& 0x7E000000 = 0x36000000) :
    decode (op &&& 0xFFFF8000#32 ||| (u32 d &&& 0x3FFFF) <<< 5 ||| op &&& 0x1F) =
      .tbz (op.getLsbD 24) (op.extractLsb' 31 1 ++
        (op.extractLsb' 19 5 ||| (BitVec.ofInt 32 d).extractLsb' 14 5 &&& 0xF))
        (op.extractLsb' 0 5) (op.extractLsb' 5 14 &&& 0x3C00 ||| BitVec.ofInt 14 d) := by
  rw [decode_tbz]
  · simp (disch := decide) [u32, BitVec.extractLsb'_or, BitVec.extractLsb'_and, extractLsb'_ofInt,
      extractLsb'_shiftLeft, extractLsb'_shiftLeft_eq_zero, and_ones]
  · simpa [BitVec.and_or_distrib_right, shiftLeft_and, BitVec.and_assoc] using h

/-- Bits 11 to 13 of the old immediate are not cleared. -/
theorem decode_skip_tbz (h : op &&& 0x7E000000 = 0x36000000) :
    decode ((op ^^^ 0x01000000#32) &&& 0xFFFF001F#32 ||| 5#32 <<< 5 ||| op &&& 0x1F) =
      .tbz (!op.getLsbD 24) (op.extractLsb' 31 1 ++ op.extractLsb' 19 5) (op.extractLsb' 0 5)
        (op.extractLsb' 5 14 &&& 0x3800 ||| 5) := by
  rw [decode_tbz]
  · simp (disch := decide) [BitVec.extractLsb'_or, BitVec.extractLsb'_and, BitVec.extractLsb'_xor,
      and_ones]
  · simpa [BitVec.and_or_distrib_right, xor_and, BitVec.and_assoc] using h

theorem decode_movz_half (half rd : Word) (hhalf : half &&& 0xFFFF = half)
    (hrd : rd &&& 0x1F = rd) :
    decode (0xD2800000#32 ||| half <<< 5 ||| rd) = .movz 0 (half.extractLsb' 0 16)
      (rd.extractLsb' 0 5) := by
  rw [← hhalf, ← hrd, decode_movz]
  · simp (disch := decide) [BitVec.extractLsb'_or, BitVec.extractLsb'_and, extractLsb'_shiftLeft,
      extractLsb'_shiftLeft_eq_zero, and_ones]
  · simp [BitVec.and_or_distrib_right, shiftLeft_and, BitVec.and_assoc]

theorem decode_movk_half (hw half rd : Word) (hhw : hw &&& 0x00600000 = hw)
    (hhalf : half &&& 0xFFFF = half) (hrd : rd &&& 0x1F = rd) :
    decode (0xF2800000#32 ||| hw ||| half <<< 5 ||| rd) =
      .movk (hw.extractLsb' 21 2) (half.extractLsb' 0 16) (rd.extractLsb' 0 5) := by
  rw [← hhw, ← hhalf, ← hrd, decode_movk]
  · simp (disch := decide) [BitVec.extractLsb'_or, BitVec.extractLsb'_and, extractLsb'_shiftLeft,
      extractLsb'_shiftLeft_eq_zero, and_ones]
  · simp [BitVec.and_or_distrib_right, shiftLeft_and, BitVec.and_assoc]

end

-- ---------------------------------------------------------------------------
-- Addresses in registers
-- ---------------------------------------------------------------------------

theorem getLsbD_movk (hw : BitVec 2) (imm : BitVec 16) (old : BitVec 64) (hi : i < 64) :
    (movk hw imm old).getLsbD i =
      if 16 * hw.toNat ≤ i ∧ i < 16 * hw.toNat + 16 then imm.getLsbD (i - 16 * hw.toNat)
      else old.getLsbD i := by
  have hones : (0xFFFF : BitVec 64) = (BitVec.allOnes 16).setWidth 64 := rfl
  rw [movk, hones]
  simp only [BitVec.getLsbD_or, BitVec.getLsbD_and, BitVec.getLsbD_not, BitVec.getLsbD_shiftLeft,
    BitVec.getLsbD_setWidth, BitVec.getLsbD_allOnes]
  by_cases hlo : i < 16 * hw.toNat
  · have hin : ¬ (16 * hw.toNat ≤ i ∧ i < 16 * hw.toNat + 16) := by omega
    simp [hlo, hin, hi]
  · by_cases hhi : i < 16 * hw.toNat + 16
    · have hin : 16 * hw.toNat ≤ i ∧ i < 16 * hw.toNat + 16 := by omega
      have hlt : i - 16 * hw.toNat < 16 := by omega
      have hlt' : i - 16 * hw.toNat < 64 := by omega
      simp [hlo, hin, hi, hlt, hlt']
    · have hin : ¬ (16 * hw.toNat ≤ i ∧ i < 16 * hw.toNat + 16) := by omega
      have hge : ¬ i - 16 * hw.toNat < 16 := by omega
      have hout : imm.getLsbD (i - 16 * hw.toNat) = false := BitVec.getLsbD_of_ge _ _ (by omega)
      simp [hin, hi, hge, hout]

/-- Three halfwords put an address below 2^48 together. -/
theorem movImm48_value {value : Addr} (h : value.toNat < 2 ^ 48) :
    movk 2 (value.extractLsb' 32 16) (movk 1 (value.extractLsb' 16 16)
      (movz 0 (value.extractLsb' 0 16))) = value := by
  apply BitVec.eq_of_getLsbD_eq
  intro i hi
  rw [getLsbD_movk _ _ _ hi, getLsbD_movk _ _ _ hi, movz]
  simp only [BitVec.getLsbD_shiftLeft, BitVec.getLsbD_setWidth, BitVec.getLsbD_extractLsb',
    show (2 : BitVec 2).toNat = 2 from rfl, show (1 : BitVec 2).toNat = 1 from rfl,
    show (0 : BitVec 2).toNat = 0 from rfl]
  by_cases hhi : i < 48
  · by_cases hmid : i < 32
    · by_cases hlo : i < 16
      · simp [hlo, hi, show ¬ 32 ≤ i by omega, show ¬ 16 ≤ i by omega]
      · simp [hmid, show ¬ 32 ≤ i by omega, show 16 ≤ i by omega, show i - 16 < 16 by omega,
          show 16 + (i - 16) = i by omega]
    · simp [hhi, show 32 ≤ i by omega, show i - 32 < 16 by omega, show 32 + (i - 32) = i by omega]
  · have hzero : value.getLsbD i = false := Nat.testBit_lt_two_pow
      (Nat.lt_of_lt_of_le h (Nat.pow_le_pow_right (by decide) (Nat.le_of_not_lt hhi)))
    simp [hhi, hzero, show ¬ i < 32 by omega, show ¬ i < 16 by omega]

theorem setWidth_halfword (value : Addr) :
    (value &&& 0xFFFF).setWidth 32 &&& 0xFFFF = (value &&& 0xFFFF).setWidth 32 := by
  rw [BitVec.setWidth_and, BitVec.and_assoc]
  rfl

theorem extractLsb'_halfword (value : Addr) (n : Nat) :
    ((value >>> n &&& 0xFFFF).setWidth 32).extractLsb' 0 16 = value.extractLsb' n 16 := by
  rw [BitVec.extractLsb'_setWidth_of_le (by decide), BitVec.extractLsb'_and]
  rw [show BitVec.extractLsb' 0 16 (0xFFFF : BitVec 64) = BitVec.allOnes 16 from rfl,
    BitVec.and_allOnes, ← BitVec.setWidth_eq_extractLsb' (by decide)]
  exact BitVec.setWidth_ushiftRight_eq_extractLsb

section

variable {σ : Type u} {sem : Semantics σ} {c : Code} {marks : List Nat} {s : Cpu σ}

theorem hop_movImm48 {rd : Word} {value : Addr} {next : Word} {rest : List Word}
    (hlen : 4 * c.words.length ≤ 2 ^ 64) (hp : c.Placed k (movImm48 rd value ++ next :: rest))
    (hout : ∀ i, k < i → i ≤ k + 3 → i ∉ marks) (hvalue : value.toNat < 2 ^ 48)
    (hrd : rd &&& 0x1F = rd) (hne : rd.extractLsb' 0 5 ≠ 31)
    (h : Code.Hop sem c marks (k + 3) (s.write (rd.extractLsb' 0 5) value) r) :
    Code.Hop sem c marks k s r := by
  have hlo := hp.head
  have hmid := hp.tail.head
  have hhi := hp.tail.tail.head
  have hnext := (List.getElem?_eq_some_iff.mp hp.tail.tail.tail.head).1
  have hmovz := decode_movz_half _ rd (setWidth_halfword value) hrd
  have hmovk := decode_movk_half 0x00200000#32 _ rd rfl (setWidth_halfword (value >>> 16)) hrd
  have hmovk' := decode_movk_half 0x00400000#32 _ rd rfl (setWidth_halfword (value >>> 32)) hrd
  rw [extractLsb'_halfword] at hmovk hmovk'
  have hfirst := extractLsb'_halfword value 0
  rw [BitVec.ushiftRight_zero] at hfirst
  rw [hfirst] at hmovz
  refine .next hlen (s.write (rd.extractLsb' 0 5) (movz 0 (value.extractLsb' 0 16))) hlo (by omega)
    (by simp only [exec, hmovz]) (hout _ (by omega) (by omega)) ?_
  refine .next hlen (s.write (rd.extractLsb' 0 5) (movk 1 (value.extractLsb' 16 16)
    (movz 0 (value.extractLsb' 0 16)))) hmid (by omega) ?_ (hout _ (by omega) (by omega)) ?_
  · simp only [exec, hmovk, read_write _ _ _ hne, write_write]
    rfl
  refine .next hlen (s.write (rd.extractLsb' 0 5) value) hhi (by omega) ?_
    (hout _ (by omega) (by omega)) h
  simp only [exec, hmovk', read_write _ _ _ hne, write_write]
  rw [show BitVec.extractLsb' 21 2 0x00400000#32 = 2 from rfl, movImm48_value hvalue]

theorem hop_brX16 (sem : Semantics σ) (marks : List Nat) (s : Cpu σ)
    (hp : c.words[k]? = some brX16) :
    Code.Hop sem c marks k s (.ends (.leaves (s.read 16) s)) := by
  refine .ends ?_
  have hdecode : decode brX16 = .br 16 := by decide
  simp only [Code.step, hp, exec, hdecode]

theorem hop_farJump {target : Addr} (hlen : 4 * c.words.length ≤ 2 ^ 64)
    (hp : c.Placed k (farJumpSeq target)) (hout : ∀ i, k < i → i ≤ k + 3 → i ∉ marks)
    (htarget : target.toNat < 2 ^ 48) :
    Code.Hop sem c marks k s (.ends (.leaves target (s.write 16 target))) := by
  refine hop_movImm48 hlen hp hout htarget rfl (by decide) ?_
  have hbr := hop_brX16 sem marks (s.write 16 target) hp.tail.tail.tail.head
  rwa [read_write _ _ _ (by decide)] at hbr

/-- The jump back loads its target from the words behind it. -/
theorem hop_tail {back : Addr} (hlen : 4 * c.words.length ≤ 2 ^ 64) (hp : c.Placed k (tail back))
    (hout : k + 1 ∉ marks) :
    Code.Hop sem c marks k s (.ends (.leaves back (s.write 16 back))) := by
  have hlo := hp.tail.tail.head
  have hhi := hp.tail.tail.tail.head
  have hlt := (List.getElem?_eq_some_iff.mp hhi).1
  have hdecode : decode ldrX16Literal8 = .ldr 16 2 := by decide
  have hload : c.load? (c.addr k + offset (2 : BitVec 19)) = some back := by
    have haddr : c.addr k + offset (2 : BitVec 19) = c.addr (k + 2) :=
      c.addr_add_offset (n := 18) (d := 2) (by decide) (by decide) (by simp)
    rw [haddr, Code.load?, Code.index?_addr (by omega) hlen]
    simp only [Option.bind_eq_bind, Option.bind_some, hlo, hhi]
    exact congrArg some (@BitVec.extractLsb'_append_extractLsb' 32 32 back)
  refine .next hlen (s.write 16 back) hp.head (by omega) (by simp only [exec, hdecode, hload])
    hout ?_
  · have hbr := hop_brX16 sem marks (s.write 16 back) hp.tail.head
    rwa [read_write _ _ _ (by decide)] at hbr

end

-- ---------------------------------------------------------------------------
-- The layout
-- ---------------------------------------------------------------------------

def opsPos (plans : List Plan) (window : Window) : List Nat :=
  layout 0 (plans.map fun plan => planSize plan window)

/-- The word at which instruction `i` starts; the tail counts as one more. -/
def position (plans : List Plan) (window : Window) (i : Nat) : Nat :=
  ((plans.take i).map fun plan => planSize plan window).sum

def code (plans : List Plan) (window : Window) (base : Addr) : Code :=
  ⟨base, relocated plans window base ++ tail window.stop⟩

section

variable {plans : List Plan} {plan : Plan} {window : Window} {base : Addr}

theorem layout_getElem? (acc : Nat) (sizes : List Nat) (i : Nat) :
    (layout acc sizes)[i]? =
      if i < sizes.length then some (acc + (sizes.take i).sum) else none := by
  induction sizes generalizing acc i with
  | nil => simp [layout]
  | cons size rest ih =>
    cases i with
    | zero => simp [layout]
    | succ i => simp [layout, ih, Nat.add_assoc]

theorem opsPos_getElem? (plans : List Plan) (window : Window) (i : Nat) :
    (opsPos plans window)[i]? =
      if i < plans.length then some (position plans window i) else none := by
  simp [opsPos, layout_getElem?, position, List.map_take]

theorem position_succ (window : Window) (h : plans[i]? = some plan) :
    position plans window (i + 1) = position plans window i + planSize plan window := by
  simp [position, List.take_add_one, h]

theorem planSize_pos (plan : Plan) (window : Window) : 0 < planSize plan window := by
  cases plan with
  | verbatim op => exact Nat.one_pos
  | _ =>
    simp only [planSize]
    split <;> decide

theorem planSize_le (plan : Plan) (window : Window) : planSize plan window ≤ 7 := by
  cases plan with
  | verbatim op => exact (by decide : 1 ≤ 7)
  | _ =>
    simp only [planSize]
    split <;> decide

theorem emitOp_length (plan : Plan) (index pos : Nat) (ps : List Nat) (window : Window)
    (base : Addr) :
    (emitOp plan index pos ps window base).length = planSize plan window := by
  cases plan with
  | verbatim op => rfl
  | _ =>
    simp only [emitOp, planSize]
    split <;> rfl

theorem position_le (plans : List Plan) (window : Window) (i : Nat) :
    position plans window i ≤ 7 * i := by
  induction i with
  | zero => simp [position]
  | succ i ih =>
    cases hplan : plans[i]? with
    | none => simpa [position, List.take_add_one, hplan] using Nat.le_trans ih (by omega)
    | some plan =>
      have hsize := planSize_le plan window
      rw [position_succ window hplan]
      omega

theorem position_lt (window : Window) (hij : i < j) (hj : j ≤ plans.length) :
    position plans window i < position plans window j := by
  induction j with
  | zero => exact absurd hij (Nat.not_lt_zero i)
  | succ j ih =>
    have hsize := planSize_pos plans[j] window
    rw [position_succ window (List.getElem?_eq_getElem hj)]
    rcases Nat.lt_succ_iff_lt_or_eq.mp hij with hlt | rfl
    · have hprev := ih hlt (Nat.le_of_succ_le hj)
      omega
    · omega

theorem opsPos_nodup (plans : List Plan) (window : Window) : (opsPos plans window).Nodup := by
  rw [List.nodup_iff_getElem?_ne_getElem?]
  intro i j hij hj heq
  have hlen : (opsPos plans window).length ≤ plans.length := by
    have hnone := opsPos_getElem? plans window plans.length
    rwa [if_neg (Nat.lt_irrefl _), List.getElem?_eq_none_iff] at hnone
  have hj' : j < plans.length := Nat.lt_of_lt_of_le hj hlen
  rw [opsPos_getElem?, opsPos_getElem?, if_pos (Nat.lt_trans hij hj'), if_pos hj'] at heq
  have hlt := position_lt window hij (Nat.le_of_lt hj')
  exact absurd (Option.some.inj heq) (Nat.ne_of_lt hlt)

theorem opsPos_mem (h : k ∈ opsPos plans window) :
    ∃ j, j < plans.length ∧ k = position plans window j := by
  obtain ⟨j, hj⟩ := List.mem_iff_getElem?.mp h
  rw [opsPos_getElem?] at hj
  split at hj
  · next hlt => exact ⟨j, hlt, (Option.some.inj hj).symm⟩
  · cases hj

/-- Only the first word of an instruction is marked. -/
theorem not_mem_opsPos (hplan : plans[i]? = some plan) (hlo : position plans window i < k)
    (hhi : k < position plans window i + planSize plan window) : k ∉ opsPos plans window := by
  intro hmem
  obtain ⟨j, hj, rfl⟩ := opsPos_mem hmem
  rw [← position_succ window hplan] at hhi
  have hi := (List.getElem?_eq_some_iff.mp hplan).1
  rcases Nat.lt_trichotomy j i with hlt | rfl | hlt
  · exact Nat.lt_asymm hlo (position_lt window hlt (Nat.le_of_lt hi))
  · exact Nat.lt_irrefl _ hlo
  · rcases Nat.lt_or_eq_of_le (Nat.succ_le_of_lt hlt) with hlt | heq
    · exact Nat.lt_asymm hhi (position_lt window hlt (Nat.le_of_lt hj))
    · exact Nat.lt_irrefl _ (heq ▸ hhi)

theorem not_mem_opsPos_tail (h : position plans window plans.length ≤ k) :
    k ∉ opsPos plans window := by
  intro hmem
  obtain ⟨j, hj, rfl⟩ := opsPos_mem hmem
  exact absurd h (Nat.not_le_of_lt (position_lt window hj (Nat.le_refl _)))

section

variable {ps : List Nat}

theorem emitOps_append (index : Nat) (l l' : List Plan) (buf : List Word) :
    emitOps ps window base index (l ++ l') buf =
      emitOps ps window base (index + l.length) l' (emitOps ps window base index l buf) := by
  induction l generalizing index buf with
  | nil => rfl
  | cons plan rest ih =>
    simp only [List.cons_append, emitOps, List.length_cons]
    rw [ih, Nat.add_right_comm, Nat.add_assoc]

/-- Emission only ever appends. -/
theorem emitOps_eq_append (ps : List Nat) (window : Window) (base : Addr) (index : Nat)
    (l : List Plan) (buf : List Word) :
    ∃ post, emitOps ps window base index l buf = buf ++ post := by
  induction l generalizing index buf with
  | nil => exact ⟨[], (List.append_nil _).symm⟩
  | cons plan rest ih =>
    simp only [emitOps]
    obtain ⟨post, hpost⟩ := ih (index + 1) _
    rw [hpost]
    exact ⟨_, by rw [List.append_assoc, List.append_assoc]⟩

end

/-- The sizes were right, so nothing is ever padded. -/
theorem emitOps_length (base : Addr) {index : Nat} {l : List Plan} {buf : List Word}
    (hl : ∀ i plan, l[i]? = some plan → plans[index + i]? = some plan)
    (hbuf : buf.length = position plans window index) :
    (emitOps (opsPos plans window) window base index l buf).length =
      position plans window (index + l.length) := by
  induction l generalizing index buf with
  | nil => exact hbuf
  | cons plan rest ih =>
    have hplan : plans[index]? = some plan := hl 0 plan rfl
    have hpos : (opsPos plans window).getD index 0 = position plans window index := by
      simp [List.getD, opsPos_getElem?, (List.getElem?_eq_some_iff.mp hplan).1]
    simp only [emitOps, hpos, hbuf, Nat.sub_self, List.replicate_zero, List.append_nil]
    rw [List.length_cons, ← Nat.add_assoc, Nat.add_right_comm]
    refine ih (fun i p hp => ?_) ?_
    · rw [Nat.add_right_comm, Nat.add_assoc]
      exact hl (i + 1) p hp
    · rw [List.length_append, hbuf, emitOp_length, position_succ window hplan]

theorem relocated_length (plans : List Plan) (window : Window) (base : Addr) :
    (relocated plans window base).length = position plans window plans.length := by
  have hbuf : ([] : List Word).length = position plans window 0 := rfl
  have h := emitOps_length base (l := plans) (fun i plan hp => by rwa [Nat.zero_add]) hbuf
  rwa [Nat.zero_add] at h

theorem code_length (plans : List Plan) (window : Window) (base : Addr) :
    (code plans window base).words.length = position plans window plans.length + 4 := by
  rw [code, List.length_append, relocated_length]
  rfl

theorem getElem?_of_take {l : List α} {a : α} {i n : Nat} (h : (l.take n)[i]? = some a) :
    l[i]? = some a := by
  rw [List.getElem?_take] at h
  split at h
  · exact h
  · cases h

theorem placed_emitOp (window : Window) (base : Addr) (h : plans[i]? = some plan) :
    (code plans window base).Placed (position plans window i)
      (emitOp plan i (position plans window i) (opsPos plans window) window base) := by
  obtain ⟨hlt, hget⟩ := List.getElem?_eq_some_iff.mp h
  have hpre : (plans.take i).length = i := List.length_take_of_le (Nat.le_of_lt hlt)
  have hnil : ([] : List Word).length = position plans window 0 := rfl
  have hbuf := emitOps_length base (l := plans.take i)
    (fun j p hp => by rw [Nat.zero_add]; exact getElem?_of_take hp) hnil
  rw [Nat.zero_add, hpre] at hbuf
  have hpos : (opsPos plans window).getD i 0 = position plans window i := by
    simp [List.getD, opsPos_getElem?, hlt]
  have hsplit : plans.take i ++ plan :: plans.drop (i + 1) = plans := by
    rw [← hget, List.getElem_cons_drop, List.take_append_drop]
  -- what was emitted before, then the block, then the rest
  obtain ⟨post, hpost⟩ :=
    emitOps_eq_append (opsPos plans window) window base (i + 1) (plans.drop (i + 1))
    (emitOps (opsPos plans window) window base 0 (plans.take i) [] ++
      emitOp plan i (position plans window i) (opsPos plans window) window base)
  have hwords : relocated plans window base =
      emitOps (opsPos plans window) window base 0 (plans.take i) [] ++
        emitOp plan i (position plans window i) (opsPos plans window) window base ++ post := by
    have hemit : ∀ ps, emitOps ps window base 0 plans [] = emitOps ps window base i
        (plan :: plans.drop (i + 1)) (emitOps ps window base 0 (plans.take i) []) := fun ps => by
      conv_lhs => rw [← hsplit]
      rw [emitOps_append, Nat.zero_add, hpre]
    rw [← hpost]
    refine (hemit (opsPos plans window)).trans ?_
    simp only [emitOps, hpos, hbuf, Nat.sub_self, List.replicate_zero, List.append_nil]
  intro k op hop
  simp only [code, hwords, List.append_assoc]
  rw [List.getElem?_append_right (by omega), hbuf, Nat.add_sub_cancel_left,
    List.getElem?_append_left (List.getElem?_eq_some_iff.mp hop).1]
  exact hop

theorem placed_tail (plans : List Plan) (window : Window) (base : Addr) :
    (code plans window base).Placed (position plans window plans.length) (tail window.stop) := by
  intro k op hop
  have hlen := relocated_length plans window base
  rw [code, ← hlen, List.getElem?_append_right (Nat.le_add_right ..), Nat.add_sub_cancel_left]
  exact hop

end

end ShinySongTools.Trampoline
