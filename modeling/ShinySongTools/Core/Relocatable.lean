import ShinySongTools.Core.Simulation
import Mathlib.Tactic.FinCases
import Mathlib.Tactic.IntervalCases

/-!
# Relocatable instructions

Two relocations go wrong. A conditional branch that is always taken has no
inverse, and `tbz` and `tbnz` are put together with masks that are too wide:
bits of the old offset stay, or bits of the new one get into the number of the
tested bit. `simulates_iff_relocatable` says when this matters.
-/

namespace ShinySongTools.Trampoline

open Arm BitFields Lockstep

variable {σ : Type u}

/-- The trampoline does what the window would at instruction `i`. -/
def Relocatable (entry : Addr) (ops : List Word) (i : Nat × Cpu σ) : Prop :=
  match ops[i.1]?.map decode with
  | some (.bcond _ cond imm) =>
    let t := (original entry ops).addr i.1 + offset imm
    cond.toNat < 14 ∨ (window entry ops).contains t = true ∨
      i.1 + 1 = ops.length ∧ t = (window entry ops).stop
  | some (.tbz nonzero bit rt imm) =>
    match (original entry ops).index? ((original entry ops).addr i.1 + offset imm) with
    | some j =>
      i.1 ≤ j ∨ tests nonzero (bit ||| 15) (i.2.read rt) = tests nonzero bit (i.2.read rt)
    | none => tests nonzero bit (i.2.read rt) = true ∨ imm.extractLsb' 11 3 = 0
  | _ => True

-- ---------------------------------------------------------------------------
-- What the wide masks do
-- ---------------------------------------------------------------------------

theorem inverse_always (cond : BitVec 4) (h : 14 ≤ cond.toNat) : 14 ≤ (cond ^^^ 1).toNat := by
  revert cond
  decide

theorem near_tbz_forward {imm : BitVec 14} {d : Int} (hlo : 0 ≤ imm.toInt) (hhi : imm.toInt < 4)
    (hd : 0 ≤ d) (hd' : d < 32) :
    (imm &&& 0x3C00 ||| BitVec.ofInt 14 d) = BitVec.ofInt 14 d ∧
      (BitVec.ofInt 32 d).extractLsb' 14 5 &&& 0xF = 0#5 := by
  have himm : imm = BitVec.ofInt 14 imm.toInt := BitVec.ofInt_toInt.symm
  generalize imm.toInt = x at hlo hhi himm
  have hmask : imm &&& 0x3C00 = 0 := by
    rw [himm]
    interval_cases x <;> rfl
  rw [hmask]
  interval_cases d <;> exact ⟨rfl, rfl⟩

theorem near_tbz_backward {imm : BitVec 14} {d : Int} (hlo : -4 < imm.toInt) (hhi : imm.toInt < 0)
    (hd : -32 < d) (hd' : d < 0) :
    (imm &&& 0x3C00 ||| BitVec.ofInt 14 d) = BitVec.ofInt 14 d ∧
      (BitVec.ofInt 32 d).extractLsb' 14 5 &&& 0xF = 0xF := by
  have himm : imm = BitVec.ofInt 14 imm.toInt := BitVec.ofInt_toInt.symm
  generalize imm.toInt = x at hlo hhi himm
  have hmask : imm &&& 0x3C00 = 0x3C00 := by
    rw [himm]
    interval_cases x <;> rfl
  rw [hmask]
  interval_cases d <;> exact ⟨rfl, rfl⟩

section

variable {op : Word} {d : Int} (hmask : op &&& 0x7E000000 = 0x36000000)
include hmask

theorem decode_near_tbz_forward (hlo : 0 ≤ (op.extractLsb' 5 14).toInt)
    (hhi : (op.extractLsb' 5 14).toInt < 4) (hd : 0 ≤ d) (hd' : d < 32) :
    decode (op &&& 0xFFFF8000#32 ||| (u32 d &&& 0x3FFFF) <<< 5 ||| op &&& 0x1F) =
      .tbz (op.getLsbD 24) (op.extractLsb' 31 1 ++ op.extractLsb' 19 5) (op.extractLsb' 0 5)
        (BitVec.ofInt 14 d) := by
  obtain ⟨himm, hbit⟩ := near_tbz_forward hlo hhi hd hd'
  rw [decode_near_tbz d hmask, himm, hbit, BitVec.or_zero]

theorem decode_near_tbz_backward (hlo : -4 < (op.extractLsb' 5 14).toInt)
    (hhi : (op.extractLsb' 5 14).toInt < 0) (hd : -32 < d) (hd' : d < 0) :
    decode (op &&& 0xFFFF8000#32 ||| (u32 d &&& 0x3FFFF) <<< 5 ||| op &&& 0x1F) =
      .tbz (op.getLsbD 24) ((op.extractLsb' 31 1 ++ op.extractLsb' 19 5) ||| 15)
        (op.extractLsb' 0 5) (BitVec.ofInt 14 d) := by
  obtain ⟨himm, hbit⟩ := near_tbz_backward hlo hhi hd hd'
  have hfifteen : (15 : BitVec 6) = 0#1 ++ 0xF#5 := rfl
  rw [decode_near_tbz d hmask, himm, hbit, hfifteen, BitVec.or_append, BitVec.or_zero]
  rfl

end

theorem far_tbz_imm (imm : BitVec 14) : imm &&& 0x3800 ||| 5 = imm.extractLsb' 11 3 ++ 5#11 := by
  have hsplit : imm = imm.extractLsb' 11 3 ++ imm.extractLsb' 0 11 :=
    (@BitVec.extractLsb'_append_extractLsb' 3 11 imm).symm
  conv_lhs => rw [hsplit, show (0x3800 : BitVec 14) = BitVec.allOnes 3 ++ 0#11 from rfl,
    show (5 : BitVec 14) = 0#3 ++ 5#11 from rfl, BitVec.and_append,
    BitVec.or_append, BitVec.and_allOnes, BitVec.and_zero, BitVec.zero_or, BitVec.or_zero]

/-- A skip with bits of the old offset in it does not stay in a trampoline. -/
theorem far_tbz_toInt (stale : BitVec 3) (h : stale ≠ 0) :
    40 < (stale ++ 5#11).toInt ∨ (stale ++ 5#11).toInt < -40 := by
  revert stale
  decide

-- ---------------------------------------------------------------------------
-- Where a turn goes
-- ---------------------------------------------------------------------------

/-- The instruction gone to, or the address left for. -/
def place : Turn (Nat × Cpu σ) (Exit σ) → Option (Nat ⊕ Addr)
  | .goes (i, _) => some (.inl i)
  | .ends (.leaves t _) => some (.inr t)
  | .ends _ => none

section

variable {sem : Semantics σ} {entry base : Addr} {ops : List Word} {plans : List Plan}

theorem place_related {r r' : Turn (Nat × Cpu σ) (Exit σ)}
    (h : Related (LeavesAlike sem entry ops plans base) r r') (hr : place r = some p) :
    place r' = some p := by
  cases h with
  | goes => exact hr
  | ends he =>
    cases he with
    | leaves => exact hr
    | callsOut => cases hr
    | callsIn => cases hr
    | faults => cases hr

/-- From one word the trampoline follows turns to one place only. -/
theorem Follows.place_eq {r r' : Turn (Nat × Cpu σ) (Exit σ)}
    (h : Follows sem entry ops plans base k s r) (h' : Follows sem entry ops plans base k s r')
    (hr : place r = some p) (hr' : place r' = some p') : p = p' := by
  obtain ⟨r₁, hhop, hrelated⟩ := h
  obtain ⟨r₂, hhop', hrelated'⟩ := h'
  obtain rfl := Code.Hop.unique (opsPos_nodup plans (window entry ops)) hhop hhop'
  exact Option.some.inj ((place_related hrelated hr).symm.trans (place_related hrelated' hr'))

variable (hd : Displaced sem entry ops plans)
include hd

theorem place_land {m : Nat} (hm : m ≤ ops.length) (s : Cpu σ) :
    place ((original entry ops).land ((original entry ops).addr m) s) =
      if m < ops.length then some (.inl m) else some (.inr (window entry ops).stop) := by
  have hbelow := hd.below
  have hsize : 4 * (original entry ops).words.length ≤ 2 ^ 64 := by
    change 4 * ops.length ≤ 2 ^ 64
    omega
  rcases Nat.lt_or_eq_of_le hm with hlt | rfl
  · rw [Code.land_addr hlt hsize, if_pos hlt]
    rfl
  · rw [land_stop hd, if_neg (Nat.lt_irrefl _)]
    rfl

theorem not_both {m j : Nat} {s : Cpu σ} (hj : j < m) (hm : m ≤ ops.length)
    (h : Follows sem entry ops plans base k s
      ((original entry ops).land ((original entry ops).addr j) s))
    (h' : Follows sem entry ops plans base k s
      ((original entry ops).land ((original entry ops).addr m) s)) : False := by
  have hlt : j < ops.length := Nat.lt_of_lt_of_le hj hm
  have hplace := place_land hd (Nat.le_of_lt hlt) s
  have hplace' := place_land hd hm s
  rw [if_pos hlt] at hplace
  split at hplace'
  · exact absurd (Sum.inl.inj (h.place_eq h' hplace hplace')) (Nat.ne_of_lt hj)
  · exact nomatch h.place_eq h' hplace hplace'

variable (hbase : base.toNat + 4 * (trampoline entry ops plans base).words.length ≤ 2 ^ 48)
  {i : Nat} {op : Word}
include hbase

theorem follows_bcond_iff {imm : BitVec 19} (hop : ops[i]? = some op)
    (hdecode : decode op = .bcond consistent (op.extractLsb' 0 4) imm)
    (hplan :
      plans[i]? = some (.bcond (op &&& 0xF) false ((original entry ops).addr i + offset imm)))
    (s : Cpu σ) :
    Follows sem entry ops plans base (position plans (window entry ops) i) s
        ((original entry ops).step sem (i, s)) ↔ Relocatable entry ops (i, s) := by
  have hi := index_lt hd hplan
  have ht := hd.targets _ (List.mem_of_getElem? hplan) _ rfl
  have hplaced := placed_emitOp (window entry ops) base hplan
  have hstep := step_conditional sem entry (s := s) hop fun load pc => by
    simp only [exec, hdecode]; rfl
  rw [hstep]
  simp only [Relocatable, hop, Option.map_some, hdecode]
  rcases target_cases imm hd.below (by decide) hi (length_le hd) with
    ⟨j, hindex, -, -, hcontains, htarget⟩ | ⟨hindex, hcontains⟩
  · simp only [emitOp, hcontains, if_true, htarget, Bool.false_eq_true, if_false] at hplaced
    refine iff_of_true ?_ (.inr (.inl hcontains))
    refine follows_near hd hbase (n := 18) (by decide) hplan hindex ?_ hplaced.head ?_
    · simp only [planSize, hcontains, if_true]
    · intro load pc
      simp only [exec, decode_near_bcond]
  · simp only [emitOp, hcontains, Bool.false_eq_true, if_false] at hplaced
    have hsize : planSize (.bcond (op &&& 0xF) false ((original entry ops).addr i + offset imm))
        (window entry ops) = 5 := by
      simp only [planSize, hcontains, if_neg Bool.false_ne_true]
    by_cases hcond : (op.extractLsb' 0 4).toNat < 14
    · refine iff_of_true ?_ (.inl hcond)
      refine follows_far hd hbase (n := 18) (by decide) hplan hindex ht hsize hplaced ?_
      intro load pc
      simp only [exec, decode_skip_bcond, holds_invert _ _ hcond]
      rfl
    · have hcond' := Nat.le_of_not_lt hcond
      -- the inverse of a condition that always holds always holds too
      have hskips := holds_always s.flags _ (inverse_always _ hcond')
      have hskip := follows_skip hd hbase (n := 18) (by decide) (s := s) ht hplan hsize hplaced
        fun load pc => by simp only [exec, decode_skip_bcond, hskips]; rfl
      have hplace := place_land hd hi s
      rw [holds_always s.flags _ hcond', if_pos rfl, Code.land_none hindex]
      rw [if_pos rfl] at hskip
      constructor
      · intro h
        split at hplace
        · cases h.place_eq hskip rfl hplace
        · next hlast =>
          have hstop := Sum.inr.inj (h.place_eq hskip rfl hplace)
          exact .inr (.inr ⟨Nat.le_antisymm hi (Nat.le_of_not_lt hlast), hstop⟩)
      · rintro (h | h | ⟨hlast, hstop⟩)
        · exact absurd h hcond
        · rw [hcontains] at h
          cases h
        · rw [hlast, land_stop hd] at hskip
          rwa [hstop]

theorem follows_tbz_iff_near (hop : ops[i]? = some op) (hmask : op &&& 0x7E000000 = 0x36000000)
    (hplan : plans[i]? = some (.tbzTbnz op (op &&& 0x1F)
      ((original entry ops).addr i + offset (op.extractLsb' 5 14))))
    (hindex : (original entry ops).index?
      ((original entry ops).addr i + offset (op.extractLsb' 5 14)) = some j)
    (hj : j < ops.length) (hint : (op.extractLsb' 5 14).toInt = j - i)
    (hcontains : (window entry ops).contains
      ((original entry ops).addr i + offset (op.extractLsb' 5 14)) = true)
    (htarget : targetIndex ((original entry ops).addr i + offset (op.extractLsb' 5 14))
      (window entry ops) = j) (s : Cpu σ) :
    Follows sem entry ops plans base (position plans (window entry ops) i) s
        ((original entry ops).step sem (i, s)) ↔ Relocatable entry ops (i, s) := by
  have hi := index_lt hd hplan
  have hlength := plans_length hd
  have hle := length_le hd
  have hplaced := placed_emitOp (window entry ops) base hplan
  have hstep := step_conditional sem entry (s := s) hop fun load pc => by
    simp only [exec, decode_tbz hmask]; rfl
  rw [hstep]
  simp only [Relocatable, hop, Option.map_some, decode_tbz hmask, hindex]
  simp only [emitOp, hcontains, if_true, htarget] at hplaced
  have hsize : planSize (.tbzTbnz op (op &&& 0x1F)
      ((original entry ops).addr i + offset (op.extractLsb' 5 14))) (window entry ops) = 1 := by
    simp only [planSize, hcontains, if_true]
  have hposi := position_le plans (window entry ops) i
  have hposj := position_le plans (window entry ops) j
  have hpos : (opsPos plans (window entry ops)).getD j 0 = position plans (window entry ops) j := by
    rw [List.getD, opsPos_getElem?, if_pos (hlength.symm ▸ hj)]
    rfl
  obtain ⟨haddr, -⟩ := Code.index?_some hindex
  rcases Nat.lt_or_ge j i with hlt | hge
  · have hbefore : position plans (window entry ops) j < position plans (window entry ops) i :=
      position_lt (window entry ops) hlt (by omega)
    have hnear :=
      follows_near hd hbase (n := 13) (by decide) (s := s) hplan hindex hsize hplaced.head
      fun load pc => by
        simp only [exec]
        rw [decode_near_tbz_backward hmask (by omega) (by omega) (by omega) (by omega)]
    rw [haddr] at hnear ⊢
    generalize tests (op.getLsbD 24) ((op.extractLsb' 31 1 ++ op.extractLsb' 19 5) ||| 15)
      (s.read (op.extractLsb' 0 5)) = wrong at hnear ⊢
    generalize tests (op.getLsbD 24) (op.extractLsb' 31 1 ++ op.extractLsb' 19 5)
      (s.read (op.extractLsb' 0 5)) = right at hnear ⊢
    constructor
    · intro h
      refine .inr ?_
      cases wrong <;> cases right
      · rfl
      · exact (not_both hd (by omega) hi h hnear).elim
      · exact (not_both hd (by omega) hi hnear h).elim
      · rfl
    · rintro (hle | heq)
      · exact absurd hlt (Nat.not_lt_of_ge hle)
      · rwa [heq] at hnear
  · have hafter : position plans (window entry ops) i ≤ position plans (window entry ops) j := by
      rcases Nat.lt_or_eq_of_le hge with hlt | rfl
      · exact Nat.le_of_lt (position_lt (window entry ops) hlt (by omega))
      · exact Nat.le_refl _
    refine iff_of_true ?_ (.inl hge)
    refine follows_near hd hbase (n := 13) (by decide) hplan hindex hsize hplaced.head ?_
    intro load pc
    simp only [exec]
    rw [decode_near_tbz_forward hmask (by omega) (by omega) (by omega) (by omega)]

omit hbase in
theorem trampoline_length_le (base : Addr) :
    (trampoline entry ops plans base).words.length ≤ 32 := by
  have hpos := position_le plans (window entry ops) plans.length
  have hlength := plans_length hd
  have hle := length_le hd
  rw [trampoline, code_length]
  omega

section

variable {s : Cpu σ} (hop : ops[i]? = some op) (hmask : op &&& 0x7E000000 = 0x36000000)
  (hplan : plans[i]? = some (.tbzTbnz op (op &&& 0x1F)
    ((original entry ops).addr i + offset (op.extractLsb' 5 14))))
  (hindex : (original entry ops).index?
    ((original entry ops).addr i + offset (op.extractLsb' 5 14)) = none)
  (hcontains : (window entry ops).contains
    ((original entry ops).addr i + offset (op.extractLsb' 5 14)) = false)
include hop hmask hplan hindex hcontains

theorem follows_tbz_far
    (h : tests (op.getLsbD 24) (op.extractLsb' 31 1 ++ op.extractLsb' 19 5)
        (s.read (op.extractLsb' 0 5)) = true ∨ (op.extractLsb' 5 14).extractLsb' 11 3 = 0) :
    Follows sem entry ops plans base (position plans (window entry ops) i) s
      ((original entry ops).step sem (i, s)) := by
  have ht := hd.targets _ (List.mem_of_getElem? hplan) _ rfl
  have hplaced := placed_emitOp (window entry ops) base hplan
  have hstep := step_conditional sem entry (s := s) hop fun load pc => by
    simp only [exec, decode_tbz hmask]; rfl
  rw [hstep]
  simp only [emitOp, hcontains, Bool.false_eq_true, if_false] at hplaced
  refine follows_far hd hbase (n := 13) (by decide) hplan hindex ht ?_ hplaced ?_
  · simp only [planSize, hcontains, if_neg Bool.false_ne_true]
  · intro load pc
    rcases h with htaken | hclear
    · simp only [exec, decode_skip_tbz hmask, tests_invert, htaken]
      rfl
    · simp only [exec, decode_skip_tbz hmask, tests_invert, far_tbz_imm, hclear]
      rfl

omit hbase hindex in
/-- Bits left in the skip's offset take control elsewhere. -/
theorem tbz_far_astray
    (hnot : tests (op.getLsbD 24) (op.extractLsb' 31 1 ++ op.extractLsb' 19 5)
        (s.read (op.extractLsb' 0 5)) = false)
    (hstale : (op.extractLsb' 5 14).extractLsb' 11 3 ≠ 0)
    (h : Follows sem entry ops plans base (position plans (window entry ops) i) s
      ((original entry ops).step sem (i, s))) :
    (trampoline entry ops plans base).addr (position plans (window entry ops) i) +
        offset ((op.extractLsb' 5 14).extractLsb' 11 3 ++ 5#11) = (window entry ops).stop := by
  have hi := index_lt hd hplan
  have hle := length_le hd
  have hplaced := placed_emitOp (window entry ops) base hplan
  have hstep := step_conditional sem entry (s := s) hop fun load pc => by
    simp only [exec, decode_tbz hmask]; rfl
  rw [hstep, hnot] at h
  simp only [emitOp, hcontains, Bool.false_eq_true, if_false] at hplaced h
  have hout : (trampoline entry ops plans base).index?
      ((trampoline entry ops plans base).addr (position plans (window entry ops) i) +
        offset ((op.extractLsb' 5 14).extractLsb' 11 3 ++ 5#11)) = none := by
    cases hm : (trampoline entry ops plans base).index? _ with
    | none => rfl
    | some m =>
      obtain ⟨haddr, hlt⟩ := Code.index?_some hm
      have hlen := trampoline_length_le hd base
      have hpos := position_le plans (window entry ops) i
      have hint := Code.toInt_of_addr (by decide) (by omega) (by omega) haddr
      have hfar := far_tbz_toInt _ hstale
      omega
  have hastray : Follows sem entry ops plans base (position plans (window entry ops) i) s
      (.ends
        (.leaves ((trampoline entry ops plans base).addr (position plans (window entry ops) i) +
        offset ((op.extractLsb' 5 14).extractLsb' 11 3 ++ 5#11)) s)) := by
    refine ⟨_, .ends ?_, .ends (.leaves (SameBut.refl s))⟩
    rw [← Code.land_none hout]
    refine (Code.step_conditional true hplaced.head ?_).trans (if_pos rfl)
    simp only [exec, decode_skip_tbz hmask, tests_invert, hnot, far_tbz_imm]
    rfl
  have hplace := place_land hd hi s
  split at hplace
  · cases h.place_eq hastray hplace rfl
  · exact (Sum.inr.inj (h.place_eq hastray hplace rfl)).symm

end

end

-- ---------------------------------------------------------------------------
-- Runs
-- ---------------------------------------------------------------------------

section

variable {sem : Semantics σ} {entry : Addr} {ops : List Word} {plans : List Plan}
  (hd : Displaced sem entry ops plans) {i : Nat}
include hd

theorem follows_iff_relocatable (hi : i < ops.length) (s : Cpu σ) :
    (∀ base : Addr, base.toNat + 4 * (trampoline entry ops plans base).words.length ≤ 2 ^ 48 →
      Follows sem entry ops plans base (position plans (window entry ops) i) s
        ((original entry ops).step sem (i, s))) ↔ Relocatable entry ops (i, s) := by
  have hop : ops[i]? = some ops[i] := List.getElem?_eq_getElem hi
  obtain ⟨plan, hplan, hplanned⟩ := planOps_getElem? hd.planned hop
  rw [Nat.zero_add] at hplanned
  -- any base will do where the outcome does not depend on it
  have hzero : (0 : Addr).toNat + 4 * (trampoline entry ops plans 0).words.length ≤ 2 ^ 48 := by
    have hlen := trampoline_length_le hd 0
    have horigin : (0 : Addr).toNat = 0 := rfl
    omega
  generalize ops[i] = op at hop hplanned
  have hword : IsBranch op ∨ PositionIndependent sem op := hd.words op (List.mem_of_getElem? hop)
  cases planOp_classified hword hplanned with
  | verbatim h =>
    refine iff_of_true (fun base hbase => follows_verbatim hd hbase hop hplan h s) ?_
    cases hdecode : decode op <;>
      simp [Relocatable, hop, hdecode, PositionIndependent] at h ⊢
  | b hdecode =>
    refine iff_of_true (fun base hbase => follows_b hd hbase hop hdecode hplan s) ?_
    simp only [Relocatable, hop, Option.map_some, hdecode]
  | bl hdecode =>
    refine iff_of_true (fun base hbase => follows_bl hd hbase hop hdecode hplan s) ?_
    simp only [Relocatable, hop, Option.map_some, hdecode]
  | bcond hdecode =>
    constructor
    · intro h
      exact (follows_bcond_iff hd hzero hop hdecode hplan s).mp (h 0 hzero)
    · intro h base hbase
      exact (follows_bcond_iff hd hbase hop hdecode hplan s).mpr h
  | cbz hmask =>
    refine iff_of_true (fun base hbase => follows_cbz hd hbase hop hmask hplan s) ?_
    simp only [Relocatable, hop, Option.map_some, decode_cbz hmask]
  | tbz hmask =>
    rcases target_cases (op.extractLsb' 5 14) hd.below (by decide) hi (length_le hd) with
      ⟨j, hindex, hj, hint, hcontains, htarget⟩ | ⟨hindex, hcontains⟩
    · constructor
      · intro h
        exact (follows_tbz_iff_near hd hzero hop hmask hplan hindex hj hint hcontains htarget s).mp
          (h 0 hzero)
      · intro h base hbase
        exact (follows_tbz_iff_near hd hbase hop hmask hplan hindex hj hint hcontains htarget
          s).mpr h
    · constructor
      · intro h
        simp only [Relocatable, hop, Option.map_some, decode_tbz hmask, hindex]
        by_contra hnot
        obtain ⟨hnot, hstale⟩ := not_or.mp hnot
        have hastray : ∀ base : Addr,
            base.toNat + 4 * (trampoline entry ops plans base).words.length ≤ 2 ^ 48 → _ :=
          fun base hbase => tbz_far_astray hd hop hmask hplan hcontains (Bool.eq_false_iff.mpr hnot)
            hstale (h base hbase)
        have hfour :
            (4 : Addr).toNat + 4 * (trampoline entry ops plans 4).words.length ≤ 2 ^ 48 := by
          have hlen := trampoline_length_le hd 4
          have horigin : (4 : Addr).toNat = 4 := rfl
          omega
        -- a fixed distance from the base is not a fixed address
        have heq := (hastray 0 hzero).trans (hastray 4 hfour).symm
        simp only [Code.addr, trampoline, code, BitVec.add_left_inj] at heq
        exact absurd heq (by decide)
      · intro h base hbase
        simp only [Relocatable, hop, Option.map_some, decode_tbz hmask, hindex] at h
        exact follows_tbz_far hd hbase hop hmask hplan hindex hcontains h

variable (sem entry ops) in
/-- The turns of the window where it was taken from. -/
def originalTurn (i : Nat × Cpu σ) (r : Turn (Nat × Cpu σ) (Exit σ)) : Prop :=
  (original entry ops).step sem i = r

theorem agree_iff_follows (base : Addr) (hi : i < ops.length) (s : Cpu σ) :
    Agree (originalTurn sem entry ops)
        (Code.turn sem (trampoline entry ops plans base) (marks entry ops plans))
        (LeavesAlike sem entry ops plans base) (i, s) ↔
      Follows sem entry ops plans base (position plans (window entry ops) i) s
        ((original entry ops).step sem (i, s)) := by
  have hmark : (marks entry ops plans)[i]? = some (position plans (window entry ops) i) := by
    rw [marks, opsPos_getElem?, if_pos ((plans_length hd).symm ▸ hi)]
  constructor
  · rintro ⟨r, r', rfl, ⟨k, hk, hhop⟩, hrelated⟩
    cases hk.symm.trans hmark
    exact ⟨r', hhop, hrelated⟩
  · rintro ⟨r', hhop, hrelated⟩
    exact ⟨_, r', rfl, ⟨_, hmark, hhop⟩, hrelated⟩

omit hd in
theorem exec_lt (h : Exec (originalTurn sem entry ops) i₀ l (.goes t)) (hi : i₀.1 < ops.length) :
    t.1 < ops.length := by
  generalize hr : Turn.goes t = r at h
  induction h with
  | nil =>
    cases hr
    exact hi
  | last => cases hr
  | cons hturn _ ih => exact ih (Code.step_lt (c := original entry ops) hturn) hr

theorem buildTrampoline_eq (base : Addr) :
    buildTrampoline entry ops base = .ok (trampoline entry ops plans base).words := by
  simp only [buildTrampoline, hd.planned]
  rfl

omit hd in
theorem originalTurn_unique (t : Nat × Cpu σ) (r r' : Turn (Nat × Cpu σ) (Exit σ))
    (h : originalTurn sem entry ops t r) (h' : originalTurn sem entry ops t r') : r = r' :=
  h.symm.trans h'

theorem relocatable_of_simulates (hi : i < ops.length) {s : Cpu σ}
    (h : ∀ (base : Addr) (words : List Word), buildTrampoline entry ops base = .ok words →
        base.toNat + 4 * words.length ≤ 2 ^ 48 →
      Simulates (originalTurn sem entry ops) (Code.turn sem ⟨base, words⟩ (marks entry ops plans))
        (LeavesAlike sem entry ops plans base) (i, s))
    (hexec : Exec (originalTurn sem entry ops) (i, s) l (.goes t)) : Relocatable entry ops t := by
  have ht := exec_lt hexec hi
  refine (follows_iff_relocatable hd ht t.2).mp fun base hbase => ?_
  have hsim := h base _ (buildTrampoline_eq hd base) hbase
  exact (agree_iff_follows hd base ht t.2).mp
    ((simulates_iff (fun _ => ⟨_, rfl⟩) originalTurn_unique).mp hsim l t hexec)

/-- The trampoline simulates the window, wherever it is put, iff each
instruction that is executed is relocatable in the state it is executed in. -/
theorem simulates_iff_relocatable (hi : i < ops.length) (s : Cpu σ) :
    (∀ (base : Addr) (words : List Word), buildTrampoline entry ops base = .ok words →
        base.toNat + 4 * words.length ≤ 2 ^ 48 →
      Simulates (originalTurn sem entry ops) (Code.turn sem ⟨base, words⟩ (marks entry ops plans))
        (LeavesAlike sem entry ops plans base) (i, s)) ↔
      ∀ l t, Exec (originalTurn sem entry ops) (i, s) l (.goes t) → Relocatable entry ops t := by
  constructor
  · intro h l t hexec
    exact relocatable_of_simulates hd hi h hexec
  · intro h base words hwords hbase
    rw [buildTrampoline_eq hd] at hwords
    cases hwords
    refine (simulates_iff (fun _ => ⟨_, rfl⟩) originalTurn_unique).mpr fun l t hexec => ?_
    have ht := exec_lt hexec hi
    exact (agree_iff_follows hd base ht t.2).mpr
      ((follows_iff_relocatable hd ht t.2).mpr (h l t hexec) base hbase)

end

/-- `add x0, x0, x1` and `ret`. -/
def addOrRet : Semantics Unit := fun _ op s =>
  if op = 0x8B010000 then .next (s.write 0 (s.read 0 + s.read 1))
  else if op = 0xD65F03C0 then .jumps (s.read 30) s
  else .faults

/-- `cbz x1, #12; add x0, x0, x1; b.ne #128; ret`. -/
def skippedAdd : List Word := [0xB4000061, 0x8B010000, 0x54000401, 0xD65F03C0]

def skippedAddPlans : List Plan :=
  [.cbzCbnz 0xB4000061 1 0x100C, .verbatim 0x8B010000, .bcond 1 false 0x1088, .verbatim 0xD65F03C0]

theorem skippedAdd_displaced : Displaced addOrRet 0x1000 skippedAdd skippedAddPlans where
  length := .inr rfl
  below := by decide
  planned := rfl
  words := by
    have hcbz : IsBranch 0xB4000061 := by
      rw [IsBranch, decode_cbz rfl]
      trivial
    have hbne : IsBranch 0x54000401 := by
      rw [IsBranch, decode_bcond_plain rfl]
      trivial
    have hother : ∀ op, decode op = .other → PositionIndependent addOrRet op := fun op h => by
      rw [PositionIndependent, h]
      exact fun _ _ _ => rfl
    exact List.forall_mem_cons.mpr
      ⟨.inl hcbz, List.forall_mem_cons.mpr ⟨.inr (hother _ (by decide)),
      List.forall_mem_cons.mpr ⟨.inl hbne, List.forall_mem_cons.mpr ⟨.inr (hother _ (by decide)),
        List.forall_mem_nil _⟩⟩⟩⟩
  targets := by
    intro plan hplan t ht
    fin_cases hplan <;> cases ht <;> decide

/-- Every instruction of the window is relocatable in any state. -/
theorem skippedAdd_relocatable (t : Nat × Cpu Unit) : Relocatable 0x1000 skippedAdd t := by
  obtain ⟨i, s⟩ := t
  have hwords :
      skippedAdd.map decode = [.cbz true false 1 3, .other, .bcond false 1 32, .other] := by decide
  rw [Relocatable, ← List.getElem?_map, hwords]
  rcases i with _ | _ | _ | _ | i
  · trivial
  · trivial
  · exact .inl (by decide)
  · trivial
  · trivial

/-- All registers are one. -/
def ones : Cpu Unit := ⟨fun _ => 1, ⟨false, false, false, false⟩, ()⟩

theorem skippedAdd_simulates :
    Simulates (originalTurn addOrRet 0x1000 skippedAdd)
      (Code.turn addOrRet
        ⟨0x100000, (trampoline 0x1000 skippedAdd skippedAddPlans 0x100000).words⟩
        (marks 0x1000 skippedAdd skippedAddPlans))
      (LeavesAlike addOrRet 0x1000 skippedAdd skippedAddPlans 0x100000) (0, ones) :=
  (simulates_iff_relocatable skippedAdd_displaced (by decide) ones).mpr
    (fun _ t _ => skippedAdd_relocatable t) 0x100000 _ (buildTrampoline_eq skippedAdd_displaced _)
    (by decide)

/-- `tbz x0, #0, #-8`, which falls through to the end of the window. -/
def backwardTbz : List Word := [0x3607FFC0]

theorem backwardTbz_displaced :
    Displaced addOrRet 0x1000 backwardTbz [.tbzTbnz 0x3607FFC0 0 0xFF8] where
  length := .inl rfl
  below := by decide
  planned := rfl
  words := by
    have htbz : IsBranch 0x3607FFC0 := by
      rw [IsBranch, decode_tbz rfl]
      trivial
    exact List.forall_mem_cons.mpr ⟨.inl htbz, List.forall_mem_nil _⟩
  targets := by
    intro plan hplan t ht
    fin_cases hplan
    cases ht
    decide

/-- The bit is set, so the branch is not taken; the trampoline's is. -/
theorem backwardTbz_astray :
    ¬ ∀ (base : Addr) (words : List Word), buildTrampoline 0x1000 backwardTbz base = .ok words →
        base.toNat + 4 * words.length ≤ 2 ^ 48 →
      Simulates (originalTurn addOrRet 0x1000 backwardTbz)
        (Code.turn addOrRet ⟨base, words⟩ (marks 0x1000 backwardTbz [.tbzTbnz 0x3607FFC0 0 0xFF8]))
        (LeavesAlike addOrRet 0x1000 backwardTbz [.tbzTbnz 0x3607FFC0 0 0xFF8] base) (0, ones) := by
  intro h
  have hrelocatable : Relocatable 0x1000 backwardTbz (0, ones) :=
    relocatable_of_simulates backwardTbz_displaced (by decide) h .nil
  have hdecode : backwardTbz.map decode = [.tbz false 0 0 0x3FFE] := by decide
  have hindex : (original 0x1000 backwardTbz).index?
      ((original 0x1000 backwardTbz).addr 0 + offset (0x3FFE : BitVec 14)) = none := by decide
  rw [Relocatable, ← List.getElem?_map, hdecode] at hrelocatable
  simp only [List.getElem?_cons_zero, hindex] at hrelocatable
  rcases hrelocatable with h | h
  · exact absurd h (by decide)
  · exact absurd h (by decide)

end ShinySongTools.Trampoline
