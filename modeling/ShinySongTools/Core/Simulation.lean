import ShinySongTools.Core.Displaced

/-!
# The trampoline simulates the window

One turn of the window is one run of the trampoline from the first word of an
instruction to the first word of the next. The turns agree, for every base the
trampoline may be written to, exactly where the instruction is `Relocatable`.
-/

namespace ShinySongTools.Trampoline

open Arm BitFields Lockstep

variable {σ : Type u}

-- ---------------------------------------------------------------------------
-- Leaving
-- ---------------------------------------------------------------------------

section

variable (sem : Semantics σ) (entry : Addr) (ops : List Word) (plans : List Plan) (base : Addr)

def trampoline : Code := code plans (window entry ops) base

def marks : List Nat := opsPos plans (window entry ops)

/-- Control goes on at the second address as it would have at the first. -/
inductive Returns : Addr → Addr → Prop
  | relocated : (marks entry ops plans)[m]? = some k →
    Returns ((original entry ops).addr m) ((trampoline entry ops plans base).addr k)
  | jumpsBack : (∀ s, Code.Hop sem (trampoline entry ops plans base) (marks entry ops plans) k s
      (.ends (.leaves (window entry ops).stop (s.write 16 (window entry ops).stop)))) →
    Returns (window entry ops).stop ((trampoline entry ops plans base).addr k)
  | stop : Returns (window entry ops).stop (window entry ops).stop

/-- Control leaves the window and its trampoline for the same place. -/
inductive LeavesAlike : Exit σ → Exit σ → Prop
  | leaves : SameBut [16] s s' → LeavesAlike (.leaves t s) (.leaves t s')
  | callsOut : (original entry ops).index? t = none → SameBut [16, 30] s s' →
    Returns sem entry ops plans base (s.read 30) (s'.read 30) →
    LeavesAlike (.calls t s) (.leaves t s')
  | callsIn : (original entry ops).index? t = some j → (marks entry ops plans)[j]? = some k →
    SameBut [30] s s' → Returns sem entry ops plans base (s.read 30) (s'.read 30) →
    LeavesAlike (.calls t s) (.calls ((trampoline entry ops plans base).addr k) s')
  | faults : LeavesAlike .faults .faults

/-- From word `k` the trampoline takes a turn of the window. -/
def Follows (k : Nat) (s : Cpu σ) (r : Turn (Nat × Cpu σ) (Exit σ)) : Prop :=
  ∃ r', Code.Hop sem (trampoline entry ops plans base) (marks entry ops plans) k s r' ∧
    Related (LeavesAlike sem entry ops plans base) r r'

end

section

variable {sem : Semantics σ} {entry base : Addr} {ops : List Word} {plans : List Plan}
  (hd : Displaced sem entry ops plans)
  (hbase : base.toNat + 4 * (trampoline entry ops plans base).words.length ≤ 2 ^ 48)

include hd in
theorem plans_length : plans.length = ops.length := planOps_length hd.planned

include hd in
theorem length_le : ops.length ≤ 4 := by
  rcases hd.length with h | h <;> omega

theorem index?_stop (hd : Displaced sem entry ops plans) :
    (original entry ops).index? (window entry ops).stop = none := by
  have hbelow := hd.below
  cases hindex : (original entry ops).index? (window entry ops).stop with
  | none => rfl
  | some j =>
    obtain ⟨haddr, hj⟩ := Code.index?_some hindex
    have hstop := stop_toNat hbelow
    rw [haddr, addr_toNat hbelow hj] at hstop
    change j < ops.length at hj
    omega

theorem land_stop (hd : Displaced sem entry ops plans) (s : Cpu σ) :
    (original entry ops).land ((original entry ops).addr ops.length) s =
      .ends (.leaves (window entry ops).stop s) :=
  Code.land_none (index?_stop hd) s

include hbase in
theorem trampoline_size : 4 * (trampoline entry ops plans base).words.length ≤ 2 ^ 64 := by
  omega

include hbase in
theorem hop_stop (s : Cpu σ) :
    Code.Hop sem (trampoline entry ops plans base) (marks entry ops plans)
      (position plans (window entry ops) plans.length) s
      (.ends (.leaves (window entry ops).stop (s.write 16 (window entry ops).stop))) :=
  hop_tail (trampoline_size hbase) (placed_tail plans (window entry ops) base)
    (not_mem_opsPos_tail (Nat.le_succ _))

theorem step_conditional (sem : Semantics σ) (entry : Addr) {taken : Bool} {d : BitVec 64}
    {s : Cpu σ} (hop : ops[i]? = some op)
    (hexec : ∀ load pc, exec sem load pc op s = conditional taken (pc + d) s) :
    (original entry ops).step sem (i, s) =
      if taken then (original entry ops).land ((original entry ops).addr i + d) s
      else (original entry ops).land ((original entry ops).addr (i + 1)) s :=
  Code.step_conditional (c := original entry ops) taken hop (hexec _ _)

include hd hbase

theorem follows_land {m : Nat} (hm : m ≤ ops.length)
    (hstep : (trampoline entry ops plans base).step sem (k, s) =
      .goes (position plans (window entry ops) m, s')) :
    Follows sem entry ops plans base k s
      ((original entry ops).land ((original entry ops).addr m) s') := by
  have hlength := plans_length hd
  rcases Nat.lt_or_eq_of_le hm with hlt | rfl
  · have hmark : (marks entry ops plans)[m]? = some (position plans (window entry ops) m) := by
      rw [marks, opsPos_getElem?, if_pos (hlength ▸ hlt)]
    have hbelow := hd.below
    refine ⟨.goes (m, s'), .lands hstep hmark, ?_⟩
    rw [Code.land_addr hlt (show 4 * ops.length ≤ 2 ^ 64 by omega)]
    exact .goes
  · rw [← hlength] at hstep
    refine ⟨_, .passes hstep (not_mem_opsPos_tail (Nat.le_refl _)) (hop_stop hbase s'), ?_⟩
    rw [land_stop hd]
    exact .ends (.leaves ((SameBut.refl s').write (List.mem_singleton_self 16) _))

theorem land_position {m : Nat} (hm : m ≤ ops.length) (s : Cpu σ) :
    (trampoline entry ops plans base).land
      ((trampoline entry ops plans base).addr (position plans (window entry ops) m)) s =
      .goes (position plans (window entry ops) m, s) := by
  refine Code.land_addr ?_ (trampoline_size hbase) s
  have hlength := plans_length hd
  rw [trampoline, code_length]
  rcases Nat.lt_or_eq_of_le hm with hlt | rfl
  · have hbefore := position_lt (window entry ops) (hlength.symm ▸ hlt) (Nat.le_refl plans.length)
    omega
  · rw [hlength]
    omega

section

variable {i j : Nat} {op : Word} {plan : Plan} {s : Cpu σ}

omit hbase in
theorem index_lt (hplan : plans[i]? = some plan) : i < ops.length := by
  rw [← plans_length hd]
  exact (List.getElem?_eq_some_iff.mp hplan).1

theorem follows_next (hplan : plans[i]? = some plan) (hsize : planSize plan (window entry ops) = 1)
    (hop : (trampoline entry ops plans base).words[position plans (window entry ops) i]? = some op)
    (hexec : exec sem (trampoline entry ops plans base).load?
      ((trampoline entry ops plans base).addr (position plans (window entry ops) i)) op s =
        .plain (.next s')) :
    Follows sem entry ops plans base (position plans (window entry ops) i) s
      ((original entry ops).land ((original entry ops).addr (i + 1)) s') := by
  have hi := index_lt hd hplan
  have hnext := position_succ (window entry ops) hplan
  refine follows_land hd hbase hi ?_
  rw [hsize] at hnext
  rw [hnext, Code.step]
  simp only [hop, hexec]
  rw [← hnext]
  exact land_position hd hbase hi s'

/-- One word that goes to the copy of another instruction. -/
theorem follows_branch (hj : j ≤ ops.length)
    (hop : (trampoline entry ops plans base).words[position plans (window entry ops) i]? = some op)
    (hexec : exec sem (trampoline entry ops plans base).load?
      ((trampoline entry ops plans base).addr (position plans (window entry ops) i)) op s =
        .branches
          ((trampoline entry ops plans base).addr (position plans (window entry ops) j)) s) :
    Follows sem entry ops plans base (position plans (window entry ops) i) s
      ((original entry ops).land ((original entry ops).addr j) s) := by
  refine follows_land hd hbase hj ?_
  rw [Code.step]
  simp only [hop, hexec]
  exact land_position hd hbase hj s

theorem follows_conditional {taken : Bool} (hplan : plans[i]? = some plan) (hj : j ≤ ops.length)
    (hsize : planSize plan (window entry ops) = 1)
    (hop : (trampoline entry ops plans base).words[position plans (window entry ops) i]? = some op)
    (hexec : exec sem (trampoline entry ops plans base).load?
      ((trampoline entry ops plans base).addr (position plans (window entry ops) i)) op s =
        conditional taken
          ((trampoline entry ops plans base).addr (position plans (window entry ops) j)) s) :
    Follows sem entry ops plans base (position plans (window entry ops) i) s
      (if taken then (original entry ops).land ((original entry ops).addr j) s
        else (original entry ops).land ((original entry ops).addr (i + 1)) s) := by
  cases taken with
  | true => exact follows_branch hd hbase hj hop hexec
  | false => exact follows_next hd hbase hplan hsize hop hexec

omit hd in
theorem follows_farJump (sem : Semantics σ) (s : Cpu σ) {t : Addr} (ht : t.toNat < 2 ^ 48)
    (hplaced : (trampoline entry ops plans base).Placed k (farJumpSeq t))
    (hout : ∀ m, k < m → m ≤ k + 3 → m ∉ marks entry ops plans) :
    Follows sem entry ops plans base k s (.ends (.leaves t s)) :=
  ⟨_, hop_farJump (trampoline_size hbase) hplaced hout ht,
    .ends (.leaves ((SameBut.refl s).write (List.mem_singleton_self 16) _))⟩

/-- A word that jumps over a far jump. -/
theorem follows_skip {n : Nat} (hn : 5 ≤ n) {skips : Bool} {t : Addr} (ht : t.toNat < 2 ^ 48)
    (hplan : plans[i]? = some plan) (hsize : planSize plan (window entry ops) = 5)
    (hplaced : (trampoline entry ops plans base).Placed (position plans (window entry ops) i)
      (op :: farJumpSeq t))
    (hexec : ∀ load pc, exec sem load pc op s =
      conditional skips (pc + offset (BitVec.ofInt (n + 1) 5)) s) :
    Follows sem entry ops plans base (position plans (window entry ops) i) s
      (if skips then (original entry ops).land ((original entry ops).addr (i + 1)) s
        else .ends (.leaves t s)) := by
  have hi := index_lt hd hplan
  cases skips with
  | true =>
    have hpow : (2 : Int) ^ 5 ≤ 2 ^ n := by exact_mod_cast Nat.pow_le_pow_right (by decide) hn
    have hnext := position_succ (window entry ops) hplan
    rw [hsize] at hnext
    have htarget := (trampoline entry ops plans base).addr_add_offset (n := n)
      (k := position plans (window entry ops) i) (j := position plans (window entry ops) (i + 1))
      (d := 5) (by omega) (by omega) (by omega)
    exact follows_branch hd hbase hi hplaced.head
      ((hexec _ _).trans (congrArg (conditional true · s) htarget))
  | false =>
    have hout : ∀ m, position plans (window entry ops) i < m →
        m < position plans (window entry ops) i + 5 → m ∉ marks entry ops plans :=
      fun m hlo hhi => not_mem_opsPos hplan hlo (hsize.symm ▸ hhi)
    obtain ⟨r', hhop, hrelated⟩ := follows_farJump hbase sem s ht hplaced.tail
      fun m hlo hhi => hout m (by omega) (by omega)
    have hlen := (List.getElem?_eq_some_iff.mp hplaced.tail.head).1
    exact ⟨r', .next (trampoline_size hbase) s hplaced.head hlen (hexec _ _)
      (hout _ (by omega) (by omega)) hhop, hrelated⟩

theorem returns_next (hi : i < ops.length) :
    Returns sem entry ops plans base ((original entry ops).addr (i + 1))
      ((trampoline entry ops plans base).addr (position plans (window entry ops) (i + 1))) := by
  have hlength := plans_length hd
  rcases Nat.lt_or_eq_of_le (Nat.succ_le_of_lt hi) with hlt | heq
  · refine .relocated ?_
    rw [marks, opsPos_getElem?, if_pos (hlength ▸ hlt)]
  · have hstop : (original entry ops).addr (i + 1) = (window entry ops).stop := by
      rw [← Nat.succ_eq_add_one, heq]
      rfl
    rw [hstop, ← Nat.succ_eq_add_one, heq, ← hlength]
    exact .jumpsBack (hop_stop hbase)

omit hbase in
variable (base) in
theorem near_target {n j : Nat} (hn : 5 ≤ n) (hi : i < ops.length) (hj : j < ops.length) :
    (trampoline entry ops plans base).addr (position plans (window entry ops) i) +
        offset (BitVec.ofInt (n + 1) (((opsPos plans (window entry ops)).getD j 0 : Nat) -
          (position plans (window entry ops) i : Nat))) =
      (trampoline entry ops plans base).addr (position plans (window entry ops) j) := by
  have hlength := plans_length hd
  have hle := length_le hd
  have hpos : (opsPos plans (window entry ops)).getD j 0 = position plans (window entry ops) j := by
    rw [List.getD, opsPos_getElem?, if_pos (hlength.symm ▸ hj)]
    rfl
  have hilo := position_le plans (window entry ops) i
  have hjlo := position_le plans (window entry ops) j
  have hpow : (2 : Int) ^ 5 ≤ 2 ^ n := by exact_mod_cast Nat.pow_le_pow_right (by decide) hn
  rw [hpos]
  exact Code.addr_add_offset _ (by omega) (by omega) (by omega)

theorem follows_verbatim (hop : ops[i]? = some op) (hplan : plans[i]? = some (.verbatim op))
    (h : PositionIndependent sem op) (s : Cpu σ) :
    Follows sem entry ops plans base (position plans (window entry ops) i) s
      ((original entry ops).step sem (i, s)) := by
  obtain ⟨effect, heffect⟩ := h.exec s
  have hcopy := (placed_emitOp (window entry ops) base hplan).head
  have hword : (original entry ops).words[i]? = some op := hop
  cases effect with
  | next s' =>
    have hstep : (original entry ops).step sem (i, s) =
        (original entry ops).land ((original entry ops).addr (i + 1)) s' := by
      simp only [Code.step, hword, heffect]
    rw [hstep]
    exact follows_next hd hbase hplan rfl hcopy (heffect _ _)
  | jumps t s' =>
    have hstep : (original entry ops).step sem (i, s) = .ends (.leaves t s') := by
      simp only [Code.step, hword, heffect]
    rw [hstep]
    refine ⟨_, .ends ?_, .ends (.leaves (SameBut.refl s'))⟩
    simp only [Code.step, trampoline, hcopy, heffect]
  | faults =>
    have hstep : (original entry ops).step sem (i, s) = .ends .faults := by
      simp only [Code.step, hword, heffect]
    rw [hstep]
    refine ⟨_, .ends ?_, .ends .faults⟩
    simp only [Code.step, trampoline, hcopy, heffect]

theorem follows_b {imm : BitVec 26} (hop : ops[i]? = some op) (hdecode : decode op = .b imm)
    (hplan : plans[i]? = some (.b ((original entry ops).addr i + offset imm))) (s : Cpu σ) :
    Follows sem entry ops plans base (position plans (window entry ops) i) s
      ((original entry ops).step sem (i, s)) := by
  have hi := index_lt hd hplan
  have hword : (original entry ops).words[i]? = some op := hop
  have hplaced := placed_emitOp (window entry ops) base hplan
  have hstep : (original entry ops).step sem (i, s) =
      (original entry ops).land ((original entry ops).addr i + offset imm) s := by
    simp only [Code.step, hword, exec, hdecode]
  rw [hstep]
  rcases target_cases imm hd.below (Nat.le_refl 26) hi (length_le hd) with
    ⟨j, hindex, hj, -, hcontains, htarget⟩ | ⟨hindex, hcontains⟩
  · obtain ⟨haddr, -⟩ := Code.index?_some hindex
    simp only [emitOp, hcontains, if_true, htarget] at hplaced
    rw [haddr]
    refine follows_branch hd hbase (Nat.le_of_lt hj) hplaced.head ?_
    simp only [exec, decode_near_b]
    rw [near_target base hd (by decide) hi hj]
  · have ht := hd.targets _ (List.mem_of_getElem? hplan) _ rfl
    rw [Code.land_none hindex]
    simp only [emitOp, hcontains] at hplaced
    have hsize :
        planSize (.b ((original entry ops).addr i + offset imm)) (window entry ops) = 4 := by
      simp only [planSize, hcontains, if_neg Bool.false_ne_true]
    exact follows_farJump hbase sem s ht hplaced fun m hlo hhi =>
      not_mem_opsPos hplan hlo (by omega)

section

variable {n : Nat} {taken : Bool} {t : Addr} (hn : 5 ≤ n) (hplan : plans[i]? = some plan)
include hn hplan

/-- A conditional branch in the window, with a new offset. -/
theorem follows_near (hindex : (original entry ops).index? t = some j)
    (hsize : planSize plan (window entry ops) = 1)
    (hop : (trampoline entry ops plans base).words[position plans (window entry ops) i]? = some op)
    (hexec : ∀ load pc, exec sem load pc op s = conditional taken
      (pc + offset (BitVec.ofInt (n + 1) (((opsPos plans (window entry ops)).getD j 0 : Nat) -
        (position plans (window entry ops) i : Nat)))) s) :
    Follows sem entry ops plans base (position plans (window entry ops) i) s
      (if taken then (original entry ops).land t s
        else (original entry ops).land ((original entry ops).addr (i + 1)) s) := by
  have hi := index_lt hd hplan
  obtain ⟨haddr, hj⟩ := Code.index?_some hindex
  rw [haddr]
  refine follows_conditional hd hbase hplan (Nat.le_of_lt hj) hsize hop ?_
  rw [hexec, near_target base hd hn hi hj]

/-- A conditional branch out of the window, as its inverse over a far jump. -/
theorem follows_far (hindex : (original entry ops).index? t = none) (ht : t.toNat < 2 ^ 48)
    (hsize : planSize plan (window entry ops) = 5)
    (hplaced : (trampoline entry ops plans base).Placed (position plans (window entry ops) i)
      (op :: farJumpSeq t))
    (hexec : ∀ load pc, exec sem load pc op s =
      conditional (!taken) (pc + offset (BitVec.ofInt (n + 1) 5)) s) :
    Follows sem entry ops plans base (position plans (window entry ops) i) s
      (if taken then (original entry ops).land t s
        else (original entry ops).land ((original entry ops).addr (i + 1)) s) := by
  have hskip := follows_skip hd hbase hn ht hplan hsize hplaced hexec
  rw [Code.land_none hindex]
  cases taken <;> exact hskip

end

theorem follows_cbz (hop : ops[i]? = some op) (hmask : op &&& 0x7E000000 = 0x34000000)
    (hplan : plans[i]? = some (.cbzCbnz op (op &&& 0x1F)
      ((original entry ops).addr i + offset (op.extractLsb' 5 19)))) (s : Cpu σ) :
    Follows sem entry ops plans base (position plans (window entry ops) i) s
      ((original entry ops).step sem (i, s)) := by
  have hi := index_lt hd hplan
  have hplaced := placed_emitOp (window entry ops) base hplan
  have hstep := step_conditional sem entry (s := s) hop fun load pc => by
    simp only [exec, decode_cbz hmask]; rfl
  rw [hstep]
  rcases target_cases (op.extractLsb' 5 19) hd.below (by decide) hi (length_le hd) with
    ⟨j, hindex, -, -, hcontains, htarget⟩ | ⟨hindex, hcontains⟩
  · simp only [emitOp, hcontains, if_true, htarget] at hplaced
    refine follows_near hd hbase (n := 18) (by decide) hplan hindex ?_ hplaced.head ?_
    · simp only [planSize, hcontains, if_true]
    · intro load pc
      simp only [exec, decode_near_cbz _ hmask]
  · simp only [emitOp, hcontains] at hplaced
    refine follows_far hd hbase (n := 18) (by decide) hplan hindex
      (hd.targets _ (List.mem_of_getElem? hplan) _ rfl) ?_ hplaced ?_
    · simp only [planSize, hcontains, if_neg Bool.false_ne_true]
    · intro load pc
      simp only [exec, decode_skip_cbz hmask, compares_invert]
      rfl

/-- A call out of the window sets the link to what comes after it. -/
theorem far_call {t : Addr} (hi : i < ops.length)
    (hcontains : (window entry ops).contains t = false)
    (pos : Nat) :
    ∃ ret : Addr, emitOp (.bl t) i pos (opsPos plans (window entry ops)) (window entry ops) base =
        movImm48 16 t ++ (movImm48 30 ret ++ [brX16]) ∧
      ret.toNat < 2 ^ 48 ∧
      Returns sem entry ops plans base ((original entry ops).addr (i + 1)) ret := by
  have hlength := plans_length hd
  have hmark := opsPos_getElem? plans (window entry ops) (i + 1)
  rcases Nat.lt_or_eq_of_le (Nat.succ_le_of_lt hi) with hlt | heq
  · have hlt' : i + 1 < plans.length := hlength ▸ hlt
    have hpos := position_lt (window entry ops) hlt' (Nat.le_refl plans.length)
    have hreturns := returns_next hd hbase hi
    rw [trampoline, code_length] at hbase
    rw [if_pos hlt'] at hmark
    refine ⟨_, by simp only [emitOp, hcontains, hmark, List.append_assoc]; rfl, ?_, ?_⟩
    · rw [BitVec.toNat_add, BitVec.toNat_ofNat]
      omega
    · rw [Nat.mul_comm]
      exact hreturns
  · rw [if_neg (by omega)] at hmark
    refine ⟨_, by simp only [emitOp, hcontains, hmark, List.append_assoc]; rfl, ?_, ?_⟩
    · rw [stop_toNat hd.below]
      exact hd.below
    · have hstop : (original entry ops).addr (i + 1) = (window entry ops).stop := by
        rw [← Nat.succ_eq_add_one, heq]
        rfl
      rw [hstop]
      exact .stop

theorem follows_bl {imm : BitVec 26} (hop : ops[i]? = some op) (hdecode : decode op = .bl imm)
    (hplan : plans[i]? = some (.bl ((original entry ops).addr i + offset imm))) (s : Cpu σ) :
    Follows sem entry ops plans base (position plans (window entry ops) i) s
      ((original entry ops).step sem (i, s)) := by
  have hi := index_lt hd hplan
  have hword : (original entry ops).words[i]? = some op := hop
  have hplaced := placed_emitOp (window entry ops) base hplan
  have hsize := trampoline_size hbase
  have hstep : (original entry ops).step sem (i, s) =
      .ends (.calls ((original entry ops).addr i + offset imm)
        (s.write 30 ((original entry ops).addr (i + 1)))) := by
    simp only [Code.step, hword, exec, hdecode, Code.addr_succ]
  rw [hstep]
  rcases target_cases imm hd.below (Nat.le_refl 26) hi (length_le hd) with
    ⟨j, hindex, hj, -, hcontains, htarget⟩ | ⟨hindex, hcontains⟩
  · have hsize :
        planSize (.bl ((original entry ops).addr i + offset imm)) (window entry ops) = 1 := by
      simp only [planSize, hcontains, if_true]
    have hnext := position_succ (window entry ops) hplan
    have hreturns := returns_next hd hbase hi
    have hmark : (marks entry ops plans)[j]? = some (position plans (window entry ops) j) := by
      rw [marks, opsPos_getElem?, if_pos ((plans_length hd).symm ▸ hj)]
    simp only [emitOp, hcontains, if_true, htarget] at hplaced
    have hcopy := hplaced.head
    refine ⟨.ends (.calls
        ((trampoline entry ops plans base).addr (position plans (window entry ops) j))
        (s.write 30
          ((trampoline entry ops plans base).addr (position plans (window entry ops) (i + 1))))),
      .ends ?_,
      .ends (.callsIn hindex hmark
        ((SameBut.refl s).write_both (List.mem_singleton_self 30) _ _) ?_)⟩
    · have htarget := near_target base hd (n := 25) (by decide) hi hj
      rw [hnext, hsize, Code.addr_succ, ← htarget]
      simp only [Code.step, trampoline, hcopy, exec, decode_near_bl]
    · rwa [read_write _ _ _ (by decide), read_write _ _ _ (by decide)]
  · have ht := hd.targets _ (List.mem_of_getElem? hplan) _ rfl
    obtain ⟨ret, hemit, hlt, hreturns⟩ := far_call hd hbase hi hcontains
      (position plans (window entry ops) i)
    rw [hemit] at hplaced
    have hsize7 :
        planSize (.bl ((original entry ops).addr i + offset imm)) (window entry ops) = 7 := by
      simp only [planSize, hcontains, if_neg Bool.false_ne_true]
    have hout : ∀ m, position plans (window entry ops) i < m →
        m < position plans (window entry ops) i + 7 → m ∉ marks entry ops plans :=
      fun m hlo hhi => not_mem_opsPos hplan hlo (hsize7.symm ▸ hhi)
    have hlast : (trampoline entry ops plans base).Placed (position plans (window entry ops) i + 3)
        (movImm48 30 ret ++ [brX16]) := hplaced.drop
    have hbr := hop_brX16 sem (marks entry ops plans)
      ((s.write 16 ((original entry ops).addr i + offset imm)).write 30 ret) hlast.drop.head
    rw [read_write_other _ _ (by decide), read_write _ _ _ (by decide)] at hbr
    have hlink := hop_movImm48 hsize hlast (fun m hlo hhi => hout m (by omega) (by omega)) hlt
      rfl (by decide) hbr
    refine ⟨_,
      hop_movImm48 hsize hplaced (fun m hlo hhi => hout m hlo (by omega)) ht rfl (by decide)
      hlink, .ends (.callsOut hindex ?_ ?_)⟩
    · exact (((SameBut.refl s).write (by decide) _).write_both (by decide) _ _)
    · rwa [read_write _ _ _ (by decide), read_write _ _ _ (by decide)]

end

end

end ShinySongTools.Trampoline
