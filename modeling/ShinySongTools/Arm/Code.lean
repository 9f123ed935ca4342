import ShinySongTools.Arm.Isa
import ShinySongTools.Lockstep

/-!
# Code at an address

A machine that runs a list of words placed at an address, until control leaves
them. A `bl` ends a run, wherever it goes; so does a jump through a register.
`Hop` runs from one of some marked words to the next.
-/

namespace Arm

open Lockstep

variable {σ : Type u}

structure Code where
  origin : Address
  words : List Word

/-- How control leaves. -/
inductive Exit (σ : Type u) where
  | leaves (target : Address) (s : Cpu σ)
  | calls (target : Address) (s : Cpu σ)
  | faults

namespace Code

def addr (c : Code) (k : Nat) : Address := c.origin + BitVec.ofNat 64 (4 * k)

/-- The word at an address. -/
def index? (c : Code) (a : Address) : Option Nat :=
  let d := (a - c.origin).toNat
  if d % 4 = 0 ∧ d / 4 < c.words.length then some (d / 4) else none

def load? (c : Code) (a : Address) : Option (BitVec 64) := do
  let k ← c.index? a
  let lo ← c.words[k]?
  let hi ← c.words[k + 1]?
  return hi ++ lo

def land (c : Code) (a : Address) (s : Cpu σ) : Turn (Nat × Cpu σ) (Exit σ) :=
  match c.index? a with
  | some k => .goes (k, s)
  | none => .ends (.leaves a s)

def step (sem : Semantics σ) (c : Code) (i : Nat × Cpu σ) : Turn (Nat × Cpu σ) (Exit σ) :=
  match c.words[i.1]? with
  | none => .ends .faults
  | some op =>
    match exec sem c.load? (c.addr i.1) op i.2 with
    | .plain (.next s) => c.land (c.addr (i.1 + 1)) s
    | .plain (.jumps a s) => .ends (.leaves a s)
    | .plain .faults => .ends .faults
    | .branches a s => c.land a s
    | .calls a s => .ends (.calls a s)

/-- From word `k` to the next of the marked words, given by its number. -/
inductive Hop (sem : Semantics σ) (c : Code) (marks : List Nat) :
    Nat → Cpu σ → Turn (Nat × Cpu σ) (Exit σ) → Prop
  | lands : c.step sem (k, s) = .goes (k', s') → marks[j]? = some k' →
      Hop sem c marks k s (.goes (j, s'))
  | passes : c.step sem (k, s) = .goes (k', s') → k' ∉ marks → Hop sem c marks k' s' r →
      Hop sem c marks k s r
  | ends : c.step sem (k, s) = .ends e → Hop sem c marks k s (.ends e)

/-- The turn of the machine that counts marked words only. -/
def turn (sem : Semantics σ) (c : Code) (marks : List Nat) (i : Nat × Cpu σ)
    (r : Turn (Nat × Cpu σ) (Exit σ)) : Prop :=
  ∃ k, marks[i.1]? = some k ∧ Hop sem c marks k i.2 r

variable {sem : Semantics σ} {c : Code} {marks : List Nat}

theorem addr_succ (c : Code) (k : Nat) : c.addr (k + 1) = c.addr k + 4 := by
  simp only [addr, Nat.mul_succ, BitVec.ofNat_add, BitVec.add_assoc]
  rfl

/-- A branch by `d` words. -/
theorem addr_add_offset (c : Code) {n k j : Nat} {d : Int} (hlo : -2 ^ n ≤ d) (hhi : d < 2 ^ n)
    (hj : (k : Int) + d = j) : c.addr k + offset (BitVec.ofInt (n + 1) d) = c.addr j := by
  have hoffset : BitVec.ofNat 64 (4 * k) + offset (BitVec.ofInt (n + 1) d) =
      BitVec.ofNat 64 (4 * j) := by
    rw [offset, BitFields.signExtend_ofInt hlo hhi, ← BitVec.ofInt_natCast, ← BitVec.ofInt_natCast,
      show (4 : BitVec 64) = BitVec.ofInt 64 4 from rfl, ← BitVec.ofInt_mul, ← BitVec.ofInt_add]
    congr 1
    push_cast
    omega
  rw [addr, addr, BitVec.add_assoc, hoffset]

theorem offset_eq (imm : BitVec n) : offset imm = BitVec.ofInt 64 (4 * imm.toInt) := by
  rw [offset, BitVec.signExtend, show (4 : BitVec 64) = BitVec.ofInt 64 4 from rfl,
    ← BitVec.ofInt_mul, Int.mul_comm]

theorem toInt_bounds {n : Nat} (imm : BitVec n) (hn : n ≤ 26) :
    -2 ^ 26 ≤ imm.toInt ∧ imm.toInt < 2 ^ 26 := by
  have hpow : (2 : Int) ^ n ≤ 2 ^ 26 := by
    exact_mod_cast Nat.pow_le_pow_right (by decide) hn
  have hlo := BitVec.two_mul_toInt_lt (x := imm)
  have hhi := BitVec.le_two_mul_toInt (x := imm)
  constructor <;> omega

/-- Two words are as far apart as a branch between them says. -/
theorem toInt_of_addr {n k j : Nat} {imm : BitVec n} (hn : n ≤ 26) (hk : k < 2 ^ 26)
    (hj : j < 2 ^ 26) (h : c.addr k + offset imm = c.addr j) : imm.toInt = j - k := by
  obtain ⟨hlo, hhi⟩ := toInt_bounds imm hn
  have hint :
      BitVec.ofInt 64 ((4 * k : Nat) + 4 * imm.toInt) = BitVec.ofInt 64 ((4 * j : Nat)) := by
    rw [addr, addr, BitVec.add_assoc, BitVec.add_right_inj, offset_eq] at h
    rw [BitVec.ofInt_add, BitVec.ofInt_natCast, BitVec.ofInt_natCast]
    exact h
  have htoInt := congrArg BitVec.toInt hint
  rw [BitVec.toInt_ofInt_eq_self (by decide) (by push_cast; omega) (by push_cast; omega),
    BitVec.toInt_ofInt_eq_self (by decide) (by push_cast; omega) (by push_cast; omega)] at htoInt
  push_cast at htoInt
  omega

theorem index?_addr {k : Nat} (hk : k < c.words.length) (hlen : 4 * c.words.length ≤ 2 ^ 64) :
    c.index? (c.addr k) = some k := by
  have hd : (c.addr k - c.origin).toNat = 4 * k := by
    rw [addr, BitVec.add_comm, BitVec.add_sub_cancel, BitVec.toNat_ofNat]
    exact Nat.mod_eq_of_lt (by omega)
  simp only [index?, hd]
  rw [if_pos (by omega)]
  congr 1
  omega

theorem index?_some {a : Address} {k : Nat} (h : c.index? a = some k) :
    a = c.addr k ∧ k < c.words.length := by
  obtain ⟨hd, hk⟩ := Option.ite_none_right_eq_some.mp h
  cases hk
  refine ⟨?_, hd.2⟩
  rw [addr, Nat.mul_div_cancel' (Nat.dvd_of_mod_eq_zero hd.1), BitVec.ofNat_toNat,
    BitVec.setWidth_eq, BitVec.add_comm, BitVec.sub_add_cancel]

theorem land_addr {k : Nat} (hk : k < c.words.length) (hlen : 4 * c.words.length ≤ 2 ^ 64)
    (s : Cpu σ) : c.land (c.addr k) s = .goes (k, s) := by
  rw [land, index?_addr hk hlen]

theorem land_none {a : Address} (h : c.index? a = none) (s : Cpu σ) :
    c.land a s = .ends (.leaves a s) := by
  rw [land, h]

theorem land_lt {a : Address} (h : c.land a s = .goes t) : t.1 < c.words.length := by
  unfold land at h
  split at h
  · next hindex =>
    cases h
    exact (index?_some hindex).2
  · cases h

/-- Control stays on the words. -/
theorem step_lt (h : c.step sem i = .goes t) : t.1 < c.words.length := by
  unfold step at h
  split at h
  · cases h
  split at h
  · exact land_lt h
  · cases h
  · cases h
  · exact land_lt h
  · cases h

theorem Hop.unique (hnodup : marks.Nodup) (h : Hop sem c marks k s r)
    (h' : Hop sem c marks k s r') :
    r = r' := by
  induction h with
  | @lands k s k₁ s₁ j hs hj =>
    cases h' with
    | lands hs' hj' =>
      cases hs.symm.trans hs'
      have heq :=
        (List.getElem?_inj (List.getElem?_eq_some_iff.mp hj).1 hnodup).mp (hj.trans hj'.symm)
      rw [heq]
    | passes hs' hout _ =>
      cases hs.symm.trans hs'
      exact absurd (List.mem_of_getElem? hj) hout
    | ends hs' => cases hs.symm.trans hs'
  | passes hs hout _ ih =>
    cases h' with
    | lands hs' hj' =>
      cases hs.symm.trans hs'
      exact absurd (List.mem_of_getElem? hj') hout
    | passes hs' _ hrest =>
      cases hs.symm.trans hs'
      exact ih hrest
    | ends hs' => cases hs.symm.trans hs'
  | ends hs =>
    cases h' with
    | lands hs' _ => cases hs.symm.trans hs'
    | passes hs' _ _ => cases hs.symm.trans hs'
    | ends hs' =>
      cases hs.symm.trans hs'
      rfl

/-- A block of words in the code. -/
def Placed (c : Code) (k : Nat) (block : List Word) : Prop :=
  ∀ i op, block[i]? = some op → c.words[k + i]? = some op

theorem Placed.head (h : c.Placed k (op :: block)) : c.words[k]? = some op := h 0 op rfl

theorem Placed.tail (h : c.Placed k (op :: block)) : c.Placed (k + 1) block := by
  intro i op' hi
  rw [Nat.add_right_comm]
  exact h (i + 1) op' hi

theorem Placed.drop {block block' : List Word} (h : c.Placed k (block ++ block')) :
    c.Placed (k + block.length) block' := by
  intro i op hi
  rw [Nat.add_assoc]
  refine h _ op ?_
  rwa [List.getElem?_append_right (Nat.le_add_right ..), Nat.add_sub_cancel_left]

theorem step_conditional (taken : Bool) {s : Cpu σ} (hop : c.words[k]? = some op)
    (hexec : exec sem c.load? (c.addr k) op s = conditional taken a s) :
    c.step sem (k, s) = if taken then c.land a s else c.land (c.addr (k + 1)) s := by
  cases taken <;> simp [step, hop, hexec, conditional]

section

variable {s s' : Cpu σ} {op : Word} (hlen : 4 * c.words.length ≤ 2 ^ 64)
include hlen

theorem step_next (hop : c.words[k]? = some op) (hlt : k + 1 < c.words.length)
    (hexec : exec sem c.load? (c.addr k) op s = .plain (.next s')) :
    c.step sem (k, s) = .goes (k + 1, s') := by
  simp only [step, hop, hexec]
  exact land_addr hlt hlen s'

/-- An unmarked word that goes on to the next. -/
theorem Hop.next (s' : Cpu σ) (hop : c.words[k]? = some op) (hlt : k + 1 < c.words.length)
    (hexec : exec sem c.load? (c.addr k) op s = .plain (.next s')) (hout : k + 1 ∉ marks)
    (h : Hop sem c marks (k + 1) s' r) : Hop sem c marks k s r :=
  .passes (step_next hlen hop hlt hexec) hout h

end

end Code
end Arm
