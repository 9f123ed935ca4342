import Mathlib

/-!
# Traced reads

Programs over the memory of a 64-bit machine that keep the spans they read and
the sums and products they form, as integers: addresses wrap, and a sum that
wrapped is not below `2 ^ 64`.
-/

namespace Traced

abbrev Memory := Nat → UInt8

structure Span where
  address : Nat
  size : Nat
  deriving DecidableEq, Repr

def Span.In (span : Span) (first stop : Nat) : Prop :=
  first ≤ span.address ∧ span.address + span.size ≤ stop

instance (span : Span) (first stop : Nat) : Decidable (span.In first stop) :=
  inferInstanceAs (Decidable (_ ∧ _))

@[ext]
structure Reading (α : Type) where
  reads : List Span
  results : List Nat
  value : α

variable {α β : Type}

def done (a : α) : Reading α := ⟨[], [], a⟩

def Reading.andThen (m : Reading α) (f : α → Reading β) : Reading β where
  reads := m.reads ++ (f m.value).reads
  results := m.results ++ (f m.value).results
  value := (f m.value).value

instance : Monad Reading where
  pure := done
  bind := Reading.andThen

def wrap (x : Nat) : Nat := x % 2 ^ 64

/-- The address `k` bytes behind another one. -/
def behind (a k : Nat) : Nat := wrap (a + k)

def add (a b : Nat) : Reading Nat := ⟨[], [a + b], behind a b⟩

def mul (a b : Nat) : Reading Nat := ⟨[], [a * b], wrap (a * b)⟩

/-- The bytes from an address on. -/
def bytesAt (mem : Memory) (a size : Nat) : List UInt8 :=
  (List.range size).map fun i => mem (behind a i)

def littleEndian : List UInt8 → Nat
  | [] => 0
  | b :: bytes => b.toNat + 256 * littleEndian bytes

def readBytes (mem : Memory) (a size : Nat) : Reading (List UInt8) :=
  ⟨[⟨a, size⟩], [], bytesAt mem a size⟩

def readNat (mem : Memory) (a size : Nat) : Reading Nat :=
  ⟨[⟨a, size⟩], [], littleEndian (bytesAt mem a size)⟩

-- ---------------------------------------------------------------------------
-- What is kept
-- ---------------------------------------------------------------------------

-- The parentheses keep `simp` from taking these as definitional, which leaves the kernel to unfold
-- whole programs.

section

variable (m : Reading α) (f : α → Reading β) (mem : Memory) (a b size : Nat)

@[simp] theorem reads_pure (x : α) : (pure x : Reading α).reads = [] := (rfl)
@[simp] theorem results_pure (x : α) : (pure x : Reading α).results = [] := (rfl)
@[simp] theorem value_pure (x : α) : (pure x : Reading α).value = x := (rfl)

@[simp] theorem reads_bind : (m >>= f).reads = m.reads ++ (f m.value).reads := (rfl)
@[simp] theorem results_bind : (m >>= f).results = m.results ++ (f m.value).results := (rfl)
@[simp] theorem value_bind : (m >>= f).value = (f m.value).value := (rfl)

@[simp] theorem reads_add : (add a b).reads = [] := (rfl)
@[simp] theorem results_add : (add a b).results = [a + b] := (rfl)
@[simp] theorem value_add : (add a b).value = behind a b := (rfl)

@[simp] theorem reads_mul : (mul a b).reads = [] := (rfl)
@[simp] theorem results_mul : (mul a b).results = [a * b] := (rfl)
@[simp] theorem value_mul : (mul a b).value = wrap (a * b) := (rfl)

@[simp] theorem reads_readBytes : (readBytes mem a size).reads = [⟨a, size⟩] := (rfl)
@[simp] theorem results_readBytes : (readBytes mem a size).results = [] := (rfl)
@[simp] theorem value_readBytes : (readBytes mem a size).value = bytesAt mem a size := (rfl)

@[simp] theorem reads_readNat : (readNat mem a size).reads = [⟨a, size⟩] := (rfl)
@[simp] theorem results_readNat : (readNat mem a size).results = [] := (rfl)
@[simp] theorem value_readNat :
    (readNat mem a size).value = littleEndian (bytesAt mem a size) := (rfl)

end

-- ---------------------------------------------------------------------------
-- Addresses
-- ---------------------------------------------------------------------------

theorem behind_behind (a j k : Nat) : behind (behind a j) k = behind a (j + k) := by
  rw [behind, behind, behind, wrap, wrap, wrap, Nat.mod_add_mod, Nat.add_assoc]

theorem wrap_of_lt {x : Nat} (h : x < 2 ^ 64) : wrap x = x := Nat.mod_eq_of_lt h

theorem behind_of_lt {a k : Nat} (h : a + k < 2 ^ 64) : behind a k = a + k := wrap_of_lt h

/-- A span is in a region that does not wrap when it is by its distance. -/
theorem in_iff {a k size length : Nat} (hlength : a + length ≤ 2 ^ 64) (hsize : 0 < size)
    (hk : k < 2 ^ 63) (ha : a < 2 ^ 64) :
    Span.In ⟨behind a k, size⟩ a (a + length) ↔ k + size ≤ length := by
  simp only [Span.In, behind, wrap]
  rcases Nat.lt_or_ge (a + k) (2 ^ 64) with hlt | hge
  · rw [Nat.mod_eq_of_lt hlt]
    omega
  · rw [Nat.mod_eq_sub_mod hge, Nat.mod_eq_of_lt (by omega)]
    omega

theorem littleEndian_lt (bytes : List UInt8) : littleEndian bytes < 256 ^ bytes.length := by
  induction bytes with
  | nil => decide
  | cons b bytes ih =>
    have hb := b.toNat_lt
    rw [littleEndian, List.length_cons, Nat.pow_succ]
    omega

theorem length_bytesAt (mem : Memory) (a size : Nat) : (bytesAt mem a size).length = size := by
  rw [bytesAt, List.length_map, List.length_range]

end Traced
