import ShinySongTools.Recon.MachO
import ShinySongTools.Arm.Isa

/-!
# The callers of a function

`callers_query_handler` goes through the `__text` section word by word and
reports the direct calls of one address. Its sums of addresses wrap, and it
takes the size of the section for a multiple of the word.
-/

namespace ShinySongTools.Recon

open Traced
open Arm (Word decode)

structure CallersQuery where
  rva : BitVec 64
  limit : Option Nat

structure CallersResponse where
  imageBase : BitVec 64
  textRva : BitVec 64
  textSize : BitVec 64
  total : Nat
  truncated : Bool
  callerRvas : List (BitVec 64)

-- ---------------------------------------------------------------------------
-- The scan
-- ---------------------------------------------------------------------------

structure Tally where
  total : Nat
  truncated : Bool
  callerRvas : List (BitVec 64)

def Tally.count (tally : Tally) (limit : Nat) (rva : BitVec 64) : Tally :=
  if tally.callerRvas.length < limit then
    { tally with total := tally.total + 1, callerRvas := tally.callerRvas ++ [rva] }
  else { tally with total := tally.total + 1, truncated := true }

/-- The sign-extended operand of a `bl`. -/
def signed (word : Word) : BitVec 64 :=
  let imm26 := word &&& 0x03FFFFFF
  ((imm26 <<< 6).sshiftRight 6).signExtend 64

def visit (base textVa targetVa : BitVec 64) (limit offset : Nat) (word : Word) (tally : Tally) :
    Tally :=
  if word &&& 0xFC000000 ≠ 0x94000000 then tally
  else
    let target := textVa + BitVec.ofNat 64 offset + signed word * 4
    if target = targetVa then tally.count limit (textVa + BitVec.ofNat 64 offset - base)
    else tally

def callersLoop (mem : Memory) (base textVa targetVa : BitVec 64) (limit : Nat) :
    List Nat → Tally → Reading Tally
  | [], tally => return tally
  | offset :: offsets, tally => do
    let word ← readNat mem (textVa + BitVec.ofNat 64 offset).toNat 4
    callersLoop mem base textVa targetVa limit offsets
      (visit base textVa targetVa limit offset (BitVec.ofNat 32 word) tally)

/-- `(0..size).step_by(4)`. -/
def stepBy4 (size : Nat) : List Nat := (List.range ((size + 3) / 4)).map (4 * ·)

def callers (mem : Memory) (base textVa textSize : BitVec 64) (request : CallersQuery) :
    Reading CallersResponse := do
  let targetVa := base + request.rva
  let limit := request.limit.getD 64
  let tally ← callersLoop mem base textVa targetVa limit (stepBy4 textSize.toNat) ⟨0, false, []⟩
  return {
    imageBase := base
    textRva := textVa - base
    textSize
    total := tally.total
    truncated := tally.truncated
    callerRvas := tally.callerRvas }

def callersQueryHandler (mem : Memory) (imageBase : Option (BitVec 64))
    (images : List (Option String × Nat)) (request : CallersQuery) :
    Reading (Except String CallersResponse) := do
  match imageBase with
  | none => return .error "UnityFramework image base unknown"
  | some base =>
    match ← textSection mem images with
    | none => return .error "__TEXT.__text not found in the image"
    | some (textVa, textSize) =>
      return .ok (← callers mem base (BitVec.ofNat 64 textVa) (BitVec.ofNat 64 textSize) request)

-- ---------------------------------------------------------------------------
-- The calls in a section
-- ---------------------------------------------------------------------------

/-- A mapped section and the base of its image. -/
structure TextSection where
  mem : Memory
  base : BitVec 64
  va : BitVec 64
  size : BitVec 64
  mapped : va.toNat + size.toNat ≤ 2 ^ 64

namespace TextSection

variable (s : TextSection)

def word (offset : Nat) : Word :=
  BitVec.ofNat 32 (littleEndian (bytesAt s.mem (s.va.toNat + offset) 4))

/-- Where the word at an offset calls, if it is a `bl`. -/
def callTarget (offset : Nat) : Option Nat :=
  match decode (s.word offset) with
  | .bl imm => some (s.va + BitVec.ofNat 64 offset + Arm.offset imm).toNat
  | _ => none

/-- The offsets of the aligned words of the section that call the target, in their order. -/
def callersOf (target : Nat) : List Nat :=
  ((List.range (s.size.toNat / 4)).map (4 * ·)).filter fun offset =>
    s.callTarget offset = some target

variable (request : CallersQuery)

def query : Reading CallersResponse := callers s.mem s.base s.va s.size request

def asked : Nat := s.base.toNat + request.rva.toNat

def limit (request : CallersQuery) : Nat := request.limit.getD 64

/-- The section alone is read, and its calls of the address are counted and reported. -/
structure Exact : Prop where
  inside : ∀ span ∈ (s.query request).reads, span.In s.va.toNat (s.va.toNat + s.size.toNat)
  total : (s.query request).value.total = (s.callersOf (s.asked request)).length
  reported : (s.query request).value.callerRvas.map (fun rva => (rva.toNat : Int)) =
    ((s.callersOf (s.asked request)).take (limit request)).map fun (offset : Nat) =>
      ((s.va.toNat + offset : Nat) : Int) - s.base.toNat
  truncated : (s.query request).value.truncated = true ↔
    limit request < (s.query request).value.total

/-- The words fill the section, no call goes to what a sum above `2 ^ 64` wraps to, and the calls
that are reported are behind the base. -/
structure Plain : Prop where
  whole : s.size.toNat % 4 = 0
  unwrapped : 2 ^ 64 ≤ s.asked request → s.callersOf (s.asked request - 2 ^ 64) = []
  behind : ∀ offset ∈ (s.callersOf (s.asked request)).take (limit request),
    s.base.toNat ≤ s.va.toNat + offset

-- ---------------------------------------------------------------------------
-- What is tallied
-- ---------------------------------------------------------------------------

def tally (limit : Nat) (offsets : List Nat) : Tally where
  total := offsets.length
  truncated := limit < offsets.length
  callerRvas := (offsets.take limit).map fun offset => s.va + BitVec.ofNat 64 offset - s.base

variable {s : TextSection} {request : CallersQuery} {limit offset target : Nat}
variable {done offsets : List Nat}

theorem tally_nil (limit : Nat) : s.tally limit [] = ⟨0, false, []⟩ := by
  simp [tally]

theorem count_tally (limit offset : Nat) (done : List Nat) :
    (s.tally limit done).count limit (s.va + BitVec.ofNat 64 offset - s.base) =
      s.tally limit (done ++ [offset]) := by
  unfold Tally.count tally
  simp only [List.length_map, List.length_take, List.length_append, List.length_singleton]
  by_cases h : done.length < limit
  · rw [if_pos (by omega), List.take_of_length_le (by omega),
      List.take_of_length_le (by simp; omega)]
    simp
    omega
  · rw [if_neg (by omega), List.take_append_of_le_length (by omega)]
    simp
    omega

theorem signed_mul (op : Word) : signed op * 4 = Arm.offset (op.extractLsb' 0 26) := by
  have hsigned : signed op = ((op &&& 0x03FFFFFF).extractLsb' 0 26).signExtend 64 :=
    BitFields.signExtend_sshiftRight_shiftLeft (n := 26) _ (by decide) (by decide) (by decide)
  rw [hsigned, BitVec.extractLsb'_and, BitFields.and_ones (by decide), Arm.offset]

theorem toNat_va_add (h : offset < s.size.toNat) :
    (s.va + BitVec.ofNat 64 offset).toNat = s.va.toNat + offset := by
  have hmapped := s.mapped
  have hsize := s.size.isLt
  have hoffset : offset % 2 ^ 64 = offset := Nat.mod_eq_of_lt (by omega)
  rw [BitVec.toNat_add, BitVec.toNat_ofNat, hoffset, Nat.mod_eq_of_lt (by omega)]

theorem visit_tally (target : BitVec 64) (limit offset : Nat) (done : List Nat) :
    visit s.base s.va target limit offset (s.word offset) (s.tally limit done) =
      s.tally limit (done ++
        [offset].filter fun offset => s.callTarget offset = some target.toNat) := by
  unfold visit
  by_cases hbl : s.word offset &&& 0xFC000000 = 0x94000000
  · have htarget : s.callTarget offset = some
        (s.va + BitVec.ofNat 64 offset + signed (s.word offset) * 4).toNat := by
      rw [callTarget, Arm.decode_bl hbl, signed_mul]
    rw [if_neg (not_not_intro hbl), List.filter_singleton, htarget]
    by_cases h : s.va + BitVec.ofNat 64 offset + signed (s.word offset) * 4 = target
    · simp only [h, if_true, decide_true]
      exact count_tally limit offset done
    · have hne : ¬ (s.va + BitVec.ofNat 64 offset + signed (s.word offset) * 4).toNat =
          target.toNat := fun heq => h (BitVec.eq_of_toNat_eq heq)
      rw [if_neg h]
      simp only [Option.some.injEq, hne, decide_false, cond_false, List.append_nil]
  · have htarget : s.callTarget offset = none := by
      unfold callTarget
      split
      next imm hdecode => exact absurd (Arm.decode_eq_bl hdecode).1 hbl
      next => rfl
    rw [if_pos hbl, List.filter_singleton, htarget]
    simp

theorem value_callersLoop (target : BitVec 64) (limit : Nat) (done : List Nat)
    (hwords : ∀ offset ∈ offsets, offset < s.size.toNat) :
    (callersLoop s.mem s.base s.va target limit offsets (s.tally limit done)).value =
      s.tally limit (done ++
        offsets.filter fun offset => s.callTarget offset = some target.toNat) := by
  induction offsets generalizing done with
  | nil => simp [callersLoop]
  | cons offset offsets ih =>
    obtain ⟨hword, hwords⟩ := List.forall_mem_cons.mp hwords
    rw [callersLoop, value_bind, value_readNat, toNat_va_add hword, ← word, visit_tally,
      ih _ hwords,
      List.append_assoc, ← List.filter_append]
    rfl

theorem reads_callersLoop (target : BitVec 64) (limit : Nat) (t : Tally)
    (hwords : ∀ offset ∈ offsets, offset < s.size.toNat) :
    (callersLoop s.mem s.base s.va target limit offsets t).reads =
      offsets.map fun offset => ⟨s.va.toNat + offset, 4⟩ := by
  induction offsets generalizing t with
  | nil => simp [callersLoop]
  | cons offset offsets ih =>
    obtain ⟨hword, hwords⟩ := List.forall_mem_cons.mp hwords
    rw [callersLoop, reads_bind, reads_readNat, toNat_va_add hword, ih _ hwords]
    rfl

-- ---------------------------------------------------------------------------
-- When the answer is exact
-- ---------------------------------------------------------------------------

theorem lt_of_mem_stepBy4 {size : Nat} (h : offset ∈ stepBy4 size) : offset < size := by
  obtain ⟨k, hk, rfl⟩ := List.mem_map.mp h
  have := List.mem_range.mp hk
  omega

theorem reads_query : (s.query request).reads =
    (stepBy4 s.size.toNat).map fun offset => ⟨s.va.toNat + offset, 4⟩ := by
  rw [query, callers, reads_bind, reads_callersLoop _ _ _ fun _ => lt_of_mem_stepBy4, reads_pure,
    List.append_nil]

/-- The last word is read whole when the words fill the section. -/
theorem inside_iff :
    (∀ span ∈ (s.query request).reads, span.In s.va.toNat (s.va.toNat + s.size.toNat)) ↔
      s.size.toNat % 4 = 0 := by
  rw [reads_query, List.forall_mem_map]
  unfold stepBy4
  rw [List.forall_mem_map]
  simp only [Span.In, List.mem_range]
  constructor
  · intro h
    by_contra hrest
    have hlast := (h (s.size.toNat / 4) (by omega)).2
    omega
  · intro h k hk
    omega

/-- The tally of the words that call the wrapped sum. -/
theorem value_query (request : CallersQuery) (h : s.size.toNat % 4 = 0) :
    let tally := s.tally (TextSection.limit request) (s.callersOf (s.asked request % 2 ^ 64))
    (s.query request).value.total = tally.total ∧
      (s.query request).value.truncated = tally.truncated ∧
      (s.query request).value.callerRvas = tally.callerRvas := by
  have hwords : ∀ offset ∈ stepBy4 s.size.toNat, offset < s.size.toNat := fun _ =>
    lt_of_mem_stepBy4
  have hloop := value_callersLoop (s.base + request.rva) (TextSection.limit request) [] hwords
  have hsteps : (s.size.toNat + 3) / 4 = s.size.toNat / 4 := by omega
  rw [BitVec.toNat_add, stepBy4, hsteps, tally_nil, List.nil_append] at hloop
  rw [query, callers, value_bind, value_pure, stepBy4, hsteps]
  exact ⟨congrArg Tally.total hloop, congrArg Tally.truncated hloop,
    congrArg Tally.callerRvas hloop⟩

theorem callersOf_eq_nil (h : 2 ^ 64 ≤ target) : s.callersOf target = [] := by
  refine List.filter_eq_nil_iff.mpr fun offset _ => ?_
  unfold callTarget
  split
  next imm _ =>
    have hlt := (s.va + BitVec.ofNat 64 offset + Arm.offset imm).isLt
    simp only [decide_eq_true_eq, Option.some.injEq]
    omega
  next => simp

theorem lt_of_mem_callersOf (h : offset ∈ s.callersOf target) : offset < s.size.toNat := by
  obtain ⟨k, hk, rfl⟩ := List.mem_map.mp (List.mem_of_mem_filter h)
  have := List.mem_range.mp hk
  omega

theorem toNat_rva (h : offset < s.size.toNat) :
    ((s.va + BitVec.ofNat 64 offset - s.base).toNat : Int) =
        ((s.va.toNat + offset : Nat) : Int) - s.base.toNat ↔
          s.base.toNat ≤ s.va.toNat + offset := by
  have hbase := s.base.isLt
  have hva := toNat_va_add h
  have hlt := (s.va + BitVec.ofNat 64 offset).isLt
  rw [BitVec.toNat_sub, hva]
  rw [hva] at hlt
  omega

theorem exact_iff (s : TextSection) (request : CallersQuery) :
    s.Exact request ↔ s.Plain request := by
  have hasked : s.asked request < 2 ^ 65 := by
    have := s.base.isLt
    have := request.rva.isLt
    unfold asked
    omega
  constructor
  · intro h
    have hwhole := inside_iff.mp h.inside
    obtain ⟨htotal, -, hrvas⟩ := value_query request hwhole
    refine ⟨hwhole, fun hwrap => ?_, fun offset hoffset => ?_⟩
    · have hnone := h.total
      rw [htotal, callersOf_eq_nil hwrap] at hnone
      have hmod : s.asked request % 2 ^ 64 = s.asked request - 2 ^ 64 := by omega
      rw [← hmod]
      exact List.length_eq_zero_iff.mp hnone
    · by_cases hwrap : 2 ^ 64 ≤ s.asked request
      · rw [callersOf_eq_nil hwrap, List.take_nil] at hoffset
        exact absurd hoffset List.not_mem_nil
      · have hreported := h.reported
        rw [hrvas, Nat.mod_eq_of_lt (by omega), tally, List.map_map] at hreported
        have hrva := List.map_inj_left.mp hreported offset hoffset
        exact (toNat_rva (lt_of_mem_callersOf (List.mem_of_mem_take hoffset))).mp hrva
  · intro h
    obtain ⟨htotal, htruncated, hrvas⟩ := value_query request h.whole
    have hcallers : s.callersOf (s.asked request % 2 ^ 64) = s.callersOf (s.asked request) := by
      by_cases hwrap : 2 ^ 64 ≤ s.asked request
      · rw [callersOf_eq_nil hwrap, ← h.unwrapped hwrap]
        exact congrArg _ (by omega)
      · rw [Nat.mod_eq_of_lt (by omega)]
    rw [hcallers] at htotal htruncated hrvas
    refine ⟨inside_iff.mpr h.whole, htotal, ?_, ?_⟩
    · rw [hrvas, tally, List.map_map]
      refine List.map_congr_left fun offset hoffset => ?_
      exact (toNat_rva (lt_of_mem_callersOf (List.mem_of_mem_take hoffset))).mpr
        (h.behind offset hoffset)
    · rw [htruncated, htotal]
      exact decide_eq_true_iff

/-- A section at the base of its image, with a `bl` to the word before it. -/
def callsBelow : TextSection where
  mem a := [0xFF, 0xFF, 0xFF, 0x97].getD (a - 0x2000) 0
  base := 0x2000
  va := 0x2000
  size := 4
  mapped := by decide

/-- The sum of the base and the largest aligned `rva` wraps to the word before the base, and the
call is reported for an address that is above all. -/
theorem callsBelow_wraps : ¬ callsBelow.Exact ⟨0xFFFFFFFFFFFFFFFC, none⟩ := by
  intro h
  have hreported : (callsBelow.query ⟨0xFFFFFFFFFFFFFFFC, none⟩).value.total = 1 := by
    decide +kernel
  have hnone : callsBelow.callersOf (callsBelow.asked ⟨0xFFFFFFFFFFFFFFFC, none⟩) = [] :=
    callersOf_eq_nil (by decide)
  have htotal := h.total
  rw [hreported, hnone] at htotal
  exact absurd htotal (by decide)

end TextSection

-- ---------------------------------------------------------------------------
-- The handler
-- ---------------------------------------------------------------------------

theorem callersQueryHandler_eq {mem : Memory} {images : List (Option String × Nat)}
    {textVa textSize : Nat} (h : (textSection mem images).value = some (textVa, textSize))
    (base : BitVec 64) (request : CallersQuery) :
    let scan := callers mem base (BitVec.ofNat 64 textVa) (BitVec.ofNat 64 textSize) request
    (callersQueryHandler mem (some base) images request).value = .ok scan.value ∧
      (callersQueryHandler mem (some base) images request).reads =
        (textSection mem images).reads ++ scan.reads := by
  simp [callersQueryHandler, h]

end ShinySongTools.Recon
