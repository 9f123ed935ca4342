import ShinySongTools.Machine
import ShinySongTools.Core.MethodSlot

/-!
# The entry patch as a slot

`EntryPatchMemory` offers the operations of `SlotMemory` over a function
entry: the state word is a private flag, the truth is the bytes at the entry,
and between the two stands `remap_patch`, which can be refused before it
changes anything or fail its readback after it has.

The machine interleaves the object's own calls with writes of other parties
to the entry bytes. `Contract` is what `SlotMemory` asks of an implementation,
read off the bytes; `contract_iff` says in which runs it is kept.
-/

namespace ShinySongTools

abbrev Byte := BitVec 8

/-- What `new` fixes at bind time. The trampoline lives in a page mapped for
it, so it is not the address of the replacement. -/
structure EntryPatchMemory where
  entry : Addr
  replacement : Addr
  trampoline : Addr
  patch : List Byte
  original : List Byte
  fresh : trampoline ≠ replacement

namespace EntryPatchMemory

/-- The mutable part: the flag, the diagnostics, and the bytes the entry
holds. -/
structure State where
  installed : Bool
  failure : Option String
  bytes : List Byte
  deriving DecidableEq, Repr

/-- The calls of `remap_patch` that can refuse before the entry changes. -/
inductive Refusal where
  | pageSize
  | stagingMap
  | stagingWritable
  | stagingExecutable
  | remap
  deriving DecidableEq, Repr

/-- What the system answers one `remap_patch`: a refusal, or a completed remap
after which the readback finds `found` at the entry. -/
inductive Remap where
  | refused (at_ : Refusal)
  | carriedOut (found : List Byte)
  deriving DecidableEq, Repr

def Refusal.error : Refusal → HookError
  | .pageSize => .entryPatchUnsupported "page size unavailable"
  | .stagingMap => .entryPatchUnsupported "staging page mmap failed"
  | .stagingWritable | .stagingExecutable | .remap => .installationFailed

def crossesPage (pageSize addr : Addr) (bytes : List Byte) : Bool :=
  let page := addr &&& ~~~(pageSize - 1)
  let off := addr - page
  pageSize.toNat < off.toNat + bytes.length

/-- The result and the bytes left at `addr`, which held `now`. -/
def remapPatch (pageSize addr : Addr) (bytes now : List Byte) :
    Remap → Except HookError Unit × List Byte
  | .refused .pageSize => (.error Refusal.pageSize.error, now)
  | answer =>
    if crossesPage pageSize addr bytes then
      (.error (.entryPatchUnsupported "patch crosses a page boundary"), now)
    else
      match answer with
      | .refused at_ => (.error at_.error, now)
      | .carriedOut found =>
        if found = bytes then (.ok (), bytes) else (.error .installationFailed, found)

variable (m : EntryPatchMemory) (pageSize : Addr)

def init : State := ⟨false, none, m.original⟩

def stateWord (s : State) : Addr := if s.installed then m.replacement else m.trampoline

def read (s : State) : Option Addr := some (m.stateWord s)

def writeEntry (bytes : List Byte) (failure : String) (s : State) (answer : Remap) :
    Except HookError Unit × State :=
  match remapPatch pageSize m.entry bytes s.bytes answer with
  | (.ok _, now) => (.ok (), { s with bytes := now })
  | (.error e, now) => (.error e, { s with bytes := now, failure := some failure })

def patchEntry : State → Remap → Except HookError Unit × State :=
  m.writeEntry pageSize m.patch "entry patch write failed"

def unpatchEntry : State → Remap → Except HookError Unit × State :=
  m.writeEntry pageSize m.original "entry restore write failed"

def compareExchange (s : State) (expected new : Addr) (answer : Remap) :
    Except Addr Unit × State :=
  let current := m.stateWord s
  if expected ≠ current then (.error current, s)
  else
    let (result, s') :=
      if new = m.replacement ∧ s.installed = false then
        let (r, s') := m.patchEntry pageSize s answer
        (r.mapError fun _ => current, s')
      else if new = m.trampoline ∧ s.installed = true then
        let (r, s') := m.unpatchEntry pageSize s answer
        (r.mapError fun _ => current, s')
      else (.error current, s)
    match result with
    | .ok _ => (.ok (), { s' with installed := new = m.replacement })
    | .error e => (.error e, s')

inductive Action where
  | read
  | compareExchange (expected new : Addr) (answer : Remap)
  /-- Another party writes the entry. -/
  | foreign (bytes : List Byte)
  deriving DecidableEq, Repr

def step (s : State) : Action → Option State
  | .read => some s
  | .compareExchange expected new answer =>
    some (m.compareExchange pageSize s expected new answer).2
  | .foreign bytes => some { s with bytes }

-- ---------------------------------------------------------------------------
-- The contract
-- ---------------------------------------------------------------------------

def bytesOf (word : Addr) : Option (List Byte) :=
  if word = m.replacement then some m.patch
  else if word = m.trampoline then some m.original
  else none

/-- The slot word the entry bytes stand for; `none` is another owner's code. -/
def wordOf (bytes : List Byte) : Option Addr :=
  if bytes = m.patch then some m.replacement
  else if bytes = m.original then some m.trampoline
  else none

/-- `read` reports what the entry holds. -/
def ReadsTrue (s : State) : Prop :=
  (m.read s = some m.replacement ↔ s.bytes = m.patch) ∧
  (m.read s = some m.trampoline ↔ s.bytes = m.original)

/-- One compare-exchange against the bytes: a failure leaves them alone, a
success found those of `expected` and left those of `new`, only own bytes are
ever replaced, and a raw slot holding the word the bytes stand for would have
refused and succeeded alike. -/
structure CasOk (s : State) (expected new : Addr) (answer : Remap) : Prop where
  error : ∀ actual, (m.compareExchange pageSize s expected new answer).1 = .error actual →
    (m.compareExchange pageSize s expected new answer).2.bytes = s.bytes
  found : (m.compareExchange pageSize s expected new answer).1 = .ok () →
    m.bytesOf expected = some s.bytes
  left : (m.compareExchange pageSize s expected new answer).1 = .ok () →
    m.bytesOf new = some (m.compareExchange pageSize s expected new answer).2.bytes
  own : (m.compareExchange pageSize s expected new answer).2.bytes ≠ s.bytes →
    s.bytes = m.patch ∨ s.bytes = m.original
  drift : ∀ word actual, m.wordOf s.bytes = some word →
    (RawSlotMemory.compareExchange word expected new).1 = .error actual →
    (m.compareExchange pageSize s expected new answer).1 = .error actual
  raw : ∀ word, m.wordOf s.bytes = some word →
    (m.compareExchange pageSize s expected new answer).1 = .ok () →
    (RawSlotMemory.compareExchange word expected new).1 = .ok () ∧
    m.wordOf (m.compareExchange pageSize s expected new answer).2.bytes =
      some (RawSlotMemory.compareExchange word expected new).2

def CallOk (s : State) : Action → Prop
  | .compareExchange expected new answer => m.CasOk pageSize s expected new answer
  | .read | .foreign _ => True

/-- The contract over a run: every state reads true and every call is right. -/
def Contract (as : List Action) : Prop :=
  Machine.Always (m.step pageSize) m.ReadsTrue m.init as ∧
  Machine.Each (m.step pageSize) (m.CallOk pageSize) m.init as

-- ---------------------------------------------------------------------------
-- When it is kept
-- ---------------------------------------------------------------------------

/-- The bytes a compare-exchange asks `remap_patch` for, if it gets there. -/
def remapTarget (s : State) (expected new : Addr) : Option (List Byte) :=
  if expected ≠ m.stateWord s then none
  else if new = m.replacement ∧ s.installed = false then some m.patch
  else if new = m.trampoline ∧ s.installed = true then some m.original
  else none

def LeavesFound (pageSize addr : Addr) (bytes found : List Byte) (answer : Remap) : Prop :=
  crossesPage pageSize addr bytes = false ∧ answer = .carriedOut found

/-- Nobody else changes the entry, and a remap that was carried out passes its
readback unless it left the old bytes there. -/
def Undisturbed (s : State) : Action → Prop
  | .read => True
  | .foreign bytes => bytes = s.bytes
  | .compareExchange expected new answer =>
    ∀ target found, m.remapTarget s expected new = some target →
      LeavesFound pageSize m.entry target found answer → found = target ∨ found = s.bytes

variable {m pageSize}

theorem remapPatch_cases (pageSize addr : Addr) (bytes now : List Byte) (answer : Remap) :
    ((∀ found, ¬ LeavesFound pageSize addr bytes found answer) ∧
      ∃ e, remapPatch pageSize addr bytes now answer = (.error e, now)) ∨
    ∃ found, LeavesFound pageSize addr bytes found answer ∧
      remapPatch pageSize addr bytes now answer =
        (if found = bytes then .ok () else .error .installationFailed, found) := by
  cases hc : crossesPage pageSize addr bytes with
  | true =>
    left
    refine ⟨fun found hf => by simp [hf.1] at hc, ?_⟩
    cases answer with
    | refused at_ => cases at_ <;> simp [remapPatch, hc]
    | carriedOut found => simp [remapPatch, hc]
  | false =>
    cases answer with
    | refused at_ =>
      left
      exact ⟨fun found hf => by simp [LeavesFound] at hf, by cases at_ <;> simp [remapPatch, hc]⟩
    | carriedOut found =>
      right
      refine ⟨found, ⟨hc, rfl⟩, ?_⟩
      by_cases hf : found = bytes <;> simp [remapPatch, hc, hf]

theorem writeEntry_cases (m : EntryPatchMemory) (pageSize : Addr) (bytes : List Byte)
    (failure : String) (s : State) (answer : Remap) :
    ((∀ found, ¬ LeavesFound pageSize m.entry bytes found answer) ∧
      ∃ e, m.writeEntry pageSize bytes failure s answer =
        (.error e, { s with failure := some failure })) ∨
    (LeavesFound pageSize m.entry bytes bytes answer ∧
      m.writeEntry pageSize bytes failure s answer = (.ok (), { s with bytes })) ∨
    ∃ found, LeavesFound pageSize m.entry bytes found answer ∧
      found ≠ bytes ∧ m.writeEntry pageSize bytes failure s answer =
        (.error .installationFailed, { s with bytes := found, failure := some failure }) := by
  rcases remapPatch_cases pageSize m.entry bytes s.bytes answer with ⟨hn, e, hr⟩ | ⟨found, ha, hr⟩
  · exact .inl ⟨hn, e, by simp [writeEntry, hr]⟩
  · by_cases hf : found = bytes
    · subst hf
      exact .inr (.inl ⟨ha, by simp [writeEntry, hr]⟩)
    · exact .inr (.inr ⟨found, ha, hf, by simp [writeEntry, hr, hf]⟩)

theorem compareExchange_refused {s : State} (pageSize : Addr)
    (ht : m.remapTarget s expected new = none) (answer : Remap) :
    m.compareExchange pageSize s expected new answer = (.error (m.stateWord s), s) := by
  unfold remapTarget at ht
  unfold compareExchange
  by_cases he : expected = m.stateWord s
  · simp only [he, ne_eq, not_true_eq_false, if_false] at ht ⊢
    split at ht
    case isTrue => cases ht
    rename_i hinstall
    split at ht
    case isTrue => cases ht
    rename_i hrestore
    simp [hinstall, hrestore]
  · simp [he]

theorem remapTarget_install {s : State} (ht : m.remapTarget s expected new = some target)
    (hs : s.installed = false) :
    expected = m.trampoline ∧ new = m.replacement ∧ target = m.patch := by
  unfold remapTarget at ht
  split at ht
  · cases ht
  · simp_all [stateWord]

theorem remapTarget_restore {s : State} (ht : m.remapTarget s expected new = some target)
    (hs : s.installed = true) :
    expected = m.replacement ∧ new = m.trampoline ∧ target = m.original := by
  unfold remapTarget at ht
  split at ht
  · cases ht
  · simp_all [stateWord]

theorem compareExchange_cases {s : State} (pageSize : Addr)
    (ht : m.remapTarget s expected new = some target) (answer : Remap) :
    ((∀ found, ¬ LeavesFound pageSize m.entry target found answer) ∧
      ∃ failure, m.compareExchange pageSize s expected new answer =
        (.error expected, { s with failure })) ∨
    (LeavesFound pageSize m.entry target target answer ∧
      m.compareExchange pageSize s expected new answer =
        (.ok (), { s with installed := !s.installed, bytes := target })) ∨
    ∃ found failure, LeavesFound pageSize m.entry target found answer ∧
      found ≠ target ∧ m.compareExchange pageSize s expected new answer =
        (.error expected, { s with bytes := found, failure }) := by
  cases hs : s.installed with
  | false =>
    obtain ⟨rfl, rfl, rfl⟩ := remapTarget_install ht hs
    rcases writeEntry_cases m pageSize m.patch "entry patch write failed" s
      answer with ⟨hn, e, hw⟩ | ⟨ha, hw⟩ | ⟨found, ha, hf, hw⟩
    · exact .inl ⟨hn, some "entry patch write failed",
        by simp [compareExchange, stateWord, hs, patchEntry, hw, Except.mapError]⟩
    · exact .inr (.inl
        ⟨ha, by simp [compareExchange, stateWord, hs, patchEntry, hw, Except.mapError]⟩)
    · exact .inr (.inr ⟨found, some "entry patch write failed", ha, hf,
        by simp [compareExchange, stateWord, hs, patchEntry, hw, Except.mapError]⟩)
  | true =>
    obtain ⟨rfl, rfl, rfl⟩ := remapTarget_restore ht hs
    have hn := m.fresh
    rcases writeEntry_cases m pageSize m.original
      "entry restore write failed" s answer with ⟨hr, e, hw⟩ | ⟨ha, hw⟩ | ⟨found, ha, hf, hw⟩
    · exact .inl ⟨hr, some "entry restore write failed",
        by simp [compareExchange, stateWord, hs, unpatchEntry, hw, Except.mapError]⟩
    · exact .inr (.inl
        ⟨ha, by simp [compareExchange, stateWord, hs, unpatchEntry, hw, Except.mapError, hn]⟩)
    · exact .inr (.inr ⟨found, some "entry restore write failed", ha, hf,
        by simp [compareExchange, stateWord, hs, unpatchEntry, hw, Except.mapError]⟩)

/-- The flag is the truth about the bytes. -/
structure Inv (m : EntryPatchMemory) (s : State) : Prop where
  distinct : m.patch ≠ m.original
  bytes : s.bytes = if s.installed then m.patch else m.original

theorem Inv.readsTrue (h : m.Inv s) : m.ReadsTrue s := by
  have hn := m.fresh
  have hd := h.distinct
  cases hs : s.installed <;>
    simp [ReadsTrue, read, stateWord, h.bytes, hs, hn, hn.symm, hd, hd.symm]

theorem Inv.bytesOf (h : m.Inv s) : m.bytesOf (m.stateWord s) = some s.bytes := by
  have hn := m.fresh
  cases hs : s.installed <;> simp [EntryPatchMemory.bytesOf, stateWord, h.bytes, hs, hn]

theorem Inv.wordOf (h : m.Inv s) : m.wordOf s.bytes = some (m.stateWord s) := by
  have hd := h.distinct
  cases hs : s.installed <;>
    simp [EntryPatchMemory.wordOf, stateWord, h.bytes, hs, hd.symm]

theorem Inv.own (h : m.Inv s) : s.bytes = m.patch ∨ s.bytes = m.original := by
  rw [h.bytes]
  split
  · exact .inl rfl
  · exact .inr rfl

theorem remapTarget_some {s : State} (ht : m.remapTarget s expected new = some target) :
    expected = m.stateWord s ∧
      new = m.stateWord { s with installed := !s.installed, bytes := target } ∧
      target = if s.installed then m.original else m.patch := by
  cases hs : s.installed with
  | false =>
    obtain ⟨rfl, rfl, rfl⟩ := remapTarget_install ht hs
    simp [stateWord, hs]
  | true =>
    obtain ⟨rfl, rfl, rfl⟩ := remapTarget_restore ht hs
    simp [stateWord, hs]

theorem Inv.toggle (h : m.Inv s) (ht : target = if s.installed then m.original else m.patch) :
    m.Inv { s with installed := !s.installed, bytes := target } :=
  ⟨h.distinct, by cases hs : s.installed <;> simp [ht, hs]⟩

/-- A failed call that left the bytes alone is a call as it should be. -/
theorem Inv.casOk_error (h : m.Inv s)
    (hc : m.compareExchange pageSize s expected new answer = (.error (m.stateWord s), s'))
    (hb : s'.bytes = s.bytes) : m.CasOk pageSize s expected new answer where
  error _ _ := by rw [hc, hb]
  found hok := by simp [hc] at hok
  left hok := by simp [hc] at hok
  own hne := by simp [hc, hb] at hne
  drift word actual hw hraw := by
    rw [h.wordOf, Option.some.injEq] at hw
    subst hw
    unfold RawSlotMemory.compareExchange at hraw
    split at hraw
    · cases hraw
    · cases hraw; rw [hc]
  raw _ _ hok := by simp [hc] at hok

theorem Inv.casOk_ok (h : m.Inv s) (h' : m.Inv s')
    (hc : m.compareExchange pageSize s (m.stateWord s) (m.stateWord s') answer = (.ok (), s')) :
    m.CasOk pageSize s (m.stateWord s) (m.stateWord s') answer where
  error _ he := by simp [hc] at he
  found _ := h.bytesOf
  left _ := by rw [hc, h'.bytesOf]
  own _ := h.own
  drift word actual hw hraw := by
    rw [h.wordOf, Option.some.injEq] at hw
    subst hw
    simp [RawSlotMemory.compareExchange] at hraw
  raw word hw _ := by
    rw [h.wordOf, Option.some.injEq] at hw
    subst hw
    rw [hc, h'.wordOf]
    simp [RawSlotMemory.compareExchange]

theorem Inv.compareExchange (h : m.Inv s)
    (hu : m.Undisturbed pageSize s (.compareExchange expected new answer)) :
    m.CasOk pageSize s expected new answer ∧
      m.Inv (m.compareExchange pageSize s expected new answer).2 := by
  cases ht : m.remapTarget s expected new with
  | none =>
    have hc := compareExchange_refused pageSize ht answer
    exact ⟨h.casOk_error hc rfl, by rw [hc]; exact h⟩
  | some target =>
    obtain ⟨rfl, rfl, htarget⟩ := remapTarget_some ht
    have h' := h.toggle htarget
    rcases compareExchange_cases pageSize ht answer with
      ⟨-, failure, hc⟩ | ⟨-, hc⟩ | ⟨found, failure, ha, hne, hc⟩
    · exact ⟨h.casOk_error hc rfl, by rw [hc]; exact ⟨h.distinct, h.bytes⟩⟩
    · exact ⟨h.casOk_ok h' hc, by rw [hc]; exact h'⟩
    · -- the readback failed, so it found the old bytes
      have hfound := (hu target found ht ha).resolve_left hne
      exact ⟨h.casOk_error hc hfound, by rw [hc]; exact ⟨h.distinct, hfound.trans h.bytes⟩⟩

theorem Inv.step (h : m.Inv s) (hu : m.Undisturbed pageSize s a)
    (hs : m.step pageSize s a = some s') : m.Inv s' := by
  cases a with
  | read => cases hs; exact h
  | compareExchange expected new answer => cases hs; exact (h.compareExchange hu).2
  | «foreign» bytes => cases hs; exact ⟨h.distinct, hu.trans h.bytes⟩

theorem Inv.callOk (h : m.Inv s) (hu : m.Undisturbed pageSize s a) : m.CallOk pageSize s a := by
  cases a with
  | compareExchange expected new answer => exact (h.compareExchange hu).1
  | read | «foreign» bytes => trivial

/-- Two states with one flag that both read true hold the same bytes. -/
theorem bytes_of_readsTrue (h : m.ReadsTrue s) (h' : m.ReadsTrue s')
    (hi : s'.installed = s.installed) : s'.bytes = s.bytes := by
  have hr : m.read s' = m.read s := by simp [read, stateWord, hi]
  cases hs : s.installed with
  | false =>
    have ho : m.read s = some m.trampoline := by simp [read, stateWord, hs]
    exact (h'.2.mp (hr.trans ho)).trans (h.2.mp ho).symm
  | true =>
    have hp : m.read s = some m.replacement := by simp [read, stateWord, hs]
    exact (h'.1.mp (hr.trans hp)).trans (h.1.mp hp).symm

theorem undisturbed_of_contract (hr : m.ReadsTrue s) (hc : m.CallOk pageSize s a)
    (hs : m.step pageSize s a = some s') (hr' : m.ReadsTrue s') : m.Undisturbed pageSize s a := by
  cases a with
  | read => trivial
  | «foreign» bytes => cases hs; exact bytes_of_readsTrue hr hr' rfl
  | compareExchange expected new answer =>
    intro target found ht ha
    rcases compareExchange_cases pageSize ht answer with
      ⟨hn, -⟩ | ⟨ha', -⟩ | ⟨_, failure, ha', -, hx⟩
    · exact absurd ha (hn found)
    · cases ha.2.symm.trans ha'.2
      exact .inl rfl
    · cases ha.2.symm.trans ha'.2
      have herror := hc.error expected
      rw [hx] at herror
      exact .inr (herror rfl)

theorem distinct_of_readsTrue (h : m.ReadsTrue m.init) : m.patch ≠ m.original := by
  intro hp
  have hr : m.read m.init = some m.replacement := h.1.mpr hp.symm
  simp [read, stateWord, init, m.fresh] at hr

/-- The contract is kept in exactly the runs where flag and bytes cannot come
apart. -/
theorem contract_iff (m : EntryPatchMemory) (pageSize : Addr) (as : List Action) :
    m.Contract pageSize as ↔ m.patch ≠ m.original ∧
      Machine.Each (m.step pageSize) (m.Undisturbed pageSize) m.init as := by
  constructor
  · intro ⟨hr, hc⟩
    refine ⟨distinct_of_readsTrue hr.head, ?_⟩
    exact Machine.Each.of_always (fun _ _ _ => undisturbed_of_contract) hr hc
  · intro ⟨hd, hu⟩
    have h : m.Inv m.init := ⟨hd, rfl⟩
    have hstep (s : State) (a : Action) (s' : State) (h : m.Inv s)
        (hu : m.Undisturbed pageSize s a) (hs : m.step pageSize s a = some s') : m.Inv s' :=
      h.step hu hs
    exact ⟨(Machine.Each.always hstep h hu).mono fun _ => Inv.readsTrue,
      Machine.Each.mono hstep (fun _ _ _ h hu _ => h.callOk hu) h hu⟩

/-- Another owner's branch stands at the entry when `install` compares and
swaps: the call succeeds over it. -/
theorem overwrites_foreign_patch :
    ¬ ∀ (m : EntryPatchMemory) (pageSize : Addr) (as : List Action), m.Contract pageSize as := by
  intro h
  let m : EntryPatchMemory :=
    { entry := 0x10000, replacement := 0x20000, trampoline := 0x30000, fresh := by decide
      patch := [0x00, 0x40, 0x00, 0x14], original := [0x7F, 0x23, 0x03, 0xD5] }
  have hc := (h m 0x4000 [.foreign [0x00, 0x80, 0x00, 0x14],
    .compareExchange m.trampoline m.replacement (.carriedOut m.patch)]).2
  have hcas := (hc _ rfl).2 _ rfl
  exact absurd (hcas.1.own (by decide)) (by decide)

end EntryPatchMemory
end ShinySongTools
