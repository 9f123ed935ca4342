import Mathlib.Data.List.Basic

/-!
# Mailboxes

The containers behind cross-domain routes and the main-side end of a
callback→main route. Every operation is one access to what the two domains
share: an atomic swap, an operation of the lock-free queue, or a critical
section of the slot. `contended` says that another party holds the slot's lock
at this moment.
-/

namespace ShinySongTools

variable {M : Type u}

inductive SendOutcome where
  | accepted
  | replaced
  | full
  | busy
  deriving DecidableEq, Repr

inductive SlotBusy where
  | slotBusy
  deriving DecidableEq, Repr

def SendOutcome.isStored : SendOutcome → Bool
  | .accepted | .replaced => true
  | .full | .busy => false

structure LatestCell (M : Type u) where
  cell : Option M

namespace LatestCell

def new : LatestCell M := ⟨none⟩

def trySend (c : LatestCell M) (value : M) : SendOutcome × LatestCell M :=
  (if c.cell.isSome then .replaced else .accepted, ⟨some value⟩)

def tryRead (c : LatestCell M) : Option M := c.cell

def take (c : LatestCell M) : Option M × LatestCell M := (c.cell, ⟨none⟩)

end LatestCell

/-- `ArrayQueue` as the FIFO it is linearizable to. -/
structure BoundedQueue (M : Type u) (N : Nat) where
  queue : List M
  fits : queue.length ≤ N

namespace BoundedQueue

variable {N : Nat}

def new : BoundedQueue M N := ⟨[], Nat.zero_le N⟩

theorem fits_concat (q : BoundedQueue M N) (value : M) (h : q.queue.length < N) :
    (q.queue ++ [value]).length ≤ N := by
  rw [List.length_append]
  exact h

def trySend (q : BoundedQueue M N) (value : M) : SendOutcome × BoundedQueue M N :=
  if h : q.queue.length < N then (.accepted, ⟨q.queue ++ [value], fits_concat q value h⟩)
  else (.full, q)

def tryRead (q : BoundedQueue M N) : Option M × BoundedQueue M N :=
  match q with
  | ⟨[], _⟩ => (none, q)
  | ⟨value :: rest, fits⟩ => (some value, ⟨rest, Nat.le_of_succ_le fits⟩)

def len (q : BoundedQueue M N) : Nat := q.queue.length

end BoundedQueue

structure SharedSlot (M : Type u) where
  slot : Option M
  /-- A holder of the lock has unwound. -/
  poisoned : Bool

namespace SharedSlot

def new : SharedSlot M := ⟨none, false⟩

def trySend (s : SharedSlot M) (value : M) (contended : Bool) :
    Except SlotBusy SendOutcome × SharedSlot M :=
  if contended || s.poisoned then (.error .slotBusy, s)
  else (.ok (if s.slot.isSome then .replaced else .accepted), { s with slot := some value })

/-- The private `lock` recovers the guard of a poisoned slot. -/
def tryRead (s : SharedSlot M) (contended : Bool) : Option M :=
  if contended then none else s.slot

def take (s : SharedSlot M) (contended : Bool) : Option M × SharedSlot M :=
  if contended then (none, s) else (s.slot, { s with slot := none })

end SharedSlot

/-- The container of a callback→main route. -/
inductive Mailbox (M : Type u) where
  | latest (cell : LatestCell M)
  | bounded (N : Nat) (queue : BoundedQueue M N)
  | shared (slot : SharedSlot M)

namespace Mailbox

/-- What is buffered, the oldest first. -/
def held : Mailbox M → List M
  | .latest c => c.cell.toList
  | .bounded _ q => q.queue
  | .shared s => s.slot.toList

def isBounded : Mailbox M → Bool
  | .bounded _ _ => true
  | .latest _ | .shared _ => false

/-- `try_send` of the callback-side writer. -/
def trySend (m : Mailbox M) (value : M) (contended : Bool) :
    Except SlotBusy SendOutcome × Mailbox M :=
  match m with
  | .latest c => (.ok (c.trySend value).1, .latest (c.trySend value).2)
  | .bounded N q => (.ok (q.trySend value).1, .bounded N (q.trySend value).2)
  | .shared s => ((s.trySend value contended).1, .shared (s.trySend value contended).2)

/-- `MainRouteDrain::depth`. -/
def depth (m : Mailbox M) (contended : Bool) : Nat :=
  match m with
  | .latest c => c.tryRead.isSome.toNat
  | .bounded _ q => q.len
  | .shared s => (s.tryRead contended).isSome.toNat

/-- The access to the mailbox that one turn of `MainRouteDrain::drain` makes. -/
def take (m : Mailbox M) (contended : Bool) : Option M × Mailbox M :=
  match m with
  | .latest c => (c.take.1, .latest c.take.2)
  | .bounded N q => (q.tryRead.1, .bounded N q.tryRead.2)
  | .shared s => ((s.take contended).1, .shared (s.take contended).2)

/-- A holder of the lock unwinds. -/
def poison : Mailbox M → Mailbox M
  | .latest c => .latest c
  | .bounded N q => .bounded N q
  | .shared s => .shared { s with poisoned := true }

/-- What a send leaves in the mailbox. -/
inductive Sends (m : Mailbox M) (value : M) : Except SlotBusy SendOutcome → Mailbox M → Prop
  | queued : m'.held = m.held ++ [value] → m'.isBounded = m.isBounded →
      Sends m value (.ok .accepted) m'
  | replaced : m.isBounded = false → m'.held = [value] → m'.isBounded = m.isBounded →
      Sends m value (.ok .replaced) m'
  | full : Sends m value (.ok .full) m
  | busy : Sends m value (.error .slotBusy) m

theorem sends_trySend (m : Mailbox M) (value : M) (contended : Bool) :
    m.Sends value (m.trySend value contended).1 (m.trySend value contended).2 := by
  cases m with
  | latest c =>
    rcases c with ⟨_ | old⟩
    · exact .queued rfl rfl
    · exact .replaced rfl rfl rfl
  | bounded N q =>
    by_cases hroom : q.queue.length < N
    · simp only [trySend, BoundedQueue.trySend, hroom, dif_pos]
      exact .queued rfl rfl
    · simp only [trySend, BoundedQueue.trySend, hroom, dif_neg, not_false_eq_true]
      exact .full
  | shared s =>
    rcases s with ⟨slot, poisoned⟩
    by_cases hbusy : contended || poisoned
    · simp only [trySend, SharedSlot.trySend, hbusy, if_true]
      exact .busy
    · simp only [trySend, SharedSlot.trySend, hbusy, Bool.false_eq_true, if_false]
      cases slot with
      | none => exact .queued rfl rfl
      | some old => exact .replaced rfl rfl rfl

/-- What a turn of the drain takes and leaves; only a contended slot keeps a
value from it. -/
inductive Takes (m : Mailbox M) (contended : Bool) : Option M → Mailbox M → Prop
  | taken : m.held = value :: m'.held → m'.isBounded = m.isBounded →
      (m.isBounded = false → m'.held = []) → Takes m contended (some value) m'
  | empty : m.held = [] → m'.held = [] → m'.isBounded = m.isBounded → Takes m contended none m'
  | busy (slot : SharedSlot M) : contended = true → m = .shared slot → Takes m contended none m

theorem takes_take (m : Mailbox M) (contended : Bool) :
    m.Takes contended (m.take contended).1 (m.take contended).2 := by
  cases m with
  | latest c =>
    rcases c with ⟨_ | value⟩
    · exact .empty rfl rfl rfl
    · exact .taken rfl rfl fun _ => rfl
  | bounded N q =>
    rcases q with ⟨_ | ⟨value, rest⟩, fits⟩
    · exact .empty rfl rfl rfl
    · exact .taken rfl rfl nofun
  | shared s =>
    rcases s with ⟨slot, poisoned⟩
    cases contended with
    | true => exact .busy _ rfl rfl
    | false =>
      cases slot with
      | none => exact .empty rfl rfl rfl
      | some value => exact .taken rfl rfl fun _ => rfl

theorem Takes.mem {m : Mailbox M} (h : m.Takes contended (some value) m') : value ∈ m.held := by
  cases h with
  | taken hheld _ _ => exact hheld ▸ List.mem_cons_self

theorem Takes.subset {m : Mailbox M} (h : m.Takes contended value? m') :
    ∀ x ∈ m'.held, x ∈ m.held := by
  intro x hx
  cases h with
  | taken hheld _ _ => exact hheld ▸ List.mem_cons_of_mem _ hx
  | empty _ hheld _ =>
    rw [hheld] at hx
    cases hx
  | busy => exact hx

@[simp] theorem held_poison (m : Mailbox M) : m.poison.held = m.held := by cases m <;> rfl

@[simp] theorem isBounded_poison (m : Mailbox M) : m.poison.isBounded = m.isBounded := by
  cases m <;> rfl

theorem depth_bounded {m : Mailbox M} (h : m.isBounded = true) (contended : Bool) :
    m.depth contended = m.held.length := by
  cases m with
  | latest c => cases h
  | bounded N q => rfl
  | shared s => cases h

/-- A mailbox that reports no depth is empty or a contended slot. -/
theorem held_of_depth {m : Mailbox M} (h : m.depth contended = 0) :
    m.held = [] ∨ contended = true ∧ ∃ slot, m = .shared slot := by
  cases m with
  | latest c =>
    rcases c with ⟨_ | value⟩
    · exact .inl rfl
    · cases h
  | bounded N q => exact .inl (List.eq_nil_of_length_eq_zero h)
  | shared s =>
    rcases s with ⟨_ | value, poisoned⟩
    · exact .inl rfl
    · cases contended with
      | true => exact .inr ⟨rfl, _, rfl⟩
      | false => cases h

end Mailbox
end ShinySongTools
