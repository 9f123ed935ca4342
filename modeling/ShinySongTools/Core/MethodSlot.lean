import Mathlib.Data.BitVec

/-!
# Method pointer slots

The slot word, the errors hook code reports about it, and the two operations
of `SlotMemory` over a real memory word (`RawSlotMemory`). A slot word is an
address; `0` is the null pointer `bind` refuses. A `MethodRef` has the fields
a target is compared on.
-/

namespace ShinySongTools

/-- A machine address, `usize` on arm64. -/
abbrev Addr := BitVec 64

inductive HookError where
  | targetUnavailable
  | signatureMismatch
  | siteAlreadyRegistered
  | slotConflict
  | installationFailed
  | ownershipDrift
  | slotMalformed
  | entryPatchUnsupported (reason : String)
  deriving DecidableEq, Repr

structure MethodRef where
  assembly : String
  «namespace» : String
  «class» : String
  method : String
  paramCount : UInt32
  isStatic : Bool
  returnType : String
  parameterTypes : List String
  isGeneric : Bool
  isInflated : Bool
  deriving DecidableEq, Repr

structure TargetId where
  assembly : String
  «namespace» : String
  «class» : String
  method : String
  paramCount : UInt32
  isStatic : Bool
  returnType : String
  parameterTypes : List String
  deriving DecidableEq, Repr

def TargetId.matches (target : TargetId) (actual : MethodRef) : Bool :=
  target.assembly = actual.assembly && target.namespace = actual.namespace &&
    target.class = actual.class && target.method = actual.method &&
    target.paramCount = actual.paramCount &&
    target.parameterTypes.length = target.paramCount.toNat &&
    target.isStatic = actual.isStatic && target.returnType = actual.returnType &&
    target.parameterTypes = actual.parameterTypes && !actual.isGeneric && !actual.isInflated

def MethodRef.matchesTarget (actual : MethodRef) (target : TargetId) : Bool := target.matches actual

namespace RawSlotMemory

def read (word : Addr) : Option Addr := some word

/-- The result the caller sees and the word left behind. -/
def compareExchange (word expected new : Addr) : Except Addr Unit × Addr :=
  if word = expected then (.ok (), new) else (.error word, word)

end RawSlotMemory

/-- What `bind` captures: the pointer the slot held then. -/
structure MethodPointerSlot where
  original : Addr
  deriving DecidableEq, Repr

namespace MethodPointerSlot

def bind (current : Option Addr) : Except HookError MethodPointerSlot :=
  match current with
  | none => .error .slotMalformed
  | some word => if word = 0 then .error .slotMalformed else .ok ⟨word⟩

theorem bind_ok {current : Option Addr} (h : bind current = .ok slot) :
    current = some slot.original ∧ slot.original ≠ 0 := by
  unfold bind at h
  split at h
  · cases h
  · split at h
    · cases h
    · cases h
      exact ⟨rfl, ‹_›⟩

end MethodPointerSlot
end ShinySongTools
