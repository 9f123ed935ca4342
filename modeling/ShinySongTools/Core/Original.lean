/-!
# The original-call guard

`OriginalGuard` and its three phases. The guard only records; whoever asks it
makes the call.
-/

namespace ShinySongTools

inductive OriginalPhase where
  | beforeOriginal
  | callingOriginal
  | afterOriginal
  deriving DecidableEq, Repr

structure OriginalGuard where
  phase : OriginalPhase
  deriving DecidableEq, Repr

namespace OriginalGuard

def new : OriginalGuard := ⟨.beforeOriginal⟩

def needsOriginal (g : OriginalGuard) : Bool := g.phase = .beforeOriginal

/-- Whether the call may be made, and the guard afterwards. -/
def beginCall (g : OriginalGuard) : Bool × OriginalGuard :=
  match g.phase with
  | .beforeOriginal => (true, ⟨.callingOriginal⟩)
  | .callingOriginal | .afterOriginal => (false, g)

def endCall (g : OriginalGuard) : OriginalGuard :=
  match g.phase with
  | .callingOriginal => ⟨.afterOriginal⟩
  | .beforeOriginal | .afterOriginal => g

/-- One guard lets one call through. -/
theorem beginCall_twice (g : OriginalGuard) : (g.beginCall.2.beginCall).1 = false := by
  cases g with
  | mk phase => cases phase <;> rfl

end OriginalGuard
end ShinySongTools
