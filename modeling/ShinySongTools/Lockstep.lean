import Mathlib.Data.List.Basic

/-!
# Lockstep

Two machines over the same states. A turn of either leads to the next state or
ends the run; what ends may be told apart differently by the two. A machine
that simulates another goes through the same states in the same order.
-/

namespace Lockstep

variable {S : Type u} {E : Type v} {E' : Type w}

inductive Turn (S : Type u) (E : Type v) where
  | goes (s : S)
  | ends (e : E)

/-- The turns of `turn` from `s`: the states that were left, and what came last. -/
inductive Exec (turn : S → Turn S E → Prop) : S → List S → Turn S E → Prop
  | nil : Exec turn s [] (.goes s)
  | last : turn s (.ends e) → Exec turn s [s] (.ends e)
  | cons : turn s (.goes t) → Exec turn t l r → Exec turn s (s :: l) r

inductive Related (M : E → E' → Prop) : Turn S E → Turn S E' → Prop
  | goes : Related M (.goes s) (.goes s)
  | ends : M e e' → Related M (.ends e) (.ends e')

def Simulates (turn : S → Turn S E → Prop) (turn' : S → Turn S E' → Prop) (M : E → E' → Prop)
    (s : S) : Prop :=
  ∀ l r, Exec turn s l r → ∃ r', Exec turn' s l r' ∧ Related M r r'

/-- The turns taken at `s` agree. -/
def Agree (turn : S → Turn S E → Prop) (turn' : S → Turn S E' → Prop) (M : E → E' → Prop)
    (s : S) : Prop :=
  ∃ r r', turn s r ∧ turn' s r' ∧ Related M r r'

variable {turn : S → Turn S E → Prop} {turn' : S → Turn S E' → Prop} {M : E → E' → Prop}

theorem Exec.snoc (h : Exec turn s l (.goes t)) (ht : turn t r) : Exec turn s (l ++ [t]) r := by
  generalize hr : Turn.goes t = r' at h
  induction h with
  | nil =>
    cases hr
    cases r with
    | goes u => exact .cons ht .nil
    | ends e => exact .last ht
  | last => cases hr
  | cons hs _ ih => exact .cons hs (ih hr)

theorem Exec.turn_of_snoc (h : Exec turn s (l ++ [t]) r) : turn t r := by
  generalize hl : l ++ [t] = l' at h
  induction h generalizing l with
  | nil => simp at hl
  | last hs =>
    obtain ⟨rfl, hlast⟩ := @List.append_inj' _ l [t] [] [_] hl rfl
    obtain rfl := List.singleton_inj.mp hlast
    exact hs
  | @cons s u l' r hs hrest ih =>
    cases l with
    | nil =>
      obtain ⟨rfl, rfl⟩ := List.cons_eq_cons.mp hl
      cases hrest
      exact hs
    | cons a l =>
      obtain ⟨-, rfl⟩ := List.cons_eq_cons.mp hl
      exact ih rfl

/-- A machine with one turn in every state is simulated iff the turns agree in
every state it gets to. -/
theorem simulates_iff (htotal : ∀ s, ∃ r, turn s r)
    (hunique : ∀ s r r', turn s r → turn s r' → r = r') :
    Simulates turn turn' M s ↔ ∀ l t, Exec turn s l (.goes t) → Agree turn turn' M t := by
  constructor
  · intro h l t hl
    obtain ⟨r, hr⟩ := htotal t
    obtain ⟨r', hr', hrelated⟩ := h _ _ (hl.snoc hr)
    exact ⟨r, r', hr, hr'.turn_of_snoc, hrelated⟩
  · intro h l r hl
    induction hl with
    | nil => exact ⟨_, .nil, .goes⟩
    | last hs =>
      obtain ⟨r, r', hr, hr', hrelated⟩ := h [] _ .nil
      obtain rfl := hunique _ _ _ hr hs
      cases hrelated with
      | ends hM => exact ⟨_, .last hr', .ends hM⟩
    | cons hs _ ih =>
      obtain ⟨r, r', hr, hr', hrelated⟩ := h [] _ .nil
      obtain rfl := hunique _ _ _ hr hs
      cases hrelated with
      | goes =>
        obtain ⟨r'', hexec, hrelated⟩ := ih fun l t hl => h _ t (.cons hs hl)
        exact ⟨r'', .cons hr' hexec, hrelated⟩

end Lockstep
