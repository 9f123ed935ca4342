import Mathlib.Data.List.Basic

/-!
# Histories

A history lists what happened, oldest first. It is lawful when every event was
allowed after the events before it.
-/

namespace Histories

variable {ε : Type u} {allowed : List ε → ε → Prop} {h pre post : List ε} {e : ε}

def Lawful (allowed : List ε → ε → Prop) (h : List ε) : Prop :=
  ∀ pre e post, h = pre ++ e :: post → allowed pre e

theorem Lawful.nil : Lawful allowed [] := by
  intro pre e post h
  simp at h

theorem lawful_concat : Lawful allowed (h ++ [e]) ↔ Lawful allowed h ∧ allowed h e := by
  constructor
  · intro hl
    refine ⟨fun pre e' post heq => hl pre e' (post ++ [e]) ?_, hl h e [] rfl⟩
    rw [heq]
    simp
  · rintro ⟨hl, he⟩ pre e' post heq
    rcases List.eq_nil_or_concat post with rfl | ⟨post, last, rfl⟩
    · obtain ⟨rfl, hlast⟩ := List.append_inj' heq rfl
      obtain rfl := List.singleton_inj.mp hlast
      exact he
    · have hfront : h ++ [e] = (pre ++ e' :: post) ++ [last] := by simpa using heq
      obtain ⟨rfl, -⟩ := List.append_inj' hfront rfl
      exact hl pre e' post rfl

theorem Lawful.before (hl : Lawful allowed (pre ++ post)) : Lawful allowed pre := by
  intro a e b heq
  exact hl a e (b ++ post) (by rw [heq]; simp)

/-- An event that happened was allowed when it did. -/
theorem Lawful.of_mem (hl : Lawful allowed h) (he : e ∈ h) :
    ∃ pre post, h = pre ++ e :: post ∧ allowed pre e := by
  obtain ⟨pre, post, heq⟩ := List.append_of_mem he
  exact ⟨pre, post, heq, hl pre e post heq⟩

theorem Lawful.mono {allowed' : List ε → ε → Prop} (hl : Lawful allowed h)
    (himp : ∀ pre e, e ∈ h → allowed pre e → allowed' pre e) : Lawful allowed' h := by
  rintro pre e post rfl
  exact himp pre e (by simp) (hl pre e post rfl)

end Histories
