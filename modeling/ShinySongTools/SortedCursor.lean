import Mathlib.Data.List.Destutter
import Mathlib.Data.List.Sort
import Mathlib.Order.Defs.LinearOrder

/-!
# A cursor into a growing sorted list

Entries of a table are visited in order, a few at a time, and what is kept
between two calls is how many were visited. `Visited` is what makes that count
as good as the entries themselves. It survives the table's growth exactly when
no new entry sorts before a visited one.
-/

namespace SortedCursor

variable {α : Type u} {l l' log : List α} {cursor : Nat} {a : α}

-- ---------------------------------------------------------------------------
-- The cursor
-- ---------------------------------------------------------------------------

/-- `log` is what was visited of `l`, in order. -/
structure Visited (l : List α) (cursor : Nat) (log : List α) : Prop where
  log_eq : log = l.take cursor
  le : cursor ≤ l.length

namespace Visited

theorem zero (l : List α) : Visited l 0 [] := ⟨rfl, Nat.zero_le _⟩

theorem next (h : Visited l cursor log) (ha : l.drop cursor = a :: rest) :
    Visited l (cursor + 1) (log ++ [a]) := by
  have hlt : cursor < l.length := by
    rw [← List.drop_eq_nil_iff.not.trans not_le, ha]
    exact List.cons_ne_nil _ _
  refine ⟨?_, hlt⟩
  rw [h.log_eq, ← List.take_append_getElem hlt]
  rw [List.drop_eq_getElem_cons hlt] at ha
  rw [(List.cons.inj ha).1]

theorem mem_of_le (h : Visited l cursor log) (hc : l.length ≤ cursor) (ha : a ∈ l) : a ∈ log := by
  rwa [h.log_eq, List.take_of_length_le hc]

end Visited

variable [LinearOrder α]

-- ---------------------------------------------------------------------------
-- The list
-- ---------------------------------------------------------------------------

/-- `sort` and then `dedup`. -/
def sortDedup (l : List α) : List α := (l.insertionSort (· ≤ ·)).destutter (· ≠ ·)

theorem pairwise_sortDedup (l : List α) : (sortDedup l).Pairwise (· < ·) := by
  have hsorted : (sortDedup l).Pairwise (· ≤ ·) :=
    (List.pairwise_insertionSort (· ≤ ·) l).sublist (List.destutter_sublist _ _)
  have hchain : (sortDedup l).IsChain (· ≠ ·) := List.isChain_destutter _ _
  rw [← List.isChain_iff_pairwise]
  generalize sortDedup l = l at hsorted hchain
  induction l with
  | nil => exact .nil
  | cons a l ih =>
    obtain ⟨hle, hsorted⟩ := List.pairwise_cons.mp hsorted
    cases l with
    | nil => exact .singleton a
    | cons b l =>
      obtain ⟨hne, hchain⟩ := List.isChain_cons_cons.mp hchain
      exact .cons_cons (lt_of_le_of_ne (hle b List.mem_cons_self) hne) (ih hsorted hchain)

theorem mem_destutter_cons (a b : α) (l : List α) :
    a ∈ (b :: l).destutter (· ≠ ·) ↔ a = b ∨ a ∈ l := by
  induction l generalizing b with
  | nil => simp
  | cons c l ih =>
    rw [List.destutter_cons_cons, ← List.destutter_cons', ← List.destutter_cons']
    split
    · rw [List.mem_cons, ih, List.mem_cons]
    · rename_i hbc
      obtain rfl := not_not.mp hbc
      rw [ih, List.mem_cons, or_self_left]

theorem mem_sortDedup : a ∈ sortDedup l ↔ a ∈ l := by
  rw [← (List.perm_insertionSort (· ≤ ·) l).mem_iff]
  unfold sortDedup
  cases l.insertionSort (· ≤ ·) with
  | nil => simp
  | cons b l => rw [mem_destutter_cons, List.mem_cons]

-- ---------------------------------------------------------------------------
-- Growth
-- ---------------------------------------------------------------------------

namespace Visited

theorem nodup (h : Visited l cursor log) (hl : l.Pairwise (· < ·)) : log.Nodup := by
  rw [h.log_eq]
  exact hl.nodup.sublist (List.take_sublist _ _)

/-- Entries that all sort after a prefix leave it where it is. -/
theorem prefix_of_after (hl : l.Pairwise (· < ·)) (hl' : l'.Pairwise (· < ·))
    (hsub : ∀ a ∈ l, a ∈ l') (hafter : ∀ a ∈ l', a ∈ l ∨ ∀ b ∈ l, b < a) : l <+: l' := by
  induction l generalizing l' with
  | nil => exact List.nil_prefix
  | cons a l ih =>
    obtain ⟨hal, htail⟩ := List.pairwise_cons.mp hl
    cases l' with
    | nil => exact absurd (hsub a List.mem_cons_self) List.not_mem_nil
    | cons a' l' =>
      obtain ⟨hal', htail'⟩ := List.pairwise_cons.mp hl'
      -- an entry of `l'` before `a` would be new and sort before `a`
      have hhead : a' = a := by
        obtain heq | hmem := List.mem_cons.mp (hsub a List.mem_cons_self)
        · exact heq.symm
        · have hlt := hal' a hmem
          obtain hold | hnew := hafter a' List.mem_cons_self
          · obtain heq | hold := List.mem_cons.mp hold
            · exact heq
            · exact absurd hlt (hal a' hold).not_gt
          · exact absurd hlt (hnew a List.mem_cons_self).not_gt
      subst hhead
      refine List.cons_prefix_cons.mpr ⟨rfl, ih htail htail' ?_ ?_⟩
      · intro b hb
        obtain rfl | hb' := List.mem_cons.mp (hsub b (List.mem_cons_of_mem _ hb))
        · exact absurd (hal b hb) (lt_irrefl b)
        · exact hb'
      · intro b hb
        obtain hold | hnew := hafter b (List.mem_cons_of_mem _ hb)
        · obtain rfl | hold := List.mem_cons.mp hold
          · exact absurd (hal' b hb) (lt_irrefl b)
          · exact .inl hold
        · exact .inr fun c hc => hnew c (List.mem_cons_of_mem _ hc)

theorem grow_iff (h : Visited l cursor log) (hl : l.Pairwise (· < ·)) (hl' : l'.Pairwise (· < ·))
    (hsub : ∀ a ∈ l, a ∈ l') :
    Visited l' cursor log ↔ ∀ a ∈ l', a ∈ log ∨ ∀ b ∈ log, b < a := by
  constructor
  · rintro ⟨hlog, -⟩ a ha
    rw [← List.take_append_drop cursor l'] at hl' ha
    rw [hlog]
    refine (List.mem_append.mp ha).imp_right fun hdrop b hb => ?_
    exact (List.pairwise_append.mp hl').2.2 b hb a hdrop
  · intro hafter
    have hlen : log.length = cursor := by
      rw [h.log_eq, List.length_take, Nat.min_eq_left h.le]
    have hprefix : log <+: l' := by
      refine prefix_of_after ?_ hl' ?_ hafter
      · rw [h.log_eq]
        exact hl.sublist (List.take_sublist _ _)
      · intro a ha
        rw [h.log_eq] at ha
        exact hsub a (List.mem_of_mem_take ha)
    refine ⟨?_, hlen ▸ hprefix.length_le⟩
    rw [← hlen]
    exact List.prefix_iff_eq_take.mp hprefix

end Visited
end SortedCursor
