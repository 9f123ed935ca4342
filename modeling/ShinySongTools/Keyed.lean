import Mathlib.Data.List.Perm.Basic
import Mathlib.Data.List.Nodup

/-!
# Entries under keys

Maps as lists of entries: a lookup is membership where no key is there twice,
so it does not depend on the order. Lists taken apart by a key: all elements
with one key, and the runs of them.
-/

namespace ShinySongTools.Keyed

variable {α κ β : Type}

/-- The entry for the key is put in the place of the one that is there. -/
def assoc [BEq κ] (m : List (κ × β)) (k : κ) (v : β) : List (κ × β) :=
  m.filter (·.1 != k) ++ [(k, v)]

/-- The elements with one key, under it, in the order the keys are met. -/
def groupBy [BEq κ] (key : α → κ) (l : List α) : List (κ × List α) :=
  (l.map key).eraseDups.map fun k => (k, l.filter (key · == k))

/-- The runs of elements with one key. -/
def partitionBy [BEq κ] (key : α → κ) : List α → List (List α)
  | [] => []
  | a :: l =>
    match partitionBy key l with
    | (b :: group) :: groups =>
      if key a == key b then (a :: b :: group) :: groups else [a] :: (b :: group) :: groups
    | groups => [a] :: groups

variable [BEq κ] [LawfulBEq κ] {m m' : List (κ × β)} {k k' : κ} {v : β}

-- ---------------------------------------------------------------------------
-- Looking up
-- ---------------------------------------------------------------------------

theorem mem_of_lookup (h : m.lookup k = some v) : (k, v) ∈ m := by
  obtain ⟨front, back, rfl, -⟩ := List.lookup_eq_some_iff.mp h
  exact List.mem_append_right _ List.mem_cons_self

theorem lookup_of_mem (hm : (m.map Prod.fst).Nodup) (h : (k, v) ∈ m) : m.lookup k = some v := by
  induction m with
  | nil => cases h
  | cons e m ih =>
    obtain ⟨key, value⟩ := e
    obtain ⟨hkey, hm⟩ := List.nodup_cons.mp hm
    obtain heq | h := List.mem_cons.mp h
    · cases heq
      exact List.lookup_cons_self
    · have hne : k ≠ key := fun heq => hkey (heq ▸ List.mem_map.mpr ⟨(k, v), h, rfl⟩)
      rw [List.lookup_cons, beq_eq_false_iff_ne.mpr hne]
      exact ih hm h

theorem lookup_eq_some_iff (hm : (m.map Prod.fst).Nodup) : m.lookup k = some v ↔ (k, v) ∈ m :=
  ⟨mem_of_lookup, lookup_of_mem hm⟩

theorem lookup_perm (hm : (m.map Prod.fst).Nodup) (h : m.Perm m') : m.lookup k = m'.lookup k := by
  refine Option.ext fun v => ?_
  rw [lookup_eq_some_iff hm, lookup_eq_some_iff ((h.map Prod.fst).nodup_iff.mp hm), h.mem_iff]

omit [LawfulBEq κ] in
theorem lookup_map {γ : Type} (f : β → γ) (m : List (κ × β)) (k : κ) :
    (m.map fun e => (e.1, f e.2)).lookup k = (m.lookup k).map f := by
  induction m with
  | nil => rfl
  | cons e m ih =>
    rw [List.map_cons, List.lookup_cons, List.lookup_cons, ih]
    cases k == e.1 with
    | true => rfl
    | false => rfl

theorem lookup_filter_ne (h : k' ≠ k) : (m.filter (·.1 != k)).lookup k' = m.lookup k' := by
  induction m with
  | nil => rfl
  | cons e m ih =>
    obtain ⟨key, value⟩ := e
    by_cases hkey : key = k
    · rw [List.filter_cons_of_neg (by simpa using hkey), ih, List.lookup_cons, hkey,
        beq_eq_false_iff_ne.mpr h]
    · rw [List.filter_cons_of_pos (by simpa using hkey), List.lookup_cons, List.lookup_cons, ih]

theorem lookup_assoc_of_ne (h : k' ≠ k) : (assoc m k v).lookup k' = m.lookup k' := by
  rw [assoc, List.lookup_append, lookup_filter_ne h, List.lookup_cons, beq_eq_false_iff_ne.mpr h]
  exact Option.or_none

theorem lookup_assoc_self : (assoc m k v).lookup k = some v := by
  have hnone : (m.filter (·.1 != k)).lookup k = none := by
    refine List.lookup_eq_none_iff.mpr fun e he => ?_
    have hne := (List.mem_filter.mp he).2
    rwa [bne_comm] at hne
  rw [assoc, List.lookup_append, hnone, List.lookup_cons, beq_self_eq_true]
  rfl

theorem nodup_assoc (h : (m.map Prod.fst).Nodup) : ((assoc m k v).map Prod.fst).Nodup := by
  rw [assoc, List.map_append, List.nodup_append']
  refine ⟨h.sublist (List.filter_sublist.map _), List.nodup_singleton k, ?_⟩
  intro a ha hk
  obtain rfl : a = k := List.mem_singleton.mp hk
  obtain ⟨e, he, rfl⟩ := List.mem_map.mp ha
  simpa using (List.mem_filter.mp he).2

-- ---------------------------------------------------------------------------
-- Taking apart
-- ---------------------------------------------------------------------------

theorem nodup_eraseDups (l : List κ) : l.eraseDups.Nodup := by
  induction hn : l.length using Nat.strongRecOn generalizing l with
  | _ n ih =>
    cases l with
    | nil => exact List.nodup_nil
    | cons a l =>
      rw [List.eraseDups_cons, List.nodup_cons, List.mem_eraseDups]
      refine ⟨fun h => by simp at h, ih _ ?_ _ rfl⟩
      subst hn
      exact Nat.lt_succ_of_le (List.length_filter_le _ _)

variable {key : α → κ} {l : List α}

theorem nodup_groupBy (key : α → κ) (l : List α) : ((groupBy key l).map Prod.fst).Nodup := by
  rw [groupBy, List.map_map]
  exact (List.map_id _).symm ▸ nodup_eraseDups _

theorem mem_groupBy {group : List α} :
    (k, group) ∈ groupBy key l ↔ (∃ a ∈ l, key a = k) ∧ group = l.filter (key · == k) := by
  simp only [groupBy, List.mem_map, List.mem_eraseDups, Prod.mk.injEq]
  constructor
  · rintro ⟨k', hk', rfl, rfl⟩
    exact ⟨hk', rfl⟩
  · rintro ⟨hk, rfl⟩
    exact ⟨k, hk, rfl, rfl⟩

theorem nodup_map_groupBy {ι : Type} {f : κ × List α → ι}
    (hf : ∀ a ∈ l, ∀ b ∈ l, ∀ group group', f (key a, group) = f (key b, group') → key a = key b) :
    ((groupBy key l).map f).Nodup := by
  refine (List.Nodup.of_map Prod.fst (nodup_groupBy key l)).map_on ?_
  rintro ⟨k, group⟩ hgroup ⟨k', group'⟩ hgroup' heq
  obtain ⟨⟨a, ha, rfl⟩, rfl⟩ := mem_groupBy.mp hgroup
  obtain ⟨⟨b, hb, rfl⟩, rfl⟩ := mem_groupBy.mp hgroup'
  rw [hf a ha b hb _ _ heq]

theorem length_filter_le (hl : (l.map key).Nodup) (k : κ) :
    (l.filter (key · == k)).length ≤ 1 := by
  induction l with
  | nil => exact Nat.zero_le 1
  | cons a l ih =>
    obtain ⟨ha, hl⟩ := List.nodup_cons.mp hl
    by_cases hk : key a = k
    · have hnil : l.filter (key · == k) = [] := by
        refine List.filter_eq_nil_iff.mpr fun b hb heq => ha ?_
        rw [hk, ← eq_of_beq heq]
        exact List.mem_map_of_mem hb
      rw [List.filter_cons_of_pos (by simpa using hk), hnil]
      exact Nat.le_refl 1
    · rw [List.filter_cons_of_neg (by simpa using hk)]
      exact ih hl

theorem length_group_le (hl : (l.map key).Nodup) {group : List α} (h : (k, group) ∈ groupBy key l) :
    group.length ≤ 1 := by
  obtain ⟨-, rfl⟩ := mem_groupBy.mp h
  exact length_filter_le hl k

omit [LawfulBEq κ] in
theorem head?_of_partitionBy {a : α} {group : List α} {groups : List (List α)}
    (h : partitionBy key l = (a :: group) :: groups) : l.head? = some a := by
  cases l with
  | nil => cases h
  | cons b l =>
    rw [partitionBy] at h
    split at h
    · split at h
      · cases h
        rfl
      · cases h
        rfl
    · cases h
      rfl

/-- A block before an element with another key is a run. -/
theorem partitionBy_append {block rest : List α} (hne : block ≠ [])
    (hblock : ∀ a ∈ block, key a = k) (hrest : ∀ a, rest.head? = some a → key a ≠ k) :
    partitionBy key (block ++ rest) = block :: partitionBy key rest := by
  induction block with
  | nil => exact absurd rfl hne
  | cons a block ih =>
    obtain ⟨ha, hblock⟩ := List.forall_mem_cons.mp hblock
    rw [List.cons_append, partitionBy]
    cases block with
    | nil =>
      rw [List.nil_append]
      split
      next b group groups hgroups =>
        have hb := hrest b (head?_of_partitionBy hgroups)
        rw [if_neg (by simpa [ha] using hb.symm), hgroups]
      next => rfl
    | cons b block =>
      have hb := hblock b List.mem_cons_self
      rw [ih (List.cons_ne_nil _ _) hblock]
      exact if_pos (by simp [ha, hb])

/-- Blocks that each have their own key are the runs. -/
theorem partitionBy_blocks {blocks : List (κ × List α)} (hnodup : (blocks.map Prod.fst).Nodup)
    (hkey : ∀ block ∈ blocks, ∀ a ∈ block.2, key a = block.1) :
    partitionBy key (blocks.flatMap Prod.snd) = (blocks.map Prod.snd).filter (!·.isEmpty) := by
  induction blocks with
  | nil => rfl
  | cons block blocks ih =>
    obtain ⟨hfresh, hnodup⟩ := List.nodup_cons.mp hnodup
    obtain ⟨hblock, hblocks⟩ := List.forall_mem_cons.mp hkey
    have hrest := ih hnodup hblocks
    rw [List.flatMap_cons, List.map_cons]
    cases hempty : block.2 with
    | nil => exact hrest
    | cons a group =>
      rw [← hempty, partitionBy_append (by simp [hempty]) hblock, hrest,
        List.filter_cons_of_pos (by simp [hempty])]
      intro b hb heq
      obtain ⟨other, hother, hmem⟩ := List.mem_flatMap.mp (List.mem_of_head? hb)
      refine hfresh ?_
      rw [← heq, hblocks other hother b hmem]
      exact List.mem_map_of_mem hother

end ShinySongTools.Keyed
