import Mathlib.Data.List.Infix
import Mathlib.Data.Nat.Find

/-!
# Searching a text

The first place where a pattern stands in a text, and when it is not in a part
of it: `Avoids` takes the text apart at any seams, `Clear` decides it for a
part that is known. `Occurs` is all the places of a pattern, and how many are
found when the search goes on behind each match.
-/

namespace ShinySongTools.Scan

variable {α : Type} {pat a b after : List α}

def indexOf [DecidableEq α] (pat : List α) : List α → Option Nat
  | [] => if pat = [] then some 0 else none
  | c :: cs => if pat <+: c :: cs then some 0 else (indexOf pat cs).map (· + 1)

/-- No match begins in the text when it goes on with `after`. -/
def Avoids (pat after : List α) : List α → Prop
  | [] => True
  | c :: cs => ¬ pat <+: c :: cs ++ after ∧ Avoids pat after cs

/-- No match begins in the text, however it goes on. -/
def Clear (pat : List α) : List α → Prop
  | [] => True
  | c :: cs => ¬ pat <+: c :: cs ∧ ¬ c :: cs <+: pat ∧ Clear pat cs

instance Clear.decide [DecidableEq α] (pat : List α) : (text : List α) → Decidable (Clear pat text)
  | [] => inferInstanceAs (Decidable True)
  | c :: cs =>
    haveI := Clear.decide pat cs
    inferInstanceAs (Decidable (¬ pat <+: c :: cs ∧ ¬ c :: cs <+: pat ∧ Clear pat cs))

theorem Clear.avoids (h : Clear pat a) (after : List α) : Avoids pat after a := by
  induction a with
  | nil => trivial
  | cons c cs ih =>
    obtain ⟨hmatch, hpart, hrest⟩ := h
    refine ⟨fun hpat => ?_, ih hrest⟩
    obtain hpat | hpat := List.prefix_or_prefix_of_prefix hpat (List.prefix_append (c :: cs) after)
    · exact hmatch hpat
    · exact hpart hpat

theorem avoids_append :
    Avoids pat after (a ++ b) ↔ Avoids pat (b ++ after) a ∧ Avoids pat after b := by
  induction a with
  | nil => exact iff_of_eq (true_and _).symm
  | cons c cs ih =>
    have hseam : c :: (cs ++ b) ++ after = c :: cs ++ (b ++ after) :=
      List.append_assoc (c :: cs) b after
    rw [List.cons_append, Avoids, Avoids, ih, hseam, and_assoc]

theorem Avoids.stop (h : Avoids pat after a) : Avoids pat [] a := by
  induction a with
  | nil => trivial
  | cons c cs ih =>
    obtain ⟨hmatch, hrest⟩ := h
    refine ⟨fun hpat => hmatch ?_, ih hrest⟩
    rw [List.append_nil] at hpat
    exact hpat.trans (List.prefix_append _ _)

/-- Only a place where the pattern's first element stands can be a match. -/
theorem avoids_of_head_not_mem {c : α} (h : c ∉ a) : Avoids (c :: pat) after a := by
  induction a with
  | nil => trivial
  | cons d ds ih =>
    obtain ⟨hd, hds⟩ := not_or.mp (List.mem_cons.not.mp h)
    exact ⟨fun hpat => hd (List.cons_prefix_cons.mp hpat).1, ih hds⟩

theorem infix_of_append_of_head_not_mem {c : α} (h : c ∉ a) (hpart : c :: pat <:+: a ++ b) :
    c :: pat <:+: b := by
  induction a with
  | nil => exact hpart
  | cons d ds ih =>
    obtain ⟨hd, hds⟩ := not_or.mp (List.mem_cons.not.mp h)
    refine ih hds ((List.infix_cons_iff.mp hpart).resolve_left fun hstart => ?_)
    exact hd (List.cons_prefix_cons.mp hstart).1

/-- A text with its end mark is a part of a longer field that ends at the first mark. -/
theorem concat_prefix_iff [DecidableEq α] {c : α} (h : c ∉ pat) (hlength : pat.length < a.length) :
    pat ++ [c] <+: a ↔ a.takeWhile (· ≠ c) = pat := by
  induction pat generalizing a with
  | nil =>
    obtain ⟨d, ds, rfl⟩ := List.exists_cons_of_length_pos hlength
    by_cases hd : d = c
    · simp [hd]
    · simp [hd, Ne.symm hd]
  | cons e pat ih =>
    obtain ⟨he, hpat⟩ := not_or.mp (List.mem_cons.not.mp h)
    obtain ⟨d, ds, rfl⟩ := List.exists_cons_of_length_pos (Nat.zero_lt_of_lt hlength)
    rw [List.cons_append, List.cons_prefix_cons, ih hpat (Nat.lt_of_succ_lt_succ hlength)]
    by_cases hd : d = c
    · rw [List.takeWhile_cons_of_neg (by simpa using hd)]
      exact iff_of_false (fun h => he (hd ▸ h.1.symm)) (by simp)
    · rw [List.takeWhile_cons_of_pos (by simpa using hd), List.cons.injEq]
      exact and_congr_left' eq_comm

variable [DecidableEq α]

theorem indexOf_append (h : Avoids pat b a) :
    indexOf pat (a ++ b) = (indexOf pat b).map (· + a.length) := by
  induction a with
  | nil => simp
  | cons c cs ih =>
    obtain ⟨hmatch, hrest⟩ := h
    have hmatch : ¬ pat <+: c :: (cs ++ b) := hmatch
    rw [List.cons_append, indexOf, if_neg hmatch, ih hrest, Option.map_map]
    rfl

theorem indexOf_prefix (pat a : List α) : indexOf pat (pat ++ a) = some 0 := by
  cases h : pat ++ a with
  | nil => rw [indexOf, if_pos (List.append_eq_nil_iff.mp h).1]
  | cons c cs => rw [indexOf, if_pos (h ▸ List.prefix_append pat a)]

/-- The first match stands where the pattern was put. -/
theorem indexOf_eq_length (h : Avoids pat (pat ++ b) a) :
    indexOf pat (a ++ (pat ++ b)) = some a.length := by
  rw [indexOf_append h, indexOf_prefix, Option.map_some, Nat.zero_add]

theorem indexOf_eq_none (hpat : pat ≠ []) (h : Avoids pat [] a) : indexOf pat a = none := by
  have hnone := indexOf_append h
  rw [List.append_nil] at hnone
  rw [hnone, indexOf, if_neg hpat]
  rfl

-- ---------------------------------------------------------------------------
-- All the places of a pattern
-- ---------------------------------------------------------------------------

omit [DecidableEq α]

def Occurs (pat text : List α) (i : Nat) : Prop :=
  ∃ before after, before.length = i ∧ text = before ++ (pat ++ after)

def Unique (pat text : List α) (i : Nat) : Prop :=
  Occurs pat text i ∧ ∀ j, Occurs pat text j → j = i

/-- The pattern's first place, which all the others overlap. -/
def Clustered (pat text : List α) (i : Nat) : Prop :=
  Occurs pat text i ∧ ∀ j, Occurs pat text j → i ≤ j ∧ j < i + pat.length

variable {text : List α} {i j : Nat}

theorem occurs_cons_zero {c : α} : Occurs pat (c :: text) 0 ↔ pat <+: c :: text := by
  constructor
  · rintro ⟨before, after, hlength, htext⟩
    rw [List.length_eq_zero_iff.mp hlength] at htext
    exact ⟨after, htext.symm⟩
  · rintro ⟨after, htext⟩
    exact ⟨[], after, rfl, htext.symm⟩

theorem occurs_cons_succ {c : α} : Occurs pat (c :: text) (i + 1) ↔ Occurs pat text i := by
  constructor
  · rintro ⟨before, after, hlength, htext⟩
    obtain ⟨d, before, rfl⟩ := List.exists_cons_of_length_eq_add_one hlength
    exact ⟨before, after, Nat.succ.inj hlength, (List.cons.inj htext).2⟩
  · rintro ⟨before, after, rfl, rfl⟩
    exact ⟨c :: before, after, rfl, rfl⟩

theorem Occurs.bound (h : Occurs pat text i) : i + pat.length ≤ text.length := by
  obtain ⟨before, after, rfl, rfl⟩ := h
  rw [List.length_append, List.length_append]
  omega

theorem not_occurs_nil (hpat : pat ≠ []) (i : Nat) : ¬ Occurs pat ([] : List α) i := by
  intro h
  have hbound := h.bound
  have hpos := List.length_pos_of_ne_nil hpat
  rw [List.length_nil] at hbound
  omega

theorem occurs_drop (hpat : pat ≠ []) (n : Nat) :
    Occurs pat (text.drop n) i ↔ Occurs pat text (n + i) := by
  induction n generalizing text with
  | zero => rw [List.drop_zero, Nat.zero_add]
  | succ n ih =>
    cases text with
    | nil =>
      rw [List.drop_nil]
      exact iff_of_false (not_occurs_nil hpat _) (not_occurs_nil hpat _)
    | cons c text => rw [List.drop_succ_cons, ih, Nat.add_right_comm, occurs_cons_succ]

theorem Unique.clustered (hpat : pat ≠ []) (h : Unique pat text i) : Clustered pat text i := by
  refine ⟨h.1, fun j hj => ?_⟩
  have := List.length_pos_of_ne_nil hpat
  rw [h.2 j hj]
  omega

theorem Clustered.eq (h : Clustered pat text i) (h' : Clustered pat text j) : i = j :=
  Nat.le_antisymm (h.2 j h'.1).1 (h'.2 i h.1).1

variable [DecidableEq α]

theorem indexOf_eq_some_iff (hpat : pat ≠ []) :
    indexOf pat text = some i ↔ Occurs pat text i ∧ ∀ j, Occurs pat text j → i ≤ j := by
  induction text generalizing i with
  | nil =>
    rw [indexOf, if_neg hpat]
    exact iff_of_false (by simp) fun h => not_occurs_nil hpat i h.1
  | cons c text ih =>
    rw [indexOf]
    split
    next hmatch =>
      have hzero := occurs_cons_zero.mpr hmatch
      constructor
      · intro h
        cases h
        exact ⟨hzero, fun j _ => Nat.zero_le j⟩
      · intro h
        rw [Nat.le_zero.mp (h.2 0 hzero)]
    next hmatch =>
      cases i with
      | zero =>
        refine iff_of_false (by simp) fun h => hmatch (occurs_cons_zero.mp h.1)
      | succ i =>
        rw [Option.map_eq_some_iff, occurs_cons_succ]
        constructor
        · rintro ⟨k, hk, hki⟩
          cases hki
          obtain ⟨hoccurs, hfirst⟩ := ih.mp hk
          refine ⟨hoccurs, fun j hj => ?_⟩
          cases j with
          | zero => exact absurd (occurs_cons_zero.mp hj) hmatch
          | succ j => exact Nat.succ_le_succ (hfirst j (occurs_cons_succ.mp hj))
        · rintro ⟨hoccurs, hfirst⟩
          refine ⟨i, ih.mpr ⟨hoccurs, fun j hj => ?_⟩, rfl⟩
          exact Nat.le_of_succ_le_succ (hfirst (j + 1) (occurs_cons_succ.mpr hj))

theorem indexOf_eq_none_iff (hpat : pat ≠ []) :
    indexOf pat text = none ↔ ∀ i, ¬ Occurs pat text i := by
  constructor
  · intro hnone i hi
    classical
    have hsome := (indexOf_eq_some_iff hpat).mpr
      ⟨Nat.find_spec ⟨i, hi⟩, fun j hj => Nat.find_min' ⟨i, hi⟩ hj⟩
    exact absurd (hnone.symm.trans hsome) (by simp)
  · intro h
    cases hindex : indexOf pat text with
    | none => rfl
    | some i => exact absurd ((indexOf_eq_some_iff hpat).mp hindex).1 (h i)

end ShinySongTools.Scan

-- ---------------------------------------------------------------------------
-- Replacing every match
-- ---------------------------------------------------------------------------

namespace ShinySongTools.Scan

variable {α : Type} {pat a b after : List α}

theorem Avoids.mono {longer : List α} (hpat : pat <+: longer) (h : Avoids pat after a) :
    Avoids longer after a := by
  induction a with
  | nil => trivial
  | cons c cs ih => exact ⟨fun hlonger => h.1 (hpat.trans hlonger), ih h.2⟩

theorem Avoids.not_infix (hpat : pat ≠ []) (h : Avoids pat [] a) : ¬ pat <:+: a := by
  induction a with
  | nil => exact fun hpart => hpat (List.infix_nil.mp hpart)
  | cons c cs ih =>
    obtain ⟨hstart, hrest⟩ := h
    rw [List.append_nil] at hstart
    exact fun hpart => (List.infix_cons_iff.mp hpart).elim hstart (ih hrest)

/-- The first place of an element cuts a text in one way only. -/
theorem append_cons_inj {c : α} {a' b' : List α} (ha : c ∉ a) (ha' : c ∉ a')
    (h : a ++ c :: b = a' ++ c :: b') : a = a' ∧ b = b' := by
  induction a generalizing a' with
  | nil =>
    cases a' with
    | nil => exact ⟨rfl, (List.cons.inj h).2⟩
    | cons d ds => exact absurd ((List.cons.inj h).1 ▸ List.mem_cons_self) ha'
  | cons d ds ih =>
    cases a' with
    | nil => exact absurd ((List.cons.inj h).1 ▸ List.mem_cons_self) ha
    | cons d' ds' =>
      obtain ⟨rfl, hrest⟩ := List.cons.inj h
      obtain ⟨rfl, rfl⟩ := ih (List.not_mem_of_not_mem_cons ha) (List.not_mem_of_not_mem_cons ha')
        hrest
      exact ⟨rfl, rfl⟩

theorem clear_of_head_not_mem {c : α} (h : c ∉ a) : Clear (c :: pat) a := by
  induction a with
  | nil => trivial
  | cons d ds ih =>
    obtain ⟨hd, hds⟩ := not_or.mp (List.mem_cons.not.mp h)
    exact ⟨fun hpat => hd (List.cons_prefix_cons.mp hpat).1,
      fun hpart => hd (List.cons_prefix_cons.mp hpart).1.symm, ih hds⟩

variable [DecidableEq α]

/-- The text behind its first `skip` elements, each match replaced; what was put
in is not searched again. -/
def replaceFrom (pat new : List α) : Nat → List α → List α
  | _, [] => []
  | skip + 1, _ :: cs => replaceFrom pat new skip cs
  | 0, c :: cs =>
    if pat <+: c :: cs then new ++ replaceFrom pat new (pat.length - 1) cs
    else c :: replaceFrom pat new 0 cs

/-- The empty pattern is found before every element and at the end. -/
def replaceAll (pat new text : List α) : List α :=
  if pat = [] then text.flatMap (fun c => new ++ [c]) ++ new else replaceFrom pat new 0 text

theorem replaceFrom_skip (pat new a b : List α) :
    replaceFrom pat new a.length (a ++ b) = replaceFrom pat new 0 b := by
  induction a with
  | nil => rfl
  | cons c cs ih => exact ih

theorem replaceFrom_self (hpat : pat ≠ []) (new b : List α) :
    replaceFrom pat new 0 (pat ++ b) = new ++ replaceFrom pat new 0 b := by
  obtain ⟨c, cs, rfl⟩ := List.exists_cons_of_ne_nil hpat
  have hstart : c :: cs <+: c :: (cs ++ b) := List.prefix_append (c :: cs) b
  rw [List.cons_append, replaceFrom, if_pos hstart, List.length_cons, Nat.add_sub_cancel,
    replaceFrom_skip]

theorem replaceFrom_append (h : Avoids pat b a) (new : List α) :
    replaceFrom pat new 0 (a ++ b) = a ++ replaceFrom pat new 0 b := by
  induction a with
  | nil => rfl
  | cons c cs ih =>
    obtain ⟨hmatch, hrest⟩ := h
    have hmatch : ¬ pat <+: c :: (cs ++ b) := hmatch
    rw [List.cons_append, replaceFrom, if_neg hmatch, ih hrest]
    rfl

end ShinySongTools.Scan
