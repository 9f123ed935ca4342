import ShinySongTools.Regex

/-!
# Texts with holes

A hole is printed under its name. Where every name begins with a marker that
is nowhere else, the names can be found again in the printed text, and putting
values in for one name after the other, by replacing the name wherever it
stands, gives what putting all of them in at once does.
-/

namespace ShinySongTools

/-- A text of elements and holes, each hole with its name. -/
abbrev Holed (α : Type) := List (α ⊕ List α)

namespace Holed

variable {α : Type}

def plain (text : List α) : Holed α := text.map .inl

def printed (ls : Holed α) : List α := ls.flatMap (Sum.elim (fun a => [a]) id)

def filled (v : List α → List α) (ls : Holed α) : List α :=
  ls.flatMap (Sum.elim (fun a => [a]) v)

def names (ls : Holed α) : List (List α) := ls.filterMap Sum.getRight?

/-- The value is put in for one name. -/
def put [DecidableEq α] (name value : List α) (ls : Holed α) : Holed α :=
  ls.flatMap (Sum.elim (fun a => [.inl a]) fun w => if w = name then plain value else [.inr w])

/-- A text cut at the matches of a pattern, with a hole for each. -/
def ofPieces : List (List α × List α) → List α → Holed α
  | [], tail => plain tail
  | (gap, w) :: pieces, tail => plain gap ++ .inr w :: ofPieces pieces tail

variable (v : List α → List α) (a : α) (w text : List α) (ls ls' : Holed α)

@[simp] theorem printed_nil : printed ([] : Holed α) = [] := rfl
@[simp] theorem printed_inl : printed (.inl a :: ls) = a :: printed ls := rfl
@[simp] theorem printed_inr : printed (.inr w :: ls) = w ++ printed ls := rfl
@[simp] theorem filled_nil : filled v [] = [] := rfl
@[simp] theorem filled_inl : filled v (.inl a :: ls) = a :: filled v ls := rfl
@[simp] theorem filled_inr : filled v (.inr w :: ls) = v w ++ filled v ls := rfl
@[simp] theorem names_nil : names ([] : Holed α) = [] := rfl
@[simp] theorem names_inl : names (.inl a :: ls) = names ls := rfl
@[simp] theorem names_inr : names (.inr w :: ls) = w :: names ls := rfl

@[simp] theorem printed_append : printed (ls ++ ls') = printed ls ++ printed ls' :=
  List.flatMap_append

@[simp] theorem filled_append : filled v (ls ++ ls') = filled v ls ++ filled v ls' :=
  List.flatMap_append

@[simp] theorem names_append : names (ls ++ ls') = names ls ++ names ls' := List.filterMap_append

@[simp] theorem printed_plain : printed (plain text) = text := by
  induction text with
  | nil => rfl
  | cons a text ih => exact congrArg (a :: ·) ih

@[simp] theorem filled_plain : filled v (plain text) = text := by
  induction text with
  | nil => rfl
  | cons a text ih => exact congrArg (a :: ·) ih

@[simp] theorem names_plain : names (plain text) = [] := by
  induction text with
  | nil => rfl
  | cons a text ih => exact ih

theorem printed_ofPieces (pieces : List (List α × List α)) (tail : List α) :
    printed (ofPieces pieces tail) = Regex.join pieces tail := by
  induction pieces with
  | nil => exact printed_plain tail
  | cons piece pieces ih =>
    rw [Regex.join_cons, ← ih, ofPieces, printed_append, printed_plain, printed_inr]

theorem names_ofPieces (pieces : List (List α × List α)) (tail : List α) :
    names (ofPieces pieces tail) = pieces.map Prod.snd := by
  induction pieces with
  | nil => exact names_plain tail
  | cons piece pieces ih =>
    rw [ofPieces, names_append, names_plain, List.nil_append, names_inr, ih, List.map_cons]

variable {v ls}

/-- Only the values of the names in the text matter. -/
theorem filled_congr {v' : List α → List α} (h : ∀ w ∈ names ls, v w = v' w) :
    filled v ls = filled v' ls := by
  induction ls with
  | nil => rfl
  | cons x ls ih =>
    cases x with
    | inl a => exact congrArg (a :: ·) (ih h)
    | inr w =>
      obtain ⟨hw, hls⟩ := List.forall_mem_cons.mp h
      rw [filled_inr, filled_inr, hw, ih hls]

theorem printed_eq_filled (h : names ls = []) : printed ls = filled v ls := by
  induction ls with
  | nil => rfl
  | cons x ls ih =>
    cases x with
    | inl a => exact congrArg (a :: ·) (ih h)
    | inr w => exact absurd h (List.cons_ne_nil _ _)

section put

variable [DecidableEq α] {name value : List α}

theorem put_inr_self : put name value (.inr name :: ls) = plain value ++ put name value ls := by
  simp [put]

theorem put_inr_of_ne (h : w ≠ name) :
    put name value (.inr w :: ls) = .inr w :: put name value ls := by
  simp [put, h]

theorem filled_put : filled v (put name (v name) ls) = filled v ls := by
  induction ls with
  | nil => rfl
  | cons x ls ih =>
    cases x with
    | inl a => exact congrArg (a :: ·) ih
    | inr w =>
      by_cases hw : w = name
      · rw [hw, put_inr_self, filled_append, filled_plain, ih, filled_inr]
      · rw [put_inr_of_ne w hw, filled_inr, ih, filled_inr]

theorem mem_names_put (h : w ∈ names (put name value ls)) : w ∈ names ls ∧ w ≠ name := by
  induction ls with
  | nil => cases h
  | cons x ls ih =>
    cases x with
    | inl a => exact ih h
    | inr w' =>
      by_cases hw : w' = name
      · rw [hw, put_inr_self, names_append, names_plain, List.nil_append] at h
        exact (ih h).imp_left (List.mem_cons_of_mem _)
      · rw [put_inr_of_ne w' hw, names_inr, List.mem_cons] at h
        obtain rfl | h := h
        · exact ⟨List.mem_cons_self, hw⟩
        · exact (ih h).imp_left (List.mem_cons_of_mem _)

end put

-- ---------------------------------------------------------------------------
-- Names that can be told apart
-- ---------------------------------------------------------------------------

/-- Names that begin with the marker, have it nowhere else, not even across
their end, and are not the beginnings of each other. -/
structure Vocabulary (marker : List α) (known : Set (List α)) : Prop where
  marker_ne_nil : marker ≠ []
  /-- What ends the marker does not begin it. -/
  unbordered : ∀ p q, p ++ q = marker → p ≠ [] → q ≠ [] → ¬ q <+: marker
  marked : ∀ w ∈ known, marker <+: w
  clear : ∀ w ∈ known, Scan.Clear marker w.tail
  apart : ∀ w ∈ known, ∀ w' ∈ known, w <+: w' → w = w'

variable {marker : List α} {known : Set (List α)}

theorem Vocabulary.eq_of_append (hk : Vocabulary marker known) {u u' : List α} (hu : u ∈ known)
    (hu' : u' ∈ known) {rest rest' : List α} (h : u ++ rest = u' ++ rest') :
    u = u' ∧ rest = rest' := by
  have hor := List.prefix_or_prefix_of_prefix (List.prefix_append u rest)
    (h ▸ List.prefix_append u' rest')
  have heq : u = u' := by
    obtain hor | hor := hor
    · exact hk.apart u hu u' hu' hor
    · exact (hk.apart u' hu' u hu hor).symm
  subst heq
  exact ⟨rfl, List.append_cancel_left h⟩

/-- An end of the marker that is printed is there in the text itself: no name
begins in it. -/
theorem Vocabulary.prefix_filled (hk : Vocabulary marker known) (hls : ∀ w ∈ names ls, w ∈ known)
    {p q : List α} (hmarker : p ++ q = marker) (hp : p ≠ []) (h : q <+: printed ls) :
    q <+: filled v ls := by
  induction ls generalizing p q with
  | nil => exact h
  | cons x ls ih =>
    cases q with
    | nil => exact List.nil_prefix
    | cons b q =>
      cases x with
      | inl a =>
        obtain ⟨rfl, hq⟩ := List.cons_prefix_cons.mp h
        have hmarker : p ++ [b] ++ q = marker := by rw [List.append_assoc]; exact hmarker
        have hrest := ih hls hmarker (by simp) hq
        exact List.cons_prefix_cons.mpr ⟨rfl, hrest⟩
      | inr w =>
        have hw := hk.marked w (hls w List.mem_cons_self)
        have hlength : (b :: q).length ≤ marker.length := by
          rw [← hmarker, List.length_append]
          exact Nat.le_add_left _ _
        have hborder := List.prefix_of_prefix_length_le h
          (hw.trans (List.prefix_append w (printed ls))) hlength
        exact absurd hborder (hk.unbordered p (b :: q) hmarker hp (List.cons_ne_nil _ _))

/-- The marker is printed at the beginning of a name only. -/
theorem Vocabulary.not_prefix (hk : Vocabulary marker known)
    (hls : ∀ w ∈ names ls, w ∈ known) (hfree : ¬ marker <:+: filled v (.inl a :: ls)) :
    ¬ marker <+: printed (.inl a :: ls) := by
  intro h
  obtain ⟨b, q, hmarker⟩ := List.exists_cons_of_ne_nil hk.marker_ne_nil
  rw [hmarker] at h hfree
  obtain ⟨rfl, hq⟩ := List.cons_prefix_cons.mp h
  have hrest : q <+: filled v ls := hk.prefix_filled hls (p := [b]) hmarker.symm (by simp) hq
  exact hfree (List.IsPrefix.isInfix (List.cons_prefix_cons.mpr ⟨rfl, hrest⟩))

theorem not_infix_tail {x : α ⊕ List α} (hfree : ¬ marker <:+: filled v (x :: ls)) :
    ¬ marker <:+: filled v ls := by
  intro h
  refine hfree (h.trans (List.IsSuffix.isInfix ?_))
  cases x with
  | inl a => exact List.suffix_cons _ _
  | inr w => exact List.suffix_append _ _

-- ---------------------------------------------------------------------------
-- One name after the other
-- ---------------------------------------------------------------------------

section replaceAll

variable [DecidableEq α]

/-- Replacing a name in the printed text puts the value in for the name, if the
text with all its values has the marker nowhere. -/
theorem Vocabulary.replaceAll_printed (hk : Vocabulary marker known)
    (hls : ∀ w ∈ names ls, w ∈ known) (hfree : ¬ marker <:+: filled v ls) {name : List α}
    (hname : name ∈ known) (value : List α) :
    Scan.replaceAll name value (printed ls) = printed (put name value ls) := by
  have hmarked := hk.marked name hname
  have hne : name ≠ [] := fun hnil => hk.marker_ne_nil (List.prefix_nil.mp (hnil ▸ hmarked))
  rw [Scan.replaceAll, if_neg hne]
  induction ls with
  | nil => rfl
  | cons x ls ih =>
    cases x with
    | inl a =>
      have hstart : ¬ marker <+: printed (.inl a :: ls) := hk.not_prefix a hls hfree
      have hstart : ¬ name <+: a :: printed ls := fun h => hstart (hmarked.trans h)
      rw [printed_inl, Scan.replaceFrom, if_neg hstart, ih hls (not_infix_tail hfree)]
      rfl
    | inr w =>
      obtain ⟨hw, hls⟩ := List.forall_mem_cons.mp hls
      have hrest := ih hls (not_infix_tail hfree)
      by_cases heq : w = name
      · rw [heq, printed_inr, Scan.replaceFrom_self hne, hrest, put_inr_self, printed_append,
          printed_plain]
      · have havoids : Scan.Avoids name (printed ls) w := by
          cases w with
          | nil => trivial
          | cons b w =>
            refine ⟨fun hstart => heq ?_, ((hk.clear _ hw).avoids _).mono hmarked⟩
            obtain ⟨rest, hrest⟩ := hstart
            exact (hk.eq_of_append hname hw hrest).1.symm
        rw [printed_inr, Scan.replaceFrom_append havoids, hrest, put_inr_of_ne w heq, printed_inr]

/-- One name after the other or all at once: the text with its values is the
same, whatever the order. -/
theorem Vocabulary.foldl_replaceAll (hk : Vocabulary marker known)
    (hls : ∀ w ∈ names ls, w ∈ known) (hfree : ¬ marker <:+: filled v ls) {order : List (List α)}
    (horder : ∀ w ∈ order, w ∈ known) (hall : ∀ w ∈ names ls, w ∈ order) :
    order.foldl (fun text w => Scan.replaceAll w (v w) text) (printed ls) = filled v ls := by
  induction order generalizing ls with
  | nil =>
    have hnone : names ls = [] :=
      List.eq_nil_iff_forall_not_mem.mpr fun w hw => List.not_mem_nil (hall w hw)
    exact printed_eq_filled hnone
  | cons name order ih =>
    obtain ⟨hname, horder⟩ := List.forall_mem_cons.mp horder
    have hput : filled v (put name (v name) ls) = filled v ls := filled_put
    rw [List.foldl_cons, hk.replaceAll_printed hls hfree hname, ← hput]
    refine ih (fun w hw => hls w (mem_names_put w hw).1) ?_ horder fun w hw => ?_
    · rwa [filled_put]
    · obtain ⟨hmem, hne⟩ := mem_names_put w hw
      exact (List.mem_cons.mp (hall w hmem)).resolve_left hne

end replaceAll

-- ---------------------------------------------------------------------------
-- Finding the names again
-- ---------------------------------------------------------------------------

/-- A part of the text where no name begins is all elements. -/
theorem eq_plain_append {gap rest : List α} (h : printed ls = gap ++ rest)
    (havoids : ∀ w ∈ names ls, Scan.Avoids w rest gap) :
    ∃ ls', ls = plain gap ++ ls' ∧ printed ls' = rest := by
  induction gap generalizing ls with
  | nil => exact ⟨ls, rfl, h⟩
  | cons b gap ih =>
    cases ls with
    | nil => cases h
    | cons x ls =>
      cases x with
      | inl a =>
        obtain ⟨rfl, hrest⟩ := List.cons.inj h
        obtain ⟨ls', rfl, hls'⟩ := ih hrest fun w hw => (havoids w hw).2
        exact ⟨ls', rfl, hls'⟩
      | inr w =>
        refine absurd ?_ (havoids w List.mem_cons_self).1
        exact (h ▸ List.prefix_append w (printed ls) : w <+: b :: gap ++ rest)

/-- Where the marker is printed, a name is. -/
theorem Vocabulary.eq_name (hk : Vocabulary marker known) (hls : ∀ w ∈ names ls, w ∈ known)
    (hfree : ¬ marker <:+: filled v ls) (h : marker <+: printed ls) :
    ∃ w ls', ls = .inr w :: ls' := by
  cases ls with
  | nil => exact absurd (List.prefix_nil.mp h) hk.marker_ne_nil
  | cons x ls =>
    cases x with
    | inl a => exact absurd h (hk.not_prefix a hls hfree)
    | inr w => exact ⟨w, ls, rfl⟩

theorem Vocabulary.eq_nil (hk : Vocabulary marker known) (hls : ∀ w ∈ names ls, w ∈ known)
    (h : printed ls = []) : ls = [] := by
  cases ls with
  | nil => rfl
  | cons x ls =>
    cases x with
    | inl a => cases h
    | inr w =>
      have hw := hk.marked w (hls w List.mem_cons_self)
      obtain ⟨rfl, -⟩ := List.append_eq_nil_iff.mp h
      exact absurd (List.prefix_nil.mp hw) hk.marker_ne_nil

/-- A pattern for the names finds the names of the text, in their order. -/
theorem Vocabulary.map_snd_tiling (hk : Vocabulary marker known) {r : Regex α} (hplain : r.Plain)
    (hr : ∀ w, w ∈ r.language ↔ w ∈ known) {text : List α} {pieces : List (List α × List α)}
    {tail : List α} (h : r.Tiling text pieces tail) (htext : printed ls = text)
    (hls : ∀ w ∈ names ls, w ∈ known) (hfree : ¬ marker <:+: filled v ls) :
    pieces.map Prod.snd = names ls := by
  induction h generalizing ls with
  | tail hquiet =>
    have havoids : ∀ w ∈ names ls, Scan.Avoids w [] _ :=
      fun w hw => hquiet.avoids hplain ((hr w).mpr (hls w hw))
    obtain ⟨ls', rfl, hnil⟩ := eq_plain_append (htext.trans (List.append_nil _).symm) havoids
    rw [names_append, names_plain] at hls ⊢
    cases hk.eq_nil hls hnil
    rfl
  | @tile before m rest gap pieces tail hquiet hm hrest ih =>
    have havoids : ∀ w ∈ names ls, Scan.Avoids w (m ++ rest) gap :=
      fun w hw => hquiet.avoids hplain ((hr w).mpr (hls w hw))
    obtain ⟨ls', rfl, hls'⟩ := eq_plain_append htext havoids
    have hm := (hr m).mp hm
    rw [names_append, names_plain, List.nil_append] at hls ⊢
    rw [filled_append, filled_plain] at hfree
    have hfree : ¬ marker <:+: filled v ls' :=
      fun h => hfree (h.trans (List.suffix_append _ _).isInfix)
    have hstart : marker <+: printed ls' := by
      rw [hls']
      exact (hk.marked m hm).trans (List.prefix_append m rest)
    obtain ⟨w, ls', rfl⟩ := hk.eq_name hls hfree hstart
    obtain ⟨hw, hls⟩ := List.forall_mem_cons.mp hls
    obtain ⟨rfl, hrest⟩ := hk.eq_of_append hw hm hls'
    rw [List.map_cons, names_inr, ih hrest hls (not_infix_tail hfree)]

end Holed
end ShinySongTools
