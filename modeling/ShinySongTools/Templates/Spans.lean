import ShinySongTools.Templates.Normalize

/-!
# The spans of a text

Every span is the text it is said to be. They are cut out one behind the other
just when no one ends behind the beginning of the next, and that fails only
for a dump without names: its character pattern matches nothing everywhere,
also where a card's name begins, and sorts behind the card.
-/

namespace ShinySongTools.Templates

open Regex Holed Fallible

variable {text : Text} {s : Filling}

-- ---------------------------------------------------------------------------
-- Cutting
-- ---------------------------------------------------------------------------

structure Span.Valid (text : Text) (span : Span) : Prop where
  le : span.start ≤ span.stop
  bound : span.stop ≤ text.length
  source : span.source = slice text span.start span.stop

def Span.Before (a b : Span) : Prop := a.stop ≤ b.start

theorem subs_eq_ok {start stop : Nat} {part : Text} (h : subs text start stop = .ok part) :
    start ≤ stop ∧ part = slice text start stop := by
  rw [subs] at h
  split at h
  next hle =>
    cases h
    exact ⟨hle.1, rfl⟩
  next => cases h

theorem subs_of_le {start stop : Nat} (h : start ≤ stop) (h' : stop ≤ text.length) :
    subs text start stop = .ok (slice text start stop) := if_pos ⟨h, h'⟩

theorem slice_append_drop {start stop : Nat} (h : start ≤ stop) :
    slice text start stop ++ text.drop stop = text.drop start := by
  rw [slice, ← Nat.add_sub_cancel' h, ← List.drop_drop, Nat.add_sub_cancel_left]
  exact List.take_append_drop _ _

/-- What is cut out of valid spans is the text behind the cursor. -/
theorem replaceEntitySpans_fills {spans : List Span} (hvalid : ∀ span ∈ spans, span.Valid text)
    {cursor : Nat} {r : Text × Filling} (hs : s.Sound)
    (h : replaceEntitySpans text cursor spans s = .ok r) :
    r.2.Sound ∧ s.Extends r.2 ∧
      ∃ ls, r.1 = printed ls ∧ Fills r.2 ls (text.drop cursor) ∧ Writes s r.2 [] ls := by
  induction spans generalizing cursor s r with
  | nil =>
    obtain ⟨tail, htail, heq⟩ := bind_eq_ok.mp h
    cases heq
    obtain ⟨-, rfl⟩ := subs_eq_ok htail
    refine ⟨hs, .refl s, plain (text.drop cursor), ?_, fills_plain s _, by simp, fun _ => .inl⟩
    rw [printed_plain, slice, List.take_of_length_le (by rw [List.length_drop])]
  | cons span spans ih =>
    obtain ⟨hspan, hspans⟩ := List.forall_mem_cons.mp hvalid
    obtain ⟨hsound, hext, harg⟩ := hs.next span.type (.entity span.type span.source)
    obtain ⟨gap, hgap, h⟩ := bind_eq_ok.mp h
    obtain ⟨⟨rest, s'⟩, hrest, heq⟩ := bind_eq_ok.mp h
    cases heq
    obtain ⟨hle, rfl⟩ := subs_eq_ok hgap
    obtain ⟨hsound', hext', ls, hls, hfills, hwrites⟩ := ih hspans hsound hrest
    refine ⟨hsound', hext.trans hext', plain (slice text cursor span.start) ++
      ([.inr (token span.type (s.counters span.type))] ++ ls), ?_, ?_, hwrites.next _⟩
    · rw [printed_append, printed_plain, printed_append, ← hls, List.append_assoc]
      simp
    · have hhole := (fills_hole harg).mono hext'
      have htext : text.drop cursor =
          slice text cursor span.start ++ (span.source ++ text.drop span.stop) := by
        rw [hspan.source, slice_append_drop hspan.le, slice_append_drop hle]
      rw [htext]
      exact (fills_plain s' _).append (hhole.append hfills)

/-- The spans are cut out when each begins where the one before has ended. -/
theorem replaceEntitySpans_isOk_iff {spans : List Span} (hvalid : ∀ span ∈ spans, span.Valid text)
    {cursor : Nat} (hcursor : cursor ≤ text.length) :
    (replaceEntitySpans text cursor spans s).isOk ↔
      (∀ span ∈ spans, cursor ≤ span.start) ∧ spans.Pairwise Span.Before := by
  induction spans generalizing cursor s with
  | nil =>
    rw [replaceEntitySpans, subs_of_le hcursor (Nat.le_refl _)]
    exact iff_of_true rfl ⟨fun _ h => absurd h List.not_mem_nil, .nil⟩
  | cons span spans ih =>
    obtain ⟨hspan, hspans⟩ := List.forall_mem_cons.mp hvalid
    rw [List.forall_mem_cons, List.pairwise_cons]
    by_cases hle : cursor ≤ span.start
    · have hrest :=
        ih (s := (s.next span.type (.entity span.type span.source)).2) hspans hspan.bound
      have hstep : (replaceEntitySpans text cursor (span :: spans) s).isOk ↔
          (replaceEntitySpans text span.stop spans
            (s.next span.type (.entity span.type span.source)).2).isOk := by
        rw [replaceEntitySpans, subs_of_le hle (hspan.le.trans hspan.bound)]
        refine Iff.trans (isOk_bind_iff (x := replaceEntitySpans text span.stop spans _)) ?_
        rw [isOk_iff]
        exact exists_congr fun r => and_iff_left rfl
      rw [hstep, hrest]
      constructor
      · rintro ⟨hbehind, hpairwise⟩
        refine ⟨⟨hle, fun b hb => ?_⟩, hbehind, hpairwise⟩
        exact hle.trans (hspan.le.trans (hbehind b hb))
      · rintro ⟨-, hbehind, hpairwise⟩
        exact ⟨hbehind, hpairwise⟩
    · refine iff_of_false (fun h => ?_) fun h => hle h.1.1
      obtain ⟨gap, hgap, -⟩ := isOk_bind_iff.mp h
      exact hle (subs_eq_ok hgap).1

-- ---------------------------------------------------------------------------
-- Where the matches of a pattern stand
-- ---------------------------------------------------------------------------

theorem mem_places {pieces : List (Text × Text)} (tail : Text) {start i : Nat} {m : Text}
    (h : (i, m) ∈ places start pieces) :
    ∃ a b, join pieces tail = a ++ (m ++ b) ∧ i = start + a.length ∧ ∃ gap, (gap, m) ∈ pieces := by
  induction pieces generalizing start with
  | nil => cases h
  | cons piece pieces ih =>
    obtain ⟨gap, m'⟩ := piece
    rw [join_cons]
    obtain heq | h := List.mem_cons.mp h
    · cases heq
      exact ⟨gap, join pieces tail, rfl, rfl, gap, List.mem_cons_self⟩
    · obtain ⟨a, b, heq, hi, gap', hmem⟩ := ih h
      refine ⟨gap ++ (m' ++ a), b, ?_, ?_, gap', List.mem_cons_of_mem _ hmem⟩
      · simp only [heq, List.append_assoc]
      · simp only [hi, List.length_append, Nat.add_assoc]

theorem places_pairwise (pieces : List (Text × Text)) (start : Nat) :
    (∀ p ∈ places start pieces, start ≤ p.1) ∧
      (places start pieces).Pairwise fun p q => p.1 + p.2.length ≤ q.1 := by
  induction pieces generalizing start with
  | nil => exact ⟨fun _ h => absurd h List.not_mem_nil, .nil⟩
  | cons piece pieces ih =>
    obtain ⟨hle, hpairwise⟩ := ih (start + piece.1.length + piece.2.length)
    refine ⟨List.forall_mem_cons.mpr ⟨Nat.le_add_right _ _, fun p hp => ?_⟩,
      List.pairwise_cons.mpr ⟨hle, hpairwise⟩⟩
    have := hle p hp
    omega

/-- A match is where it is said to be. -/
theorem slice_of_mem_places {pattern : Regex UInt16} {i : Nat} {m : Text}
    (h : (i, m) ∈ places 0 (pattern.tiles text).1) :
    m ∈ pattern.language ∧ ∃ a b, text = a ++ (m ++ b) ∧ a.length = i := by
  obtain ⟨hjoin, hlanguage⟩ := tiles_spec pattern text
  obtain ⟨a, b, heq, hi, gap, hmem⟩ := mem_places (pattern.tiles text).2 h
  exact ⟨hlanguage _ hmem, a, b, hjoin.symm.trans heq, by omega⟩

theorem slice_append (a m b : Text) : slice (a ++ (m ++ b)) a.length (a.length + m.length) = m := by
  rw [slice, List.drop_left, Nat.add_sub_cancel_left, List.take_left]

theorem valid_of_append {a m b : Text} (type : Kind) (htext : text = a ++ (m ++ b)) :
    Span.Valid text ⟨a.length, a.length + m.length, type, m⟩ where
  le := Nat.le_add_right _ _
  bound := by
    simp only [htext, List.length_append]
    omega
  source := by rw [htext, slice_append]

/-- Every match is something between two brackets of one unit. -/
def Brackets (pattern : Regex UInt16) : Prop :=
  ∀ m ∈ pattern.language, ∃ a inner b, m = a :: (inner ++ [b]) ∧ inner ≠ []

theorem bracketed_brackets {left right : String} {a b : UInt16} (hleft : units left = [a])
    (hright : units right = [b]) : Brackets (bracketed left right) := by
  intro m hm
  obtain ⟨front, hfront, rest, hrest, rfl⟩ := Language.mem_mul.mp hm
  obtain ⟨inner, hinner, ending, hending, rfl⟩ := Language.mem_mul.mp hrest
  obtain ⟨ending, hlast, rest, hempty, rfl⟩ := Language.mem_mul.mp hending
  obtain rfl : rest = [] := hempty
  rw [mem_language_lit.mp hfront, mem_language_lit.mp hlast, hleft, hright]
  exact ⟨a, inner, b, by simp, (mem_language_plus_one.mp hinner).1⟩

theorem cardPattern_brackets : Brackets cardPattern :=
  bracketed_brackets (a := unit '【') (b := unit '】') (by decide) (by decide)

theorem quotePatterns_brackets : ∀ pattern ∈ quotePatterns, Brackets pattern :=
  List.forall_mem_cons.mpr
    ⟨bracketed_brackets (a := unit '「') (b := unit '」') (by decide) (by decide),
      List.forall_mem_singleton.mpr
        (bracketed_brackets (a := unit '『') (b := unit '』') (by decide) (by decide))⟩

theorem patternSpans_valid {pattern : Regex UInt16} (hpattern : Brackets pattern) {type : Kind}
    {span : Span} (h : span ∈ patternSpans pattern text type) :
    span.Valid text ∧ span.start < span.stop := by
  obtain ⟨⟨i, m⟩, hm, rfl⟩ := List.mem_map.mp h
  obtain ⟨hword, a, b, htext, rfl⟩ := slice_of_mem_places hm
  obtain ⟨x, inner, y, rfl, hinner⟩ := hpattern m hword
  have hpos := List.length_pos_of_ne_nil hinner
  have hvalid := valid_of_append (a := a ++ [x]) (m := inner) (b := y :: b) type
    (htext.trans (by simp))
  have hspan : (⟨a.length + 1, a.length + (x :: (inner ++ [y])).length - 1, type,
      (x :: (inner ++ [y])).tail.dropLast⟩ : Span) =
      ⟨(a ++ [x]).length, (a ++ [x]).length + inner.length, type, inner⟩ := by
    simp
    omega
  refine ⟨(congrArg (Span.Valid text) hspan).mpr hvalid, ?_⟩
  simp only [List.length_cons, List.length_append, List.length_nil]
  omega

theorem patternSpans_pairwise (pattern : Regex UInt16) (text : Text) (type : Kind) :
    (patternSpans pattern text type).Pairwise Span.Before := by
  refine List.pairwise_map.mpr ((places_pairwise _ 0).2.imp fun {p q} h => ?_)
  show p.1 + p.2.length - 1 ≤ q.1 + 1
  omega

theorem aliasSpans_valid {pattern : Regex UInt16} {occupied : List Span} {span : Span}
    (h : span ∈ aliasSpans text pattern occupied) :
    span.Valid text ∧ span.source ∈ pattern.language ∧ overlaps span occupied = false := by
  obtain ⟨hmem, hfree⟩ := List.mem_filter.mp h
  obtain ⟨⟨i, m⟩, hm, rfl⟩ := List.mem_map.mp hmem
  obtain ⟨hword, a, b, htext, rfl⟩ := slice_of_mem_places hm
  exact ⟨valid_of_append .character htext, hword, by simpa using hfree⟩

theorem aliasSpans_pairwise (text : Text) (pattern : Regex UInt16) (occupied : List Span) :
    (aliasSpans text pattern occupied).Pairwise Span.Before := by
  refine List.Pairwise.filter _ (List.pairwise_map.mpr ?_)
  exact (places_pairwise _ 0).2

-- ---------------------------------------------------------------------------
-- The spans that are kept
-- ---------------------------------------------------------------------------

def Span.Apart (a b : Span) : Prop := ¬ (a.start < b.stop ∧ b.start < a.stop)

theorem Span.Apart.symm {a b : Span} (h : a.Apart b) : b.Apart a := fun h' => h h'.symm

theorem Span.Before.apart {a b : Span} (h : a.Before b) : a.Apart b :=
  fun h' => Nat.not_lt.mpr h h'.2

/-- Two spans apart that have something in them stand in the order they begin. -/
theorem Span.Apart.before {a b : Span} (h : a.Apart b) (hle : a.start ≤ b.start)
    (hb : b.start < b.stop) : a.Before b := by
  refine Nat.not_lt.mp fun hlt => h ⟨?_, hlt⟩
  exact Nat.lt_of_le_of_lt hle hb

theorem overlaps_eq_false_iff {span : Span} {spans : List Span} :
    overlaps span spans = false ↔ ∀ other ∈ spans, span.Apart other := by
  simp [overlaps, Span.Apart]

/-- What is selected is from the list, apart from what is occupied and from each
other. -/
structure Selected (spans occupied selected : List Span) : Prop where
  mem : ∀ span ∈ selected, span ∈ spans
  free : ∀ span ∈ selected, ∀ other ∈ occupied, span.Apart other
  pairwise : selected.Pairwise Span.Apart

theorem Selected.select {spans occupied selected : List Span} {span : Span}
    (h : Selected spans occupied selected) (hspan : span ∈ spans) :
    Selected spans occupied (select occupied selected span) := by
  rw [Templates.select]
  split
  next => exact h
  next hover =>
    have hapart := overlaps_eq_false_iff.mp (eq_false_of_ne_true hover)
    refine ⟨?_, ?_, List.pairwise_append.mpr ⟨h.pairwise, List.pairwise_singleton _ _, ?_⟩⟩
    · exact List.forall_mem_append.mpr ⟨h.mem, List.forall_mem_singleton.mpr hspan⟩
    · exact List.forall_mem_append.mpr ⟨h.free,
        List.forall_mem_singleton.mpr fun other ho => hapart other (List.mem_append_left _ ho)⟩
    · intro a ha b hb
      obtain rfl := List.mem_singleton.mp hb
      exact (hapart a (List.mem_append_right _ ha)).symm

theorem selected_selectNonOverlapping (spans occupied : List Span) :
    Selected spans occupied (selectNonOverlapping spans occupied) := by
  refine List.foldlRecOn (motive := Selected spans occupied) _ _ ⟨?_, ?_, .nil⟩
    fun _ h span hspan => ?_
  · exact fun _ h => absurd h List.not_mem_nil
  · exact fun _ h => absurd h List.not_mem_nil
  · exact h.select ((List.mem_insertionSort _).mp hspan)

theorem mem_entitySpans {pattern : Regex UInt16} {characterSet : List Text} {span : Span} :
    span ∈ entitySpans text pattern characterSet ↔
      span ∈ patternSpans cardPattern text .card ∨
        span ∈ aliasSpans text pattern (patternSpans cardPattern text .card) ∨
        span ∈ eventSpans text characterSet (patternSpans cardPattern text .card ++
          aliasSpans text pattern (patternSpans cardPattern text .card)) := by
  simp [entitySpans, List.mem_insertionSort]

theorem eventSpans_spec {characterSet : List Text} {occupied : List Span} {span : Span}
    (h : span ∈ eventSpans text characterSet occupied) :
    (span.Valid text ∧ span.start < span.stop) ∧ ∀ other ∈ occupied, span.Apart other := by
  have hselected := selected_selectNonOverlapping
    ((quotePatterns.flatMap fun pattern => patternSpans pattern text .event).filter fun span =>
      eventSpan text span characterSet) occupied
  refine ⟨?_, hselected.free span h⟩
  obtain ⟨pattern, hpattern, hmem⟩ :=
    List.mem_flatMap.mp (List.mem_filter.mp (hselected.mem span h)).1
  exact patternSpans_valid (quotePatterns_brackets pattern hpattern) hmem

theorem entitySpans_valid {pattern : Regex UInt16} {characterSet : List Text} :
    ∀ span ∈ entitySpans text pattern characterSet, span.Valid text := by
  intro span h
  obtain h | h | h := mem_entitySpans.mp h
  · exact (patternSpans_valid cardPattern_brackets h).1
  · exact (aliasSpans_valid h).1
  · exact (eventSpans_spec h).1.1

theorem Span.Valid.lt {span : Span} (h : span.Valid text) (hsource : span.source ≠ []) :
    span.start < span.stop := by
  refine Nat.lt_of_le_of_ne h.le fun heq => hsource ?_
  rw [h.source, slice, heq, Nat.sub_self, List.take_zero]

-- ---------------------------------------------------------------------------
-- One behind the other
-- ---------------------------------------------------------------------------

section sort

variable {α : Type} {r T : α → α → Prop} [DecidableRel r]

theorem pairwise_orderedInsert_of [IsTrans α r] {x : α} {l : List α} (hsorted : l.Pairwise r)
    (hl : l.Pairwise T) (hx : ∀ y ∈ l, (r x y → T x y) ∧ (¬ r x y → T y x)) :
    (l.orderedInsert r x).Pairwise T := by
  induction l with
  | nil => exact List.pairwise_singleton _ x
  | cons b l ih =>
    obtain ⟨hrb, hsorted⟩ := List.pairwise_cons.mp hsorted
    obtain ⟨hTb, hTl⟩ := List.pairwise_cons.mp hl
    obtain ⟨hxb, hxl⟩ := List.forall_mem_cons.mp hx
    rw [List.orderedInsert_cons]
    split
    next hle =>
      refine List.pairwise_cons.mpr ⟨List.forall_mem_cons.mpr ⟨hxb.1 hle, fun y hy => ?_⟩, hl⟩
      exact (hxl y hy).1 (trans_of r hle (hrb y hy))
    next hgt =>
      refine List.pairwise_cons.mpr ⟨fun y hy => ?_, ih hsorted hTl hxl⟩
      obtain rfl | hy := (List.mem_orderedInsert r).mp hy
      · exact hxb.2 hgt
      · exact hTb y hy

/-- A stable sort leaves two elements as they were or turns them round. -/
theorem pairwise_insertionSort_of [Std.Total r] [IsTrans α r] {l : List α}
    (h : l.Pairwise fun a b => (r a b → T a b) ∧ (¬ r a b → T b a)) :
    (l.insertionSort r).Pairwise T := by
  induction l with
  | nil => exact .nil
  | cons x l ih =>
    obtain ⟨hx, hl⟩ := List.pairwise_cons.mp h
    refine pairwise_orderedInsert_of (List.pairwise_insertionSort r l) (ih hl) fun y hy => ?_
    exact hx y ((List.mem_insertionSort r).mp hy)

end sort

/-- The two spans are cut out in the order they begin, as they stand if they
begin together. -/
def Span.Ordered (a b : Span) : Prop :=
  (a.start ≤ b.start → a.Before b) ∧ (¬ a.start ≤ b.start → b.Before a)

theorem Span.Before.ordered {a b : Span} (h : a.Before b) (ha : a.start ≤ a.stop) : a.Ordered b :=
  ⟨fun _ => h, fun hlt => absurd (ha.trans h) hlt⟩

theorem Span.Apart.ordered {a b : Span} (h : a.Apart b) (ha : a.start ≤ a.stop)
    (hb : b.start < b.stop) : a.Ordered b := by
  refine ⟨fun hle => h.before hle hb, fun hlt => Nat.not_lt.mp fun hgt => h ⟨hgt, ?_⟩⟩
  omega

theorem entitySpans_pairwise {pattern : Regex UInt16} (characterSet : List Text)
    (h : [] ∉ pattern.language ∨ patternSpans cardPattern text .card = []) :
    (entitySpans text pattern characterSet).Pairwise Span.Before := by
  have hcard {span : Span} (h : span ∈ patternSpans cardPattern text .card) :=
    patternSpans_valid cardPattern_brackets h
  have : Std.Total (fun a b : Span => a.start ≤ b.start) := ⟨fun a b => Nat.le_total _ _⟩
  have : IsTrans Span (fun a b : Span => a.start ≤ b.start) := ⟨fun a b c => Nat.le_trans⟩
  refine pairwise_insertionSort_of ?_
  refine List.pairwise_append.mpr ⟨List.pairwise_append.mpr ⟨?_, ?_, ?_⟩, ?_, ?_⟩
  · refine (patternSpans_pairwise cardPattern text .card).imp_of_mem fun ha _ hbefore => ?_
    exact hbefore.ordered (hcard ha).1.le
  · refine (aliasSpans_pairwise text pattern _).imp_of_mem fun ha _ hbefore => ?_
    exact hbefore.ordered (aliasSpans_valid ha).1.le
  · intro a ha b hb
    obtain ⟨hvalid, hsource, hfree⟩ := aliasSpans_valid hb
    obtain hsolid | hnone := h
    · have hapart := overlaps_eq_false_iff.mp hfree a ha
      exact hapart.symm.ordered (hcard ha).1.le (hvalid.lt fun hnil => hsolid (hnil ▸ hsource))
    · rw [hnone] at ha
      exact absurd ha List.not_mem_nil
  · have hpairwise := (selected_selectNonOverlapping
      ((quotePatterns.flatMap fun pattern => patternSpans pattern text .event).filter fun span =>
        eventSpan text span characterSet)
      (patternSpans cardPattern text .card ++
        aliasSpans text pattern (patternSpans cardPattern text .card))).pairwise
    refine List.Pairwise.imp_of_mem (fun ha hb hapart => ?_) hpairwise
    exact hapart.ordered (eventSpans_spec ha).1.1.le (eventSpans_spec hb).1.2
  · intro a ha b hb
    obtain ⟨⟨-, hlt⟩, hfree⟩ := eventSpans_spec hb
    refine (hfree a ha).symm.ordered ?_ hlt
    obtain ha | ha := List.mem_append.mp ha
    · exact (hcard ha).1.le
    · exact (aliasSpans_valid ha).1.le

theorem characterPattern_solid {aliases : List Text} (hne : aliases ≠ [])
    (h : ∀ name ∈ aliases, name ≠ []) : [] ∉ (characterPattern aliases).language := by
  intro hnil
  have hne : aliases.map lit ≠ [] := List.map_eq_nil_iff.not.mpr hne
  obtain ⟨r, hr, hmem⟩ := mem_language_anyOf hnil hne
  obtain ⟨name, hname, rfl⟩ := List.mem_map.mp hr
  exact h name hname (mem_language_lit.mp hmem).symm

/-- The pattern of no names matches nothing, before every unit and at the end. -/
theorem tilesFrom_empty {fuel : Nat} (hfuel : text.length < fuel) (before : Option UInt16) :
    tilesFrom .empty fuel before text = (([], []) :: text.map (fun u => ([u], [])), []) := by
  induction text generalizing fuel before with
  | nil =>
    obtain ⟨fuel, rfl⟩ := Nat.exists_eq_succ_of_ne_zero (Nat.ne_of_gt hfuel)
    rfl
  | cons u text ih =>
    obtain ⟨fuel, rfl⟩ := Nat.exists_eq_succ_of_ne_zero (Nat.ne_of_gt (Nat.zero_lt_of_lt hfuel))
    have hrest := ih (Nat.lt_of_succ_lt_succ hfuel) (some u)
    simp [tilesFrom, find?, Regex.first, ends, hrest]

theorem mem_places_nils {start i : Nat} (text : Text) (h : start ≤ i)
    (hi : i < start + text.length) :
    (i + 1, []) ∈ places start (text.map fun u => ([u], [])) := by
  induction text generalizing start with
  | nil =>
    rw [List.length_nil] at hi
    omega
  | cons u text ih =>
    rw [List.length_cons] at hi
    rw [List.map_cons, places, List.mem_cons]
    obtain rfl | hlt := Nat.eq_or_lt_of_le h
    · exact .inl rfl
    · exact .inr (ih hlt (by simp; omega))

theorem mem_places_empty {i : Nat} (h : i ≤ text.length) :
    (i, []) ∈ places 0 (tiles .empty text).1 := by
  rw [tiles, tilesFrom_empty (Nat.lt_succ_self _)]
  cases i with
  | zero => exact List.mem_cons_self
  | succ i => exact List.mem_cons_of_mem _ (mem_places_nils text (Nat.zero_le i) (by omega))

theorem patternSpans_eq_nil_iff {pattern : Regex UInt16} {type : Kind} :
    patternSpans pattern text type = [] ↔ pattern.finds text = false := by
  rw [← tiles_eq_nil_iff, patternSpans, List.map_eq_nil_iff]
  cases (pattern.tiles text).1 with
  | nil => exact iff_of_true rfl rfl
  | cons piece pieces => exact iff_of_false (List.cons_ne_nil _ _) (List.cons_ne_nil _ _)

/-- With no names, nothing is matched where a card's name begins, and it stands
behind the card. -/
theorem not_pairwise_entitySpans (characterSet : List Text)
    (h : patternSpans cardPattern text .card ≠ []) :
    ¬ (entitySpans text .empty characterSet).Pairwise Span.Before := by
  obtain ⟨card, cards, hcards⟩ := List.exists_cons_of_ne_nil h
  have hmem : card ∈ patternSpans cardPattern text .card := hcards ▸ List.mem_cons_self
  obtain ⟨hvalid, hlt⟩ := patternSpans_valid cardPattern_brackets hmem
  have hpairwise := patternSpans_pairwise cardPattern text .card
  rw [hcards, List.pairwise_cons] at hpairwise
  have hnothing : (⟨card.start, card.start, .character, []⟩ : Span) ∈
      aliasSpans text .empty (patternSpans cardPattern text .card) := by
    refine List.mem_filter.mpr ⟨List.mem_map.mpr ⟨(card.start, []), ?_, rfl⟩, ?_⟩
    · exact mem_places_empty (hvalid.le.trans hvalid.bound)
    · rw [Bool.not_eq_true', overlaps_eq_false_iff, hcards, List.forall_mem_cons]
      refine ⟨fun h => Nat.lt_irrefl _ h.2, fun other hother h => ?_⟩
      have hbefore := hpairwise.1 other hother
      exact absurd h.2 (Nat.not_lt.mpr (hvalid.le.trans hbefore))
  have hpair : [card, ⟨card.start, card.start, .character, []⟩].Sublist
      (entitySpans text .empty characterSet) := by
    refine List.sublist_insertionSort (List.pairwise_pair.mpr (Nat.le_refl _)) ?_
    refine List.Sublist.trans ?_ (List.sublist_append_left _ _)
    exact (List.singleton_sublist.mpr hmem).append (List.singleton_sublist.mpr hnothing)
  intro hall
  have hbefore : card.Before ⟨card.start, card.start, .character, []⟩ :=
    List.pairwise_pair.mp (hall.sublist hpair)
  exact Nat.not_lt.mpr hbefore hlt

-- ---------------------------------------------------------------------------
-- Candidates
-- ---------------------------------------------------------------------------

variable {record : Record} {aliases characterSet : List Text}

theorem candidate_isOk_iff (h : ∀ name ∈ aliases, name ≠ []) :
    (candidate record (characterPattern aliases) characterSet).isOk ↔
      aliases ≠ [] ∨ cardPattern.finds record.text = false := by
  have hcut := replaceEntitySpans_isOk_iff (s := .empty)
    (@entitySpans_valid record.text (characterPattern aliases) characterSet) (Nat.zero_le _)
  have hcandidate : (candidate record (characterPattern aliases) characterSet).isOk ↔
      (entitySpans record.text (characterPattern aliases) characterSet).Pairwise Span.Before := by
    refine Iff.trans ?_ (hcut.trans (and_iff_right fun _ _ => Nat.zero_le _))
    rw [candidate, isOk_bind_iff, isOk_iff]
    exact exists_congr fun r => and_iff_left rfl
  rw [hcandidate, ← @patternSpans_eq_nil_iff _ _ .card]
  constructor
  · intro hpairwise
    refine or_iff_not_imp_left.mpr fun hnone => by_contra fun hcard => ?_
    rw [not_not.mp hnone] at hpairwise
    exact not_pairwise_entitySpans characterSet hcard hpairwise
  · intro hor
    refine entitySpans_pairwise characterSet (hor.imp_left fun hne => ?_)
    exact characterPattern_solid hne h

/-- The candidate is the text with holes, and its arguments fill them; there is
a hole for each. -/
theorem candidate_fills {pattern : Regex UInt16} {c : Candidate}
    (h : candidate record pattern characterSet = .ok c) (hfree : ¬ reserved <:+: record.text) :
    c.toRecord = record ∧ ∃ s : Filling, s.Sound ∧ c.candidateArgs = s.args ∧
      ∃ ls, c.candidate = printed ls ∧ Fills s ls record.text ∧
        ∀ w, (s.args.lookup w).isSome → w ∈ names ls := by
  obtain ⟨⟨text, s⟩, hcut, heq⟩ := bind_eq_ok.mp h
  cases heq
  obtain ⟨hsound, -, ls, hls, hfills, hwrites⟩ :=
    replaceEntitySpans_fills entitySpans_valid Filling.sound_empty hcut
  obtain rfl : text = printed ls := hls
  rw [List.drop_zero] at hfills
  have hfree : ¬ reserved <:+: filled s.value ls := hfills.filled_eq ▸ hfree
  obtain ⟨hsound', -, ls', hls', hfills', hwrites', -⟩ :=
    takes_protected (tiling_tiles protectedPattern_solid _) rfl hsound hfills.known hfree
  rw [hfills.filled_eq] at hfills'
  refine ⟨rfl, _, hsound', rfl, ls', hls', hfills', fun w hw => ?_⟩
  obtain hw | hw := hwrites'.new w hw
  · obtain hw | hw := hwrites.new w hw
    · cases hw
    · exact hwrites'.keeps w hw
  · exact hw

end ShinySongTools.Templates
