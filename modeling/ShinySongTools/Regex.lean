import Mathlib.Computability.Language
import ShinySongTools.Scan

/-!
# Patterns

Regular expressions as a backtracking matcher runs them: alternatives in order,
repetition greedy, and what stands before and behind a match may be looked at.
`ends` is every way to match, the preferred one first. `language` is what a
match can be; the looks count as nothing there, so a `Plain` pattern, one
without them, matches at every word of its language.
-/

namespace ShinySongTools

inductive Regex (α : Type) where
  | empty
  | one (p : α → Bool)
  | cat (r s : Regex α)
  | alt (r s : Regex α)
  | star (r : Regex α)
  /-- What stands right before is not one of these. -/
  | notBehind (p : α → Bool)
  /-- What stands right behind is not one of these. -/
  | notAhead (p : α → Bool)

namespace Regex

variable {α : Type}

/-- A place in a text: the element before it and what is behind it. -/
structure Cursor (α : Type) where
  before : Option α
  rest : List α

def opt (r : Regex α) : Regex α := .alt r .empty

def plus (r : Regex α) : Regex α := .cat r (.star r)

def lit [DecidableEq α] : List α → Regex α
  | [] => .empty
  | a :: w => .cat (.one (· = a)) (lit w)

def seq : List (Regex α) → Regex α
  | [] => .empty
  | r :: rest => .cat r (seq rest)

def anyOf : List (Regex α) → Regex α
  | [] => .empty
  | [r] => r
  | r :: rest => .alt r (anyOf rest)

/-- At most `n` rounds; one that takes nothing is not made. -/
def rounds (step : Cursor α → List (Cursor α)) : Nat → Cursor α → List (Cursor α)
  | 0, c => [c]
  | n + 1, c =>
    ((step c).filter (·.rest.length < c.rest.length)).flatMap (rounds step n) ++ [c]

def ends : Regex α → Cursor α → List (Cursor α)
  | .empty, c => [c]
  | .one p, c =>
    match c.rest with
    | [] => []
    | a :: rest => if p a then [⟨some a, rest⟩] else []
  | .cat r s, c => (ends r c).flatMap (ends s)
  | .alt r s, c => ends r c ++ ends s c
  | .star r, c => rounds (ends r) c.rest.length c
  | .notBehind p, c => if c.before.any p then [] else [c]
  | .notAhead p, c => if c.rest.head?.any p then [] else [c]

/-- Where the match that begins here ends. -/
def first (r : Regex α) (c : Cursor α) : Option (Cursor α) := (r.ends c).head?

/-- The first match: the text before it, itself, and the place behind it. -/
def find? (r : Regex α) (before : Option α) : List α → Option (List α × List α × Cursor α)
  | [] => (r.first ⟨before, []⟩).map fun c => ([], [], c)
  | a :: rest =>
    match r.first ⟨before, a :: rest⟩ with
    | some c => some ([], (a :: rest).take (rest.length + 1 - c.rest.length), c)
    | none => (find? r (some a) rest).map fun (gap, m, c) => (a :: gap, m, c)

/-- The matches that repeated finding meets, each with the text it skips to get
there, and the text behind the last one. -/
def tilesFrom (r : Regex α) : Nat → Option α → List α → List (List α × List α) × List α
  | 0, _, text => ([], text)
  | fuel + 1, before, text =>
    match r.find? before text with
    | none => ([], text)
    | some (gap, m, c) =>
      match m, c.rest with
      | [], [] => ([(gap, [])], [])
      | [], a :: rest =>
        -- behind an empty match one element is passed over
        match tilesFrom r fuel (some a) rest with
        | ([], tail) => ([(gap, [])], a :: tail)
        | ((gap', m') :: tiles, tail) => ((gap, []) :: (a :: gap', m') :: tiles, tail)
      | m, _ =>
        let (tiles, tail) := tilesFrom r fuel c.before c.rest
        ((gap, m) :: tiles, tail)

def tiles (r : Regex α) (text : List α) : List (List α × List α) × List α :=
  r.tilesFrom (text.length + 1) none text

/-- Whether the pattern takes the whole text. -/
def matchesAll (r : Regex α) (text : List α) : Bool :=
  (r.ends ⟨none, text⟩).any (·.rest.isEmpty)

/-- Whether there is a match anywhere. -/
def finds (r : Regex α) (text : List α) : Bool := (r.find? none text).isSome

-- ---------------------------------------------------------------------------
-- What a match can be
-- ---------------------------------------------------------------------------

def language : Regex α → Language α
  | .empty | .notBehind _ | .notAhead _ => 1
  | .one p => {w | ∃ a, p a = true ∧ w = [a]}
  | .cat r s => r.language * s.language
  | .alt r s => r.language + s.language
  | .star r => KStar.kstar r.language

def Plain : Regex α → Prop
  | .empty | .one _ => True
  | .cat r s | .alt r s => r.Plain ∧ s.Plain
  | .star r => r.Plain
  | .notBehind _ | .notAhead _ => False

/-- The place behind `w`. -/
def Cursor.past (before : Option α) (w rest : List α) : Cursor α := ⟨w.getLast?.or before, rest⟩

theorem Cursor.past_nil (c : Cursor α) : Cursor.past c.before [] c.rest = c := rfl

theorem Cursor.past_append (before : Option α) (u v rest : List α) :
    Cursor.past (Cursor.past before u (v ++ rest)).before v rest =
      Cursor.past before (u ++ v) rest := by
  simp [Cursor.past, List.getLast?_append, Option.or_assoc]

/-- A place a match leads to is behind a word of the language. -/
def Leads (r : Regex α) (c c' : Cursor α) : Prop :=
  ∃ w ∈ r.language, c.rest = w ++ c'.rest ∧ c' = Cursor.past c.before w c'.rest

theorem leads_rounds {r : Regex α} {step : Cursor α → List (Cursor α)}
    (hstep : ∀ c, ∀ c' ∈ step c, Leads r c c') {n : Nat} {c c' : Cursor α}
    (h : c' ∈ rounds step n c) : Leads (.star r) c c' := by
  induction n generalizing c with
  | zero =>
    obtain rfl := List.mem_singleton.mp h
    exact ⟨[], Language.nil_mem_kstar _, rfl, rfl⟩
  | succ n ih =>
    rw [rounds, List.mem_append, List.mem_flatMap, List.mem_singleton] at h
    obtain ⟨mid, hmid, hrest⟩ | rfl := h
    · obtain ⟨u, hu, hu_rest, hu_past⟩ := hstep c mid (List.mem_filter.mp hmid).1
      obtain ⟨v, hv, hv_rest, hv_past⟩ := ih hrest
      refine ⟨u ++ v, ?_, ?_, ?_⟩
      · obtain ⟨words, rfl, hwords⟩ := Language.mem_kstar.mp hv
        exact Language.mem_kstar.mpr ⟨u :: words, rfl, List.forall_mem_cons.mpr ⟨hu, hwords⟩⟩
      · rw [hu_rest, hv_rest, List.append_assoc]
      · rw [← Cursor.past_append, ← hv_rest, ← hu_past]
        exact hv_past
    · exact ⟨[], Language.nil_mem_kstar _, rfl, rfl⟩

theorem leads_of_mem_ends (r : Regex α) {c c' : Cursor α} (h : c' ∈ r.ends c) : Leads r c c' := by
  induction r generalizing c c' with
  | empty =>
    obtain rfl := List.mem_singleton.mp h
    exact ⟨[], rfl, rfl, rfl⟩
  | one p =>
    obtain ⟨before, rest⟩ := c
    cases rest with
    | nil => cases h
    | cons a rest =>
      simp only [ends] at h
      split at h
      next hp =>
        obtain rfl := List.mem_singleton.mp h
        exact ⟨[a], ⟨a, hp, rfl⟩, rfl, rfl⟩
      next => cases h
  | cat r s ihr ihs =>
    obtain ⟨mid, hr, hs⟩ := List.mem_flatMap.mp h
    obtain ⟨u, hu, hu_rest, hu_past⟩ := ihr hr
    obtain ⟨v, hv, hv_rest, hv_past⟩ := ihs hs
    refine ⟨u ++ v, Language.append_mem_mul hu hv, ?_, ?_⟩
    · rw [hu_rest, hv_rest, List.append_assoc]
    · rw [← Cursor.past_append, ← hv_rest, ← hu_past]
      exact hv_past
  | alt r s ihr ihs =>
    obtain h | h := List.mem_append.mp h
    · obtain ⟨w, hw, hlead⟩ := ihr h
      exact ⟨w, .inl hw, hlead⟩
    · obtain ⟨w, hw, hlead⟩ := ihs h
      exact ⟨w, .inr hw, hlead⟩
  | star r ih => exact leads_rounds (fun _ _ => ih) h
  | notBehind p | notAhead p =>
    simp only [ends] at h
    split at h
    · cases h
    · obtain rfl := List.mem_singleton.mp h
      exact ⟨[], rfl, rfl, rfl⟩

-- ---------------------------------------------------------------------------
-- A plain pattern matches at every word of its language
-- ---------------------------------------------------------------------------

theorem self_mem_rounds (step : Cursor α → List (Cursor α)) (n : Nat) (c : Cursor α) :
    c ∈ rounds step n c := by
  cases n with
  | zero => exact List.mem_singleton_self c
  | succ n => exact List.mem_append_right _ (List.mem_singleton_self c)

theorem mem_rounds_flatten {r : Regex α} {step : Cursor α → List (Cursor α)}
    (hstep : ∀ before rest, ∀ w ∈ r.language,
      Cursor.past before w rest ∈ step ⟨before, w ++ rest⟩)
    {words : List (List α)} (hwords : ∀ w ∈ words, w ∈ r.language ∧ w ≠ []) {n : Nat}
    (hn : words.flatten.length ≤ n) (before : Option α) (rest : List α) :
    Cursor.past before words.flatten rest ∈ rounds step n ⟨before, words.flatten ++ rest⟩ := by
  induction words generalizing n before with
  | nil => exact self_mem_rounds step n _
  | cons w words ih =>
    obtain ⟨⟨hw, hne⟩, hwords⟩ := List.forall_mem_cons.mp hwords
    have hpos := List.length_pos_of_ne_nil hne
    rw [List.flatten_cons, List.length_append] at hn
    cases n with
    | zero => omega
    | succ n =>
      have hmid := hstep before (words.flatten ++ rest) w hw
      have hrest := ih hwords (Nat.le_of_lt_succ (by omega : words.flatten.length < n + 1))
        (Cursor.past before w (words.flatten ++ rest)).before
      rw [Cursor.past_append] at hrest
      rw [List.flatten_cons, List.append_assoc]
      refine List.mem_append_left _
        (List.mem_flatMap.mpr ⟨_, List.mem_filter.mpr ⟨hmid, ?_⟩, hrest⟩)
      simpa [Cursor.past] using hpos

theorem mem_ends_of_mem_language {r : Regex α} (hplain : r.Plain) {w : List α}
    (hw : w ∈ r.language) (before : Option α) (rest : List α) :
    Cursor.past before w rest ∈ r.ends ⟨before, w ++ rest⟩ := by
  induction r generalizing w before rest with
  | empty =>
    obtain rfl : w = [] := hw
    exact List.mem_singleton_self _
  | one p =>
    obtain ⟨a, ha, rfl⟩ := hw
    simp [ends, ha, Cursor.past]
  | cat r s ihr ihs =>
    obtain ⟨u, hu, v, hv, rfl⟩ := Language.mem_mul.mp hw
    rw [List.append_assoc, ← Cursor.past_append]
    exact List.mem_flatMap.mpr ⟨_, ihr hplain.1 hu before (v ++ rest), ihs hplain.2 hv _ rest⟩
  | alt r s ihr ihs =>
    obtain hw | hw := hw
    · exact List.mem_append_left _ (ihr hplain.1 hw before rest)
    · exact List.mem_append_right _ (ihs hplain.2 hw before rest)
  | star r ih =>
    obtain ⟨words, rfl, hwords⟩ := Language.mem_kstar_iff_exists_nonempty.mp hw
    refine mem_rounds_flatten (fun before rest w hw => ih hplain hw before rest) hwords ?_
      before rest
    rw [List.length_append]
    exact Nat.le_add_right _ _
  | notBehind p | notAhead p => exact hplain.elim

theorem mem_language_of_matchesAll {r : Regex α} {text : List α} (h : r.matchesAll text = true) :
    text ∈ r.language := by
  obtain ⟨c, hc, hempty⟩ := List.any_eq_true.mp h
  obtain ⟨w, hw, hrest, -⟩ := leads_of_mem_ends r hc
  rw [List.isEmpty_iff.mp hempty, List.append_nil] at hrest
  rwa [show text = w from hrest]

theorem matchesAll_iff {r : Regex α} (hplain : r.Plain) {text : List α} :
    r.matchesAll text = true ↔ text ∈ r.language := by
  refine ⟨mem_language_of_matchesAll, fun h => ?_⟩
  have hend := mem_ends_of_mem_language hplain h none []
  rw [List.append_nil] at hend
  exact List.any_eq_true.mpr ⟨_, hend, rfl⟩

-- ---------------------------------------------------------------------------
-- Finding
-- ---------------------------------------------------------------------------

/-- No match begins in the text when it goes on with `after`. -/
def Quiet (r : Regex α) (before : Option α) (after : List α) : List α → Prop
  | [] => True
  | a :: text => r.first ⟨before, a :: text ++ after⟩ = none ∧ Quiet r (some a) after text

theorem Leads.of_first {r : Regex α} {c c' : Cursor α} (h : r.first c = some c') : Leads r c c' :=
  leads_of_mem_ends r (List.mem_of_head? h)

/-- What is found is a match, and none begins before it. -/
theorem find?_eq_some {r : Regex α} {before : Option α} {text gap m : List α} {c : Cursor α}
    (h : r.find? before text = some (gap, m, c)) :
    text = gap ++ (m ++ c.rest) ∧ m ∈ r.language ∧ Quiet r before (m ++ c.rest) gap := by
  induction text generalizing before gap with
  | nil =>
    obtain ⟨c', hfirst, heq⟩ := Option.map_eq_some_iff.mp h
    cases heq
    obtain ⟨w, hw, hrest, -⟩ := Leads.of_first hfirst
    obtain ⟨rfl, hnil⟩ := List.append_eq_nil_iff.mp hrest.symm
    exact ⟨hrest, hw, trivial⟩
  | cons a text ih =>
    rw [find?] at h
    split at h
    next c' hfirst =>
      cases h
      obtain ⟨w, hw, hrest, -⟩ := Leads.of_first hfirst
      have hlength := congrArg List.length hrest
      rw [List.length_cons, List.length_append] at hlength
      have hm : (a :: text).take (text.length + 1 - c.rest.length) = w := by
        rw [show a :: text = w ++ c.rest from hrest, hlength, Nat.add_sub_cancel,
          List.take_left]
      rw [hm]
      exact ⟨hrest, hw, trivial⟩
    next hfirst =>
      obtain ⟨⟨gap, m, c⟩, hfind, heq⟩ := Option.map_eq_some_iff.mp h
      cases heq
      obtain ⟨rfl, hm, hquiet⟩ := ih hfind
      exact ⟨rfl, hm, hfirst, hquiet⟩

theorem find?_eq_none {r : Regex α} {before : Option α} {text : List α}
    (h : r.find? before text = none) : Quiet r before [] text := by
  induction text generalizing before with
  | nil => trivial
  | cons a text ih =>
    rw [find?] at h
    split at h
    next => cases h
    next hfirst =>
      rw [Quiet, List.append_nil]
      exact ⟨hfirst, ih (Option.map_eq_none_iff.mp h)⟩

/-- No word of a plain pattern's language begins in a quiet text. -/
theorem Quiet.avoids {r : Regex α} (hplain : r.Plain) {before : Option α} {after text : List α}
    (h : Quiet r before after text) {w : List α} (hw : w ∈ r.language) :
    Scan.Avoids w after text := by
  induction text generalizing before with
  | nil => trivial
  | cons a text ih =>
    obtain ⟨hfirst, hquiet⟩ := h
    refine ⟨fun ⟨rest, hrest⟩ => ?_, ih hquiet⟩
    have hend := mem_ends_of_mem_language hplain hw before rest
    rw [hrest] at hend
    exact absurd hend (List.head?_eq_none_iff.mp hfirst ▸ List.not_mem_nil)

theorem finds_iff {r : Regex α} (hplain : r.Plain) (hsolid : [] ∉ r.language) {text : List α} :
    r.finds text = true ↔ ∃ w ∈ r.language, w <:+: text := by
  rw [finds]
  cases hfind : r.find? none text with
  | none =>
    refine iff_of_false Bool.false_ne_true fun ⟨w, hw, hpart⟩ => ?_
    have havoids := (find?_eq_none hfind).avoids hplain hw
    exact havoids.not_infix (fun hnil => hsolid (hnil ▸ hw)) hpart
  | some found =>
    obtain ⟨gap, m, c⟩ := found
    obtain ⟨rfl, hm, -⟩ := find?_eq_some hfind
    exact iff_of_true rfl ⟨m, hm, gap, c.rest, List.append_assoc _ _ _⟩

/-- The text that was cut. -/
def join (pieces : List (List α × List α)) (tail : List α) : List α :=
  pieces.flatMap (fun (gap, m) => gap ++ m) ++ tail

theorem join_cons (gap m : List α) (pieces : List (List α × List α)) (tail : List α) :
    join ((gap, m) :: pieces) tail = gap ++ (m ++ join pieces tail) := by
  simp [join]

theorem tilesFrom_spec (r : Regex α) (fuel : Nat) (before : Option α) (text : List α) :
    join (r.tilesFrom fuel before text).1 (r.tilesFrom fuel before text).2 = text ∧
      ∀ piece ∈ (r.tilesFrom fuel before text).1, piece.2 ∈ r.language := by
  induction fuel generalizing before text with
  | zero => exact ⟨rfl, fun _ h => absurd h List.not_mem_nil⟩
  | succ fuel ih =>
    rw [tilesFrom]
    split
    next => exact ⟨rfl, fun _ h => absurd h List.not_mem_nil⟩
    next gap m c hfind =>
      obtain ⟨rfl, hm, -⟩ := find?_eq_some hfind
      obtain ⟨before', rest⟩ := c
      cases m with
      | cons a m =>
        obtain ⟨hjoin, hlanguage⟩ := ih before' rest
        refine ⟨?_, List.forall_mem_cons.mpr ⟨hm, hlanguage⟩⟩
        rw [join_cons, hjoin]
      | nil =>
        cases rest with
        | nil => exact ⟨join_cons gap [] [] [], List.forall_mem_singleton.mpr hm⟩
        | cons a rest =>
          obtain ⟨hjoin, hlanguage⟩ := ih (some a) rest
          dsimp only
          generalize r.tilesFrom fuel (some a) rest = later at hjoin hlanguage ⊢
          obtain ⟨pieces, tail⟩ := later
          cases pieces with
          | nil =>
            obtain rfl : tail = rest := hjoin
            exact ⟨join_cons gap [] [] _, List.forall_mem_singleton.mpr hm⟩
          | cons piece pieces =>
            obtain ⟨gap', m'⟩ := piece
            rw [join_cons] at hjoin
            obtain ⟨hm', hlanguage⟩ := List.forall_mem_cons.mp hlanguage
            have hall := List.forall_mem_cons (p := fun piece => piece.2 ∈ r.language)
              (a := (gap, [])) (l := (a :: gap', m') :: pieces)
            refine ⟨?_, hall.mpr ⟨hm, List.forall_mem_cons.mpr ⟨hm', hlanguage⟩⟩⟩
            rw [join_cons, join_cons, ← hjoin]
            rfl

theorem tiles_spec (r : Regex α) (text : List α) :
    join (r.tiles text).1 (r.tiles text).2 = text ∧
      ∀ piece ∈ (r.tiles text).1, piece.2 ∈ r.language :=
  tilesFrom_spec r _ none text

theorem tiles_eq_nil_iff {r : Regex α} {text : List α} :
    (r.tiles text).1 = [] ↔ r.finds text = false := by
  rw [tiles, tilesFrom, finds]
  split
  next hnone => simp [hnone]
  next gap m c hsome =>
    rw [hsome]
    refine iff_of_false ?_ Bool.noConfusion
    split
    · exact List.cons_ne_nil _ _
    · split
      · exact List.cons_ne_nil _ _
      · exact List.cons_ne_nil _ _
    · exact List.cons_ne_nil _ _

/-- A text cut at the matches of a pattern that never matches nothing. -/
inductive Tiling (r : Regex α) : List α → List (List α × List α) → List α → Prop
  | tail : Quiet r before [] tail → Tiling r tail [] tail
  | tile : Quiet r before (m ++ rest) gap → m ∈ r.language → Tiling r rest pieces tail →
      Tiling r (gap ++ (m ++ rest)) ((gap, m) :: pieces) tail

theorem tiling_tilesFrom {r : Regex α} (hsolid : [] ∉ r.language) {fuel : Nat} {text : List α}
    (hfuel : text.length < fuel) (before : Option α) :
    Tiling r text (r.tilesFrom fuel before text).1 (r.tilesFrom fuel before text).2 := by
  induction fuel generalizing text before with
  | zero => exact absurd hfuel (Nat.not_lt_zero _)
  | succ fuel ih =>
    rw [tilesFrom]
    split
    next hnone => exact .tail (find?_eq_none hnone)
    next gap m c hfind =>
      obtain ⟨rfl, hm, hquiet⟩ := find?_eq_some hfind
      cases m with
      | nil => exact absurd hm hsolid
      | cons a m =>
        refine .tile hquiet hm (ih ?_ c.before)
        simp only [List.length_append, List.length_cons] at hfuel
        omega

theorem tiling_tiles {r : Regex α} (hsolid : [] ∉ r.language) (text : List α) :
    Tiling r text (r.tiles text).1 (r.tiles text).2 :=
  tiling_tilesFrom hsolid (Nat.lt_succ_self _) none

-- ---------------------------------------------------------------------------
-- What can be read off a pattern
-- ---------------------------------------------------------------------------

instance Plain.decide : (r : Regex α) → Decidable r.Plain
  | .empty | .one _ => inferInstanceAs (Decidable True)
  | .cat r s | .alt r s =>
    haveI := Plain.decide r
    haveI := Plain.decide s
    inferInstanceAs (Decidable (_ ∧ _))
  | .star r => Plain.decide r
  | .notBehind _ | .notAhead _ => inferInstanceAs (Decidable False)

def nullable : Regex α → Bool
  | .empty | .star _ | .notBehind _ | .notAhead _ => true
  | .one _ => false
  | .cat r s => r.nullable && s.nullable
  | .alt r s => r.nullable || s.nullable

/-- A match can begin with `c`. -/
def begins (c : α) : Regex α → Bool
  | .empty | .notBehind _ | .notAhead _ => false
  | .one p => p c
  | .cat r s => r.begins c || r.nullable && s.begins c
  | .alt r s => r.begins c || s.begins c
  | .star r => r.begins c

/-- No match has `c` in it. -/
def excludes (c : α) : Regex α → Bool
  | .empty | .notBehind _ | .notAhead _ => true
  | .one p => !p c
  | .cat r s | .alt r s => r.excludes c && s.excludes c
  | .star r => r.excludes c

variable {r : Regex α} {c : α} {w : List α}

theorem nullable_of_mem (h : [] ∈ r.language) : r.nullable = true := by
  induction r with
  | empty | star | notBehind | notAhead => rfl
  | one p =>
    obtain ⟨a, -, ha⟩ := h
    cases ha
  | cat r s ihr ihs =>
    obtain ⟨u, hu, v, hv, huv⟩ := Language.mem_mul.mp h
    obtain ⟨rfl, rfl⟩ := List.append_eq_nil_iff.mp huv
    exact Bool.and_eq_true_iff.mpr ⟨ihr hu, ihs hv⟩
  | alt r s ihr ihs => exact Bool.or_eq_true_iff.mpr (h.imp ihr ihs)

theorem solid_of_nullable (h : r.nullable = false) : [] ∉ r.language :=
  fun hnil => Bool.false_ne_true (h.symm.trans (nullable_of_mem hnil))

theorem begins_of_mem (h : c :: w ∈ r.language) : r.begins c = true := by
  induction r generalizing w with
  | empty | notBehind | notAhead => cases h
  | one p =>
    obtain ⟨a, ha, heq⟩ := h
    obtain ⟨rfl, -⟩ := List.cons.inj heq
    exact ha
  | cat r s ihr ihs =>
    obtain ⟨u, hu, v, hv, huv⟩ := Language.mem_mul.mp h
    cases u with
    | nil =>
      obtain rfl : v = c :: w := huv
      exact Bool.or_eq_true_iff.mpr
        (.inr (Bool.and_eq_true_iff.mpr ⟨nullable_of_mem hu, ihs hv⟩))
    | cons a u =>
      obtain ⟨rfl, -⟩ := List.cons.inj huv
      exact Bool.or_eq_true_iff.mpr (.inl (ihr hu))
  | alt r s ihr ihs => exact Bool.or_eq_true_iff.mpr (h.imp ihr ihs)
  | star r ih =>
    obtain ⟨words, heq, hwords⟩ := Language.mem_kstar_iff_exists_nonempty.mp h
    cases words with
    | nil => cases heq
    | cons u words =>
      obtain ⟨⟨hu, hne⟩, -⟩ := List.forall_mem_cons.mp hwords
      obtain ⟨a, u, rfl⟩ := List.exists_cons_of_ne_nil hne
      obtain ⟨rfl, -⟩ := List.cons.inj heq
      exact ih hu

theorem not_mem_of_excludes (hr : r.excludes c = true) (h : w ∈ r.language) : c ∉ w := by
  induction r generalizing w with
  | empty | notBehind | notAhead =>
    obtain rfl : w = [] := h
    exact List.not_mem_nil
  | one p =>
    obtain ⟨a, ha, rfl⟩ := h
    rintro hc
    obtain rfl := List.mem_singleton.mp hc
    rw [excludes, ha] at hr
    cases hr
  | cat r s ihr ihs =>
    obtain ⟨hr, hs⟩ := Bool.and_eq_true_iff.mp hr
    obtain ⟨u, hu, v, hv, rfl⟩ := Language.mem_mul.mp h
    exact fun hc => (List.mem_append.mp hc).elim (ihr hr hu) (ihs hs hv)
  | alt r s ihr ihs =>
    obtain ⟨hr, hs⟩ := Bool.and_eq_true_iff.mp hr
    exact h.elim (ihr hr) (ihs hs)
  | star r ih =>
    obtain ⟨words, rfl, hwords⟩ := Language.mem_kstar.mp h
    intro hc
    obtain ⟨u, hu, hcu⟩ := List.mem_flatten.mp hc
    exact ih hr (hwords u hu) hcu

theorem mem_language_lit [DecidableEq α] {u : List α} : w ∈ (lit u).language ↔ w = u := by
  induction u generalizing w with
  | nil => exact Iff.rfl
  | cons a u ih =>
    rw [lit, language, Language.mem_mul]
    constructor
    · rintro ⟨x, ⟨b, hb, rfl⟩, v, hv, rfl⟩
      rw [of_decide_eq_true hb, ih.mp hv]
      rfl
    · rintro rfl
      exact ⟨[a], ⟨a, decide_eq_true rfl, rfl⟩, u, ih.mpr rfl, rfl⟩

theorem language_seq (rs : List (Regex α)) : (seq rs).language = (rs.map language).prod := by
  induction rs with
  | nil => rfl
  | cons r rs ih => rw [seq, language, ih, List.map_cons, List.prod_cons]

theorem mem_language_seq_concat {rs : List (Regex α)} :
    w ∈ (seq (rs ++ [r])).language ↔
      ∃ u ∈ (seq rs).language, ∃ v ∈ r.language, u ++ v = w := by
  rw [language_seq, language_seq, List.map_append, List.prod_append, Language.mem_mul]
  simp

theorem self_mem_lit [DecidableEq α] (u : List α) : u ∈ (lit u).language := mem_language_lit.mpr rfl

theorem append_mem_seq {u v : List α} {rs : List (Regex α)} (hu : u ∈ r.language)
    (hv : v ∈ (seq rs).language) : u ++ v ∈ (seq (r :: rs)).language :=
  Language.append_mem_mul hu hv

theorem mem_seq_singleton (h : w ∈ r.language) : w ∈ (seq [r]).language :=
  List.append_nil w ▸ append_mem_seq h Language.nil_mem_one

theorem mem_language_anyOf {rs : List (Regex α)} (h : w ∈ (anyOf rs).language) (hrs : rs ≠ []) :
    ∃ r ∈ rs, w ∈ r.language := by
  induction rs with
  | nil => exact absurd rfl hrs
  | cons r rs ih =>
    cases rs with
    | nil => exact ⟨r, List.mem_cons_self, h⟩
    | cons s rs =>
      obtain h | h := h
      · exact ⟨r, List.mem_cons_self, h⟩
      · obtain ⟨t, ht, hw⟩ := ih h (List.cons_ne_nil _ _)
        exact ⟨t, List.mem_cons_of_mem _ ht, hw⟩

theorem mem_language_anyOf_of_mem {rs : List (Regex α)} (hr : r ∈ rs) (h : w ∈ r.language) :
    w ∈ (anyOf rs).language := by
  induction rs with
  | nil => cases hr
  | cons s rs ih =>
    cases rs with
    | nil =>
      obtain rfl := List.mem_singleton.mp hr
      exact h
    | cons t rs =>
      obtain rfl | hr := List.mem_cons.mp hr
      · exact .inl h
      · exact .inr (ih hr)

theorem mem_language_star_one {p : α → Bool} :
    w ∈ (Regex.star (one p)).language ↔ ∀ a ∈ w, p a = true := by
  constructor
  · intro h a ha
    obtain ⟨words, rfl, hwords⟩ := Language.mem_kstar.mp h
    obtain ⟨u, hu, hau⟩ := List.mem_flatten.mp ha
    obtain ⟨b, hb, rfl⟩ := hwords u hu
    rwa [List.mem_singleton.mp hau]
  · intro h
    refine Language.mem_kstar.mpr ⟨w.map fun a => [a], ?_, fun u hu => ?_⟩
    · rw [← List.flatMap_def, List.flatMap_singleton']
    · obtain ⟨a, ha, rfl⟩ := List.mem_map.mp hu
      exact ⟨a, h a ha, rfl⟩

theorem mem_language_plus_one {p : α → Bool} :
    w ∈ (plus (one p)).language ↔ w ≠ [] ∧ ∀ a ∈ w, p a = true := by
  rw [plus, language, Language.mem_mul]
  constructor
  · rintro ⟨u, ⟨a, ha, rfl⟩, v, hv, rfl⟩
    exact ⟨List.cons_ne_nil _ _, List.forall_mem_cons.mpr ⟨ha, mem_language_star_one.mp hv⟩⟩
  · rintro ⟨hne, h⟩
    obtain ⟨a, v, rfl⟩ := List.exists_cons_of_ne_nil hne
    obtain ⟨ha, hv⟩ := List.forall_mem_cons.mp h
    exact ⟨[a], ⟨a, ha, rfl⟩, v, mem_language_star_one.mpr hv, rfl⟩

end Regex
end ShinySongTools
