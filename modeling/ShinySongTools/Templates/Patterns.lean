import Mathlib
import ShinySongTools.Holes

/-!
# The patterns of the translation templates

Texts are lists of UTF-16 code units. The patterns are the ones
`translation_templates` compiles, and what its own placeholders, the tokens,
look like to them.
-/

namespace ShinySongTools.Templates

open Regex

abbrev Text := List UInt16

def unit (c : Char) : UInt16 := c.toNat.toUInt16

def units (text : String) : Text := text.toList.map unit

-- ---------------------------------------------------------------------------
-- Classes and sequences
-- ---------------------------------------------------------------------------

def between (a b : Char) (u : UInt16) : Bool := unit a ≤ u && u ≤ unit b

def literal (text : String) : Regex UInt16 := lit (units text)

def oneOf (text : String) : Regex UInt16 := .one fun u => u ∈ units text

def noneOf (text : String) : Regex UInt16 := .one fun u => u ∉ units text

def digit : Regex UInt16 := .one (between '0' '9')

def wideDigit : Regex UInt16 := .one fun u => between '0' '9' u || between '０' '９' u

def isLetter (u : UInt16) : Bool := between 'A' 'Z' u || between 'a' 'z' u

-- ---------------------------------------------------------------------------
-- The patterns
-- ---------------------------------------------------------------------------

def originalBracePattern : Regex UInt16 :=
  seq [literal "\x7b", plus digit, opt (seq [literal ":", .star (noneOf "\x7d")]), literal "\x7d"]

def originalPrintfPattern : Regex UInt16 :=
  seq [literal "%", opt (seq [plus digit, literal "$"]), .star (oneOf "-+#0 '"), .star digit,
    opt (seq [literal ".", anyOf [plus digit, literal "*"]]),
    opt (anyOf (["hh", "h", "ll", "l", "j", "z", "t", "L"].map literal)),
    oneOf "diuoxXfFeEgGaAcspn%"]

inductive Kind where
  | number
  | attribute
  | rarity
  | character
  | event
  | card
  deriving DecidableEq, Repr

def Kind.name : Kind → String
  | .number => "number"
  | .attribute => "attribute"
  | .rarity => "rarity"
  | .character => "character"
  | .event => "event"
  | .card => "card"

/-- The order in which the pattern tries them. -/
def kinds : List Kind := [.number, .attribute, .rarity, .character, .event, .card]

/-- What the tool keeps for itself: every token begins with it. -/
def reserved : Text := units "\x7b\x7bsst:"

def tokenFront : List (Regex UInt16) :=
  [lit reserved, anyOf (kinds.map fun kind => literal kind.name), literal ":", plus digit]

def customPattern : Regex UInt16 := seq (tokenFront ++ [literal "\x7d\x7d"])

def tagPattern : Regex UInt16 := seq [literal "<", .star (noneOf ">"), literal ">"]

/-- Anything between the reserved beginning and two closing braces. -/
def sstPattern : Regex UInt16 := seq [lit reserved, plus (noneOf "\x7d"), literal "\x7d\x7d"]

def protectedPattern : Regex UInt16 :=
  anyOf [originalBracePattern, originalPrintfPattern, tagPattern, sstPattern]

def numberPattern : Regex UInt16 :=
  seq [plus wideDigit, .star (seq [oneOf ".,．，:/：／-", plus wideDigit])]

/-- One of these words with no letter next to it. -/
def word (texts : List String) : Regex UInt16 :=
  seq [.notBehind isLetter, anyOf (texts.map literal), .notAhead isLetter]

def scalarPattern : Regex UInt16 :=
  anyOf [word ["SSR", "SR", "R"], word ["Vo", "Da", "Vi"], numberPattern]

def bracketed (left right : String) : Regex UInt16 :=
  seq [literal left, plus (noneOf (right ++ "\r\n")), literal right]

def cardPattern : Regex UInt16 := bracketed "【" "】"

def quotePatterns : List (Regex UInt16) := [bracketed "「" "」", bracketed "『" "』"]

def eventContextPattern : Regex UInt16 :=
  anyOf (["イベント", "ガシャ", "ミッション", "キャンペーン", "ランキング", "Anniversary",
    "アニバーサリー", "記念", "フェス"].map literal)

/-- `[\s\u200B\uFEFF\u3000]*` -/
def blankPattern : Regex UInt16 :=
  .star (.one fun u => u = 32 || 9 ≤ u && u ≤ 13 || u = 0x200B || u = 0xFEFF || u = 0x3000)

def matcherValues (pattern : Regex UInt16) (text : Text) : List Text :=
  (pattern.tiles text).1.map Prod.snd

structure Placeholders where
  original : List Text
  custom : List Text
  deriving DecidableEq

def placeholders (text : Text) : Placeholders where
  original := matcherValues originalBracePattern text ++ matcherValues originalPrintfPattern text
  custom := matcherValues customPattern text

def token (kind : Kind) (index : Nat) : Text :=
  reserved ++ units kind.name ++ units ":" ++ units index.repr ++ units "\x7d\x7d"

-- ---------------------------------------------------------------------------
-- Tokens
-- ---------------------------------------------------------------------------

theorem toNat_unit {c : Char} (h : c.toNat < 2 ^ 16) : (unit c).toNat = c.toNat := by
  rw [unit, Nat.toUInt16, UInt16.toNat_ofNat', Nat.mod_eq_of_lt h]

theorem digits_of_mem_repr {index : Nat} {c : Char} (h : c ∈ index.repr.toList) :
    48 ≤ c.toNat ∧ c.toNat ≤ 57 := by
  rw [Nat.repr_eq_ofList_toDigits, String.toList_ofList] at h
  have hdigit := Nat.isDigit_of_mem_toDigits (by decide) (by decide) h
  rwa [Char.isDigit_iff_toNat] at hdigit

theorem between_of_mem_repr {index : Nat} {u : UInt16} (h : u ∈ units index.repr) :
    between '0' '9' u = true := by
  obtain ⟨c, hc, rfl⟩ := List.mem_map.mp h
  obtain ⟨hlow, hhigh⟩ := digits_of_mem_repr hc
  have hunit := toNat_unit (c := c) (by omega)
  simp only [between, Bool.and_eq_true, decide_eq_true_eq, UInt16.le_iff_toNat_le, hunit]
  exact ⟨hlow, hhigh⟩

theorem units_repr_injective {m n : Nat} (h : units m.repr = units n.repr) : m = n := by
  have hback (k : Nat) : (units k.repr).map (fun u => Char.ofNat u.toNat) = k.repr.toList := by
    rw [units, List.map_map]
    refine (List.map_congr_left fun c hc => ?_).trans (List.map_id _)
    obtain ⟨-, hhigh⟩ := digits_of_mem_repr hc
    rw [Function.comp_apply, toNat_unit (by omega), Char.ofNat_toNat, id]
  refine Nat.repr_injective (String.toList_inj.mp ?_)
  rw [← hback m, ← hback n, h]

theorem token_mem_customPattern (kind : Kind) (index : Nat) :
    token kind index ∈ customPattern.language := by
  have hname : units kind.name ∈ (anyOf (kinds.map fun kind => literal kind.name)).language :=
    mem_language_anyOf_of_mem (List.mem_map_of_mem (by cases kind <;> decide)) (self_mem_lit _)
  have hdigits : units index.repr ∈ (plus digit).language := by
    refine mem_language_plus_one.mpr ⟨fun hnil => ?_, fun u hu => between_of_mem_repr hu⟩
    exact Nat.repr_ne_empty (String.toList_eq_nil_iff.mp (List.map_eq_nil_iff.mp hnil))
  have hfront := append_mem_seq (self_mem_lit reserved) (append_mem_seq hname
    (append_mem_seq (self_mem_lit (units ":")) (mem_seq_singleton hdigits)))
  refine mem_language_seq_concat.mpr ⟨_, hfront, _, self_mem_lit _, ?_⟩
  simp only [token, List.append_assoc]

-- ---------------------------------------------------------------------------
-- What a token is made of
-- ---------------------------------------------------------------------------

def closing : Text := units "\x7d\x7d"

theorem token_inner {w : Text} (h : w ∈ customPattern.language) :
    ∃ inner, w = reserved ++ inner ++ closing ∧ unit '\x7d' ∉ inner ∧ inner ≠ [] := by
  obtain ⟨front, hfront, ending, hending, rfl⟩ := mem_language_seq_concat.mp h
  obtain ⟨marker, hmarker, inner, hinner, rfl⟩ := Language.mem_mul.mp hfront
  rw [mem_language_lit.mp hmarker, mem_language_lit.mp hending]
  refine ⟨inner, rfl, not_mem_of_excludes (by decide) hinner, fun hnil => ?_⟩
  exact solid_of_nullable (by decide) (hnil ▸ hinner)

/-- A token closes with the first two closing braces in it. -/
theorem token_shape {w : Text} (h : w ∈ customPattern.language) :
    ∃ body, w = body ++ closing ∧ unit '\x7d' ∉ body := by
  obtain ⟨inner, rfl, hinner, -⟩ := token_inner h
  exact ⟨_, rfl, List.not_mem_append (by decide) hinner⟩

theorem token_tail {w : Text} (h : w ∈ customPattern.language) :
    ∃ rest, w = reserved ++ rest ∧ unit '\x7b' ∉ rest := by
  obtain ⟨marker, hmarker, rest, hrest, rfl⟩ := Language.mem_mul.mp h
  rw [mem_language_lit.mp hmarker]
  exact ⟨rest, rfl, not_mem_of_excludes (by decide) hrest⟩

theorem reserved_unbordered : ∀ q ∈ reserved.tails, q ≠ [] → q ≠ reserved → ¬ q <+: reserved := by
  decide

theorem custom_vocabulary : Holed.Vocabulary reserved (customPattern.language : Set Text) where
  marker_ne_nil := by decide
  unbordered p q h hp hq := by
    refine reserved_unbordered q ((List.mem_tails q reserved).mpr ⟨p, h⟩) hq fun heq => hp ?_
    rw [heq] at h
    simpa using h
  marked w hw := by
    obtain ⟨rest, rfl, -⟩ := token_tail hw
    exact List.prefix_append reserved rest
  clear w hw := by
    obtain ⟨rest, rfl, hrest⟩ := token_tail hw
    have hclear : Scan.Clear reserved (units "sst:" ++ rest) :=
      Scan.clear_of_head_not_mem (List.not_mem_append (by decide) hrest)
    refine ⟨fun ⟨_, h⟩ => ?_, fun ⟨_, h⟩ => ?_, hclear⟩
    · cases h
    · cases h
  apart w hw w' hw' hstart := by
    obtain ⟨body, rfl, hbody⟩ := token_shape hw
    obtain ⟨body', rfl, hbody'⟩ := token_shape hw'
    obtain ⟨rest, hrest⟩ := hstart
    rw [List.append_assoc] at hrest
    rw [(Scan.append_cons_inj hbody hbody' hrest).1]

theorem Kind.name_injective {kind kind' : Kind} (h : units kind.name = units kind'.name) :
    kind = kind' := by
  cases kind <;> cases kind' <;> first | rfl | exact absurd h (by decide)

theorem token_injective {kind kind' : Kind} {index index' : Nat}
    (h : token kind index = token kind' index') : kind = kind' ∧ index = index' := by
  have hcolon (kind : Kind) : unit ':' ∉ units kind.name := by cases kind <;> decide
  simp only [token, List.append_assoc] at h
  obtain ⟨hname, hrest⟩ :=
    Scan.append_cons_inj (hcolon kind) (hcolon kind') (List.append_cancel_left h)
  exact ⟨Kind.name_injective hname, units_repr_injective (List.append_cancel_right hrest)⟩

-- ---------------------------------------------------------------------------
-- What is left as it is
-- ---------------------------------------------------------------------------

theorem customPattern_plain : customPattern.Plain := by decide

theorem customPattern_solid : [] ∉ customPattern.language := solid_of_nullable (by decide)

theorem protectedPattern_plain : protectedPattern.Plain := by decide

theorem protectedPattern_solid : [] ∉ protectedPattern.language := solid_of_nullable (by decide)

theorem scalarPattern_solid : [] ∉ scalarPattern.language := solid_of_nullable (by decide)

theorem token_protected {w : Text} (h : w ∈ customPattern.language) :
    w ∈ protectedPattern.language := by
  obtain ⟨inner, rfl, hinner, hne⟩ := token_inner h
  have hplus : inner ∈ (plus (noneOf "\x7d")).language := by
    refine mem_language_plus_one.mpr ⟨hne, fun u hu => decide_eq_true fun hmem => ?_⟩
    exact hinner (List.mem_singleton.mp hmem ▸ hu)
  have hsst : reserved ++ inner ++ closing ∈ sstPattern.language := by
    rw [List.append_assoc]
    exact append_mem_seq (self_mem_lit reserved)
      (append_mem_seq hplus (mem_seq_singleton (self_mem_lit closing)))
  exact mem_language_anyOf_of_mem (by simp) hsst

theorem concat_of_mem (front : List (Regex UInt16)) {c : Char} {m : Text}
    (h : m ∈ (seq (front ++ [lit [unit c]])).language) (hfront : (seq front).excludes (unit c)) :
    ∃ y, m = y ++ [unit c] ∧ unit c ∉ y := by
  obtain ⟨y, hy, ending, hending, rfl⟩ := mem_language_seq_concat.mp h
  rw [mem_language_lit.mp hending]
  exact ⟨y, rfl, not_mem_of_excludes hfront hy⟩

/-- A match closes with its first closing brace or angle bracket or with its
first two closing braces, or has no opening brace. -/
theorem protected_cases {m : Text} (h : m ∈ protectedPattern.language) :
    (∃ y, m = y ++ [unit '\x7d'] ∧ unit '\x7d' ∉ y) ∨
      unit '\x7b' ∉ m ∨
      (∃ y, m = y ++ [unit '>'] ∧ unit '>' ∉ y) ∨
      ∃ inner, m = reserved ++ inner ++ closing ∧ unit '\x7d' ∉ inner := by
  obtain ⟨r, hr, hm⟩ := mem_language_anyOf h (List.cons_ne_nil _ _)
  simp only [List.mem_cons, List.not_mem_nil, or_false] at hr
  obtain rfl | rfl | rfl | rfl := hr
  · exact .inl (concat_of_mem [literal "\x7b", plus digit, _] hm (by decide))
  · exact .inr (.inl (not_mem_of_excludes (by decide) hm))
  · exact .inr (.inr (.inl (concat_of_mem [literal "<", _] hm (by decide))))
  · have hm : m ∈ (seq ([lit reserved, plus (noneOf "\x7d")] ++ [lit closing])).language := hm
    obtain ⟨y, hy, ending, hending, rfl⟩ := mem_language_seq_concat.mp hm
    obtain ⟨marker, hmarker, inner, hinner, rfl⟩ := Language.mem_mul.mp hy
    rw [mem_language_lit.mp hmarker, mem_language_lit.mp hending]
    exact .inr (.inr (.inr ⟨inner, rfl, not_mem_of_excludes (by decide) hinner⟩))

end ShinySongTools.Templates
