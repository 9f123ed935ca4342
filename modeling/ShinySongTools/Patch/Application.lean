import ShinySongTools.Fallible
import ShinySongTools.Patch.Blocks

/-!
# Applying a patch

The blocks replace one after the other what their BEFORE text matches, and the
tool writes the result only when each of them is found exactly once. It counts
the matches that do not overlap.
-/

namespace ShinySongTools.Patch

open Publish (Bytes ascii)
open Scan
open Fallible (bind_eq_ok)

-- ---------------------------------------------------------------------------
-- The tool
-- ---------------------------------------------------------------------------

def die (message : String) : Except String α := .error s!"patch-apply: {message}\n"

def countFrom (needle : Bytes) : Nat → Bytes → Nat
  | 0, _ => 0
  | fuel + 1, rest =>
    match indexOf needle rest with
    | some i => 1 + countFrom needle fuel (rest.drop (i + needle.length))
    | none => 0

/-- Each turn drops a match, so that the length of the text is enough turns. -/
def countOccurrences (haystack needle : Bytes) : Nat :=
  countFrom needle (haystack.length + 1) haystack

def replaceOne (haystack needle replacement : Bytes) : Option Bytes := do
  let i ← indexOf needle haystack
  some (haystack.take i ++ (replacement ++ haystack.drop (i + needle.length)))

/-- The loop of `main`, from the block with the number `index`. -/
def applyBlocks (index : Nat) (text : Bytes) : List Block → Except String Bytes
  | [] => .ok text
  | block :: blocks =>
    let count := countOccurrences text block.before
    if count ≠ 1 then
      die s!"patch block #{index}: context drift (found {count} occurrences, expected exactly 1)"
    else
      match replaceOne text block.before block.after with
      | some text => applyBlocks (index + 1) text blocks
      | none => .error "attempt to use null value"

def ParseError.message : ParseError → String
  | .noBeforeMarker => "patch file: BEFORE marker without content"
  | .noAfterMarker => "patch file: BEFORE block without AFTER marker"
  | .noEndMarker => "patch file: AFTER block without END marker"
  | .emptyBefore => "patch file: empty BEFORE block"

/-- What is written for a source text and a patch file. -/
def patched (source patchText : Bytes) : Except String Bytes :=
  match parseBlocks patchText with
  | .error e => die e.message
  | .ok blocks =>
    if blocks.length = 0 then die "patch file contains no blocks"
    else applyBlocks 1 source blocks

structure Options where
  input : Option String
  patch : Option String
  output : Option String

def parseArgs (options : Options) : List String → Except String Options
  | [] => .ok options
  | arg :: rest =>
    if arg = "--input" then
      match rest with
      | value :: rest => parseArgs { options with input := some value } rest
      | [] => die "--input requires a value"
    else if arg = "--patch" then
      match rest with
      | value :: rest => parseArgs { options with patch := some value } rest
      | [] => die "--patch requires a value"
    else if arg = "--output" then
      match rest with
      | value :: rest => parseArgs { options with output := some value } rest
      | [] => die "--output requires a value"
    else die s!"unknown argument: {arg}"

def orDie (value : Option α) (message : String) : Except String α :=
  match value with
  | some value => .ok value
  | none => die message

def readOrDie (readFileAlloc : String → Nat → Except String Bytes) (path : String) (limit : Nat) :
    Except String Bytes :=
  match readFileAlloc path limit with
  | .ok content => .ok content
  | .error err => die s!"cannot read {path}: {err}"

/-- The file that the tool writes and what is in it, or the message that it dies with before. -/
def main (readFileAlloc : String → Nat → Except String Bytes) (args : List String) :
    Except String (String × Bytes) := do
  let options ← parseArgs ⟨none, none, none⟩ args
  let inPath ← orDie options.input "--input is required"
  let patchPath ← orDie options.patch "--patch is required"
  let outPath ← orDie options.output "--output is required"
  let source ← readOrDie readFileAlloc inPath (64 * 1024 * 1024)
  let patchText ← readOrDie readFileAlloc patchPath (4 * 1024 * 1024)
  let text ← patched source patchText
  return (outPath, text)

@[simp]
theorem die_ne_ok {message : String} {a : α} : die message ≠ .ok a := by
  simp [die]

-- ---------------------------------------------------------------------------
-- Blocks in a row
-- ---------------------------------------------------------------------------

/-- The text before the match, the AFTER text and the text after the match. -/
def replacedAt (text : Bytes) (block : Block) (i : Nat) : Bytes :=
  text.take i ++ (block.after ++ text.drop (i + block.before.length))

/-- Each block replaces its BEFORE text at the place that `Found` says. -/
inductive Chain (Found : Bytes → Bytes → Nat → Prop) : Bytes → List Block → Bytes → Prop
  | nil : Chain Found text [] text
  | cons : Found block.before text i → Chain Found (replacedAt text block i) blocks result →
    Chain Found text (block :: blocks) result

variable {Found Found' : Bytes → Bytes → Nat → Prop} {text mid result source patchText : Bytes}
variable {block : Block} {blocks rest : List Block} {i j : Nat}

theorem Chain.append (h : Chain Found text blocks mid) (h' : Chain Found mid rest result) :
    Chain Found text (blocks ++ rest) result := by
  induction h with
  | nil => exact h'
  | cons hfound _ ih => exact .cons hfound (ih h')

theorem Chain.split (h : Chain Found text (blocks ++ rest) result) :
    ∃ mid, Chain Found text blocks mid ∧ Chain Found mid rest result := by
  induction blocks generalizing text with
  | nil => exact ⟨text, .nil, h⟩
  | cons block blocks ih =>
    cases h with
    | cons hfound hrest =>
      obtain ⟨mid, hblocks, hrest⟩ := ih hrest
      exact ⟨mid, .cons hfound hblocks, hrest⟩

theorem Chain.mono (h : Chain Found text blocks result)
    (hfound : ∀ block ∈ blocks, ∀ text i, Found block.before text i → Found' block.before text i) :
    Chain Found' text blocks result := by
  induction h with
  | nil => exact .nil
  | cons hhere _ ih =>
    obtain ⟨hblock, hblocks⟩ := List.forall_mem_cons.mp hfound
    exact .cons (hblock _ _ hhere) (ih hblocks)

/-- Where there is at most one place, there is at most one result. -/
theorem Chain.eq (hfound : ∀ pat text i j, Found pat text i → Found pat text j → i = j)
    (h : Chain Found text blocks mid) (h' : Chain Found text blocks result) : mid = result := by
  induction h with
  | nil => cases h'; rfl
  | cons hhere _ ih =>
    cases h' with
    | cons hthere hrest =>
      cases hfound _ _ _ _ hhere hthere
      exact ih hrest

-- ---------------------------------------------------------------------------
-- What is counted
-- ---------------------------------------------------------------------------

section

variable {needle : Bytes} {fuel fuel' : Nat}

theorem countFrom_fuel (hneedle : needle ≠ []) (h : text.length < fuel)
    (h' : text.length < fuel') : countFrom needle fuel text = countFrom needle fuel' text := by
  induction fuel generalizing text fuel' with
  | zero => exact absurd h (Nat.not_lt_zero _)
  | succ fuel ih =>
    cases fuel' with
    | zero => exact absurd h' (Nat.not_lt_zero _)
    | succ fuel' =>
      rw [countFrom, countFrom]
      cases hindex : indexOf needle text with
      | none => rfl
      | some i =>
        have hbound := ((indexOf_eq_some_iff hneedle).mp hindex).1.bound
        have hpos := List.length_pos_of_ne_nil hneedle
        have hlength : (text.drop (i + needle.length)).length + 1 ≤ text.length := by
          rw [List.length_drop]
          omega
        exact congrArg (1 + ·) (ih (by omega) (by omega))

theorem countOccurrences_eq (hneedle : needle ≠ []) (text : Bytes) :
    countOccurrences text needle =
      match indexOf needle text with
      | some i => 1 + countOccurrences (text.drop (i + needle.length)) needle
      | none => 0 := by
  rw [countOccurrences, countFrom]
  cases hindex : indexOf needle text with
  | none => rfl
  | some i =>
    have hbound := ((indexOf_eq_some_iff hneedle).mp hindex).1.bound
    have hpos := List.length_pos_of_ne_nil hneedle
    refine congrArg (1 + ·) (countFrom_fuel hneedle ?_ (Nat.lt_succ_self _))
    rw [List.length_drop]
    omega

theorem countOccurrences_eq_zero (hneedle : needle ≠ []) :
    countOccurrences text needle = 0 ↔ ∀ i, ¬ Occurs needle text i := by
  rw [← indexOf_eq_none_iff hneedle, countOccurrences_eq hneedle]
  cases indexOf needle text with
  | none => exact iff_of_true rfl rfl
  | some i => simp

/-- One match is counted when the others overlap it. -/
theorem countOccurrences_eq_one (hneedle : needle ≠ []) :
    countOccurrences text needle = 1 ↔
      ∃ i, indexOf needle text = some i ∧ Clustered needle text i := by
  rw [countOccurrences_eq hneedle]
  cases hindex : indexOf needle text with
  | none => simp
  | some i =>
    obtain ⟨hoccurs, hfirst⟩ := (indexOf_eq_some_iff hneedle).mp hindex
    have hrest : 1 + countOccurrences (text.drop (i + needle.length)) needle = 1 ↔
        ∀ k, ¬ Occurs needle text (i + needle.length + k) := by
      rw [← forall_congr' fun k => not_congr (occurs_drop hneedle (i + needle.length)),
        ← countOccurrences_eq_zero hneedle]
      omega
    rw [hrest]
    constructor
    · intro hnone
      refine ⟨i, rfl, hoccurs, fun j hj => ⟨hfirst j hj, ?_⟩⟩
      by_contra hlate
      obtain ⟨k, rfl⟩ := Nat.exists_eq_add_of_le (Nat.le_of_not_lt hlate)
      exact hnone k hj
    · rintro ⟨k, hk, -, hclustered⟩ l hl
      cases hk
      have hlt := (hclustered _ hl).2
      omega

theorem replaceOne_eq (h : indexOf block.before text = some i) :
    replaceOne text block.before block.after = some (replacedAt text block i) := by
  rw [replaceOne, h]
  rfl

/-- The blocks pass when the matches of each overlap its first one. -/
theorem applyBlocks_eq_ok (index : Nat) (hblocks : ∀ block ∈ blocks, block.before ≠ []) :
    applyBlocks index text blocks = .ok result ↔ Chain Clustered text blocks result := by
  induction blocks generalizing index text with
  | nil =>
    constructor
    · intro h
      cases h
      exact .nil
    · intro h
      cases h
      rfl
  | cons block blocks ih =>
    obtain ⟨hblock, hblocks⟩ := List.forall_mem_cons.mp hblocks
    rw [applyBlocks]
    split
    next hcount =>
      refine iff_of_false (by simp) fun h => ?_
      cases h with
      | cons hfound _ =>
        have hindex := (indexOf_eq_some_iff hblock).mpr ⟨hfound.1, fun j hj => (hfound.2 j hj).1⟩
        exact hcount ((countOccurrences_eq_one hblock).mpr ⟨_, hindex, hfound⟩)
    next hcount =>
      obtain ⟨i, hindex, hclustered⟩ :=
        (countOccurrences_eq_one hblock).mp (Decidable.not_not.mp hcount)
      rw [replaceOne_eq hindex]
      constructor
      · intro h
        exact .cons hclustered ((ih (index + 1) hblocks).mp h)
      · intro h
        cases h with
        | cons hfound hrest =>
          cases hfound.eq hclustered
          exact (ih (index + 1) hblocks).mpr hrest

end

-- ---------------------------------------------------------------------------
-- When the patch is unambiguous
-- ---------------------------------------------------------------------------

/-- Printed blocks are read back, a malformed file is refused, and the text is written that results
from replacing each BEFORE text at its only place, if it has one. -/
structure Unambiguous (source patchText : Bytes) : Prop where
  recovers : ∀ lines printed, Written lines patchText → Printed printed lines →
    parseBlocks patchText = .ok (printed.map LineBlock.block)
  reports : ∀ lines, Written lines patchText → Malformed lines →
    ∃ e, parseBlocks patchText = .error e
  applies : ∀ lines printed, Written lines patchText → Printed printed lines → ∀ result,
    applyBlocks 1 source (printed.map LineBlock.block) = .ok result ↔
      Chain Unique source (printed.map LineBlock.block) result
  writes : ∀ lines printed, Written lines patchText → Printed printed lines → ∀ result,
    patched source patchText = .ok result ↔
      printed ≠ [] ∧ Chain Unique source (printed.map LineBlock.block) result

/-- Every block has matches, all of them over its first one, and one block has two. -/
def Doubled (source patchText : Bytes) : Prop :=
  ∃ lines printed, Written lines patchText ∧ Printed printed lines ∧
    ∃ passed block rest mid i j result,
      printed.map LineBlock.block = passed ++ block :: rest ∧
      Chain Clustered source passed mid ∧
      Clustered block.before mid i ∧ Occurs block.before mid j ∧ j ≠ i ∧
      Chain Clustered (replacedAt mid block i) rest result

theorem LineBlock.forall_before_ne_nil (printed : List LineBlock) :
    ∀ block ∈ printed.map LineBlock.block, block.before ≠ [] := by
  intro block hblock
  obtain ⟨b, -, rfl⟩ := List.mem_map.mp hblock
  exact joined_eq_nil.not.mpr b.nonempty

theorem Chain.clustered (hblocks : ∀ block ∈ blocks, block.before ≠ [])
    (h : Chain Unique text blocks result) : Chain Clustered text blocks result :=
  h.mono fun block hblock _ _ hunique => hunique.clustered (hblocks block hblock)

/-- Without a block that has two, the places are the only ones. -/
theorem Chain.unique (h : Chain Clustered text blocks result)
    (hsingle : ∀ passed block rest mid i j, blocks = passed ++ block :: rest →
      Chain Clustered text passed mid → Clustered block.before mid i →
      Occurs block.before mid j → Chain Clustered (replacedAt mid block i) rest result → j = i) :
    Chain Unique text blocks result := by
  induction h with
  | nil => exact .nil
  | cons hfound hrest ih =>
    refine .cons ⟨hfound.1, fun j hj => hsingle [] _ _ _ _ j rfl .nil hfound hj hrest⟩ (ih ?_)
    rintro passed block rest mid i j rfl hpassed
    exact hsingle (_ :: passed) block rest mid i j rfl (.cons hfound hpassed)

theorem patched_eq_ok {printed : List LineBlock}
    (h : parseBlocks patchText = .ok (printed.map LineBlock.block)) :
    patched source patchText = .ok result ↔
      printed ≠ [] ∧ applyBlocks 1 source (printed.map LineBlock.block) = .ok result := by
  rw [patched, h]
  cases printed with
  | nil => simp
  | cons b printed => simp

theorem unambiguous_of_applies
    (h : ∀ lines printed, Written lines patchText → Printed printed lines → ∀ result,
      applyBlocks 1 source (printed.map LineBlock.block) = .ok result ↔
        Chain Unique source (printed.map LineBlock.block) result) :
    Unambiguous source patchText where
  recovers _ printed hlines hprinted := (parseBlocks_eq_ok hlines).mpr ⟨printed, hprinted, rfl⟩
  reports _ hlines := parseBlocks_malformed hlines
  applies := h
  writes lines printed hlines hprinted result := by
    rw [patched_eq_ok ((parseBlocks_eq_ok hlines).mpr ⟨printed, hprinted, rfl⟩),
      h lines printed hlines hprinted]

theorem Doubled.not_applies (h : Doubled source patchText) : ¬ Unambiguous source patchText := by
  obtain ⟨lines, printed, hlines, hprinted, passed, block, rest, mid, i, j, result, hblocks,
    hpassed, hfound, hj, hne, hrest⟩ := h
  intro hunambiguous
  have hbefore := LineBlock.forall_before_ne_nil printed
  have hclustered : Chain Clustered source (printed.map LineBlock.block) result := by
    rw [hblocks]
    exact hpassed.append (.cons hfound hrest)
  have hunique := (hunambiguous.applies lines printed hlines hprinted result).mp
    ((applyBlocks_eq_ok 1 hbefore).mpr hclustered)
  rw [hblocks] at hunique hbefore
  obtain ⟨mid', hpassed', hrest'⟩ := hunique.split
  have hfirst : ∀ (pat text : Bytes) (i j : Nat),
      Clustered pat text i → Clustered pat text j → i = j := fun _ _ _ _ => Clustered.eq
  have hmid : mid = mid' :=
    hpassed.eq hfirst (hpassed'.clustered (List.forall_mem_append.mp hbefore).1)
  cases hmid
  cases hrest' with
  | cons honly _ => exact hne ((honly.2 j hj).trans (honly.2 _ hfound.1).symm)

theorem unambiguous_iff (source patchText : Bytes) :
    Unambiguous source patchText ↔ ¬ Doubled source patchText := by
  refine ⟨fun h hdoubled => hdoubled.not_applies h, fun hsingle => ?_⟩
  refine unambiguous_of_applies fun lines printed hlines hprinted result => ?_
  rw [applyBlocks_eq_ok 1 (LineBlock.forall_before_ne_nil printed)]
  refine ⟨fun h => h.unique fun passed block rest mid i j hblocks hpassed hfound hj hrest => ?_,
    Chain.clustered (LineBlock.forall_before_ne_nil printed)⟩
  by_contra hne
  exact hsingle ⟨lines, printed, hlines, hprinted, passed, block, rest, mid, i, j, result, hblocks,
    hpassed, hfound, hj, hne, hrest⟩

def xLine : Line := ⟨ascii "x", by decide +kernel, by decide +kernel⟩

def yLine : Line := ⟨ascii "y", by decide +kernel, by decide +kernel⟩

def twoLines : LineBlock where
  before := [xLine, xLine]
  after := [yLine]
  nonempty := by simp
  plain := by decide +kernel

/-- Two lines `x` stand twice in three of them, and are replaced. -/
theorem overlapping_matches_pass :
    ¬ Unambiguous (ascii "x\nx\nx\n")
      (ascii "<<< BEFORE\nx\nx\n<<< AFTER\ny\n<<< END") := by
  intro h
  have hlines : Written twoLines.lines
      (ascii "<<< BEFORE\nx\nx\n<<< AFTER\ny\n<<< END") :=
    .cons _ 0 (.cons _ 0 (.cons _ 0 (.cons _ 0 (.cons _ 0 (.last _ 0)))))
  have hprinted : Printed [twoLines] twoLines.lines := .block twoLines .nil
  have happlied : applyBlocks 1 (ascii "x\nx\nx\n") ([twoLines].map LineBlock.block) =
      .ok (ascii "y\nx\n") := by decide +kernel
  have hchain := (h.applies _ _ hlines hprinted _).mp happlied
  cases hchain with
  | cons honly _ =>
    have hfirst := honly.2 0 ⟨[], ascii "x\n", rfl, by decide +kernel⟩
    have hsecond := honly.2 2 ⟨ascii "x\n", [], rfl, by decide +kernel⟩
    exact absurd (hfirst.trans hsecond.symm) (by decide)

-- ---------------------------------------------------------------------------
-- What the tool writes
-- ---------------------------------------------------------------------------

theorem orDie_eq_ok {value : Option α} {message : String} {a : α} :
    orDie value message = .ok a ↔ value = some a := by
  cases value <;> simp [orDie]

theorem readOrDie_eq_ok {readFileAlloc : String → Nat → Except String Bytes} {path : String}
    {limit : Nat} {content : Bytes} :
    readOrDie readFileAlloc path limit = .ok content ↔ readFileAlloc path limit = .ok content := by
  unfold readOrDie
  cases readFileAlloc path limit <;> simp

/-- The tool writes the patched text and nothing else. -/
theorem main_eq_ok (readFileAlloc : String → Nat → Except String Bytes) (args : List String)
    (path : String) :
    main readFileAlloc args = .ok (path, text) ↔
      ∃ inPath patchPath source patchText,
        parseArgs ⟨none, none, none⟩ args = .ok ⟨some inPath, some patchPath, some path⟩ ∧
        readFileAlloc inPath (64 * 1024 * 1024) = .ok source ∧
        readFileAlloc patchPath (4 * 1024 * 1024) = .ok patchText ∧
        patched source patchText = .ok text := by
  simp only [main, bind_eq_ok, orDie_eq_ok, readOrDie_eq_ok]
  constructor
  · rintro ⟨⟨_, _, _⟩, hargs, inPath, rfl, patchPath, rfl, outPath, rfl, source, hsource, patchText,
      hpatch, result, hpatched, hresult⟩
    cases hresult
    exact ⟨inPath, patchPath, source, patchText, hargs, hsource, hpatch, hpatched⟩
  · rintro ⟨inPath, patchPath, source, patchText, hargs, hsource, hpatch, hpatched⟩
    exact ⟨_, hargs, inPath, rfl, patchPath, rfl, path, rfl, source, hsource, patchText, hpatch,
      text, hpatched, rfl⟩

end ShinySongTools.Patch
