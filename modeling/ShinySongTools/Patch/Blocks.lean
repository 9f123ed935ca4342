import ShinySongTools.Publish.Manifest
import Mathlib.Data.List.DropRight

/-!
# The blocks of a patch file

What `parseBlocks` reads, and the files that are printed for a list of blocks:
lines, each with its end, among which the blocks stand between their markers.
-/

namespace ShinySongTools.Patch

open Publish (Bytes ascii)

structure Block where
  before : Bytes
  after : Bytes
  deriving DecidableEq, Repr

-- ---------------------------------------------------------------------------
-- Reading
-- ---------------------------------------------------------------------------

inductive ParseError where
  | noBeforeMarker
  | noAfterMarker
  | noEndMarker
  | emptyBefore
  deriving DecidableEq, Repr

inductive State where
  | idle
  | before
  | after
  deriving DecidableEq, Repr

def trimEnd (line : Bytes) : Bytes := line.rdropWhile (· = 13)

def parseLines (state : State) (beforeBuf afterBuf : Bytes) (blocks : List Block) :
    List Bytes → Except ParseError (List Block)
  | [] => if state ≠ .idle then .error .noEndMarker else .ok blocks
  | line :: lines =>
    let trimmed := trimEnd line
    if state = .idle ∧ (trimmed = [] ∨ trimmed.head? = some 35) then
      parseLines state beforeBuf afterBuf blocks lines
    else if trimmed = ascii "<<< BEFORE" then
      if state ≠ .idle then .error .noEndMarker
      else parseLines .before [] afterBuf blocks lines
    else if trimmed = ascii "<<< AFTER" then
      if state ≠ .before then .error .noBeforeMarker
      else parseLines .after beforeBuf [] blocks lines
    else if trimmed = ascii "<<< END" then
      if state ≠ .after then .error .noAfterMarker
      else if beforeBuf = [] then .error .emptyBefore
      else parseLines .idle beforeBuf afterBuf (blocks ++ [⟨beforeBuf, afterBuf⟩]) lines
    else
      match state with
      | .idle => parseLines .idle beforeBuf afterBuf blocks lines
      | .before => parseLines .before (beforeBuf ++ (trimmed ++ [10])) afterBuf blocks lines
      | .after => parseLines .after beforeBuf (afterBuf ++ (trimmed ++ [10])) blocks lines

def parseBlocks (patchText : Bytes) : Except ParseError (List Block) :=
  parseLines .idle [] [] [] (patchText.splitOn 10)

-- ---------------------------------------------------------------------------
-- Printing
-- ---------------------------------------------------------------------------

/-- A line without its end, which is carriage returns and a line feed. -/
structure Line where
  text : Bytes
  feedless : 10 ∉ text
  trimmed : trimEnd text = text

inductive Marker where
  | before
  | after
  | closing
  deriving DecidableEq, Repr

def Marker.line : Marker → Line
  | .before => ⟨ascii "<<< BEFORE", by decide +kernel, by decide +kernel⟩
  | .after => ⟨ascii "<<< AFTER", by decide +kernel, by decide +kernel⟩
  | .closing => ⟨ascii "<<< END", by decide +kernel, by decide +kernel⟩

def Line.marker (line : Line) : Option Marker :=
  if line.text = ascii "<<< BEFORE" then some .before
  else if line.text = ascii "<<< AFTER" then some .after
  else if line.text = ascii "<<< END" then some .closing
  else none

/-- The text of the lines, the last one without its line feed. -/
inductive Written : List Line → Bytes → Prop
  | last (line : Line) (n : Nat) : Written [line] (line.text ++ List.replicate n 13)
  | cons (line : Line) (n : Nat) : Written lines text →
    Written (line :: lines) (line.text ++ List.replicate n 13 ++ 10 :: text)

structure LineBlock where
  before : List Line
  after : List Line
  nonempty : before ≠ []
  plain : ∀ line ∈ before ++ after, line.marker = none

def LineBlock.lines (b : LineBlock) : List Line :=
  Marker.before.line :: (b.before ++ Marker.after.line :: (b.after ++ [Marker.closing.line]))

def joined (lines : List Line) : Bytes := lines.flatMap fun line => line.text ++ [10]

def LineBlock.block (b : LineBlock) : Block := ⟨joined b.before, joined b.after⟩

/-- The blocks in their order, other lines between them. -/
inductive Printed : List LineBlock → List Line → Prop
  | nil : Printed [] []
  | between (line : Line) : line.marker = none → Printed blocks lines →
    Printed blocks (line :: lines)
  | block (b : LineBlock) : Printed blocks lines → Printed (b :: blocks) (b.lines ++ lines)

/-- Each BEFORE has its AFTER and then its END. -/
inductive Ordered : List Marker → Prop
  | nil : Ordered []
  | cons : Ordered markers → Ordered (.before :: .after :: .closing :: markers)

def markers (lines : List Line) : List Marker := lines.filterMap Line.marker

/-- A marker is missing, misplaced or repeated, or a BEFORE has no lines. -/
def Malformed (lines : List Line) : Prop :=
  ¬ Ordered (markers lines) ∨ [Marker.before.line, Marker.after.line] <:+: lines

-- ---------------------------------------------------------------------------
-- Lines
-- ---------------------------------------------------------------------------

@[simp]
theorem Marker.marker_line (m : Marker) : m.line.marker = some m := by
  cases m <;> decide

theorem Marker.line_injective : Function.Injective Marker.line := fun m m' h =>
  Option.some.inj (m.marker_line.symm.trans (h ▸ m'.marker_line))

theorem Line.eq_of_marker {line : Line} (h : line.marker = some m) : line = m.line := by
  have htext : line.text = m.line.text := by
    unfold Line.marker at h
    split_ifs at h with hbefore hafter hclosing
    · cases h; exact hbefore
    · cases h; exact hafter
    · cases h; exact hclosing
  cases line
  cases m <;> simp_all [Marker.line]

theorem Line.marker_eq_none {line : Line} :
    line.marker = none ↔ line.text ≠ ascii "<<< BEFORE" ∧ line.text ≠ ascii "<<< AFTER" ∧
      line.text ≠ ascii "<<< END" := by
  unfold Line.marker
  split_ifs <;> simp_all

@[simp]
theorem markers_append (lines lines' : List Line) :
    markers (lines ++ lines') = markers lines ++ markers lines' :=
  List.filterMap_append

theorem markers_eq_nil {lines : List Line} (h : ∀ line ∈ lines, line.marker = none) :
    markers lines = [] :=
  List.filterMap_eq_nil_iff.mpr h

theorem trimEnd_append_replicate (line : Line) (n : Nat) :
    trimEnd (line.text ++ List.replicate n 13) = line.text := by
  induction n with
  | zero => rw [List.replicate_zero, List.append_nil, line.trimmed]
  | succ n ih =>
    rw [List.replicate_succ', ← List.append_assoc, trimEnd,
      List.rdropWhile_concat_pos _ _ _ (by decide)]
    exact ih

theorem Line.feedless_append (line : Line) (n : Nat) :
    10 ∉ line.text ++ List.replicate n 13 := by
  intro h
  rcases List.mem_append.mp h with h | h
  · exact line.feedless h
  · exact absurd (List.eq_of_mem_replicate h) (by decide)

theorem Written.splitOn {lines : List Line} (h : Written lines text) :
    (text.splitOn 10).map trimEnd = lines.map Line.text := by
  induction h with
  | last line n =>
    rw [List.splitOn_eq_singleton (line.feedless_append n)]
    simp [trimEnd_append_replicate]
  | cons line n _ ih =>
    rw [List.splitOn_append_cons_self_of_not_mem (line.feedless_append n), List.map_cons, ih,
      List.map_cons, trimEnd_append_replicate]

theorem exists_line {piece : Bytes} (h : 10 ∉ piece) :
    ∃ (line : Line) (n : Nat), piece = line.text ++ List.replicate n 13 := by
  have hstart : trimEnd piece <+: piece := List.rdropWhile_prefix _ _
  refine ⟨⟨trimEnd piece, fun hfeed => h (hstart.subset hfeed), List.rdropWhile_idempotent _ _⟩,
    (piece.rtakeWhile (· = 13)).length, ?_⟩
  have hreturns : piece.rtakeWhile (· = 13) =
      List.replicate (piece.rtakeWhile (· = 13)).length 13 := by
    refine List.eq_replicate_of_mem fun c hc => ?_
    simpa using List.mem_rtakeWhile_imp hc
  rw [← hreturns]
  exact List.rdropWhile_append_rtakeWhile.symm

/-- Every file has lines. -/
theorem exists_written (text : Bytes) : ∃ lines, Written lines text := by
  by_cases h : 10 ∈ text
  · obtain ⟨piece, rest, rfl, hpiece⟩ := List.eq_append_cons_of_mem h
    obtain ⟨line, n, rfl⟩ := exists_line hpiece
    obtain ⟨lines, hlines⟩ := exists_written rest
    exact ⟨line :: lines, .cons line n hlines⟩
  · obtain ⟨line, n, rfl⟩ := exists_line h
    exact ⟨[line], .last line n⟩
termination_by text.length

-- ---------------------------------------------------------------------------
-- The steps of the parser
-- ---------------------------------------------------------------------------

variable {beforeBuf afterBuf : Bytes} {blocks : List Block}

theorem parseLines_congr {state : State} {raw raw' : List Bytes}
    (h : raw.map trimEnd = raw'.map trimEnd) :
    parseLines state beforeBuf afterBuf blocks raw =
      parseLines state beforeBuf afterBuf blocks raw' := by
  induction raw generalizing raw' state beforeBuf afterBuf blocks with
  | nil => rw [List.map_eq_nil_iff.mp h.symm]
  | cons line rest ih =>
    obtain ⟨line', rest', rfl, hline, hrest⟩ := List.map_eq_cons_iff.mp h.symm
    simp only [parseLines, hline, ih hrest.symm]

theorem parseBlocks_written {lines : List Line} (h : Written lines text) :
    parseBlocks text = parseLines .idle [] [] [] (lines.map Line.text) := by
  refine parseLines_congr ?_
  rw [h.splitOn, List.map_map]
  exact List.map_congr_left fun line _ => line.trimmed.symm

/-- What a line does, by its marker and the state that it comes in. -/
theorem parseLines_cons (state : State) (line : Line) (rest : List Bytes) :
    parseLines state beforeBuf afterBuf blocks (line.text :: rest) =
      match line.marker, state with
      | none, .idle => parseLines .idle beforeBuf afterBuf blocks rest
      | none, .before => parseLines .before (beforeBuf ++ (line.text ++ [10])) afterBuf blocks rest
      | none, .after => parseLines .after beforeBuf (afterBuf ++ (line.text ++ [10])) blocks rest
      | some .before, .idle => parseLines .before [] afterBuf blocks rest
      | some .before, _ => .error .noEndMarker
      | some .after, .before => parseLines .after beforeBuf [] blocks rest
      | some .after, _ => .error .noBeforeMarker
      | some .closing, .after =>
        if beforeBuf = [] then .error .emptyBefore
        else parseLines .idle beforeBuf afterBuf (blocks ++ [⟨beforeBuf, afterBuf⟩]) rest
      | some .closing, _ => .error .noAfterMarker := by
  rw [parseLines.eq_def]
  simp only [line.trimmed]
  cases hmarker : line.marker with
  | none =>
    obtain ⟨hbefore, hafter, hclosing⟩ := Line.marker_eq_none.mp hmarker
    rw [if_neg hbefore, if_neg hafter, if_neg hclosing]
    cases state with
    | idle => exact ite_self _
    | before => exact if_neg fun h => absurd h.1 (by decide)
    | after => exact if_neg fun h => absurd h.1 (by decide)
  | some m =>
    rw [Line.eq_of_marker hmarker]
    cases m <;> cases state <;> rfl

-- ---------------------------------------------------------------------------
-- A printed list is recovered
-- ---------------------------------------------------------------------------

@[simp]
theorem joined_append (lines lines' : List Line) :
    joined (lines ++ lines') = joined lines ++ joined lines' :=
  List.flatMap_append

theorem joined_eq_nil {lines : List Line} : joined lines = [] ↔ lines = [] := by
  cases lines with
  | nil => exact iff_of_true rfl rfl
  | cons line lines => simp [joined]

theorem parseLines_before {lines : List Line} (h : ∀ line ∈ lines, line.marker = none)
    (rest : List Bytes) :
    parseLines .before beforeBuf afterBuf blocks (lines.map Line.text ++ rest) =
      parseLines .before (beforeBuf ++ joined lines) afterBuf blocks rest := by
  induction lines generalizing beforeBuf with
  | nil => rw [joined, List.flatMap_nil, List.append_nil]; rfl
  | cons line lines ih =>
    obtain ⟨hline, hlines⟩ := List.forall_mem_cons.mp h
    rw [List.map_cons, List.cons_append, parseLines_cons, hline, ih hlines, List.append_assoc]
    rfl

theorem parseLines_after {lines : List Line} (h : ∀ line ∈ lines, line.marker = none)
    (rest : List Bytes) :
    parseLines .after beforeBuf afterBuf blocks (lines.map Line.text ++ rest) =
      parseLines .after beforeBuf (afterBuf ++ joined lines) blocks rest := by
  induction lines generalizing afterBuf with
  | nil => rw [joined, List.flatMap_nil, List.append_nil]; rfl
  | cons line lines ih =>
    obtain ⟨hline, hlines⟩ := List.forall_mem_cons.mp h
    rw [List.map_cons, List.cons_append, parseLines_cons, hline, ih hlines, List.append_assoc]
    rfl

theorem parseLines_block (b : LineBlock) (rest : List Bytes) :
    parseLines .idle beforeBuf afterBuf blocks (b.lines.map Line.text ++ rest) =
      parseLines .idle (joined b.before) (joined b.after) (blocks ++ [b.block]) rest := by
  obtain ⟨hbefore, hafter⟩ := List.forall_mem_append.mp b.plain
  have hnonempty : joined b.before ≠ [] := joined_eq_nil.not.mpr b.nonempty
  simp only [LineBlock.lines, List.map_cons, List.map_append, List.map_nil, List.cons_append,
    List.append_assoc, List.nil_append]
  simp only [parseLines_cons, Marker.marker_line, parseLines_before hbefore,
    parseLines_after hafter, List.nil_append, if_neg hnonempty]
  rfl

theorem Printed.parseLines {printed : List LineBlock} {lines : List Line}
    (h : Printed printed lines) :
    parseLines .idle beforeBuf afterBuf blocks (lines.map Line.text) =
      .ok (blocks ++ printed.map LineBlock.block) := by
  induction h generalizing beforeBuf afterBuf blocks with
  | nil => rw [List.map_nil, List.map_nil, List.append_nil]; rfl
  | between line hline _ ih => rw [List.map_cons, parseLines_cons, hline, ih]
  | block b _ ih =>
    rw [List.map_append, parseLines_block, ih, List.map_cons, List.append_assoc]
    rfl

-- ---------------------------------------------------------------------------
-- What is accepted was printed
-- ---------------------------------------------------------------------------

/-- The lines go on with the rest of an AFTER text, its END and printed blocks. -/
def Closes (beforeBuf afterBuf : Bytes) (blocks result : List Block) (lines : List Line) : Prop :=
  ∃ more rest printed, lines = more ++ Marker.closing.line :: rest ∧
    (∀ line ∈ more, line.marker = none) ∧ beforeBuf ≠ [] ∧ Printed printed rest ∧
    result = blocks ++ ⟨beforeBuf, afterBuf ++ joined more⟩ :: printed.map LineBlock.block

def Completes (beforeBuf afterBuf : Bytes) (blocks result : List Block) (lines : List Line) :
    State → Prop
  | .idle => ∃ printed, Printed printed lines ∧ result = blocks ++ printed.map LineBlock.block
  | .before => ∃ more rest, lines = more ++ Marker.after.line :: rest ∧
      (∀ line ∈ more, line.marker = none) ∧
      Closes (beforeBuf ++ joined more) [] blocks result rest
  | .after => Closes beforeBuf afterBuf blocks result lines

theorem Closes.line {line : Line} {lines : List Line} {result : List Block}
    (hline : line.marker = none)
    (h : Closes beforeBuf (afterBuf ++ (line.text ++ [10])) blocks result lines) :
    Closes beforeBuf afterBuf blocks result (line :: lines) := by
  obtain ⟨more, rest, printed, rfl, hmore, hbefore, hprinted, rfl⟩ := h
  refine ⟨line :: more, rest, printed, rfl, List.forall_mem_cons.mpr ⟨hline, hmore⟩, hbefore,
    hprinted, ?_⟩
  rw [List.append_assoc]
  rfl

theorem Completes.line {line : Line} {lines : List Line} {result : List Block}
    (hline : line.marker = none)
    (h : Completes (beforeBuf ++ (line.text ++ [10])) afterBuf blocks result lines .before) :
    Completes beforeBuf afterBuf blocks result (line :: lines) .before := by
  obtain ⟨more, rest, rfl, hmore, hcloses⟩ := h
  refine ⟨line :: more, rest, rfl, List.forall_mem_cons.mpr ⟨hline, hmore⟩, ?_⟩
  rw [List.append_assoc] at hcloses
  exact hcloses

/-- The lines of a block, its BEFORE marker among them, start a printed list. -/
theorem Completes.block {lines : List Line} {result : List Block}
    (h : Completes [] afterBuf blocks result lines .before) :
    Completes beforeBuf afterBuf blocks result (Marker.before.line :: lines) .idle := by
  obtain ⟨before, rest, rfl, hbefore, after, rest', printed, rfl, hafter, hnonempty, hprinted,
    rfl⟩ := h
  let b : LineBlock := ⟨before, after, joined_eq_nil.not.mp hnonempty,
    List.forall_mem_append.mpr ⟨hbefore, hafter⟩⟩
  refine ⟨b :: printed, ?_, rfl⟩
  have hlines := hprinted.block b
  simp only [LineBlock.lines, List.cons_append, List.append_assoc, List.nil_append, b] at hlines
  exact hlines

theorem parseLines_completes {state : State} {lines : List Line} {result : List Block}
    (h : parseLines state beforeBuf afterBuf blocks (lines.map Line.text) = .ok result) :
    Completes beforeBuf afterBuf blocks result lines state := by
  induction lines generalizing state beforeBuf afterBuf blocks with
  | nil =>
    cases state with
    | idle => exact ⟨[], .nil, by cases h; rw [List.map_nil, List.append_nil]⟩
    | before => cases h
    | after => cases h
  | cons line lines ih =>
    rw [List.map_cons, parseLines_cons] at h
    cases hmarker : line.marker with
    | none =>
      rw [hmarker] at h
      cases state with
      | idle =>
        obtain ⟨printed, hprinted, hresult⟩ := ih h
        exact ⟨printed, hprinted.between line hmarker, hresult⟩
      | before => exact Completes.line hmarker (ih h)
      | after => exact Closes.line hmarker (ih h)
    | some m =>
      rw [hmarker] at h
      rw [Line.eq_of_marker hmarker]
      cases m with
      | before =>
        cases state with
        | idle => exact Completes.block (ih h)
        | before => cases h
        | after => cases h
      | after =>
        cases state with
        | before =>
          refine ⟨[], lines, rfl, List.forall_mem_nil _, ?_⟩
          rw [joined, List.flatMap_nil, List.append_nil]
          exact ih h
        | idle => cases h
        | after => cases h
      | closing =>
        cases state with
        | after =>
          by_cases hbefore : beforeBuf = []
          · exact absurd ((if_pos hbefore).symm.trans h) (by simp)
          · obtain ⟨printed, hprinted, rfl⟩ := ih ((if_neg hbefore).symm.trans h)
            refine ⟨[], lines, printed, rfl, List.forall_mem_nil _, hbefore, hprinted, ?_⟩
            rw [joined, List.flatMap_nil, List.append_nil, List.append_assoc]
            rfl
        | idle => cases h
        | before => cases h

/-- The parser accepts the printed files and no others. -/
theorem parseBlocks_eq_ok {lines : List Line} {result : List Block} (h : Written lines text) :
    parseBlocks text = .ok result ↔
      ∃ printed, Printed printed lines ∧ result = printed.map LineBlock.block := by
  rw [parseBlocks_written h]
  refine ⟨parseLines_completes, ?_⟩
  rintro ⟨printed, hprinted, rfl⟩
  exact hprinted.parseLines

-- ---------------------------------------------------------------------------
-- A malformed file is not accepted
-- ---------------------------------------------------------------------------

theorem LineBlock.markers (b : LineBlock) :
    markers b.lines = [.before, .after, .closing] := by
  obtain ⟨hbefore, hafter⟩ := List.forall_mem_append.mp b.plain
  have hlines : Patch.markers b.lines = .before :: (Patch.markers b.before ++
      .after :: (Patch.markers b.after ++ [.closing])) := by
    simp [LineBlock.lines, Patch.markers]
  rw [hlines, markers_eq_nil hbefore, markers_eq_nil hafter]
  rfl

theorem Printed.ordered {printed : List LineBlock} {lines : List Line}
    (h : Printed printed lines) : Ordered (markers lines) := by
  induction h with
  | nil => exact .nil
  | between line hline _ ih =>
    rw [markers, List.filterMap_cons_none hline]
    exact ih
  | block b _ ih =>
    rw [markers_append, b.markers]
    exact .cons ih

theorem ne_line_of_marker {line : Line} (h : line.marker = none) (m : Marker) :
    line ≠ m.line := by
  rintro rfl
  exact absurd (m.marker_line.symm.trans h) (by simp)

/-- No BEFORE stands right before its AFTER. -/
theorem Printed.nonempty {printed : List LineBlock} {lines : List Line}
    (h : Printed printed lines) : ¬ [Marker.before.line, Marker.after.line] <:+: lines := by
  induction h with
  | nil => exact fun h => absurd (List.eq_nil_of_infix_nil h) (by simp)
  | between line hline _ ih =>
    refine fun h => ih (Scan.infix_of_append_of_head_not_mem (a := [line]) ?_ h)
    exact fun hmem => ne_line_of_marker hline _ (List.mem_singleton.mp hmem).symm
  | @block _ lines b _ ih =>
    obtain ⟨hbefore, hafter⟩ := List.forall_mem_append.mp b.plain
    intro h
    have hlines : b.lines ++ lines = Marker.before.line ::
        (b.before ++ Marker.after.line :: (b.after ++ [Marker.closing.line]) ++ lines) := rfl
    rw [hlines] at h
    rcases List.infix_cons_iff.mp h with hstart | hpart
    · obtain ⟨line, before, hcons⟩ := List.exists_cons_of_ne_nil b.nonempty
      rw [hcons] at hstart hbefore
      have hafter := (List.cons_prefix_cons.mp (List.cons_prefix_cons.mp hstart).2).1
      exact ne_line_of_marker (hbefore line List.mem_cons_self) _ hafter.symm
    · refine ih (Scan.infix_of_append_of_head_not_mem ?_ hpart)
      intro hmem
      rcases List.mem_append.mp hmem with hmem | hmem
      · exact ne_line_of_marker (hbefore _ hmem) .before rfl
      rcases List.mem_cons.mp hmem with hmem | hmem
      · exact absurd (Marker.line_injective hmem) (by decide)
      rcases List.mem_append.mp hmem with hmem | hmem
      · exact ne_line_of_marker (hafter _ hmem) .before rfl
      · exact absurd (Marker.line_injective (List.mem_singleton.mp hmem)) (by decide)

theorem parseBlocks_malformed {lines : List Line} (h : Written lines text)
    (hmalformed : Malformed lines) : ∃ e, parseBlocks text = .error e := by
  cases hparse : parseBlocks text with
  | error e => exact ⟨e, rfl⟩
  | ok result =>
    obtain ⟨printed, hprinted, -⟩ := (parseBlocks_eq_ok h).mp hparse
    rcases hmalformed with hmalformed | hmalformed
    · exact absurd hprinted.ordered hmalformed
    · exact absurd hmalformed hprinted.nonempty

end ShinySongTools.Patch
