import ShinySongTools.Fallible
import ShinySongTools.Keyed
import ShinySongTools.Templates.Patterns

/-!
# The template a text is a candidate for

The names, cards and events in a text are cut out first, then its numbers,
attributes and rarities; each leaves a token behind and becomes an argument.
-/

namespace ShinySongTools.Templates

open Regex Keyed

-- ---------------------------------------------------------------------------
-- What the tool reports
-- ---------------------------------------------------------------------------

inductive Failure where
  /-- Thrown by `subs`. -/
  | indexOutOfBounds
  | reservedSyntax (category id text : Text)
  /-- Thrown by `json/parse-string`. -/
  | jsonParse
  | unreadableCatalog
  | noHeader
  | schemaVersion (actual : Nat)
  | duplicateId (id : Text) (count : Nat)
  | noEntity (id : Text)
  | untranslatedEntity (id source : Text)
  /-- Thrown by `str/replace` when an entity's target is neither a text nor missing. -/
  | classCast
  | noTarget (id source : Text)
  | originalPlaceholders (id : Text) (source target : List Text)
  | customPlaceholders (id : Text) (source target : List Text)
  | noArgument (id placeholder : Text)
  | sourceDigest (expected actual : Text)
  | noBinding (category id : Text)
  | noUnit (category id unit : Text)
  | notRebuilt (category id expected actual : Text)
  deriving DecidableEq

/-- The message of the `ex-info`; the others are thrown by what the tool calls. -/
def Failure.message : Failure → Option String
  | .indexOutOfBounds | .jsonParse | .classCast => none
  | .reservedSyntax .. => some "原文包含保留的 \x7b\x7bsst:...\x7d\x7d 语法"
  | .unreadableCatalog => some "catalog.jsonl 无法读取"
  | .noHeader => some "catalog.jsonl 第一行必须是 header"
  | .schemaVersion _ => some "catalog schema_version 不支持"
  | .duplicateId .. => some "catalog id 重复"
  | .noEntity _ => some "binding 引用了不存在的 entity"
  | .untranslatedEntity .. => some "entity 尚未翻译"
  | .noTarget .. => some "翻译单元尚未填写 target"
  | .originalPlaceholders .. => some "译文改变了游戏原版占位符"
  | .customPlaceholders .. => some "译文改变了自制占位符"
  | .noArgument .. => some "binding 缺少自制占位符实参"
  | .sourceDigest .. => some "dump 与 bindings 的 source_digest 不一致"
  | .noBinding .. => some "非空 dump 槽位没有 binding"
  | .noUnit .. => some "binding 引用了不存在的翻译单元"
  | .notRebuilt .. => some "binding 无法无损重建原文"

def slice (text : Text) (start stop : Nat) : Text := (text.drop start).take (stop - start)

def subs (text : Text) (start stop : Nat) : Except Failure Text :=
  if start ≤ stop ∧ stop ≤ text.length then .ok (slice text start stop)
  else .error .indexOutOfBounds

-- ---------------------------------------------------------------------------
-- Spans
-- ---------------------------------------------------------------------------

structure Span where
  start : Nat
  stop : Nat
  type : Kind
  source : Text
  deriving DecidableEq

/-- Where the matches stand, from the place `start` of the first gap. -/
def places (start : Nat) : List (Text × Text) → List (Nat × Text)
  | [] => []
  | (gap, m) :: pieces =>
    (start + gap.length, m) :: places (start + gap.length + m.length) pieces

def overlaps (span : Span) (spans : List Span) : Bool :=
  spans.any fun other => span.start < other.stop && other.start < span.stop

/-- The group of a bracketed pattern is its match without the brackets. -/
def patternSpans (pattern : Regex UInt16) (text : Text) (type : Kind) : List Span :=
  (places 0 (pattern.tiles text).1).map fun (start, m) =>
    ⟨start + 1, start + m.length - 1, type, m.tail.dropLast⟩

def characterPattern (aliases : List Text) : Regex UInt16 := anyOf (aliases.map lit)

def aliasSpans (text : Text) (pattern : Regex UInt16) (occupied : List Span) : List Span :=
  ((places 0 (pattern.tiles text).1).map fun (start, m) =>
    (⟨start, start + m.length, .character, m⟩ : Span)).filter fun span => !overlaps span occupied

def eventSpan (text : Text) (span : Span) (characterSet : List Text) : Bool :=
  span.source ∉ characterSet &&
    eventContextPattern.finds
      (slice text (span.start - 32) span.start ++ units " " ++
        slice text span.stop (min text.length (span.stop + 48)))

def select (occupied selected : List Span) (span : Span) : List Span :=
  if overlaps span (occupied ++ selected) then selected else selected ++ [span]

def selectNonOverlapping (spans occupied : List Span) : List Span :=
  (spans.insertionSort fun a b =>
    toLex (a.start, a.stop - a.start) ≤ toLex (b.start, b.stop - b.start)).foldl
    (select occupied) []

def eventSpans (text : Text) (characterSet : List Text) (occupied : List Span) : List Span :=
  selectNonOverlapping
    ((quotePatterns.flatMap fun pattern => patternSpans pattern text .event).filter fun span =>
      eventSpan text span characterSet) occupied

def entitySpans (text : Text) (pattern : Regex UInt16) (characterSet : List Text) : List Span :=
  let cards := patternSpans cardPattern text .card
  let chars := aliasSpans text pattern cards
  let occupied := cards ++ chars
  (occupied ++ eventSpans text characterSet occupied).insertionSort fun a b => a.start ≤ b.start

-- ---------------------------------------------------------------------------
-- Tokens and their arguments
-- ---------------------------------------------------------------------------

inductive Arg where
  | entity (type : Kind) (source : Text)
  | literal (value : Text)
  deriving DecidableEq

/-- What the argument stands for in the text it was taken from. -/
def Arg.source : Arg → Text
  | .entity _ source => source
  | .literal value => value

/-- The tokens given out so far. -/
structure Filling where
  counters : Kind → Nat
  args : List (Text × Arg)

def Filling.empty : Filling := ⟨fun _ => 0, []⟩

def Filling.next (s : Filling) (kind : Kind) (arg : Arg) : Text × Filling :=
  let placeholder := token kind (s.counters kind)
  (placeholder,
    ⟨Function.update s.counters kind (s.counters kind + 1), assoc s.args placeholder arg⟩)

def replaceEntitySpans (text : Text) (cursor : Nat) :
    List Span → Filling → Except Failure (Text × Filling)
  | [], s => do
    let tail ← subs text cursor text.length
    return (tail, s)
  | span :: spans, s => do
    let (placeholder, s) := s.next span.type (.entity span.type span.source)
    let gap ← subs text cursor span.start
    let (rest, s) ← replaceEntitySpans text span.stop spans s
    return (gap ++ placeholder ++ rest, s)

def scalarKind (value : Text) : Kind :=
  if numberPattern.matchesAll value then .number
  else if value ∈ [units "Vo", units "Da", units "Vi"] then .attribute
  else .rarity

def normalizePieces : List (Text × Text) → Text → Filling → Text × Filling
  | [], tail, s => (tail, s)
  | (gap, value) :: pieces, tail, s =>
    let (placeholder, s) := s.next (scalarKind value) (.literal value)
    let (rest, s) := normalizePieces pieces tail s
    (gap ++ placeholder ++ rest, s)

def normalizePlain (text : Text) (s : Filling) : Text × Filling :=
  normalizePieces (scalarPattern.tiles text).1 (scalarPattern.tiles text).2 s

def normalizeProtected : List (Text × Text) → Text → Filling → Text × Filling
  | [], tail, s => normalizePlain tail s
  | (gap, m) :: pieces, tail, s =>
    let (plain, s) := normalizePlain gap s
    let (rest, s) := normalizeProtected pieces tail s
    (plain ++ m ++ rest, s)

def normalizeScalars (text : Text) (s : Filling) : Text × Filling :=
  normalizeProtected (protectedPattern.tiles text).1 (protectedPattern.tiles text).2 s

structure Record where
  category : Text
  id : Text
  text : Text
  deriving DecidableEq

structure Candidate extends Record where
  candidate : Text
  candidateArgs : List (Text × Arg)
  deriving DecidableEq

def candidate (record : Record) (pattern : Regex UInt16) (characterSet : List Text) :
    Except Failure Candidate := do
  let (text, s) ← replaceEntitySpans record.text 0
    (entitySpans record.text pattern characterSet) .empty
  let (template, s) := normalizeScalars text s
  return { record with candidate := template, candidateArgs := s.args }

end ShinySongTools.Templates
