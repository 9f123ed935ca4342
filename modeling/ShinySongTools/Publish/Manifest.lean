import ShinySongTools.Scan
import Mathlib.Data.List.Sort

/-!
# The manifest

The text that `bundle_manifest` writes for a bundle and the way
`bundle_publish` reads it back, over trees of the file system. `sha256` is the
digest, a parameter; what the build captures comes trimmed.
-/

namespace ShinySongTools.Publish

open Scan

abbrev Bytes := List UInt8

def ascii (text : String) : Bytes := text.toList.map fun c => c.toNat.toUInt8

-- ---------------------------------------------------------------------------
-- Trees
-- ---------------------------------------------------------------------------

mutual

inductive Node where
  | file (content : Bytes)
  | directory (children : Dir)
  /-- A link or another non-regular entry. -/
  | other

/-- The entries of a directory in the order they are iterated. -/
inductive Dir where
  | nil
  | cons (name : Bytes) (node : Node) (rest : Dir)

end

mutual

/-- The same entries, iterated in another order. -/
inductive Node.Same : Node → Node → Prop
  | file (content : Bytes) : Node.Same (.file content) (.file content)
  | directory : Dir.Same d d' → Node.Same (.directory d) (.directory d')
  | other : Node.Same .other .other

inductive Dir.Same : Dir → Dir → Prop
  | nil : Dir.Same .nil .nil
  | cons (name : Bytes) : Node.Same n n' → Dir.Same d d' →
      Dir.Same (.cons name n d) (.cons name n' d')
  | swap (name name' : Bytes) (n n' : Node) (d : Dir) :
    Dir.Same (.cons name n (.cons name' n' d)) (.cons name' n' (.cons name n d))
  | trans : Dir.Same d d' → Dir.Same d' d'' → Dir.Same d d''

end

def Dir.names : Dir → List Bytes
  | .nil => []
  | .cons name _ rest => name :: rest.names

mutual

/-- The names are those of a file system. -/
def Node.Valid : Node → Prop
  | .file _ | .other => True
  | .directory children => children.Valid

def Dir.Valid : Dir → Prop
  | .nil => True
  | .cons name node rest => (name ≠ [] ∧ 47 ∉ name ∧ name ∉ rest.names) ∧ node.Valid ∧ rest.Valid

end

structure Entry where
  path : Bytes
  sha256 : Bytes
  deriving DecidableEq, Repr

def hexDigit (n : UInt8) : UInt8 := if n < 10 then 48 + n else 87 + n

def bytesToHex (bytes : Bytes) : Bytes :=
  bytes.flatMap fun b => [hexDigit (b / 16), hexDigit (b % 16)]

/-- `std.fs.path.join` of a directory's path and a name in it. -/
def join (pre name : Bytes) : Bytes := if pre = [] then name else pre ++ 47 :: name

mutual

/-- The relative paths of the regular files. -/
def Node.paths (child : Bytes) : Node → List Bytes
  | .file _ => [child]
  | .directory children => children.paths child
  | .other => []

def Dir.paths (pre : Bytes) : Dir → List Bytes
  | .nil => []
  | .cons name node rest => node.paths (join pre name) ++ rest.paths pre

end

section

variable (sha256 : Bytes → Bytes) (fits : Bytes → Bytes → Bool)

mutual

/-- `walk` and `walkEntries`, which differ in what fits. -/
def walkNode (child : Bytes) : Node → Option (List Entry)
  | .file content =>
    if fits child content then some [⟨child, bytesToHex (sha256 content)⟩] else none
  | .directory children => walkWith child children
  | .other => none

def walkWith (pre : Bytes) : Dir → Option (List Entry)
  | .nil => some []
  | .cons name node rest => do
    let entries ← walkNode (join pre name) node
    let others ← walkWith pre rest
    some (entries ++ others)

end

end

def maxPathBytes : Nat := 1024

def walk (sha256 : Bytes → Bytes) : Dir → Option (List Entry) :=
  walkWith sha256 (fun child content =>
    content.length < 256 * 1024 * 1024 && child.length < maxPathBytes) []

def walkEntries (sha256 : Bytes → Bytes) : Dir → Option (List Entry) :=
  walkWith sha256 (fun _ content => content.length < 512 * 1024 * 1024) []

/-- By the bytes of the path. -/
def sortEntries (entries : List Entry) : List Entry :=
  entries.insertionSort fun a b => a.path ≤ b.path

-- ---------------------------------------------------------------------------
-- Writing
-- ---------------------------------------------------------------------------

def escapeByte (c : UInt8) : Bytes :=
  if c = 34 then [92, 34]
  else if c = 92 then [92, 92]
  else if c = 10 then [92, 110]
  else if c = 13 then [92, 114]
  else if c = 9 then [92, 116]
  else if c < 32 then [92, 117, 48, 48, hexDigit (c / 16), hexDigit (c % 16)]
  else [c]

def escape (value : Bytes) : Bytes := value.flatMap escapeByte

def jsonString (value : Bytes) : Bytes := 34 :: escape value ++ [34]

/-- `printField`. -/
def field (key : String) (value : Bytes) (last : Bool) : Bytes :=
  ascii key ++ ascii ": " ++ jsonString value ++ (if last then [] else ascii ",") ++ ascii "\n"

def entryText (entry : Entry) : Bytes :=
  ascii "      \x7b\"path\": " ++ jsonString entry.path ++ ascii ", \"sha256\": " ++
    jsonString entry.sha256 ++ ascii "\x7d"

def entriesText : List Entry → Bytes
  | [] => []
  | entry :: rest =>
    entryText entry ++ (if rest = [] then [] else ascii ",") ++ ascii "\n" ++ entriesText rest

structure Build where
  target : Bytes
  repository : Bytes
  commit : Bytes
  patchPath : Bytes
  patch : Bytes
  rustc : Bytes
  swiftc : Bytes
  zig : Bytes
  sdk : Bytes

/-- What stands before `"entries": [`. -/
def header (build : Build) (execSha plistSha : Bytes) : Bytes :=
  ascii "\x7b\n" ++ ascii "  \"schema_version\": 1,\n" ++ ascii "  \"bundle\": \x7b\n" ++
    ascii "    \"executable\": \"AKInterface\",\n" ++
    field "    \"executable_sha256\"" execSha false ++
    field "    \"info_plist_sha256\"" plistSha false ++
    field "    \"target\"" build.target true ++
    ascii "  \x7d,\n" ++ ascii "  \"fingerprint\": \x7b\n" ++
    ascii "    \"version\": \"BundleFingerprintV1\",\n" ++ ascii "    "

def footer (sha256 : Bytes → Bytes) (build : Build) : Bytes :=
  ascii "    ]\n" ++ ascii "  \x7d,\n" ++ ascii "  \"upstream\": \x7b\n" ++
    field "    \"repository\"" build.repository false ++
    field "    \"commit\"" build.commit true ++
    ascii "  \x7d,\n" ++ ascii "  \"patch\": \x7b\n" ++
    field "    \"path\"" build.patchPath false ++
    field "    \"sha256\"" (bytesToHex (sha256 build.patch)) true ++
    ascii "  \x7d,\n" ++ ascii "  \"platform\": \x7b\n" ++
    field "    \"architecture\"" (ascii "arm64") false ++
    field "    \"deployment_target\"" (ascii "12.0") false ++
    field "    \"signature\"" (ascii "ad-hoc") true ++
    ascii "  \x7d,\n" ++ ascii "  \"toolchain\": \x7b\n" ++
    field "    \"rustc\"" build.rustc false ++
    field "    \"swiftc\"" build.swiftc false ++
    field "    \"zig\"" build.zig false ++
    field "    \"sdk\"" build.sdk true ++
    ascii "  \x7d\n" ++ ascii "\x7d\n"

def entriesKey : Bytes := ascii "\"entries\": ["

def findSha (entries : List Entry) (path : Bytes) : Option Bytes :=
  (entries.find? (·.path = path)).map (·.sha256)

/-- `main` of `bundle_manifest`; `none` is where it dies. -/
def manifest (sha256 : Bytes → Bytes) (build : Build) (bundle : Dir) : Option Bytes := do
  let entries ← walk sha256 bundle
  if entries = [] then none
  else
    let entries := sortEntries entries
    let execSha ← findSha entries (ascii "Contents/MacOS/AKInterface")
    let plistSha ← findSha entries (ascii "Contents/Info.plist")
    if build.commit.length ≠ 40 then none
    else
      some (header build execSha plistSha ++ entriesKey ++ ascii "\n" ++ entriesText entries ++
        footer sha256 build)

-- ---------------------------------------------------------------------------
-- Verifying
-- ---------------------------------------------------------------------------

def entryKey : Bytes := ascii "\x7b\"path\":"

def pathEnd : Bytes := ascii "\", \"sha256\": \""

/-- The loop over the text behind the key, which may run past the array. -/
def parseEntries : Nat → Bytes → Option (List Entry)
  | 0, _ => none
  | fuel + 1, rest =>
    match indexOf entryKey rest with
    | none => some []
    | some start => do
      let found := rest.drop start
      let objEnd ← indexOf [125] found
      let obj := found.take objEnd
      let pathField ← indexOf pathEnd obj
      -- a slice that ends before it begins is a panic
      if pathField < 10 ∨ obj.length < pathField + 15 then none
      else
        let entry : Entry :=
          ⟨(obj.take pathField).drop 10, (obj.take (obj.length - 1)).drop (pathField + 14)⟩
        let others ← parseEntries fuel (found.drop objEnd)
        some (entry :: others)

def parseManifest (manifest : Bytes) : Option (List Entry) := do
  let start ← indexOf entriesKey manifest
  let rest := manifest.drop (start + entriesKey.length)
  parseEntries (rest.length + 1) rest

/-- Whether `verifyEntries` returns, that is, does not die. -/
def verifyEntries (sha256 : Bytes → Bytes) (bundle : Dir) (manifest : Bytes) : Bool :=
  match walkEntries sha256 bundle, parseManifest manifest with
  | some computed, some recorded => recorded = sortEntries computed
  | _, _ => false

-- ---------------------------------------------------------------------------
-- Escaped text
-- ---------------------------------------------------------------------------

/-- A byte that the writer leaves as it is. -/
def Plain (c : UInt8) : Prop := c ≠ 34 ∧ c ≠ 92 ∧ 32 ≤ c

theorem hexDigit_ne {n : UInt8} (h : n < 16) :
    hexDigit n ≠ 34 ∧ hexDigit n ≠ 92 ∧ hexDigit n ≠ 123 ∧ hexDigit n ≠ 125 ∧ 32 ≤ hexDigit n := by
  unfold hexDigit
  split <;> grind

theorem escapeByte_cases (c : UInt8) :
    (Plain c ∧ escapeByte c = [c]) ∨ (c = 34 ∧ escapeByte c = [92, 34]) ∨
      ∃ more, more ≠ [] ∧ escapeByte c = 92 :: more ∧ ¬ Plain c ∧ c ≠ 125 ∧
        ∀ b ∈ more, b ≠ 34 ∧ b ≠ 123 ∧ b ≠ 125 := by
  have hletter (d : UInt8) (hc : ¬ Plain c ∧ c ≠ 125) (hd : d ≠ 34 ∧ d ≠ 123 ∧ d ≠ 125) :
      ∃ more, more ≠ [] ∧ [92, d] = 92 :: more ∧ ¬ Plain c ∧ c ≠ 125 ∧
        ∀ b ∈ more, b ≠ 34 ∧ b ≠ 123 ∧ b ≠ 125 :=
    ⟨[d], List.cons_ne_nil _ _, rfl, hc.1, hc.2, fun b hb => List.mem_singleton.mp hb ▸ hd⟩
  by_cases hquote : c = 34
  · exact .inr (.inl ⟨hquote, if_pos hquote⟩)
  refine or_iff_not_imp_left.mpr fun hplain => .inr ?_
  have hspecial : ¬ (32 ≤ c ∧ c ≠ 92) := by
    rintro ⟨hlow, hbackslash⟩
    refine hplain ⟨⟨hquote, hbackslash, hlow⟩, ?_⟩
    unfold escapeByte
    grind
  have hc : ¬ Plain c ∧ c ≠ 125 :=
    ⟨fun h => hspecial ⟨h.2.2, h.2.1⟩, fun h => hspecial (h ▸ by decide)⟩
  unfold escapeByte
  rw [if_neg hquote]
  split
  · exact hletter 92 hc (by decide)
  split
  · exact hletter 110 hc (by decide)
  split
  · exact hletter 114 hc (by decide)
  split
  · exact hletter 116 hc (by decide)
  have hlow : c < 32 := by grind
  rw [if_pos hlow]
  have hhigh := hexDigit_ne (show c / 16 < 16 by grind)
  have hrest := hexDigit_ne (show c % 16 < 16 by grind)
  refine ⟨_, List.cons_ne_nil _ _, rfl, hc.1, hc.2, ?_⟩
  simp [hhigh, hrest]

theorem escape_cons (c : UInt8) (cs : Bytes) : escape (c :: cs) = escapeByte c ++ escape cs := rfl

/-- A quote behind bytes that are not escaped is the one that ends the text. -/
theorem prefix_of_prefix_escape {word tail value after : Bytes}
    (hword : ∀ b ∈ word, b ≠ 34 ∧ b ≠ 92)
    (h : word ++ 34 :: tail <+: escape value ++ 34 :: after) : tail <+: after := by
  induction value generalizing word with
  | nil =>
    cases word with
    | nil => exact (List.cons_prefix_cons.mp h).2
    | cons b word =>
      have hquote := (List.cons_prefix_cons.mp h).1
      exact absurd hquote (hword b List.mem_cons_self).1
  | cons c value ih =>
    rw [escape_cons, List.append_assoc] at h
    obtain ⟨hplain, hc⟩ | hspecial := escapeByte_cases c
    · rw [hc] at h
      cases word with
      | nil => exact absurd (List.cons_prefix_cons.mp h).1.symm hplain.1
      | cons b word =>
        exact ih (fun b hb => hword b (List.mem_cons_of_mem _ hb)) (List.cons_prefix_cons.mp h).2
    · have hslash : ∃ more, escapeByte c = 92 :: more := by
        obtain ⟨-, hc⟩ | ⟨more, -, hc, -⟩ := hspecial
        · exact ⟨_, hc⟩
        · exact ⟨more, hc⟩
      obtain ⟨more, hc⟩ := hslash
      rw [hc] at h
      cases word with
      | nil =>
        have hquote : (34 : UInt8) = 92 := (List.cons_prefix_cons.mp h).1
        exact absurd hquote (by decide)
      | cons b word =>
        have hbackslash := (List.cons_prefix_cons.mp h).1
        exact absurd hbackslash (hword b List.mem_cons_self).2

/-- A pattern that opens with a quote or a brace does not begin in escaped text,
unless its rest stands behind the text. -/
theorem avoids_escape {first : UInt8} {word tail value after : Bytes}
    (hfirst : first = 34 ∨ first = 123) (hword : ∀ b ∈ word, b ≠ 34 ∧ b ≠ 92)
    (htail : ¬ tail <+: after) :
    Avoids (first :: (word ++ 34 :: tail)) (34 :: after) (escape value) := by
  induction value with
  | nil => trivial
  | cons c value ih =>
    have hrest : ¬ word ++ 34 :: tail <+: escape value ++ 34 :: after :=
      fun h => htail (prefix_of_prefix_escape hword h)
    rw [escape_cons]
    refine avoids_append.mpr ⟨?_, ih⟩
    obtain ⟨hplain, hc⟩ | ⟨-, hc⟩ | ⟨more, -, hc, -, -, hmore⟩ := escapeByte_cases c
    · rw [hc]
      exact ⟨fun h => hrest (List.cons_prefix_cons.mp h).2, trivial⟩
    · rw [hc]
      refine ⟨fun h => ?_, fun h => hrest (List.cons_prefix_cons.mp h).2, trivial⟩
      have hslash := (List.cons_prefix_cons.mp h).1
      rw [hslash] at hfirst
      exact absurd hfirst (by decide)
    · rw [hc]
      refine avoids_of_head_not_mem fun hmem => ?_
      obtain hslash | hmem := List.mem_cons.mp hmem
      · rw [hslash] at hfirst
        exact absurd hfirst (by decide)
      · obtain rfl | rfl := hfirst
        · exact (hmore _ hmem).1 rfl
        · exact (hmore _ hmem).2.1 rfl

theorem avoids_jsonString {first : UInt8} {word tail after : Bytes} (value : Bytes)
    (hfirst : first = 34 ∨ first = 123) (hword : ∀ b ∈ word, b ≠ 34 ∧ b ≠ 92)
    (htail : ¬ tail <+: after) (hclose : ¬ first :: (word ++ 34 :: tail) <+: 34 :: after) :
    Avoids (first :: (word ++ 34 :: tail)) after (jsonString value) := by
  have hopen : ¬ first :: (word ++ 34 :: tail) <+: 34 :: (escape value ++ 34 :: after) :=
    fun h => htail (prefix_of_prefix_escape hword (List.cons_prefix_cons.mp h).2)
  have hseam : 34 :: escape value ++ ([34] ++ after) = 34 :: (escape value ++ 34 :: after) := rfl
  refine avoids_append.mpr ⟨⟨?_, avoids_escape hfirst hword htail⟩, hclose, trivial⟩
  rwa [← hseam] at hopen

/-- The pattern is not in a quoted text that a comma or a line end follows. -/
def Separated (pat : Bytes) : Prop :=
  ∀ value b after, b = 44 ∨ b = 10 → Avoids pat (b :: after) (jsonString value)

theorem separated_entriesKey : Separated entriesKey := by
  intro value b after hb
  have hne : b ≠ 58 ∧ b ≠ 101 := by
    obtain rfl | rfl := hb <;> decide
  have hkey : entriesKey = 34 :: (ascii "entries" ++ 34 :: ascii ": [") := by decide +kernel
  rw [hkey]
  refine avoids_jsonString value (.inl rfl) (by decide +kernel) (fun h => ?_) fun h => ?_
  · exact hne.1 (List.cons_prefix_cons.mp h).1.symm
  · exact hne.2 (List.cons_prefix_cons.mp (List.cons_prefix_cons.mp h).2).1.symm

theorem separated_entryKey : Separated entryKey := by
  intro value b after hb
  have hne : b ≠ 112 := by
    obtain rfl | rfl := hb <;> decide
  have hkey : entryKey = 123 :: ([] ++ 34 :: ascii "path\":") := by decide
  rw [hkey]
  refine avoids_jsonString value (.inr rfl) nofun (fun h => ?_) fun h => ?_
  · exact hne (List.cons_prefix_cons.mp h).1.symm
  · exact absurd (List.cons_prefix_cons.mp h).1 (by decide)

theorem avoids_field {pat : Bytes} {key : String} (hpat : Separated pat)
    (hkey : Clear pat (ascii key ++ ascii ": ")) (hcomma : Clear pat (ascii ",\n"))
    (value : Bytes) (last : Bool) (after : Bytes) : Avoids pat after (field key value last) := by
  have hline : Clear pat (ascii "\n") := hcomma.2.2
  unfold field
  cases last with
  | true =>
    rw [if_pos rfl, List.append_nil]
    exact avoids_append.mpr ⟨avoids_append.mpr ⟨hkey.avoids _, hpat value 10 after (.inr rfl)⟩,
      hline.avoids after⟩
  | false =>
    rw [if_neg Bool.false_ne_true, List.append_assoc _ (ascii ",") (ascii "\n")]
    exact avoids_append.mpr
      ⟨avoids_append.mpr ⟨hkey.avoids _, hpat value 44 (10 :: after) (.inl rfl)⟩,
      hcomma.avoids after⟩

theorem avoids_header (build : Build) (execSha plistSha after : Bytes) :
    Avoids entriesKey after (header build execSha plistSha) := by
  have hfield {key : String} (hkey : Clear entriesKey (ascii key ++ ascii ": ")) (value : Bytes)
      (last : Bool) (after : Bytes) : Avoids entriesKey after (field key value last) :=
    avoids_field separated_entriesKey hkey (by decide) value last after
  unfold header
  with_reducible repeat' refine avoids_append.mpr ⟨?_, ?_⟩
  all_goals
    first
    | with_reducible refine hfield ?_ _ _ _
    | with_reducible refine Clear.avoids ?_ _
    decide +kernel

theorem avoids_footer (sha256 : Bytes → Bytes) (build : Build) (after : Bytes) :
    Avoids entryKey after (footer sha256 build) := by
  have hfield {key : String} (hkey : Clear entryKey (ascii key ++ ascii ": ")) (value : Bytes)
      (last : Bool) (after : Bytes) : Avoids entryKey after (field key value last) :=
    avoids_field separated_entryKey hkey (by decide) value last after
  unfold footer
  with_reducible repeat' refine avoids_append.mpr ⟨?_, ?_⟩
  all_goals
    first
    | with_reducible refine hfield ?_ _ _ _
    | with_reducible refine Clear.avoids ?_ _
    decide +kernel

-- ---------------------------------------------------------------------------
-- Reading entries back
-- ---------------------------------------------------------------------------

theorem escape_of_plain {value : Bytes} (h : ∀ c ∈ value, Plain c) : escape value = value := by
  induction value with
  | nil => rfl
  | cons c cs ih =>
    obtain ⟨hc, hcs⟩ := List.forall_mem_cons.mp h
    obtain ⟨-, heq⟩ | ⟨rfl, -⟩ | ⟨-, -, -, hnot, -⟩ := escapeByte_cases c
    · rw [escape_cons, heq, ih hcs]
      rfl
    · exact absurd rfl hc.1
    · exact absurd hc hnot

theorem length_le_escape (value : Bytes) : value.length ≤ (escape value).length := by
  induction value with
  | nil => exact le_rfl
  | cons c cs ih =>
    have hunit : 1 ≤ (escapeByte c).length := by
      obtain ⟨-, heq⟩ | ⟨-, heq⟩ | ⟨more, -, heq, -⟩ := escapeByte_cases c <;> simp [heq]
    rw [escape_cons, List.length_append, List.length_cons]
    omega

/-- Escaping lengthens what is not plain. -/
theorem escape_eq_self_iff {value : Bytes} : escape value = value ↔ ∀ c ∈ value, Plain c := by
  refine ⟨fun h => ?_, escape_of_plain⟩
  have hlength := congrArg List.length h
  clear h
  induction value with
  | nil => exact nofun
  | cons c cs ih =>
    have hcs := length_le_escape cs
    rw [escape_cons, List.length_append, List.length_cons] at hlength
    obtain ⟨hc, heq⟩ | ⟨-, heq⟩ | ⟨more, hmore, heq, -⟩ := escapeByte_cases c
    · rw [heq, List.length_singleton] at hlength
      exact List.forall_mem_cons.mpr ⟨hc, ih (by omega)⟩
    · rw [heq, List.length_cons, List.length_singleton] at hlength
      omega
    · have hpos := List.length_pos_iff.mpr hmore
      rw [heq, List.length_cons] at hlength
      omega

theorem brace_mem_escape {value : Bytes} : 125 ∈ escape value ↔ 125 ∈ value := by
  induction value with
  | nil => exact Iff.rfl
  | cons c cs ih =>
    rw [escape_cons, List.mem_append, List.mem_cons, ih]
    refine or_congr_left' fun _ => ?_
    obtain ⟨-, heq⟩ | ⟨rfl, -⟩ | ⟨more, -, heq, -, hne, hmore⟩ := escapeByte_cases c
    · rw [heq, List.mem_singleton]
    · decide
    · rw [heq, List.mem_cons]
      refine iff_of_false ?_ hne.symm
      rintro (h | h)
      · exact absurd h (by decide)
      · exact (hmore _ h).2.2 rfl

/-- An entry up to its path. -/
def opening (path : Bytes) : Bytes := entryKey ++ 32 :: 34 :: escape path

theorem entryText_append (e : Entry) (rest : Bytes) :
    entryText e ++ rest =
      ascii "      " ++
        (opening e.path ++ (pathEnd ++ (escape e.sha256 ++ 34 :: 125 :: rest))) := by
  have hkey : ascii "      \x7b\"path\": " = ascii "      " ++ entryKey ++ [32] := by decide
  have hend : pathEnd = 34 :: ascii ", \"sha256\": " ++ [34] := by decide
  have hbrace : ascii "\x7d" = [125] := by decide
  rw [entryText, opening, hkey, hend, hbrace, jsonString, jsonString]
  simp only [List.append_assoc, List.cons_append, List.nil_append]

theorem avoids_opening (path after : Bytes) :
    Avoids pathEnd (34 :: 44 :: after) (opening path) := by
  have hend : pathEnd = 34 :: (ascii ", " ++ 34 :: ascii "sha256\": \"") := by decide +kernel
  have hkey : Clear pathEnd (entryKey ++ [32]) := by decide +kernel
  have htail : ¬ ascii "sha256\": \"" <+: 44 :: after := fun h =>
    absurd (List.cons_prefix_cons.mp h).1 (by decide)
  have hseam : opening path = (entryKey ++ [32]) ++ 34 :: escape path := by
    rw [opening, List.append_assoc]
    rfl
  rw [hseam]
  refine avoids_append.mpr ⟨hkey.avoids _, ?_, ?_⟩
  · rw [hend]
    exact fun h =>
      htail (prefix_of_prefix_escape (by decide +kernel) (List.cons_prefix_cons.mp h).2)
  · rw [hend]
    exact avoids_escape (.inl rfl) (by decide +kernel) htail

theorem indexOf_entryKey {pre : Bytes} (hpre : 123 ∉ pre) (e : Entry) (rest : Bytes) :
    indexOf entryKey (pre ++ (entryText e ++ rest)) = some (pre ++ ascii "      ").length := by
  have hgap : 123 ∉ pre ++ ascii "      " := by
    rw [List.mem_append]
    exact not_or.mpr ⟨hpre, by decide⟩
  rw [entryText_append, ← List.append_assoc, opening, List.append_assoc entryKey]
  exact indexOf_eq_length (avoids_of_head_not_mem hgap)

theorem drop_entryKey (pre : Bytes) (e : Entry) (rest : Bytes) :
    (pre ++ (entryText e ++ rest)).drop (pre ++ ascii "      ").length =
      opening e.path ++ (pathEnd ++ (escape e.sha256 ++ 34 :: 125 :: rest)) := by
  rw [entryText_append, ← List.append_assoc, List.drop_left]

theorem parseEntries_entry {pre : Bytes} {e : Entry} (fuel : Nat) (rest : Bytes) (hpre : 123 ∉ pre)
    (hsha : ∀ c ∈ e.sha256, Plain c ∧ c ≠ 125) (hpath : 125 ∉ e.path) :
    parseEntries (fuel + 1) (pre ++ (entryText e ++ rest)) =
      (parseEntries fuel (125 :: rest)).map (⟨escape e.path, e.sha256⟩ :: ·) := by
  have hplain : escape e.sha256 = e.sha256 := escape_of_plain fun c hc => (hsha c hc).1
  let obj := opening e.path ++ (pathEnd ++ (e.sha256 ++ [34]))
  have hfound : (pre ++ (entryText e ++ rest)).drop (pre ++ ascii "      ").length =
      obj ++ 125 :: rest := by
    rw [drop_entryKey, hplain]
    simp [obj]
  have hobj : 125 ∉ obj := by
    have hsha' : 125 ∉ e.sha256 := fun h => (hsha _ h).2 rfl
    have hescaped : 125 ∉ escape e.path := brace_mem_escape.not.mpr hpath
    have hkey : 125 ∉ entryKey := by decide
    have hquote : 125 ∉ pathEnd := by decide
    simp [obj, opening, hkey, hescaped, hquote, hsha']
  have hend : indexOf [125] (obj ++ 125 :: rest) = some obj.length :=
    indexOf_eq_length (avoids_of_head_not_mem hobj)
  have hfield : indexOf pathEnd obj = some (opening e.path).length :=
    indexOf_eq_length (avoids_opening _ _)
  have hopening : (opening e.path).length = 10 + (escape e.path).length := by
    have hkey : entryKey.length = 8 := by decide
    simp only [opening, List.length_append, List.length_cons, hkey]
    omega
  have hlength : obj.length = (opening e.path).length + 15 + e.sha256.length := by
    have hquote : pathEnd.length = 14 := by decide
    simp only [obj, List.length_append, List.length_singleton, hquote]
    omega
  have hpathField : (obj.take (opening e.path).length).drop 10 = escape e.path := by
    have hstart : opening e.path = (entryKey ++ [32, 34]) ++ escape e.path := by
      simp [opening]
    rw [List.take_left, hstart]
    exact List.drop_left' (by decide)
  have hshaField : (obj.take (obj.length - 1)).drop ((opening e.path).length + 14) = e.sha256 := by
    have hinit : obj = (opening e.path ++ pathEnd) ++ e.sha256 ++ [34] := by
      simp [obj]
    rw [← List.dropLast_eq_take, hinit, List.dropLast_concat]
    exact List.drop_left' (by rw [List.length_append]; rfl)
  rw [parseEntries, indexOf_entryKey hpre]
  dsimp only
  rw [hfound, hend, Option.bind_eq_bind, Option.bind_some, List.take_left]
  rw [hfield, Option.bind_eq_bind, Option.bind_some, if_neg (by omega), hpathField, hshaField,
    List.drop_left]
  cases parseEntries fuel (125 :: rest) <;> rfl

theorem parseEntries_brace {pre : Bytes} {e : Entry} (fuel : Nat) (rest : Bytes) (hpre : 123 ∉ pre)
    (hpath : 125 ∈ e.path) : parseEntries (fuel + 1) (pre ++ (entryText e ++ rest)) = none := by
  obtain ⟨start, others, hsplit, hstart⟩ := List.eq_append_cons_of_mem hpath
  have hopening : opening e.path = opening start ++ 125 :: escape others := by
    have hescape : escape e.path = escape start ++ 125 :: escape others := by
      rw [hsplit, escape, List.flatMap_append]
      rfl
    rw [opening, hescape, opening]
    simp
  have hobj : 125 ∉ opening start := by
    have hescaped : 125 ∉ escape start := brace_mem_escape.not.mpr hstart
    have hkey : 125 ∉ entryKey := by decide
    simp [opening, hkey, hescaped]
  have hend (after : Bytes) : indexOf [125] (opening start ++ 125 :: after) =
      some (opening start).length := indexOf_eq_length (avoids_of_head_not_mem hobj)
  have hfield : indexOf pathEnd (opening start) = none :=
    indexOf_eq_none (by decide) (avoids_opening start []).stop
  rw [parseEntries, indexOf_entryKey hpre]
  dsimp only
  rw [drop_entryKey, hopening, List.append_assoc, List.cons_append, hend, Option.bind_eq_bind,
    Option.bind_some, List.take_left, hfield]
  rfl

theorem length_le_entriesText (entries : List Entry) :
    entries.length ≤ (entriesText entries).length := by
  induction entries with
  | nil => exact le_rfl
  | cons e entries ih =>
    have hline : (ascii "\n").length = 1 := rfl
    simp only [entriesText, List.length_append, List.length_cons, hline]
    omega

/-- Behind the key the loop finds the entries with their paths as they are
escaped, unless a brace ends an entry early. -/
theorem parseEntries_text {entries : List Entry} {fuel : Nat} {pre tail : Bytes} (hpre : 123 ∉ pre)
    (htail : Avoids entryKey [] tail) (hsha : ∀ e ∈ entries, ∀ c ∈ e.sha256, Plain c ∧ c ≠ 125)
    (hfuel : entries.length < fuel) :
    parseEntries fuel (pre ++ (entriesText entries ++ tail)) =
      if ∀ e ∈ entries, 125 ∉ e.path then some (entries.map fun e => ⟨escape e.path, e.sha256⟩)
      else none := by
  induction entries generalizing fuel pre with
  | nil =>
    obtain ⟨fuel, rfl⟩ := Nat.exists_eq_add_one.mpr hfuel
    have hnone : indexOf entryKey (pre ++ tail) = none :=
      indexOf_eq_none (by decide) (avoids_append.mpr ⟨avoids_of_head_not_mem hpre, htail⟩)
    rw [entriesText, List.nil_append, parseEntries, hnone, if_pos nofun]
    rfl
  | cons e entries ih =>
    obtain ⟨fuel, rfl⟩ := Nat.exists_eq_add_one.mpr (Nat.zero_lt_of_lt hfuel)
    obtain ⟨hsha, hrest⟩ := List.forall_mem_cons.mp hsha
    let gap := (if entries = [] then [] else ascii ",") ++ ascii "\n"
    have hgap : 123 ∉ 125 :: gap := by
      dsimp only [gap]
      split <;> decide
    have htext : entriesText (e :: entries) ++ tail =
        entryText e ++ (gap ++ (entriesText entries ++ tail)) := by
      simp [entriesText, gap]
    rw [htext]
    by_cases hpath : 125 ∈ e.path
    · rw [parseEntries_brace fuel _ hpre hpath, if_neg]
      exact fun h => h e List.mem_cons_self hpath
    · have hnext := ih hgap hrest (Nat.lt_of_succ_lt_succ hfuel)
      rw [List.cons_append] at hnext
      rw [parseEntries_entry fuel _ hpre hsha hpath, hnext]
      by_cases hpaths : ∀ e ∈ entries, 125 ∉ e.path
      · have hall : ∀ e' ∈ e :: entries, 125 ∉ e'.path := List.forall_mem_cons.mpr ⟨hpath, hpaths⟩
        rw [if_pos hpaths, if_pos hall]
        rfl
      · rw [if_neg hpaths, if_neg fun h => hpaths (List.forall_mem_cons.mp h).2]
        rfl

-- ---------------------------------------------------------------------------
-- Walks
-- ---------------------------------------------------------------------------

theorem plain_bytesToHex (bytes : Bytes) : ∀ c ∈ bytesToHex bytes, Plain c ∧ c ≠ 125 := by
  intro c hc
  obtain ⟨b, -, hb⟩ := List.mem_flatMap.mp hc
  have hdigit {n : UInt8} (hn : n < 16) : Plain (hexDigit n) ∧ hexDigit n ≠ 125 := by
    obtain ⟨hquote, hslash, -, hbrace, hlow⟩ := hexDigit_ne hn
    exact ⟨⟨hquote, hslash, hlow⟩, hbrace⟩
  obtain rfl | hb := List.mem_cons.mp hb
  · exact hdigit (by grind)
  · obtain rfl := List.mem_singleton.mp hb
    exact hdigit (by grind)

section

variable {sha256 : Bytes → Bytes} {fits fits' : Bytes → Bytes → Bool}

theorem walkWith_cons {pre name : Bytes} {node : Node} {rest : Dir} {entries : List Entry} :
    walkWith sha256 fits pre (.cons name node rest) = some entries ↔
      ∃ first others, walkNode sha256 fits (join pre name) node = some first ∧
        walkWith sha256 fits pre rest = some others ∧ first ++ others = entries := by
  rw [walkWith, Option.bind_eq_bind, Option.bind_eq_some_iff]
  refine exists_congr fun first => ?_
  rw [Option.bind_eq_some_iff]
  constructor
  · rintro ⟨hfirst, others, hothers, h⟩
    exact ⟨others, hfirst, hothers, Option.some.inj h⟩
  · rintro ⟨others, hfirst, hothers, h⟩
    exact ⟨hfirst, others, hothers, congrArg some h⟩

theorem walkNode_file {child content : Bytes} {entries : List Entry} :
    walkNode sha256 fits child (.file content) = some entries ↔
      fits child content = true ∧ [⟨child, bytesToHex (sha256 content)⟩] = entries := by
  rw [walkNode]
  split
  · next h => simp [h]
  · next h => simp [h]

mutual

/-- A walk finds the files of the tree, each with a digest. -/
theorem walkNode_spec {child : Bytes} {node : Node} {entries : List Entry}
    (h : walkNode sha256 fits child node = some entries) :
    entries.map (·.path) = node.paths child ∧
    ∀ e ∈ entries, ∃ bytes, e.sha256 = bytesToHex bytes := by
  cases node with
  | file content =>
    obtain ⟨-, rfl⟩ := walkNode_file.mp h
    exact ⟨rfl, fun e he => ⟨_, congrArg (·.sha256) (List.mem_singleton.mp he)⟩⟩
  | directory children =>
    rw [walkNode] at h
    rw [Node.paths]
    exact walkWith_spec h
  | other =>
    rw [walkNode] at h
    cases h

theorem walkWith_spec {pre : Bytes} {dir : Dir} {entries : List Entry}
    (h : walkWith sha256 fits pre dir = some entries) :
    entries.map (·.path) = dir.paths pre ∧ ∀ e ∈ entries, ∃ bytes, e.sha256 = bytesToHex bytes := by
  cases dir with
  | nil =>
    rw [walkWith] at h
    cases h
    exact ⟨rfl, nofun⟩
  | cons name node rest =>
    obtain ⟨first, others, hfirst, hothers, rfl⟩ := walkWith_cons.mp h
    obtain ⟨hpaths, hshas⟩ := walkNode_spec hfirst
    obtain ⟨hpaths', hshas'⟩ := walkWith_spec hothers
    rw [Dir.paths, List.map_append, hpaths, hpaths']
    exact ⟨rfl, fun e he => (List.mem_append.mp he).elim (hshas e) (hshas' e)⟩

end

mutual

/-- A walk that is let read more finds the same. -/
theorem walkNode_mono
    (hfits : ∀ child content, fits child content = true → fits' child content = true)
    {child : Bytes} {node : Node} {entries : List Entry}
    (h : walkNode sha256 fits child node = some entries) :
    walkNode sha256 fits' child node = some entries := by
  cases node with
  | file content =>
    obtain ⟨hfit, heq⟩ := walkNode_file.mp h
    exact walkNode_file.mpr ⟨hfits _ _ hfit, heq⟩
  | directory children =>
    rw [walkNode] at h ⊢
    exact walkWith_mono hfits h
  | other =>
    rw [walkNode] at h
    cases h

theorem walkWith_mono
    (hfits : ∀ child content, fits child content = true → fits' child content = true)
    {pre : Bytes} {dir : Dir} {entries : List Entry}
    (h : walkWith sha256 fits pre dir = some entries) :
    walkWith sha256 fits' pre dir = some entries := by
  cases dir with
  | nil => rwa [walkWith] at h ⊢
  | cons name node rest =>
    obtain ⟨first, others, hfirst, hothers, heq⟩ := walkWith_cons.mp h
    exact walkWith_cons.mpr
      ⟨first, others, walkNode_mono hfits hfirst, walkWith_mono hfits hothers, heq⟩

end

/-- A walk in another order finds the same entries in another order. -/
def Walks (sha256 : Bytes → Bytes) (fits : Bytes → Bytes → Bool) (dir dir' : Dir) : Prop :=
  ∀ pre entries, walkWith sha256 fits pre dir = some entries →
    ∃ entries', walkWith sha256 fits pre dir' = some entries' ∧ entries.Perm entries'

def NodeWalks (sha256 : Bytes → Bytes) (fits : Bytes → Bytes → Bool) (node node' : Node) : Prop :=
  ∀ child entries, walkNode sha256 fits child node = some entries →
    ∃ entries', walkNode sha256 fits child node' = some entries' ∧ entries.Perm entries'

/-- Induction on why the trees are the same. -/
theorem walks_of_same {dir dir' : Dir} (h : dir.Same dir') : Walks sha256 fits dir dir' := by
  refine @Dir.Same.rec (fun node node' _ => NodeWalks sha256 fits node node')
    (fun dir dir' _ => Walks sha256 fits dir dir') ?_ ?_ ?_ ?_ ?_ ?_ ?_ dir dir' h
  · exact fun content child entries h => ⟨entries, h, .refl _⟩
  · intro d d' _ ih child entries h
    rw [walkNode] at h
    obtain ⟨entries', h', hperm⟩ := ih child entries h
    exact ⟨entries', by rwa [walkNode], hperm⟩
  · exact fun child entries h => ⟨entries, h, .refl _⟩
  · exact fun pre entries h => ⟨entries, h, .refl _⟩
  · intro n n' d d' name _ _ ihnode ihrest pre entries h
    obtain ⟨first, others, hfirst, hothers, rfl⟩ := walkWith_cons.mp h
    obtain ⟨first', hfirst', hperm⟩ := ihnode _ _ hfirst
    obtain ⟨others', hothers', hperm'⟩ := ihrest _ _ hothers
    exact ⟨_, walkWith_cons.mpr ⟨first', others', hfirst', hothers', rfl⟩, hperm.append hperm'⟩
  · intro name name' n n' d pre entries h
    obtain ⟨first, others, hfirst, hothers, rfl⟩ := walkWith_cons.mp h
    obtain ⟨second, rest, hsecond, hrest, rfl⟩ := walkWith_cons.mp hothers
    refine ⟨_, walkWith_cons.mpr ⟨second, first ++ rest, hsecond,
      walkWith_cons.mpr ⟨first, rest, hfirst, hrest, rfl⟩, rfl⟩, ?_⟩
    rw [← List.append_assoc, ← List.append_assoc]
    exact List.perm_append_comm.append_right rest
  · intro d d' d'' _ _ ih ih' pre entries h
    obtain ⟨entries', h', hperm⟩ := ih pre entries h
    obtain ⟨entries'', h'', hperm'⟩ := ih' pre entries' h'
    exact ⟨entries'', h'', hperm.trans hperm'⟩

end

-- ---------------------------------------------------------------------------
-- Paths are distinct
-- ---------------------------------------------------------------------------

/-- The path is this one or one in the directory at it. -/
def Under (child path : Bytes) : Prop :=
  ∃ rest, path = child ++ rest ∧ (rest = [] ∨ rest.head? = some 47)

theorem Dir.Valid.names {dir : Dir} (h : dir.Valid) : ∀ name ∈ dir.names, 47 ∉ name := by
  cases dir with
  | nil => exact nofun
  | cons name node rest =>
    obtain ⟨⟨-, hslash, -⟩, -, hrest⟩ := h
    exact List.forall_mem_cons.mpr ⟨hslash, hrest.names⟩

theorem eq_of_under {pre name name' path : Bytes} (hname : 47 ∉ name) (hname' : 47 ∉ name')
    (h : Under (join pre name) path) (h' : Under (join pre name') path) : name = name' := by
  obtain ⟨rest, rfl, hrest⟩ := h
  obtain ⟨rest', heq, hrest'⟩ := h'
  have hcancel : name ++ rest = name' ++ rest' := by
    unfold join at heq
    split at heq
    · exact heq
    · simpa using heq
  have htake {name rest : Bytes} (hname : 47 ∉ name) (hrest : rest = [] ∨ rest.head? = some 47) :
      (name ++ rest).takeWhile (· ≠ 47) = name := by
    have hall : ∀ c ∈ name, decide (c ≠ 47) = true := fun c hc =>
      decide_eq_true fun h => hname (h ▸ hc)
    rw [List.takeWhile_append_of_pos hall]
    cases rest with
    | nil => simp
    | cons c rest =>
      obtain rfl := Option.some.inj (hrest.resolve_left (List.cons_ne_nil _ _))
      simp
  rw [← htake hname hrest, hcancel, htake hname' hrest']

theorem join_ne_nil {pre name : Bytes} (h : name ≠ []) : join pre name ≠ [] := by
  unfold join
  split
  · exact h
  · simp

theorem Under.trans {child name path : Bytes} (hchild : child ≠ [])
    (h : Under (join child name) path) : Under child path := by
  obtain ⟨rest, rfl, -⟩ := h
  refine ⟨47 :: (name ++ rest), ?_, .inr rfl⟩
  rw [join, if_neg hchild, List.append_assoc]
  rfl

mutual

theorem nodup_nodePaths {node : Node} {child : Bytes} (h : node.Valid) (hchild : child ≠ []) :
    (node.paths child).Nodup ∧ ∀ path ∈ node.paths child, Under child path := by
  cases node with
  | file content =>
    refine ⟨List.nodup_singleton _, fun path hpath => ⟨[], ?_, .inl rfl⟩⟩
    rw [List.append_nil]
    exact List.mem_singleton.mp hpath
  | directory children =>
    obtain ⟨hnodup, hunder⟩ := @nodup_paths children child h
    refine ⟨hnodup, fun path hpath => ?_⟩
    obtain ⟨name, -, hname⟩ := hunder path hpath
    exact hname.trans hchild
  | other => exact ⟨List.nodup_nil, nofun⟩

theorem nodup_paths {dir : Dir} {pre : Bytes} (h : dir.Valid) :
    (dir.paths pre).Nodup ∧
    ∀ path ∈ dir.paths pre, ∃ name ∈ dir.names, Under (join pre name) path := by
  cases dir with
  | nil => exact ⟨List.nodup_nil, nofun⟩
  | cons name node rest =>
    obtain ⟨⟨hne, hslash, hnew⟩, hnode, hrest⟩ := h
    obtain ⟨hnodup, hunder⟩ := nodup_nodePaths hnode (@join_ne_nil pre name hne)
    obtain ⟨hnodup', hunder'⟩ := @nodup_paths rest pre hrest
    refine ⟨hnodup.append hnodup' fun path hpath hpath' => ?_, fun path hpath => ?_⟩
    · obtain ⟨name', hmem, hname'⟩ := hunder' path hpath'
      obtain rfl := eq_of_under hslash (hrest.names name' hmem) (hunder path hpath) hname'
      exact hnew hmem
    · obtain hpath | hpath := List.mem_append.mp hpath
      · exact ⟨name, List.mem_cons_self, hunder path hpath⟩
      · obtain ⟨name', hmem, hname'⟩ := hunder' path hpath
        exact ⟨name', List.mem_cons_of_mem _ hmem, hname'⟩

end

mutual

theorem Node.Same.refl : (node : Node) → node.Same node
  | .file content => .file content
  | .directory children => .directory (Dir.Same.refl children)
  | .other => .other

theorem Dir.Same.refl : (dir : Dir) → dir.Same dir
  | .nil => .nil
  | .cons name node rest => .cons name (Node.Same.refl node) (Dir.Same.refl rest)

end

theorem perm_sortEntries (entries : List Entry) : (sortEntries entries).Perm entries :=
  List.perm_insertionSort _ entries

/-- The order of the walk is sorted away. -/
theorem sortEntries_eq_of_perm {entries entries' : List Entry} (h : entries.Perm entries')
    (hnodup : (entries.map (·.path)).Nodup) : sortEntries entries = sortEntries entries' := by
  let le (a b : Entry) : Prop := a.path ≤ b.path
  have : Std.Total le := ⟨fun a b => List.le_total a.path b.path⟩
  have : IsTrans Entry le := ⟨fun _ _ _ => List.le_trans⟩
  have hperm : (sortEntries entries).Perm (sortEntries entries') :=
    (perm_sortEntries entries).trans (h.trans (perm_sortEntries entries').symm)
  refine hperm.eq_of_pairwise (fun a b ha hb hab hba => ?_)
    (List.pairwise_insertionSort le entries) (List.pairwise_insertionSort le entries')
  have ha := (perm_sortEntries entries).mem_iff.mp ha
  have hb := h.mem_iff.mpr ((perm_sortEntries entries').mem_iff.mp hb)
  exact List.inj_on_of_nodup_map hnodup ha hb (List.le_antisymm hab hba)

-- ---------------------------------------------------------------------------
-- Writer and verifier
-- ---------------------------------------------------------------------------

/-- The ordered entries that identify a bundle. -/
def entryVector (sha256 : Bytes → Bytes) (bundle : Dir) : Option (List Entry) :=
  (walkEntries sha256 bundle).map sortEntries

/-- A tree whose manifest was written. -/
structure Written (sha256 : Bytes → Bytes) where
  build : Build
  tree : Dir
  valid : tree.Valid
  text : Bytes
  written : manifest sha256 build tree = some text

/-- The verifier accepts the manifest for its tree, in whatever order it walks
that, and for no tree with other entries. -/
structure Agrees (sha256 : Bytes → Bytes) (tree : Dir) (text : Bytes) : Prop where
  accepts : ∀ tree', tree.Same tree' → verifyEntries sha256 tree' text = true
  equal : ∀ other, verifyEntries sha256 other text = true →
    entryVector sha256 other = entryVector sha256 tree

variable {sha256 : Bytes → Bytes}

theorem verifyEntries_iff {bundle : Dir} {text : Bytes} :
    verifyEntries sha256 bundle text = true ↔
      ∃ recorded, parseManifest text = some recorded ∧
      entryVector sha256 bundle = some recorded := by
  unfold verifyEntries entryVector
  cases walkEntries sha256 bundle with
  | none => simp
  | some computed =>
    cases parseManifest text with
    | none => simp
    | some recorded => simp [eq_comm]

/-- A manifest that was written has a header, the sorted entries and a footer. -/
theorem text_of_manifest {build : Build} {tree : Dir} {text : Bytes}
    (h : manifest sha256 build tree = some text) :
    ∃ entries execSha plistSha, walk sha256 tree = some entries ∧
      text = header build execSha plistSha ++ entriesKey ++ ascii "\n" ++
        entriesText (sortEntries entries) ++ footer sha256 build := by
  obtain ⟨entries, hwalk, h⟩ := Option.bind_eq_some_iff.mp h
  by_cases hempty : entries = []
  · rw [if_pos hempty] at h
    exact absurd h (Option.some_ne_none text).symm
  rw [if_neg hempty] at h
  obtain ⟨execSha, -, h⟩ := Option.bind_eq_some_iff.mp h
  obtain ⟨plistSha, -, h⟩ := Option.bind_eq_some_iff.mp h
  by_cases hcommit : build.commit.length ≠ 40
  · rw [if_pos hcommit] at h
    exact absurd h (Option.some_ne_none text).symm
  · rw [if_neg hcommit] at h
    exact ⟨entries, execSha, plistSha, hwalk, (Option.some.inj h).symm⟩

theorem parseManifest_append {pre rest : Bytes} (h : Avoids entriesKey (entriesKey ++ rest) pre) :
    parseManifest (pre ++ (entriesKey ++ rest)) = parseEntries (rest.length + 1) rest := by
  have hrest : (pre ++ (entriesKey ++ rest)).drop (pre.length + entriesKey.length) = rest := by
    rw [← List.append_assoc]
    exact List.drop_left' List.length_append
  rw [parseManifest, indexOf_eq_length h, Option.bind_eq_bind, Option.bind_some]
  dsimp only
  rw [hrest]

theorem parseManifest_manifest {build : Build} {tree : Dir} {text : Bytes}
    (h : manifest sha256 build tree = some text) :
    ∃ entries, walk sha256 tree = some entries ∧
      parseManifest text =
        if ∀ e ∈ sortEntries entries, 125 ∉ e.path then
          some ((sortEntries entries).map fun e => ⟨escape e.path, e.sha256⟩)
        else none := by
  obtain ⟨entries, execSha, plistSha, hwalk, htext⟩ := text_of_manifest h
  refine ⟨entries, hwalk, ?_⟩
  have hsha : ∀ e ∈ sortEntries entries, ∀ c ∈ e.sha256, Plain c ∧ c ≠ 125 := by
    intro e he
    obtain ⟨bytes, hbytes⟩ := (walkWith_spec hwalk).2 e ((perm_sortEntries entries).mem_iff.mp he)
    rw [hbytes]
    exact plain_bytesToHex bytes
  have hlength := length_le_entriesText (sortEntries entries)
  rw [htext, List.append_assoc, List.append_assoc, List.append_assoc,
    parseManifest_append (avoids_header build execSha plistSha _)]
  refine parseEntries_text (by decide) ?_ hsha ?_
  · with_reducible exact avoids_footer sha256 build []
  · rw [List.length_append, List.length_append]
    omega

theorem entryVector_of_walk {tree : Dir} {entries : List Entry}
    (h : walk sha256 tree = some entries) :
    entryVector sha256 tree = some (sortEntries entries) := by
  have hmore : walkEntries sha256 tree = some entries := by
    refine walkWith_mono (fun child content hfit => ?_) h
    have hsmall := of_decide_eq_true (Bool.and_eq_true_iff.mp hfit).1
    exact decide_eq_true (hsmall.trans (by decide))
  rw [entryVector, hmore]
  rfl

/-- A verifier that accepts the manifest for its own tree has read every path as
it is. -/
theorem plain_of_accepts {build : Build} {tree : Dir} {text : Bytes}
    (h : manifest sha256 build tree = some text) (haccept : verifyEntries sha256 tree text = true) :
    ∀ path ∈ tree.paths [], ∀ c ∈ path, Plain c ∧ c ≠ 125 := by
  obtain ⟨entries, hwalk, hparse⟩ := parseManifest_manifest h
  obtain ⟨recorded, hrecorded, hvector⟩ := verifyEntries_iff.mp haccept
  rw [entryVector_of_walk hwalk] at hvector
  cases hvector
  rw [hparse] at hrecorded
  split at hrecorded
  · next hbraces =>
    intro path hpath c hc
    rw [← (walkWith_spec hwalk).1] at hpath
    obtain ⟨e, he, rfl⟩ := List.mem_map.mp hpath
    have he := (perm_sortEntries entries).mem_iff.mpr he
    have hsame := List.map_inj_left.mp ((Option.some.inj hrecorded).trans (List.map_id _).symm) e he
    have hescape : escape e.path = e.path := congrArg (·.path) hsame
    exact ⟨escape_eq_self_iff.mp hescape c hc, fun h => hbraces e he (h ▸ hc)⟩
  · cases hrecorded

theorem parseManifest_of_plain {build : Build} {tree : Dir} {text : Bytes}
    (h : manifest sha256 build tree = some text)
    (hplain : ∀ path ∈ tree.paths [], ∀ c ∈ path, Plain c ∧ c ≠ 125) :
    parseManifest text = entryVector sha256 tree := by
  obtain ⟨entries, hwalk, hparse⟩ := parseManifest_manifest h
  have hpath : ∀ e ∈ sortEntries entries, ∀ c ∈ e.path, Plain c ∧ c ≠ 125 := by
    intro e he
    refine hplain e.path ?_
    rw [← (walkWith_spec hwalk).1]
    exact List.mem_map_of_mem ((perm_sortEntries entries).mem_iff.mp he)
  have hbraces : ∀ e ∈ sortEntries entries, 125 ∉ e.path := fun e he hc => (hpath e he 125 hc).2 rfl
  have hsame : (sortEntries entries).map (fun e => (⟨escape e.path, e.sha256⟩ : Entry)) =
      sortEntries entries := by
    refine (List.map_congr_left fun e he => ?_).trans (List.map_id _)
    rw [escape_of_plain fun c hc => (hpath e he c hc).1]
    rfl
  rw [hparse, if_pos hbraces, hsame, entryVector_of_walk hwalk]

/-- Writer and verifier agree on exactly the trees without a quote, a backslash,
a closing brace or a control byte in the path of a file. -/
theorem agrees_iff_plain (sha256 : Bytes → Bytes) (w : Written sha256) :
    Agrees sha256 w.tree w.text ↔ ∀ path ∈ w.tree.paths [], ∀ c ∈ path, Plain c ∧ c ≠ 125 := by
  constructor
  · exact fun h => plain_of_accepts w.written (h.accepts w.tree (.refl w.tree))
  · intro hplain
    have hparse := parseManifest_of_plain w.written hplain
    refine ⟨fun tree' hsame => ?_, fun other haccept => ?_⟩
    · obtain ⟨entries, hwalk, -⟩ := parseManifest_manifest w.written
      have hnodup : (entries.map (·.path)).Nodup := by
        rw [(walkWith_spec hwalk).1]
        exact (nodup_paths w.valid).1
      obtain ⟨entries', hwalk', hperm⟩ := walks_of_same hsame _ _ hwalk
      refine verifyEntries_iff.mpr ⟨_, hparse.trans (entryVector_of_walk hwalk), ?_⟩
      rw [entryVector_of_walk hwalk', sortEntries_eq_of_perm hperm hnodup]
    · obtain ⟨recorded, hrecorded, hvector⟩ := verifyEntries_iff.mp haccept
      rw [hvector, ← hrecorded, hparse]

/-- A bundle with a quote in the name of a resource. -/
def quotedTree : Dir :=
  .cons (ascii "Contents") (.directory <|
    .cons (ascii "Info.plist") (.file [1]) <|
    .cons (ascii "MacOS") (.directory <| .cons (ascii "AKInterface") (.file [2]) .nil) <|
    .cons (ascii "a\"b") (.file [3]) .nil) .nil

def anyBuild : Build where
  target := ascii "aarch64-apple-ios-macabi"
  repository := []
  commit := List.replicate 40 48
  patchPath := []
  patch := []
  rustc := []
  swiftc := []
  zig := []
  sdk := []

theorem quote_is_refused :
    ∃ w : Written id, w.tree = quotedTree ∧ verifyEntries id w.tree w.text = false := by
  have hwritten : (manifest id anyBuild quotedTree).isSome = true := by decide +kernel
  obtain ⟨text, htext⟩ := Option.isSome_iff_exists.mp hwritten
  have hvalid : quotedTree.Valid := by
    simp only [quotedTree, Dir.Valid, Node.Valid, Dir.names]
    decide
  refine ⟨⟨anyBuild, quotedTree, hvalid, text, htext⟩, rfl, Bool.eq_false_iff.mpr fun haccept => ?_⟩
  have hplain :=
    plain_of_accepts htext haccept (ascii "Contents/a\"b") (by decide +kernel) 34 (by decide)
  exact hplain.1.1 rfl

end ShinySongTools.Publish
