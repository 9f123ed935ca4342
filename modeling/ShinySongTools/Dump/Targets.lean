import ShinySongTools.Paths
import ShinySongTools.Dump.Probes

/-!
# Where data files are dumped

The keys that the three producers of data files accept, and the file that each
key's content goes to. The game is what it has keys for. Links, the limits of
the file system and what is in it already are left out.
-/

namespace ShinySongTools.Dump

open Paths

def fromUtf16Lossy : List UInt16 → List Char
  | [] => []
  | unit :: rest =>
    if unit < 0xD800 ∨ 0xDFFF < unit then Char.ofNat unit.toNat :: fromUtf16Lossy rest
    else
      match rest with
      | [] => ['\uFFFD']
      | low :: rest =>
        if unit ≤ 0xDBFF ∧ 0xDC00 ≤ low ∧ low ≤ 0xDFFF then
          Char.ofNat (0x10000 + (unit.toNat - 0xD800) * 0x400 + (low.toNat - 0xDC00)) ::
            fromUtf16Lossy rest
        else '\uFFFD' :: fromUtf16Lossy (low :: rest)

def stringFromUtf16Lossy (units : List UInt16) : String := .ofList (fromUtf16Lossy units)

def requestedPatterns (patterns : List String) : List String :=
  if patterns.isEmpty then Probing.defaultPatterns else patterns

/-- The name that `get_bytes_replacement` dumps a data path under. -/
def getBytesName (path : String) : Option String :=
  if ¬ ".json".toList <:+ path.toList ∨ ['.', '.'] <:+: path.toList then none
  else if ['.', '.'] <:+: (sanitized path).toList then none
  else some (sanitized path)

-- ---------------------------------------------------------------------------
-- Keys and files
-- ---------------------------------------------------------------------------

/-- What the producers are given; `paths` are the data paths at which the game
reads what can be dumped. -/
structure Inputs where
  paths : List (List UInt16)
  entries : LocalifyMap
  patterns : List String
  isKeyExist : String → Bool

/-- No five parts in a row are missing before this one. -/
def Probed (isKeyExist : String → Bool) (sid : String) (part : Nat) : Prop :=
  ∀ q, q + 5 ≤ part → ∃ i < 5, isKeyExist (partName sid (q + i)) = true

namespace Inputs

def BytesKey (g : Inputs) (path : List UInt16) : Prop :=
  path ∈ g.paths ∧ (getBytesName (stringFromUtf16Lossy path)).isSome = true

def ScenarioKey (g : Inputs) (key : String) : Prop :=
  ∃ sid ∈ g.entries.sids, ∃ part, key = partName sid part ∧ Probed g.isKeyExist sid part ∧
    g.isKeyExist key = true

def LyricsKey (g : Inputs) (key : String) : Prop :=
  ∃ musicId ∈ g.entries.musicIds, ∃ pattern ∈ requestedPatterns g.patterns,
    key = pattern.replace "\x7bid\x7d" musicId ∧ g.isKeyExist key = true

end Inputs

def bytesFile (jsonDir : List Name) (path : List UInt16) : Option (List Name) :=
  (getBytesName (stringFromUtf16Lossy path)).bind fun name => fileAt jsonDir name.toList

def scenarioFile (jsonDir : List Name) (key : String) : Option (List Name) :=
  fileAt jsonDir key.toList

def lyricsFile (jsonDir : List Name) (key : String) : Option (List Name) :=
  fileAt (jsonDir ++ ["lyrics".toList]) (sanitized key).toList

/-- Whatever the producers dump is inside the directory, each key in a file of
its own. -/
structure Confined (jsonDir : List Name) (g : Inputs) : Prop where
  bytes : Separate jsonDir g.BytesKey (bytesFile jsonDir)
  scenario : Separate jsonDir g.ScenarioKey (scenarioFile jsonDir)
  lyrics : Separate jsonDir g.LyricsKey (lyricsFile jsonDir)

/-- A sanitised name has these characters from the key only; every other one
becomes `_`. -/
def kept (c : Char) : Bool := c.isAlphanum || c = '.'

/-- Two characters that sanitising does not tell apart. -/
def Blurs (c d : Char) : Prop := c = d ∨ kept c = false ∧ kept d = false

instance : DecidableRel Blurs := fun c d =>
  inferInstanceAs (Decidable (c = d ∨ kept c = false ∧ kept d = false))

def Blurred (text text' : List Char) : Prop := List.Forall₂ Blurs text text'

/-- The keys stay apart without their directories and special characters. -/
structure Distinguishable (jsonDir : List Name) (g : Inputs) : Prop where
  bytes : ∀ path path', g.BytesKey path → g.BytesKey path' →
    Blurred (fromUtf16Lossy path) (fromUtf16Lossy path') → path = path'
  below : ∀ key, g.ScenarioKey key →
    '\x00' ∉ key.toList ∧ ∃ below, below ≠ [] ∧ Reaches jsonDir key.toList below
  apart : ∀ key key' below, g.ScenarioKey key → g.ScenarioKey key' →
    Reaches jsonDir key.toList below → Reaches jsonDir key'.toList below → key = key'
  named : ∀ key, g.LyricsKey key → key ≠ "" ∧ key ≠ "." ∧ key ≠ ".."
  lyrics : ∀ key key', g.LyricsKey key → g.LyricsKey key' →
    Blurred key.toList key'.toList → key = key'

-- ---------------------------------------------------------------------------
-- Sanitised names
-- ---------------------------------------------------------------------------

variable {key key' : String} {jsonDir dir : List Name}

theorem toList_sanitized (key : String) :
    (sanitized key).toList = key.toList.map fun c => if kept c then c else '_' := by
  refine String.toList_ofList.trans (List.map_congr_left fun c _ => ?_)
  by_cases hc : c = '_'
  · subst hc
    rfl
  · simp [hc, kept]

theorem not_mem_sanitized {c : Char} (hc : kept c = false) (hne : c ≠ '_') :
    c ∉ (sanitized key).toList := by
  rw [toList_sanitized, List.mem_map]
  rintro ⟨d, -, hd⟩
  split at hd
  · next hkept =>
    subst hd
    exact Bool.false_ne_true (hc.symm.trans hkept)
  · exact hne hd.symm

theorem blurs_iff (c d : Char) :
    ((if kept c then c else '_') = if kept d then d else '_') ↔ Blurs c d := by
  have hblank : kept '_' = false := rfl
  unfold Blurs
  cases hc : kept c with
  | true =>
    cases hd : kept d with
    | true => simp
    | false =>
      have hne : c ≠ '_' := fun h => by simp [h, hblank] at hc
      have hne' : c ≠ d := fun h => by simp [h, hd] at hc
      simp [hne, hne']
  | false =>
    cases hd : kept d with
    | true =>
      have hne : '_' ≠ d := fun h => by simp [← h, hblank] at hd
      have hne' : c ≠ d := fun h => by simp [h, hd] at hc
      simp [hne, hne']
    | false => simp

theorem sanitized_eq_iff : sanitized key = sanitized key' ↔ Blurred key.toList key'.toList := by
  rw [← String.toList_inj, toList_sanitized, toList_sanitized, Blurred, ← List.forall₂_eq_eq_eq,
    List.forall₂_map_left_iff, List.forall₂_map_right_iff]
  simp only [blurs_iff]

theorem sanitized_eq_dots (key : String) (dots : List Char) (hdots : ∀ c ∈ dots, c = '.') :
    (sanitized key).toList = dots ↔ key.toList = dots := by
  have hdot (c : Char) : (if kept c then c else '_') = '.' ↔ c = '.' := by
    by_cases hc : c = '.'
    · subst hc
      exact iff_of_true rfl rfl
    · split <;> simp [hc]
  rw [toList_sanitized]
  generalize key.toList = text
  induction dots generalizing text with
  | nil => exact List.map_eq_nil_iff
  | cons c dots ih =>
    obtain ⟨rfl, hrest⟩ := List.forall_mem_cons.mp hdots
    cases text with
    | nil => simp
    | cons d text =>
      rw [List.map_cons, List.cons_eq_cons, List.cons_eq_cons]
      exact and_congr (hdot d) (ih hrest text)

theorem isName_sanitized :
    isName (sanitized key).toList = true ↔ key ≠ "" ∧ key ≠ "." ∧ key ≠ ".." := by
  have hkey (name : String) : key = name ↔ key.toList = name.toList := String.toList_inj.symm
  rw [Ne, Ne, Ne, hkey "", hkey ".", hkey ".."]
  have hnil := sanitized_eq_dots key [] nofun
  simp only [isName, Bool.and_eq_true, decide_eq_true_eq, ne_eq]
  rw [hnil, sanitized_eq_dots key ['.'] (by simp), sanitized_eq_dots key ['.', '.'] (by simp),
    and_assoc]
  rfl

theorem fileAt_sanitized (hname : isName (sanitized key).toList = true) :
    fileAt dir (sanitized key).toList = some (dir ++ [(sanitized key).toList]) :=
  fileAt_name (not_mem_sanitized rfl (by decide)) (not_mem_sanitized rfl (by decide)) hname

-- ---------------------------------------------------------------------------
-- The names that the loops write
-- ---------------------------------------------------------------------------

/-- The answers for the parts from `part` on are those of the game. -/
def Agrees (isKeyExist : String → Bool) (sid : String) : Nat → List Candidate → Prop
  | _, [] => True
  | part, .noString :: answers => Agrees isKeyExist sid (part + 1) answers
  | part, .missing :: answers =>
    isKeyExist (partName sid part) = false ∧ Agrees isKeyExist sid (part + 1) answers
  | part, .found _ _ :: answers =>
    isKeyExist (partName sid part) = true ∧ Agrees isKeyExist sid (part + 1) answers

variable {isKeyExist : String → Bool}

theorem Probed.next {sid : String} {part : Nat} (h : Probed isKeyExist sid part)
    (hhit : 4 ≤ part → ∃ i < 5, isKeyExist (partName sid (part - 4 + i)) = true) :
    Probed isKeyExist sid (part + 1) := by
  intro q hq
  obtain hq | hq := Nat.lt_or_eq_of_le hq
  · exact h q (Nat.le_of_lt_succ hq)
  · obtain rfl : part = q + 4 := Nat.succ.inj hq.symm
    exact hhit (Nat.le_add_left 4 q)

/-- Before the loop ends, the misses are those since the last part that is there. -/
theorem written_probeParts {sid : String} {part misses : Nat} {written : List String}
    {answers : List Candidate} {p : Probe} (hanswers : Agrees isKeyExist sid part answers)
    (hprobed : misses < 5 → Probed isKeyExist sid part) (hmisses : misses ≤ part)
    (hsince : misses = part ∨ isKeyExist (partName sid (part - misses - 1)) = true)
    (h : probeParts sid part misses written answers = some p) :
    ∀ name ∈ p.written, name ∈ written ∨
      ∃ part, name = partName sid part ∧ Probed isKeyExist sid part ∧ isKeyExist name = true := by
  induction answers generalizing part misses written with
  | nil =>
    rw [probeParts] at h
    split at h
    · cases h
    · cases h
      exact fun _ => .inl
  | cons c answers ih =>
    unfold probeParts at h
    split at h
    case isFalse =>
      cases h
      exact fun _ => .inl
    case isTrue hmore =>
      have hprobed := hprobed hmore
      cases c with
      | noString =>
        cases h
        exact fun _ => .inl
      | missing =>
        obtain ⟨-, hanswers⟩ := hanswers
        refine ih hanswers (fun _ => hprobed.next fun hpart => ?_) (Nat.succ_le_succ hmisses) ?_ h
        · refine ⟨3 - misses, by omega, ?_⟩
          have hhit := hsince.resolve_left (by omega)
          rwa [show part - 4 + (3 - misses) = part - misses - 1 by omega]
        · rw [Nat.succ_sub_succ]
          exact hsince.imp_left (congrArg Nat.succ)
      | found _ file =>
        obtain ⟨hexists, hanswers⟩ := hanswers
        cases hfile : dumpOneDataFile file with
        | error =>
          simp only [hfile] at h
          cases h
          exact fun _ => .inl
        | ok =>
          simp only [hfile] at h
          have hnext : Probed isKeyExist sid (part + 1) :=
            hprobed.next fun hpart => ⟨4, by decide, by rwa [Nat.sub_add_cancel hpart]⟩
          intro name hname
          obtain hwritten | hlater := ih hanswers (fun _ => hnext) (Nat.zero_le _) (.inr hexists) h
            name hname
          · obtain hold | hnew := List.mem_append.mp hwritten
            · exact .inl hold
            · obtain rfl := List.mem_singleton.mp hnew
              exact .inr ⟨part, rfl, hprobed, hexists⟩
          · exact .inr hlater

theorem scenarioKey_of_written {g : Inputs} {sid : String} {answers : List Candidate} {p : Probe}
    (hsid : sid ∈ g.entries.sids) (hanswers : Agrees g.isKeyExist sid 0 answers)
    (h : probeParts sid 0 0 [] answers = some p) : ∀ name ∈ p.written, g.ScenarioKey name := by
  intro name hname
  have hfirst : Probed g.isKeyExist sid 0 := fun q hq => absurd hq (by omega)
  obtain hnone | ⟨part, hkey⟩ :=
    written_probeParts hanswers (fun _ => hfirst) le_rfl (.inl rfl) h name hname
  · cases hnone
  · exact ⟨sid, hsid, part, hkey⟩

def AgreesOn (isKeyExist : String → Bool) : List String → List Candidate → Prop
  | key :: keys, .found _ _ :: answers =>
    isKeyExist key = true ∧ AgreesOn isKeyExist keys answers
  | _ :: keys, _ :: answers => AgreesOn isKeyExist keys answers
  | _, _ => True

/-- The name stands for the key that one of the patterns makes. -/
def NamedAfter (isKeyExist : String → Bool) (musicId : String) (patterns : List String)
    (name : String) : Prop :=
  ∃ pattern ∈ patterns, name = sanitized (pattern.replace "\x7bid\x7d" musicId) ∧
    isKeyExist (pattern.replace "\x7bid\x7d" musicId) = true

theorem NamedAfter.cons {musicId pattern name : String} {patterns : List String}
    (h : NamedAfter isKeyExist musicId patterns name) :
    NamedAfter isKeyExist musicId (pattern :: patterns) name := by
  obtain ⟨pattern', hmem, hkey⟩ := h
  exact ⟨pattern', List.mem_cons_of_mem pattern hmem, hkey⟩

theorem written_probePatterns {musicId : String} {patterns written : List String}
    {complete : Bool} {answers : List Candidate} {p : Probe}
    (hanswers : AgreesOn isKeyExist (patterns.map (·.replace "\x7bid\x7d" musicId)) answers)
    (h : probePatterns musicId written complete patterns answers = some p) :
    ∀ name ∈ p.written, name ∈ written ∨ NamedAfter isKeyExist musicId patterns name := by
  induction patterns generalizing written complete answers with
  | nil =>
    cases h
    exact fun _ => .inl
  | cons pattern patterns ih =>
    cases answers with
    | nil => cases h
    | cons c answers =>
      cases c with
      | noString | missing => exact fun name hname => (ih hanswers h name hname).imp_right .cons
      | found target file =>
        obtain ⟨hexists, hanswers⟩ := hanswers
        cases target with
        | true => exact fun name hname => (ih hanswers h name hname).imp_right .cons
        | false =>
          rw [probePatterns] at h
          cases hfile : dumpOneDataFile file with
          | error =>
            rw [hfile] at h
            cases h
            exact fun _ => .inl
          | ok =>
            rw [hfile] at h
            intro name hname
            obtain hwritten | hlater := ih hanswers h name hname
            · obtain hold | hnew := List.mem_append.mp hwritten
              · exact .inl hold
              · obtain rfl := List.mem_singleton.mp hnew
                exact .inr ⟨pattern, List.mem_cons_self, rfl, hexists⟩
            · exact .inr hlater.cons

theorem lyricsKey_of_written {g : Inputs} {musicId : String} {answers : List Candidate} {p : Probe}
    (hid : musicId ∈ g.entries.musicIds)
    (hanswers : AgreesOn g.isKeyExist
      ((requestedPatterns g.patterns).map (·.replace "\x7bid\x7d" musicId)) answers)
    (h : probePatterns musicId [] true (requestedPatterns g.patterns) answers = some p) :
    ∀ name ∈ p.written, ∃ key, g.LyricsKey key ∧ name = sanitized key := by
  intro name hname
  obtain hnone | ⟨pattern, hpattern, rfl, hexists⟩ := written_probePatterns hanswers h name hname
  · cases hnone
  · exact ⟨_, ⟨musicId, hid, pattern, hpattern, rfl, hexists⟩, rfl⟩

-- ---------------------------------------------------------------------------
-- The producers
-- ---------------------------------------------------------------------------

variable {g : Inputs} {path : List UInt16}

/-- The part number is the end of the name's last component. -/
theorem partName_eq (sid : String) (part : Nat) :
    ∃ number, '/' ∉ number ∧ '_' ∈ number ∧ (partName sid part).toList = sid.toList ++ number := by
  have hdigits : '/' ∉ part.repr.toList := by
    intro hmem
    rw [Nat.toList_repr] at hmem
    have hdigit := Nat.isDigit_of_mem_toDigits (by decide) (by decide) hmem
    cases hdigit
  by_cases hpart : part < 10
  · have hname : partName sid part = sid ++ "_0" ++ part.repr ++ ".json" := if_pos hpart
    refine ⟨"_0".toList ++ part.repr.toList ++ ".json".toList, ?_, by simp, ?_⟩
    · simpa using hdigits
    · rw [hname]
      simp
  · have hname : partName sid part = sid ++ "_" ++ part.repr ++ ".json" := if_neg hpart
    refine ⟨"_".toList ++ part.repr.toList ++ ".json".toList, ?_, by simp, ?_⟩
    · simpa using hdigits
    · rw [hname]
      simp

theorem last_partName (sid : String) (part : Nat) :
    (components (partName sid part).toList).getLast?.any isName = true := by
  obtain ⟨number, hslash, hmem, heq⟩ := partName_eq sid part
  obtain ⟨start, hlast⟩ := getLast?_components_append sid.toList hslash
  rw [heq, hlast]
  exact isName_of_mem (List.mem_append_right _ hmem) (by decide)

theorem scenarioFile_eq_iff {below : List Name} (hkey : g.ScenarioKey key) :
    scenarioFile jsonDir key = some (jsonDir ++ below) ↔
      '\x00' ∉ key.toList ∧ Reaches jsonDir key.toList below := by
  obtain ⟨sid, -, part, rfl, -⟩ := hkey
  rw [scenarioFile, fileAt_eq_iff]
  simp [last_partName]

theorem separate_scenario_iff :
    Separate jsonDir g.ScenarioKey (scenarioFile jsonDir) ↔
      (∀ key, g.ScenarioKey key →
        '\x00' ∉ key.toList ∧ ∃ below, below ≠ [] ∧ Reaches jsonDir key.toList below) ∧
      ∀ key key' below, g.ScenarioKey key → g.ScenarioKey key' →
        Reaches jsonDir key.toList below → Reaches jsonDir key'.toList below → key = key' := by
  constructor
  · intro h
    have hbelow : ∀ key, g.ScenarioKey key →
        '\x00' ∉ key.toList ∧ ∃ below, below ≠ [] ∧ Reaches jsonDir key.toList below := by
      intro key hkey
      obtain ⟨below, hne, hfile⟩ := h.inside key hkey
      obtain ⟨hnul, hreaches⟩ := (scenarioFile_eq_iff hkey).mp hfile
      exact ⟨hnul, below, hne, hreaches⟩
    refine ⟨hbelow, fun key key' below hkey hkey' hreaches hreaches' => ?_⟩
    have hfile := (scenarioFile_eq_iff hkey).mpr ⟨(hbelow key hkey).1, hreaches⟩
    have hfile' := (scenarioFile_eq_iff hkey').mpr ⟨(hbelow key' hkey').1, hreaches'⟩
    exact h.injective key key' hkey hkey' (hfile.trans hfile'.symm)
  · rintro ⟨hbelow, hapart⟩
    have hinside (key : String) (hkey : g.ScenarioKey key) :
        ∃ below, below ≠ [] ∧ scenarioFile jsonDir key = some (jsonDir ++ below) := by
      obtain ⟨hnul, below, hne, hreaches⟩ := hbelow key hkey
      exact ⟨below, hne, (scenarioFile_eq_iff hkey).mpr ⟨hnul, hreaches⟩⟩
    refine ⟨hinside, fun key key' hkey hkey' heq => ?_⟩
    obtain ⟨below, -, hfile⟩ := hinside key hkey
    exact hapart key key' below hkey hkey' ((scenarioFile_eq_iff hkey).mp hfile).2
      ((scenarioFile_eq_iff hkey').mp (heq ▸ hfile)).2

theorem lyricsFile_eq (hname : isName (sanitized key).toList = true) :
    lyricsFile jsonDir key = some (jsonDir ++ ["lyrics".toList, (sanitized key).toList]) := by
  rw [lyricsFile, fileAt_sanitized hname, List.append_assoc]
  rfl

theorem separate_lyrics_iff :
    Separate jsonDir g.LyricsKey (lyricsFile jsonDir) ↔
      (∀ key, g.LyricsKey key → key ≠ "" ∧ key ≠ "." ∧ key ≠ "..") ∧
      ∀ key key', g.LyricsKey key → g.LyricsKey key' →
        Blurred key.toList key'.toList → key = key' := by
  constructor
  · intro h
    have hnamed : ∀ key, g.LyricsKey key → isName (sanitized key).toList = true := by
      intro key hkey
      obtain ⟨below, -, hfile⟩ := h.inside key hkey
      exact isName_of_fileAt (not_mem_sanitized rfl (by decide)) hfile
    refine ⟨fun key hkey => isName_sanitized.mp (hnamed key hkey),
      fun key key' hkey hkey' hblurred => h.injective key key' hkey hkey' ?_⟩
    rw [lyricsFile, lyricsFile, sanitized_eq_iff.mpr hblurred]
  · rintro ⟨hnamed, hapart⟩
    refine ⟨fun key hkey => ?_, fun key key' hkey hkey' heq => ?_⟩
    · exact ⟨_, List.cons_ne_nil _ _, lyricsFile_eq (isName_sanitized.mpr (hnamed key hkey))⟩
    · rw [lyricsFile_eq (isName_sanitized.mpr (hnamed key hkey)),
        lyricsFile_eq (isName_sanitized.mpr (hnamed key' hkey'))] at heq
      refine hapart key key' hkey hkey' (sanitized_eq_iff.mp ?_)
      simpa [String.toList_inj] using heq

theorem bytesFile_eq (hkey : g.BytesKey path) :
    bytesFile jsonDir path =
      some (jsonDir ++ [(sanitized (stringFromUtf16Lossy path)).toList]) := by
  obtain ⟨name, hname⟩ := Option.isSome_iff_exists.mp hkey.2
  rw [bytesFile, hname, Option.bind_some]
  unfold getBytesName at hname
  split at hname
  · cases hname
  · next haccepted =>
    split at hname
    · cases hname
    · cases hname
      obtain ⟨hjson, -⟩ := not_or.mp haccepted
      have hlong := (not_not.mp hjson).length_le
      refine fileAt_sanitized (isName_sanitized.mpr ⟨?_, ?_, ?_⟩)
      all_goals
        intro hshort
        rw [hshort] at hlong
        exact absurd hlong (by decide)

theorem separate_bytes_iff :
    Separate jsonDir g.BytesKey (bytesFile jsonDir) ↔
      ∀ path path', g.BytesKey path → g.BytesKey path' →
        Blurred (fromUtf16Lossy path) (fromUtf16Lossy path') → path = path' := by
  have hsame {path path' : List UInt16} (hkey : g.BytesKey path) (hkey' : g.BytesKey path') :
      bytesFile jsonDir path = bytesFile jsonDir path' ↔
        Blurred (fromUtf16Lossy path) (fromUtf16Lossy path') := by
    have hblurred := @sanitized_eq_iff (stringFromUtf16Lossy path) (stringFromUtf16Lossy path')
    rw [stringFromUtf16Lossy, stringFromUtf16Lossy, String.toList_ofList,
      String.toList_ofList] at hblurred
    rw [bytesFile_eq hkey, bytesFile_eq hkey', ← hblurred]
    simp [String.toList_inj, stringFromUtf16Lossy]
  constructor
  · intro h path path' hkey hkey' hblurred
    exact h.injective path path' hkey hkey' ((hsame hkey hkey').mpr hblurred)
  · intro h
    refine ⟨fun path hkey => ⟨_, List.cons_ne_nil _ _, bytesFile_eq hkey⟩, ?_⟩
    intro path path' hkey hkey' heq
    exact h path path' hkey hkey' ((hsame hkey hkey').mp heq)

theorem Distinguishable.confined (h : Distinguishable jsonDir g) : Confined jsonDir g where
  bytes := separate_bytes_iff.mpr h.bytes
  scenario := separate_scenario_iff.mpr ⟨h.below, h.apart⟩
  lyrics := separate_lyrics_iff.mpr ⟨h.named, h.lyrics⟩

/-- Whatever the game answers, a probe of a scenario writes to files of their
own below the directory. -/
theorem Distinguishable.ownFile_of_probeParts {sid : String} {answers : List Candidate} {p : Probe}
    (h : Distinguishable jsonDir g) (hsid : sid ∈ g.entries.sids)
    (hanswers : Agrees g.isKeyExist sid 0 answers)
    (hp : probeParts sid 0 0 [] answers = some p) :
    ∀ name ∈ p.written, OwnFile jsonDir g.ScenarioKey (scenarioFile jsonDir) name :=
  fun name hname => h.confined.scenario.ownFile (scenarioKey_of_written hsid hanswers hp name hname)

/-- And so does a probe of a music id, to the files of the names it writes. -/
theorem Distinguishable.ownFile_of_probePatterns {musicId : String} {answers : List Candidate}
    {p : Probe} (h : Distinguishable jsonDir g) (hid : musicId ∈ g.entries.musicIds)
    (hanswers : AgreesOn g.isKeyExist
      ((requestedPatterns g.patterns).map (·.replace "\x7bid\x7d" musicId)) answers)
    (hp : probePatterns musicId [] true (requestedPatterns g.patterns) answers = some p) :
    ∀ name ∈ p.written, ∃ key, name = sanitized key ∧
      OwnFile jsonDir g.LyricsKey (lyricsFile jsonDir) key := by
  intro name hname
  obtain ⟨key, hkey, rfl⟩ := lyricsKey_of_written hid hanswers hp name hname
  exact ⟨key, rfl, h.confined.lyrics.ownFile hkey⟩

/-- Exactly the keys that can be told apart below the directory, once what
sanitising and resolving drop is dropped, are dumped inside it and apart. -/
theorem confined_iff_distinguishable (jsonDir : List Name) (g : Inputs) :
    Confined jsonDir g ↔ Distinguishable jsonDir g := by
  refine ⟨fun h => ?_, fun h => h.confined⟩
  obtain ⟨hbelow, hapart⟩ := separate_scenario_iff.mp h.scenario
  obtain ⟨hnamed, hlyrics⟩ := separate_lyrics_iff.mp h.lyrics
  exact ⟨separate_bytes_iff.mp h.bytes, hbelow, hapart, hnamed, hlyrics⟩

/-- `a/b.json` and `a_b.json` are dumped to one file. -/
theorem paths_collide :
    ¬ Confined ["json".toList]
      ⟨[[97, 47, 98, 46, 106, 115, 111, 110], [97, 95, 98, 46, 106, 115, 111, 110]], ∅, [],
        fun _ => false⟩ := by
  intro h
  have hsame := h.bytes.injective [97, 47, 98, 46, 106, 115, 111, 110]
    [97, 95, 98, 46, 106, 115, 111, 110] ⟨by simp, by decide +kernel⟩ ⟨by simp, by decide +kernel⟩
    (by decide +kernel)
  exact absurd hsame (by decide)

end ShinySongTools.Dump
