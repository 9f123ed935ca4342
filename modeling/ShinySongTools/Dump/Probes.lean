import ShinySongTools.Dump.Session
import ShinySongTools.SortedCursor

/-!
# The chunked probes

`scenariodump` and `lyricsdump` go over the ids of the table a batch a call and
keep a cursor between the calls. What the game and the file system answer comes
with a call, in the order it is asked for; a call whose answers run out has not
returned. `scenarioProbed` and `lyricsProbed` are logs of the proof: the ids that
a call got through without passing over a candidate.
-/

namespace ShinySongTools.Dump

open Std (ExtTreeMap)
open SortedCursor

def maxDataFileBytes : Nat := 64 * 1024 * 1024

/-- The answers while one data file is dumped; `write` is the error of the
write. -/
inductive DataFile where
  | noString
  | null
  | bytes (len : UInt32) (write : Option String)

def dumpOneDataFile : DataFile → Except String Unit
  | .noString => .error "string_new failed"
  | .null => .error "GetBytes returned null"
  | .bytes len write =>
    if maxDataFileBytes < len.toNat then .error s!"data file too large: {len}"
    else
      match write with
      | some error => .error error
      | none => .ok ()

/-- The answers for one candidate key; `target` is whether its file is there
already, which only `lyricsdump` asks. -/
inductive Candidate where
  | noString
  | missing
  | found (target : Bool) (file : DataFile)

/-- What `resolve_method_va` returns. -/
inductive Resolved where
  | va
  | notFound
  | failed (error : String)

def Resolved.orError (r : Resolved) (missing : String) : Except String Unit :=
  match r with
  | .va => .ok ()
  | .notFound => .error missing
  | .failed error => .error error

structure Methods where
  isKeyExist : Resolved
  getBytes : Resolved

def Methods.resolve (m : Methods) : Except String Unit := do
  m.isKeyExist.orError "DataFile.IsKeyExist(1) not found"
  m.getBytes.orError "DataFile.GetBytes(1) not found"

-- ---------------------------------------------------------------------------
-- One id
-- ---------------------------------------------------------------------------

/-- How the probe of one id ended, with the answers it left. -/
structure Probe where
  result : Except String Unit
  written : List String
  complete : Bool
  rest : List Candidate

def partName (sid : String) (part : Nat) : String :=
  if part < 10 then s!"{sid}_0{part}.json" else s!"{sid}_{part}.json"

/-- The parts of a scenario, until five in a row are missing. -/
def probeParts (sid : String) (part misses : Nat) (written : List String) :
    List Candidate → Option Probe
  | [] => if misses < 5 then none else some ⟨.ok (), written, true, []⟩
  | c :: answers =>
    if misses < 5 then
      match c with
      | .noString => some ⟨.error "string_new failed", written, false, answers⟩
      | .missing => probeParts sid (part + 1) (misses + 1) written answers
      | .found _ file =>
        match dumpOneDataFile file with
        | .error error => some ⟨.error error, written, false, answers⟩
        | .ok () => probeParts sid (part + 1) 0 (written ++ [partName sid part]) answers
    else some ⟨.ok (), written, true, c :: answers⟩

def sanitized (key : String) : String :=
  .ofList (key.toList.map fun c => if c.isAlphanum || c = '_' || c = '.' then c else '_')

/-- The candidates of a music id. A key no string could be made for is passed
over. -/
def probePatterns (musicId : String) (written : List String) (complete : Bool) :
    List String → List Candidate → Option Probe
  | [], answers => some ⟨.ok (), written, complete, answers⟩
  | _ :: _, [] => none
  | pattern :: patterns, c :: answers =>
    let key := pattern.replace "\x7bid\x7d" musicId
    match c with
    | .noString => probePatterns musicId written false patterns answers
    | .missing | .found true _ => probePatterns musicId written complete patterns answers
    | .found false file =>
      match dumpOneDataFile file with
      | .error error => some ⟨.error error, written, false, answers⟩
      | .ok () => probePatterns musicId (written ++ [sanitized key]) complete patterns answers

-- ---------------------------------------------------------------------------
-- A call
-- ---------------------------------------------------------------------------

/-- What a call has done so far. -/
structure Walk where
  cursor : Nat
  processed : Nat
  written : List String
  probed : List String

/-- The loop over the ids from the cursor on. -/
def walk (probe : String → List Candidate → Option Probe) (limit : Nat) :
    List String → Walk → List Candidate → Option (Walk × Except String Unit)
  | [], w, _ => some (w, .ok ())
  | id :: ids, w, answers =>
    if w.processed < limit then
      (probe id answers).bind fun p =>
        match p.result with
        | .error error => some ({ w with written := w.written ++ p.written }, .error error)
        | .ok () =>
          walk probe limit ids
            { cursor := w.cursor + 1
              processed := w.processed + 1
              written := w.written ++ p.written
              probed := if p.complete then w.probed ++ [id] else w.probed }
            p.rest
    else some (w, .ok ())

def titlePrefix : List Char := "mlADVInfo_Title_".toList

/-- `str::trim_start_matches`, for a text of at most `fuel` characters. -/
def trimStartMatches (pre : List Char) : Nat → List Char → List Char
  | 0, text => text
  | fuel + 1, text =>
    if pre.isPrefixOf text then trimStartMatches pre fuel (text.drop pre.length) else text

def isTitle (key : String) : Bool := titlePrefix.isPrefixOf key.toList

def sidOf (key : String) : String :=
  .ofList (trimStartMatches titlePrefix key.length key.toList)

def LocalifyMap.sids (entries : LocalifyMap) : List String :=
  sortDedup ((entries.keys.filter isTitle).map sidOf)

def musicName : String := "mlMusic_Name"

def LocalifyMap.musicIds (entries : LocalifyMap) : List String :=
  (entries[musicName]?.map fun bucket => bucket.keys).getD []

structure ScenarioDumpResponse where
  totalSids : Nat
  cursor : Nat
  sidsDone : Nat
  filesWritten : Nat
  done : Bool

structure LyricsDumpResponse where
  totalMusic : Nat
  cursor : Nat
  filesWritten : Nat
  patternsUsed : List String
  done : Bool

inductive Reply where
  | scenario (response : Except String ScenarioDumpResponse)
  | lyrics (response : Except String LyricsDumpResponse)

/-- The state between two calls, with what the last action replied. -/
structure Probing where
  dump : DumpState
  scenarioCursor : Nat
  lyricsCursor : Nat
  scenarioProbed : List String
  lyricsProbed : List String
  reply : Option Reply

namespace Probing

/-- `DumpState::load`. -/
def load (entries : LocalifyMap) : Probing where
  dump := .load entries
  scenarioCursor := 0
  lyricsCursor := 0
  scenarioProbed := []
  lyricsProbed := []
  reply := none

def scenarioDumpHandler (s : Probing) (limit : Option Nat) (methods : Methods)
    (answers : List Candidate) : Option Probing :=
  let sids := s.dump.entries.sids
  match methods.resolve with
  | .error error => some { s with reply := some (.scenario (.error error)) }
  | .ok () =>
    (walk (fun sid => probeParts sid 0 0 []) (limit.getD 25) (sids.drop s.scenarioCursor)
      ⟨s.scenarioCursor, 0, [], s.scenarioProbed⟩ answers).map fun (w, result) =>
      { s with
        scenarioCursor := w.cursor
        scenarioProbed := w.probed
        reply := some (.scenario (result.map fun () =>
          { totalSids := (s.dump.entries.keys.filter isTitle).length
            cursor := w.cursor
            sidsDone := w.processed
            filesWritten := w.written.length
            done := sids.length ≤ w.cursor })) }

def defaultPatterns : List String :=
  ["\x7bid\x7d_lyrics", "lyrics/\x7bid\x7d", "music/\x7bid\x7d_lyrics", "music/\x7bid\x7d/lyrics",
    "musicscore/\x7bid\x7d", "musicscore/\x7bid\x7d_score", "lyric/\x7bid\x7d"]

def lyricsDumpHandler (s : Probing) (patterns : List String) (limit : Option Nat)
    (methods : Methods) (answers : List Candidate) : Option Probing :=
  let patterns := if patterns.isEmpty then defaultPatterns else patterns
  let musicIds := s.dump.entries.musicIds
  match methods.resolve with
  | .error error => some { s with reply := some (.lyrics (.error error)) }
  | .ok () =>
    (walk (fun musicId => probePatterns musicId [] true patterns) (limit.getD 20)
      (musicIds.drop s.lyricsCursor) ⟨s.lyricsCursor, 0, [], s.lyricsProbed⟩ answers).map
      fun (w, result) =>
      { s with
        lyricsCursor := w.cursor
        lyricsProbed := w.probed
        reply := some (.lyrics (result.map fun () =>
          { totalMusic := musicIds.length
            cursor := w.cursor
            filesWritten := w.written.length
            patternsUsed := patterns
            done := musicIds.length ≤ w.cursor })) }

inductive Action where
  | merge (record : DumpRecord)
  | mergeMap (map : LocalifyMap)
  | scenarioDump (limit : Option Nat) (methods : Methods) (answers : List Candidate)
  | lyricsDump (patterns : List String) (limit : Option Nat) (methods : Methods)
      (answers : List Candidate)

def step (s : Probing) : Action → Option Probing
  | .merge record => some { s with dump := s.dump.merge record, reply := none }
  | .mergeMap map => some { s with dump := s.dump.mergeMap map, reply := none }
  | .scenarioDump limit methods answers => s.scenarioDumpHandler limit methods answers
  | .lyricsDump patterns limit methods answers => s.lyricsDumpHandler patterns limit methods answers

end Probing
end ShinySongTools.Dump
