import ShinySongTools.Machine
import ShinySongTools.Dump.State

/-!
# Dump sessions

A process loads the table, merges into it and flushes, and may be gone between
any two file operations. A file is absent, holds a whole serialized value, or
is torn: what is left when a write was cut off.
-/

namespace ShinySongTools.Dump

inductive FileContent (α : Type) where
  | absent
  | torn
  | whole (value : α)

structure Disk where
  localify : FileContent LocalifyMap
  localifyTmp : FileContent LocalifyMap
  lyrics : FileContent Bucket
  lyricsTmp : FileContent Bucket

/-- The file operation `flush` is about to make, those of `write_atomic_json`
first. -/
inductive FlushPc where
  | createDirAll
  | openTemp
  | encode
  | newline
  | flushWriter
  | intoInner
  | syncAll
  | rename
  | lyricsOpen
  | lyricsEncode
  /-- The writer is dropped, and flushes then. -/
  | lyricsDrop
  | lyricsRename
  | lyricsRemove
  deriving DecidableEq, Repr

structure Session where
  state : DumpState
  flushing : Option FlushPc

structure World where
  disk : Disk
  session : Option Session

inductive Action where
  /-- A new process; `ok` is false when the read fails, other than with
  `NotFound`. -/
  | load (ok : Bool)
  | merge (record : DumpRecord)
  | mergeMap (map : LocalifyMap)
  | captureLyric (record : LyricsRecord)
  | flushIfDue
  | flush
  | io (ok : Bool)
  | exit

namespace DumpState

def load (entries : LocalifyMap) : DumpState :=
  { entries, dirty := false, framesSinceFlush := 0, lyrics := ∅, lyricsDirty := false }

/-- `flush` up to its first file operation. -/
def flush (s : DumpState) : Session :=
  if !s.dirty && !s.lyricsDirty then ⟨{ s with framesSinceFlush := 0 }, none⟩
  else ⟨s, some .createDirAll⟩

def flushIfDue (s : DumpState) : Session :=
  let s := { s with framesSinceFlush := min (s.framesSinceFlush + 1) (2 ^ 32 - 1) }
  if s.dirty && decide (flushIntervalFrames ≤ s.framesSinceFlush) then s.flush else ⟨s, none⟩

/-- The end of a flush that returns `Ok`. -/
def flushed (s : DumpState) : Session := ⟨{ s with framesSinceFlush := 0 }, none⟩

def lyricsFlushed (s : DumpState) : Session := { s with lyricsDirty := false }.flushed

end DumpState

/-- One file operation. A failed one of `write_atomic_json` returns its error;
the others of `flush` are passed over. -/
def io (disk : Disk) (s : DumpState) (ok : Bool) : FlushPc → Disk × Session
  | .createDirAll => (disk, ⟨s, if ok then some .openTemp else none⟩)
  | .openTemp =>
    if ok then ({ disk with localifyTmp := .torn }, ⟨s, some .encode⟩) else (disk, ⟨s, none⟩)
  | .encode => (disk, ⟨s, if ok then some .newline else none⟩)
  | .newline => (disk, ⟨s, if ok then some .flushWriter else none⟩)
  | .flushWriter =>
    if ok then ({ disk with localifyTmp := .whole s.entries }, ⟨s, some .intoInner⟩)
    else (disk, ⟨s, none⟩)
  | .intoInner => (disk, ⟨s, if ok then some .syncAll else none⟩)
  | .syncAll => (disk, ⟨s, if ok then some .rename else none⟩)
  | .rename =>
    if ok then
      let s := { s with dirty := false }
      ({ disk with localify := disk.localifyTmp, localifyTmp := .absent },
        if s.lyricsDirty then ⟨s, some .lyricsOpen⟩ else s.flushed)
    else (disk, ⟨s, none⟩)
  | .lyricsOpen =>
    if ok then ({ disk with lyricsTmp := .torn }, ⟨s, some .lyricsEncode⟩)
    else (disk, s.lyricsFlushed)
  | .lyricsEncode => (disk, ⟨s, some (if ok then .lyricsDrop else .lyricsRemove)⟩)
  | .lyricsDrop =>
    (if ok then { disk with lyricsTmp := .whole s.lyrics } else disk, ⟨s, some .lyricsRename⟩)
  | .lyricsRename =>
    (if ok then { disk with lyrics := disk.lyricsTmp, lyricsTmp := .absent } else disk,
      ⟨s, some .lyricsRemove⟩)
  | .lyricsRemove =>
    (if ok then { disk with lyricsTmp := .absent } else disk, s.lyricsFlushed)

/-- What `load` makes of the file. -/
def FileContent.read (file : FileContent LocalifyMap) (ok : Bool) : Option LocalifyMap :=
  match ok, file with
  | true, .whole entries => some entries
  | true, .absent => some ∅
  | true, .torn => none
  | false, _ => none

namespace World

def step (w : World) : Action → Option World
  | .load ok =>
    match w.session with
    | none =>
      some { w with session := (w.disk.localify.read ok).map fun entries => ⟨.load entries, none⟩ }
    | some _ => none
  | .exit => w.session.map fun _ => { w with session := none }
  | .io ok =>
    match w.session with
    | some ⟨s, some pc⟩ => some ⟨(io w.disk s ok pc).1, some (io w.disk s ok pc).2⟩
    | _ => none
  | .merge record => onState fun s => ⟨s.merge record, none⟩
  | .mergeMap map => onState fun s => ⟨s.mergeMap map, none⟩
  | .captureLyric record => onState fun s => ⟨s.captureLyric record, none⟩
  | .flushIfDue => onState fun s => s.flushIfDue
  | .flush => onState fun s => s.flush
where
  /-- A call on the state, between flushes. -/
  onState (f : DumpState → Session) : Option World :=
    match w.session with
    | some ⟨s, none⟩ => some { w with session := some (f s) }
    | _ => none

def init (disk : Disk) : World := ⟨disk, none⟩

end World

def Disk.hasText (disk : Disk) (category id : String) : Prop :=
  ∃ m, disk.localify = .whole m ∧ (m.text category id).isSome

def Disk.hasLyric (disk : Disk) (text : String) : Prop :=
  ∃ m, disk.lyrics = .whole m ∧ text ∈ m

structure Persisted (w : World) : Prop where
  localify : ∀ session, w.session = some session → session.state.dirty = false →
    w.disk.localify.read true = some session.state.entries
  lyrics : ∀ session, w.session = some session → session.state.lyricsDirty = false →
    ∀ text ∈ session.state.lyrics, w.disk.hasLyric text

/-- Nothing that is on disk goes from there. -/
structure Kept (disk disk' : Disk) : Prop where
  text : ∀ category id, disk.hasText category id → disk'.hasText category id
  lyric : ∀ text, disk.hasLyric text → disk'.hasLyric text

/-- The table merged does not only bring new categories without a text into a
clean state; a failing operation on the lyrics file finds every captured lyric
in it already; and what the lyrics file is replaced with is whole and has every
lyric of the file. -/
def Careful (w : World) (a : Action) : Prop :=
  ∀ session, w.session = some session →
    match a, session.flushing with
    | .mergeMap map, none => session.state.dirty = true ∨
      (∃ c i t, map.text c i = some t ∧ session.state.entries.text c i ≠ some t) ∨
      ∀ c ∈ map, c ∈ session.state.entries
    | .io false, some .lyricsOpen | .io false, some .lyricsEncode
    | .io false, some .lyricsRename => ∀ text ∈ session.state.lyrics, w.disk.hasLyric text
    | .io true, some .lyricsRename => w.disk.lyricsTmp = .whole session.state.lyrics ∧
      ∀ text, w.disk.hasLyric text → text ∈ session.state.lyrics
    | _, _ => True

end ShinySongTools.Dump
