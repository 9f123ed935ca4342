import ShinySongTools.Dump.Persistence

/-!
# When a flush is due

`dump_update` frame by frame: the records and lyrics that arrived are merged,
and the tables are flushed when sixty updates have passed since they last were.
A frame comes with how each file operation of its flush ends.
-/

namespace ShinySongTools.Dump

open Std (ExtTreeMap)

structure Frame where
  records : List DumpRecord
  lyrics : List LyricsRecord

structure Live where
  disk : Disk
  state : DumpState

/-- `dump_update` up to its flush check. -/
def DumpState.mergeFrame (s : DumpState) (f : Frame) : DumpState :=
  f.lyrics.foldl captureLyric (f.records.foldl merge s)

def finish (disk : Disk) (session : Session) : List Bool → Option Live
  | [] =>
    match session.flushing with
    | none => some ⟨disk, session.state⟩
    | some _ => none
  | ok :: oks =>
    match session.flushing with
    | none => none
    | some pc =>
      let (disk, session) := io disk session.state ok pc
      finish disk session oks

def dumpUpdate (u : Live) (a : Frame × List Bool) : Option Live :=
  finish u.disk (u.state.mergeFrame a.1).flushIfDue a.2

structure Timely (u : Live) : Prop where
  localify : u.disk.localify.read true = some u.state.entries
  lyrics : ∀ text ∈ u.state.lyrics, u.disk.hasLyric text

/-- After its merges both tables are dirty, or no lyric is missing in the file. -/
def Reached (u : Live) (f : Frame) : Prop :=
  let s := u.state.mergeFrame f
  (s.dirty = true ∧ s.lyricsDirty = true) ∨ ∀ text ∈ s.lyrics, u.disk.hasLyric text

-- ---------------------------------------------------------------------------
-- A clean table is the file's
-- ---------------------------------------------------------------------------

def Clean (disk : Disk) (s : DumpState) : Prop :=
  s.dirty = false → disk.localify.read true = some s.entries

def FlushPc.Written (disk : Disk) (s : DumpState) : FlushPc → Prop
  | .intoInner | .syncAll | .rename => disk.localifyTmp = .whole s.entries
  | _ => True

variable {disk : Disk} {s : DumpState} {u u' : Live} {f : Frame} {session : Session}

theorem Clean.merge (h : Clean disk s) (record : DumpRecord) : Clean disk (s.merge record) := by
  unfold DumpState.merge
  split
  · exact clean_insert h _ _ _
  · exact h

theorem Clean.captureLyric (h : Clean disk s) (record : LyricsRecord) :
    Clean disk (s.captureLyric record) := by
  unfold DumpState.captureLyric
  dsimp only
  split <;> exact h

theorem framesSinceFlush_merge (s : DumpState) (record : DumpRecord) :
    (s.merge record).framesSinceFlush = s.framesSinceFlush := by
  unfold DumpState.merge
  split <;> rfl

theorem framesSinceFlush_captureLyric (s : DumpState) (record : LyricsRecord) :
    (s.captureLyric record).framesSinceFlush = s.framesSinceFlush := by
  unfold DumpState.captureLyric
  dsimp only
  split <;> rfl

theorem Clean.mergeFrame (h : Clean disk s) (f : Frame) : Clean disk (s.mergeFrame f) := by
  unfold DumpState.mergeFrame
  have hrecords : Clean disk (f.records.foldl DumpState.merge s) := by
    induction f.records generalizing s with
    | nil => exact h
    | cons record records ih => exact ih (h.merge record)
  revert hrecords
  generalize f.records.foldl DumpState.merge s = s'
  intro h
  induction f.lyrics generalizing s' with
  | nil => exact h
  | cons record records ih => exact ih _ (h.captureLyric record)

theorem framesSinceFlush_mergeFrame (s : DumpState) (f : Frame) :
    (s.mergeFrame f).framesSinceFlush = s.framesSinceFlush := by
  unfold DumpState.mergeFrame
  have hrecords : (f.records.foldl DumpState.merge s).framesSinceFlush = s.framesSinceFlush := by
    induction f.records generalizing s with
    | nil => rfl
    | cons record records ih => exact (ih _).trans (framesSinceFlush_merge s record)
  rw [← hrecords]
  generalize f.records.foldl DumpState.merge s = s'
  induction f.lyrics generalizing s' with
  | nil => rfl
  | cons record records ih => exact (ih _).trans (framesSinceFlush_captureLyric s' record)

theorem Clean.flushIfDue (h : Clean disk s) : Clean disk s.flushIfDue.state := by
  unfold DumpState.flushIfDue DumpState.flush
  dsimp only
  split
  · split <;> exact h
  · exact h

theorem flushing_flushIfDue {pc : FlushPc} (h : s.flushIfDue.flushing = some pc) :
    pc = .createDirAll := by
  unfold DumpState.flushIfDue DumpState.flush at h
  dsimp only at h
  split at h
  · split at h
    · cases h
    · exact (Option.some.inj h).symm
  · cases h

theorem Clean.io {pc : FlushPc} (ok : Bool) (h : Clean disk s) (hpc : pc.Written disk s) :
    let next := io disk s ok pc
    Clean next.1 next.2.state ∧
      ∀ pc', next.2.flushing = some pc' → pc'.Written next.1 next.2.state := by
  cases pc with
  | createDirAll | openTemp | encode | newline | flushWriter | lyricsOpen | lyricsEncode =>
    cases ok <;> refine ⟨h, ?_⟩ <;> rintro _ ⟨⟩ <;> trivial
  | intoInner | syncAll =>
    cases ok with
    | true =>
      refine ⟨h, ?_⟩
      rintro _ ⟨⟩
      exact hpc
    | false => exact ⟨h, nofun⟩
  | rename =>
    cases ok with
    | true =>
      have hread : Clean { disk with localify := disk.localifyTmp, localifyTmp := .absent }
          { s with dirty := false } := fun _ => by rw [hpc]; rfl
      dsimp only [Dump.io, if_true]
      cases s.lyricsDirty with
      | true =>
        refine ⟨hread, ?_⟩
        rintro _ ⟨⟩
        trivial
      | false => exact ⟨hread, nofun⟩
    | false => exact ⟨h, nofun⟩
  | lyricsDrop | lyricsRename =>
    cases ok <;> refine ⟨h, ?_⟩ <;> rintro _ ⟨⟩ <;> trivial
  | lyricsRemove => cases ok <;> exact ⟨h, nofun⟩

theorem Clean.finish {oks : List Bool} (h : Clean disk session.state)
    (hpc : ∀ pc, session.flushing = some pc → pc.Written disk session.state)
    (hs : finish disk session oks = some u) : Clean u.disk u.state := by
  induction oks generalizing disk session with
  | nil =>
    unfold Dump.finish at hs
    split at hs
    · cases hs
      exact h
    · cases hs
  | cons ok oks ih =>
    unfold Dump.finish at hs
    split at hs
    · cases hs
    · next pc hflushing =>
      obtain ⟨hclean, hwritten⟩ := h.io ok (hpc pc hflushing)
      exact ih hclean hwritten hs

theorem Clean.dumpUpdate {a : Frame × List Bool} (h : Clean u.disk u.state)
    (hs : dumpUpdate u a = some u') : Clean u'.disk u'.state := by
  refine Clean.finish ((h.mergeFrame a.1).flushIfDue) (fun pc hpc => ?_) hs
  rw [flushing_flushIfDue hpc]
  trivial

-- ---------------------------------------------------------------------------
-- A flush whose operations all succeed
-- ---------------------------------------------------------------------------

theorem finish_step {pc : FlushPc} {oks : List Bool} (hoks : ∀ ok ∈ oks, ok = true)
    (hs : finish disk ⟨s, some pc⟩ oks = some u) :
    ∃ oks', (∀ ok ∈ oks', ok = true) ∧
      finish (io disk s true pc).1 (io disk s true pc).2 oks' = some u := by
  cases oks with
  | nil => cases hs
  | cons ok oks =>
    obtain ⟨rfl, hrest⟩ := List.forall_mem_cons.mp hoks
    exact ⟨oks, hrest, hs⟩

theorem finish_none {oks : List Bool} (hs : finish disk ⟨s, none⟩ oks = some u) :
    u = ⟨disk, s⟩ := by
  cases oks with
  | nil => exact (Option.some.inj hs).symm
  | cons ok oks => cases hs

theorem finish_lyrics {oks : List Bool} (hoks : ∀ ok ∈ oks, ok = true)
    (hs : finish disk ⟨s, some .lyricsOpen⟩ oks = some u) :
    u.disk.localify = disk.localify ∧ u.disk.lyrics = .whole s.lyrics ∧
      u.state.entries = s.entries ∧ u.state.lyrics = s.lyrics := by
  obtain ⟨oks, hoks, hs⟩ := finish_step hoks hs
  obtain ⟨oks, hoks, hs⟩ := finish_step hoks hs
  obtain ⟨oks, hoks, hs⟩ := finish_step hoks hs
  obtain ⟨oks, hoks, hs⟩ := finish_step hoks hs
  obtain ⟨oks, hoks, hs⟩ := finish_step hoks hs
  obtain rfl := finish_none hs
  exact ⟨rfl, rfl, rfl, rfl⟩

/-- The localify file is replaced, and the lyrics file if that table is dirty. -/
theorem finish_flush {oks : List Bool} (hoks : ∀ ok ∈ oks, ok = true)
    (hs : finish disk ⟨s, some .createDirAll⟩ oks = some u) :
    u.disk.localify = .whole s.entries ∧
      u.disk.lyrics = (if s.lyricsDirty then .whole s.lyrics else disk.lyrics) ∧
      u.state.entries = s.entries ∧ u.state.lyrics = s.lyrics := by
  obtain ⟨oks, hoks, hs⟩ := finish_step hoks hs
  obtain ⟨oks, hoks, hs⟩ := finish_step hoks hs
  obtain ⟨oks, hoks, hs⟩ := finish_step hoks hs
  obtain ⟨oks, hoks, hs⟩ := finish_step hoks hs
  obtain ⟨oks, hoks, hs⟩ := finish_step hoks hs
  obtain ⟨oks, hoks, hs⟩ := finish_step hoks hs
  obtain ⟨oks, hoks, hs⟩ := finish_step hoks hs
  obtain ⟨oks, hoks, hs⟩ := finish_step hoks hs
  simp only [io, if_true] at hs
  cases hlyrics : s.lyricsDirty with
  | true =>
    rw [hlyrics] at hs
    obtain ⟨hlocalify, hlyrics, hentries, htexts⟩ := finish_lyrics hoks hs
    exact ⟨hlocalify, hlyrics, hentries, htexts⟩
  | false =>
    rw [hlyrics] at hs
    obtain rfl := finish_none hs
    exact ⟨rfl, rfl, rfl, rfl⟩

-- ---------------------------------------------------------------------------
-- Timeliness
-- ---------------------------------------------------------------------------

/-- A due update that succeeds leaves nothing unflushed exactly when it finds
both tables dirty or no lyric missing in its file. -/
theorem timely_iff_reached (disk : Disk) (entries : LocalifyMap) (frames : List (Frame × List Bool))
    (u u' : Live) (f : Frame) (oks : List Bool) (hload : disk.localify.read true = some entries)
    (hrun : Machine.exec dumpUpdate ⟨disk, .load entries⟩ frames = some u)
    (hs : dumpUpdate u (f, oks) = some u')
    (hdue : flushIntervalFrames ≤ u.state.framesSinceFlush + 1) (hoks : ∀ ok ∈ oks, ok = true) :
    Timely u' ↔ Reached u f := by
  have hclean : Clean u.disk u.state :=
    have hinit : Clean disk (.load entries) := fun _ => hload
    have hall :
        Machine.Always dumpUpdate (fun u => Clean u.disk u.state) ⟨disk, .load entries⟩ frames :=
      Machine.Always.of_step (fun _ _ _ h hs => h.dumpUpdate hs) hinit
    hall.exec hrun
  have hmerged := hclean.mergeFrame f
  have hdue' :
      flushIntervalFrames ≤ min ((u.state.mergeFrame f).framesSinceFlush + 1) (2 ^ 32 - 1) := by
    rw [framesSinceFlush_mergeFrame]
    exact le_min hdue (by decide)
  unfold Reached
  simp only [dumpUpdate, DumpState.flushIfDue, hdue', decide_true, Bool.and_true] at hs
  revert hmerged hs
  generalize u.state.mergeFrame f = s
  intro hmerged hs
  cases hdirty : s.dirty with
  | false =>
    rw [hdirty] at hs
    obtain rfl := finish_none hs
    refine ⟨fun h => .inr h.lyrics, ?_⟩
    rintro (⟨hdirty', -⟩ | hlyrics)
    · exact absurd (hdirty.symm.trans hdirty') nofun
    · exact ⟨hmerged hdirty, hlyrics⟩
  | true =>
    simp only [hdirty, if_true, DumpState.flush, Bool.not_true, Bool.false_and] at hs
    obtain ⟨hlocalify, hfile, hentries, htexts⟩ := finish_flush hoks hs
    dsimp only at hlocalify hfile hentries htexts
    have hread : u'.disk.localify.read true = some u'.state.entries := by
      rw [hlocalify, hentries]
      rfl
    cases hlyrics : s.lyricsDirty with
    | true =>
      rw [hlyrics, if_pos rfl] at hfile
      refine ⟨fun _ => .inl ⟨hdirty, hlyrics⟩, fun _ => ⟨hread, fun text htext => ?_⟩⟩
      exact ⟨s.lyrics, hfile, htexts ▸ htext⟩
    | false =>
      rw [hlyrics, if_neg Bool.false_ne_true] at hfile
      have hsame : ∀ text, u'.disk.hasLyric text ↔ u.disk.hasLyric text := fun text => by
        rw [Disk.hasLyric, hfile]
        rfl
      refine ⟨fun h => .inr fun text htext => (hsame text).mp (h.lyrics text (htexts ▸ htext)), ?_⟩
      rintro (⟨-, hlyrics'⟩ | hlyrics')
      · exact absurd (hlyrics.symm.trans hlyrics') nofun
      · exact ⟨hread, fun text htext => (hsame text).mpr (hlyrics' text (htexts ▸ htext))⟩

def quiet : Frame × List Bool := (⟨[], []⟩, [])

theorem exec_quiet (disk : Disk) (s : DumpState) (n : Nat) (hdirty : s.dirty = false)
    (hn : s.framesSinceFlush + n < 2 ^ 32) :
    Machine.exec dumpUpdate ⟨disk, s⟩ (List.replicate n quiet) =
      some ⟨disk, { s with framesSinceFlush := s.framesSinceFlush + n }⟩ := by
  induction n generalizing s with
  | zero => rfl
  | succ n ih =>
    have hmin : min (s.framesSinceFlush + 1) (2 ^ 32 - 1) = s.framesSinceFlush + 1 :=
      Nat.min_eq_left (by omega)
    have hstep : dumpUpdate ⟨disk, s⟩ quiet =
        some ⟨disk, { s with framesSinceFlush := s.framesSinceFlush + 1 }⟩ := by
      simp only [dumpUpdate, quiet, DumpState.mergeFrame, List.foldl_nil, DumpState.flushIfDue,
        hdirty,
        Bool.false_and, hmin]
      rfl
    rw [List.replicate_succ, Machine.exec, hstep, Option.bind_some,
      ih { s with framesSinceFlush := s.framesSinceFlush + 1 } hdirty]
    · simp only [Nat.add_assoc, Nat.add_comm 1 n]
    · change s.framesSinceFlush + 1 + n < 2 ^ 32
      omega

def sung : List LyricsRecord := [⟨[0x61], by simp [textUtf16Capacity]⟩]

theorem short_fits : [(0x4D : UInt16)].length ≤ categoryUtf16Capacity ∧
    [(0x53 : UInt16)].length ≤ textUtf16Capacity := by decide

def textAndLyric : Frame := ⟨[⟨[0x4D], 7, [0x53], short_fits⟩], sung⟩

/-- Fifty-nine quiet frames, and one that brings a text and a lyric. -/
theorem timely_after_both :
    ∃ u', dumpUpdate ⟨emptyDisk, { DumpState.load ∅ with framesSinceFlush := 59 }⟩
        (textAndLyric, List.replicate 13 true) = some u' ∧ Timely u' := by
  refine ⟨_, rfl, ?_⟩
  refine (timely_iff_reached emptyDisk ∅ _ _ _ textAndLyric (List.replicate 13 true) rfl
    (exec_quiet emptyDisk (.load ∅) 59 rfl (by decide)) rfl (by decide) ?_).mpr (.inl ⟨rfl, rfl⟩)
  exact fun ok hok => List.eq_of_mem_replicate hok

/-- Lyrics alone never make a flush due. -/
theorem lyrics_alone_unflushed : ¬ ∀ (disk : Disk) (entries : LocalifyMap)
    (frames : List (Frame × List Bool)) (u u' : Live) (f : Frame) (oks : List Bool),
    disk.localify.read true = some entries →
    Machine.exec dumpUpdate ⟨disk, .load entries⟩ frames = some u →
    dumpUpdate u (f, oks) = some u' → flushIntervalFrames ≤ u.state.framesSinceFlush + 1 →
    (∀ ok ∈ oks, ok = true) → Timely u' := by
  intro h
  have htimely := h emptyDisk ∅ _ _ _ ⟨[], sung⟩ [] rfl
    (exec_quiet emptyDisk (.load ∅) 59 rfl (by decide)) rfl (by decide) nofun
  obtain ⟨m, hm, -⟩ := htimely.lyrics "a" (by decide)
  cases hm

end ShinySongTools.Dump
