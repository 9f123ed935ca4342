import ShinySongTools.Dump.Session

/-!
# What stays on disk

Memory has every text of the localify file, and a clean flag means that file
and memory agree; both hold over any number of sessions.
-/

namespace ShinySongTools.Dump

open Std (ExtTreeMap)

structure Steady (disk : Disk) (s : DumpState) : Prop where
  stored : ∀ c i, disk.hasText c i → (s.entries.text c i).isSome
  clean : s.dirty = false → disk.localify.read true = some s.entries
  lyrics : s.lyricsDirty = false → ∀ text ∈ s.lyrics, disk.hasLyric text

/-- What the temporary files have come to when a flush is here. -/
def FlushPc.Fits (disk : Disk) (s : DumpState) : FlushPc → Prop
  | .intoInner | .syncAll | .rename => disk.localifyTmp = .whole s.entries
  | .lyricsRemove => ∀ text ∈ s.lyrics, disk.hasLyric text
  | _ => True

structure Sound (w : World) : Prop where
  steady : ∀ session, w.session = some session → Steady w.disk session.state
  fits : ∀ session, w.session = some session → ∀ pc, session.flushing = some pc →
    pc.Fits w.disk session.state

variable {disk disk' : Disk} {s s' : DumpState} {w w' : World} {session : Session}

theorem Kept.refl (disk : Disk) : Kept disk disk := ⟨fun _ _ h => h, fun _ h => h⟩

theorem Sound.of_session (h : Steady disk session.state)
    (hpc : ∀ pc, session.flushing = some pc → pc.Fits disk session.state) :
    Sound ⟨disk, some session⟩ where
  steady := by
    rintro _ ⟨⟩
    exact h
  fits := by
    rintro _ ⟨⟩
    exact hpc

theorem Sound.init (disk : Disk) : Sound (.init disk) := ⟨nofun, nofun⟩

-- ---------------------------------------------------------------------------
-- Merging
-- ---------------------------------------------------------------------------

theorem Steady.load (h : disk.localify.read ok = some entries) : Steady disk (.load entries) where
  stored := by
    rintro c i ⟨m, hm, hsome⟩
    cases ok <;> rw [hm] at h <;> cases h
    exact hsome
  clean _ := by
    cases ok with
    | true => exact h
    | false => cases h
  lyrics _ text htext := by simp [DumpState.load] at htext

/-- A clean table is the file's before and after an insert that leaves it clean. -/
theorem clean_insert (h : s.dirty = false → disk.localify.read true = some s.entries)
    (c i t : String)
    (hdirty : (s.insert c i t).dirty = false) :
    disk.localify.read true = some (s.insert c i t).entries := by
  simp only [DumpState.insert, Bool.or_eq_false_iff, decide_eq_false_iff_not, not_not] at hdirty
  obtain ⟨hdirty, htext⟩ := hdirty
  have hsame : s.entries.put c i t = s.entries := by
    refine LocalifyMap.ext_text (fun c' => ?_) fun c' i' => ?_
    · rw [LocalifyMap.mem_put, or_iff_right_of_imp]
      rintro rfl
      exact LocalifyMap.mem_of_text htext
    · rw [LocalifyMap.text_put]
      split
      · next heq =>
        obtain ⟨rfl, rfl⟩ := heq
        exact htext.symm
      · rfl
  rw [h hdirty]
  exact congrArg some hsame.symm

theorem Steady.insert (h : Steady disk s) (c i t : String) : Steady disk (s.insert c i t) where
  stored c' i' hdisk := by
    rw [DumpState.entries_insert, LocalifyMap.text_put]
    split
    · rfl
    · exact h.stored c' i' hdisk
  clean := clean_insert h.clean c i t
  lyrics := h.lyrics

theorem Steady.merge (h : Steady disk s) (record : DumpRecord) : Steady disk (s.merge record) := by
  unfold DumpState.merge
  split
  · exact h.insert _ _ _
  · exact h

theorem Steady.merged {categories : String → Prop} {texts : String → String → String → Prop}
    (h : Steady disk s) (hm : s.Merged categories texts s')
    (hnew : s'.dirty = true ∨ ∀ c, categories c → c ∈ s.entries) : Steady disk s' where
  stored c i hdisk := by
    by_cases hct : ∃ t, texts c i t
    · obtain ⟨t, hct⟩ := hct
      rw [hm.new c i t hct]
      rfl
    · rw [hm.old c i (not_exists.mp hct)]
      exact h.stored c i hdisk
  clean hdirty := by
    have hno : ¬ (s.dirty = true ∨ ∃ c i t, texts c i t ∧ s.entries.text c i ≠ some t) :=
      hm.dirty.not.mp (by simp [hdirty])
    obtain ⟨hold, hunchanged⟩ := not_or.mp hno
    have hcategories := hnew.resolve_left (by simp [hdirty])
    have hsame : s'.entries = s.entries := by
      refine LocalifyMap.ext_text (fun c => ?_) fun c i => ?_
      · rw [hm.mem, or_iff_left_of_imp (hcategories c)]
      · by_cases hct : ∃ t, texts c i t
        · obtain ⟨t, hct⟩ := hct
          rw [hm.new c i t hct]
          by_contra hne
          exact hunchanged ⟨c, i, t, hct, fun heq => hne heq.symm⟩
        · exact hm.old c i (not_exists.mp hct)
    rw [h.clean (Bool.eq_false_iff.mpr hold), hsame]
  lyrics hclean text htext := by
    rw [hm.lyrics] at htext
    exact h.lyrics (hm.lyricsDirty ▸ hclean) text htext

theorem Steady.captureLyric (h : Steady disk s) (record : LyricsRecord) :
    Steady disk (s.captureLyric record) := by
  unfold DumpState.captureLyric
  dsimp only
  split
  · exact h
  · refine ⟨h.stored, h.clean, fun hclean text htext => ?_⟩
    simp only [Bool.or_eq_false_iff, Option.isNone_eq_false_iff] at hclean
    obtain ⟨hold, hknown⟩ := hclean
    rcases ExtTreeMap.mem_insert.mp htext with heq | htext
    · obtain rfl := Std.LawfulEqCmp.eq_of_compare heq
      exact h.lyrics hold _ (ExtTreeMap.isSome_getElem?_iff_mem.mp hknown)
    · exact h.lyrics hold text htext

theorem Steady.frames (h : Steady disk s) (n : Nat) :
    Steady disk { s with framesSinceFlush := n } :=
  ⟨h.stored, h.clean, h.lyrics⟩

-- ---------------------------------------------------------------------------
-- Flushing
-- ---------------------------------------------------------------------------

/-- What an operation of a flush leaves. -/
structure Kept.Step (disk disk' : Disk) (session : Session) : Prop where
  sound : Sound ⟨disk', some session⟩
  kept : Kept disk disk'

theorem Kept.Step.of_same (h : Steady disk s) (flushing : Option FlushPc)
    (hpc : ∀ pc, flushing = some pc → pc.Fits disk s) : Kept.Step disk disk ⟨s, flushing⟩ where
  sound := .of_session h hpc
  kept := .refl disk

/-- Nothing of the flush is on the two files. -/
theorem Kept.Step.of_tmp (h : Steady disk s) (flushing : Option FlushPc)
    (hlocalify : disk'.localify = disk.localify) (hlyrics : disk'.lyrics = disk.lyrics)
    (hpc : ∀ pc, flushing = some pc → pc.Fits disk' s) : Kept.Step disk disk' ⟨s, flushing⟩ := by
  obtain ⟨localify, localifyTmp, lyrics, lyricsTmp⟩ := disk'
  obtain rfl := hlocalify
  obtain rfl := hlyrics
  exact ⟨.of_session ⟨h.stored, h.clean, h.lyrics⟩ hpc, ⟨fun _ _ h => h, fun _ h => h⟩⟩

/-- The lyrics flag is cleared when the file has what was captured. -/
theorem Kept.Step.lyricsFlushed (h : Steady disk s) (hall : ∀ text ∈ s.lyrics, disk.hasLyric text)
    (hlocalify : disk'.localify = disk.localify) (hlyrics : disk'.lyrics = disk.lyrics) :
    Kept.Step disk disk' s.lyricsFlushed :=
  .of_tmp (s := { s with lyricsDirty := false, framesSinceFlush := 0 })
    ⟨h.stored, h.clean, fun _ => hall⟩ none hlocalify hlyrics nofun

/-- The table replaces the file. -/
theorem Kept.Step.rename (h : Steady disk s) (htmp : disk.localifyTmp = .whole s.entries) :
    Kept.Step disk { disk with localify := disk.localifyTmp, localifyTmp := .absent }
      (if s.lyricsDirty then ⟨{ s with dirty := false }, some .lyricsOpen⟩
        else DumpState.flushed { s with dirty := false }) := by
  have hstored :
      ∀ {c i}, Disk.hasText { disk with localify := disk.localifyTmp, localifyTmp := .absent } c i →
      (s.entries.text c i).isSome := by
    rintro c i ⟨m, hm, hsome⟩
    cases htmp.symm.trans hm
    exact hsome
  have hsteady : ∀ n, Steady { disk with localify := disk.localifyTmp, localifyTmp := .absent }
      { s with dirty := false, framesSinceFlush := n } := fun n =>
    ⟨fun c i hdisk => hstored hdisk, fun _ => by rw [htmp]; rfl, h.lyrics⟩
  refine ⟨?_, fun c i hdisk => ?_, fun _ h => h⟩
  · split
    · refine .of_session (hsteady _) ?_
      rintro pc ⟨⟩
      trivial
    · exact .of_session (hsteady 0) nofun
  · exact ⟨s.entries, htmp, h.stored c i hdisk⟩

/-- The captured lyrics replace the file. -/
theorem Kept.Step.lyricsRename (h : Steady disk s) (htmp : disk.lyricsTmp = .whole s.lyrics)
    (hall : ∀ text, disk.hasLyric text → text ∈ s.lyrics) :
    Kept.Step disk { disk with lyrics := disk.lyricsTmp, lyricsTmp := .absent }
      ⟨s, some .lyricsRemove⟩ where
  sound := by
    refine .of_session ⟨h.stored, h.clean, fun _ text htext => ⟨s.lyrics, htmp, htext⟩⟩ ?_
    rintro pc ⟨⟩
    exact fun text htext => ⟨s.lyrics, htmp, htext⟩
  kept := ⟨fun _ _ h => h, fun text hdisk => ⟨s.lyrics, htmp, hall text hdisk⟩⟩

theorem Steady.io (h : Steady disk s) {pc : FlushPc} (hpc : pc.Fits disk s)
    (hcareful : Careful ⟨disk, some ⟨s, some pc⟩⟩ (.io ok)) :
    Kept.Step disk (io disk s ok pc).1 (io disk s ok pc).2 := by
  have hc := hcareful _ rfl
  cases pc with
  | createDirAll | encode | newline | intoInner | syncAll =>
    refine .of_same h _ ?_
    cases ok with
    | true =>
      rintro pc ⟨⟩
      exact hpc
    | false => nofun
  | openTemp | flushWriter =>
    cases ok with
    | true =>
      refine .of_tmp h _ rfl rfl ?_
      rintro pc ⟨⟩
      trivial
    | false => exact .of_same h none nofun
  | rename =>
    cases ok with
    | true => exact Kept.Step.rename (s := s) h hpc
    | false => exact .of_same h none nofun
  | lyricsOpen =>
    cases ok with
    | true =>
      refine .of_tmp h _ rfl rfl ?_
      rintro pc ⟨⟩
      trivial
    | false => exact .lyricsFlushed h hc rfl rfl
  | lyricsEncode =>
    refine .of_same h _ ?_
    cases ok with
    | true =>
      rintro pc ⟨⟩
      trivial
    | false =>
      rintro pc ⟨⟩
      exact hc
  | lyricsDrop =>
    cases ok <;>
    · refine .of_tmp h _ rfl rfl ?_
      rintro pc ⟨⟩
      trivial
  | lyricsRename =>
    cases ok with
    | true => exact .lyricsRename h hc.1 hc.2
    | false =>
      refine .of_same h _ ?_
      rintro pc ⟨⟩
      exact hc
  | lyricsRemove =>
    cases ok <;> exact .lyricsFlushed h hpc rfl rfl

-- ---------------------------------------------------------------------------
-- Whole runs
-- ---------------------------------------------------------------------------

theorem Steady.flush (h : Steady disk s) : Sound ⟨disk, some s.flush⟩ := by
  unfold DumpState.flush
  split
  · exact .of_session (h.frames 0) nofun
  · refine .of_session h ?_
    rintro pc ⟨⟩
    trivial

theorem Steady.flushIfDue (h : Steady disk s) : Sound ⟨disk, some s.flushIfDue⟩ := by
  unfold DumpState.flushIfDue
  dsimp only
  split
  · exact (h.frames _).flush
  · exact .of_session (h.frames _) nofun

theorem onState_eq_some {f : DumpState → Session} (hs : World.step.onState w f = some w') :
    ∃ s, w.session = some ⟨s, none⟩ ∧ w' = { w with session := some (f s) } := by
  unfold World.step.onState at hs
  split at hs
  · next s hsession =>
    cases hs
    exact ⟨s, hsession, rfl⟩
  · cases hs

theorem Sound.step (h : Sound w) (hg : Careful w a) (hs : w.step a = some w') :
    Sound w' ∧ Kept w.disk w'.disk := by
  have hcall : ∀ {f : DumpState → Session}, World.step.onState w f = some w' →
      (∀ s, w.session = some ⟨s, none⟩ → Steady w.disk s → Sound ⟨w.disk, some (f s)⟩) →
      Sound w' ∧ Kept w.disk w'.disk := fun hs hf => by
    obtain ⟨s, hsession, rfl⟩ := onState_eq_some hs
    exact ⟨hf s hsession (h.steady _ hsession), .refl _⟩
  cases a with
  | load ok =>
    simp only [World.step] at hs
    split at hs
    · cases hs
      refine ⟨?_, .refl _⟩
      cases hread : w.disk.localify.read ok with
      | none => exact ⟨nofun, nofun⟩
      | some entries => exact .of_session (.load hread) nofun
    · cases hs
  | merge record => exact hcall hs fun s _ hs => .of_session (hs.merge record) nofun
  | mergeMap map =>
    refine hcall hs fun s hsession hs => .of_session (hs.merged (s.merged_mergeMap map) ?_) nofun
    obtain hdirty | hchanged | hknown := hg _ hsession
    · exact .inl ((s.merged_mergeMap map).dirty.mpr (.inl hdirty))
    · exact .inl ((s.merged_mergeMap map).dirty.mpr (.inr hchanged))
    · exact .inr hknown
  | captureLyric record => exact hcall hs fun s _ hs => .of_session (hs.captureLyric record) nofun
  | flushIfDue => exact hcall hs fun s _ hs => hs.flushIfDue
  | flush => exact hcall hs fun s _ hs => hs.flush
  | io ok =>
    obtain ⟨disk, _ | ⟨s, _ | pc⟩⟩ := w
    · cases hs
    · cases hs
    · cases hs
      have hio := (h.steady _ rfl).io (h.fits _ rfl pc rfl) hg
      exact ⟨hio.sound, hio.kept⟩
  | exit =>
    obtain ⟨session, -, rfl⟩ := Option.map_eq_some_iff.mp hs
    exact ⟨⟨nofun, nofun⟩, .refl _⟩

theorem Sound.persisted (h : Sound w) : Persisted w where
  localify session hsession := (h.steady session hsession).clean
  lyrics session hsession := (h.steady session hsession).lyrics

/-- While lyrics are never overwritten by fewer and no operation on their file
fails unnoticed, and no whole table adds just empty categories, the flags tell
the truth and nothing is lost from disk. -/
theorem persisted_of_careful (disk : Disk) (as : List Action)
    (hg : Machine.Each World.step Careful (.init disk) as) :
    Machine.Always World.step Persisted (.init disk) as ∧
      Machine.Each World.step (fun w a => ∀ w', w.step a = some w' → Kept w.disk w'.disk)
        (.init disk) as := by
  have hstep : ∀ w a w', Sound w → Careful w a → w.step a = some w' → Sound w' :=
    fun _ _ _ h hg hs => (h.step hg hs).1
  refine ⟨(Machine.Each.always hstep (.init disk) hg).mono fun _ h => h.persisted, ?_⟩
  exact Machine.Each.mono hstep (fun _ _ _ h hg _ w' hs => (h.step hg hs).2) (.init disk) hg

def lyric (unit : UInt16) : Action := .captureLyric ⟨[unit], by simp [textUtf16Capacity]⟩

/-- A session that captures a text and a lyric, and flushes them. -/
def oneSession (unit : UInt16) : List Action :=
  [.load true, .merge ⟨[0x4D], 7, [0x53], by decide⟩, lyric unit, .flush] ++
    List.replicate 13 (.io true) ++ [.exit]

/-- The session after `oneSession`, which captures its lyric again and a new one. -/
def nextSession : List Action :=
  [.load true, lyric 0x61, lyric 0x62, .flush] ++ List.replicate 13 (.io true) ++ [.exit]

def emptyDisk : Disk := ⟨.absent, .absent, .absent, .absent⟩

theorem persisted_twoSessions :
    Machine.Always World.step Persisted (.init emptyDisk) (oneSession 0x61 ++ nextSession) ∧
      Machine.Each World.step (fun w a => ∀ w', w.step a = some w' → Kept w.disk w'.disk)
        (.init emptyDisk) (oneSession 0x61 ++ nextSession) := by
  refine persisted_of_careful emptyDisk _ ?_
  refine Machine.Each.cons rfl nofun ?_
  iterate 14 refine Machine.Each.cons rfl (by rintro _ ⟨⟩; trivial) ?_
  refine Machine.Each.cons rfl ?_ ?_
  · rintro _ ⟨⟩
    exact ⟨rfl, fun text ⟨m, hm, _⟩ => nomatch hm⟩
  iterate 2 refine Machine.Each.cons rfl (by rintro _ ⟨⟩; trivial) ?_
  refine Machine.Each.cons rfl nofun ?_
  iterate 14 refine Machine.Each.cons rfl (by rintro _ ⟨⟩; trivial) ?_
  refine Machine.Each.cons rfl ?_ ?_
  · rintro _ ⟨⟩
    refine ⟨rfl, ?_⟩
    rintro text ⟨m, ⟨⟩, hmem⟩
    have hmem : text ∈ (∅ : Bucket).insert "a" "" := hmem
    change text ∈ ((∅ : Bucket).insert "a" "").insert "b" ""
    exact ExtTreeMap.mem_insert.mpr (.inr hmem)
  · iterate 2 refine Machine.Each.cons rfl (by rintro _ ⟨⟩; trivial) ?_
    trivial
theorem earlier_lyrics_lost :
    ¬ ∀ (disk : Disk) (as : List Action),
      Machine.Always World.step Persisted (.init disk) as ∧
        Machine.Each World.step (fun w a => ∀ w', w.step a = some w' → Kept w.disk w'.disk)
          (.init disk) as := by
  intro h
  have hkept := Machine.Each.of_exec
    (h emptyDisk (oneSession 0x61 ++ (oneSession 0x62).take 15 ++ [.io true])).2
    rfl rfl _ rfl
  obtain ⟨m, hm, hmem⟩ := hkept.lyric "a" ⟨_, rfl, by decide⟩
  cases hm
  exact absurd hmem (by decide)

end ShinySongTools.Dump
