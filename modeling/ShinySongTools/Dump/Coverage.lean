import ShinySongTools.Machine
import ShinySongTools.Dump.Probes

/-!
# What the chunked probes cover

A call that answers `done` has left no id of the table unprobed, and no id was
probed twice, as long as the cursors keep standing for what was probed: a merge
brings no id that sorts before a probed one, and a music id is only passed when
a string could be made for each of its candidates.
-/

namespace ShinySongTools.Dump

open Std (ExtTreeMap)
open SortedCursor

variable {m : LocalifyMap} {id sid : String}

-- ---------------------------------------------------------------------------
-- The ids of a table
-- ---------------------------------------------------------------------------

namespace LocalifyMap

theorem pairwise_sids (m : LocalifyMap) : m.sids.Pairwise (· < ·) := pairwise_sortDedup _

theorem mem_sids : sid ∈ m.sids ↔ ∃ key ∈ m, isTitle key ∧ sidOf key = sid := by
  simp [sids, mem_sortDedup, and_assoc]

theorem pairwise_musicIds (m : LocalifyMap) : m.musicIds.Pairwise (· < ·) := by
  unfold musicIds
  cases m[musicName]? with
  | none => exact .nil
  | some bucket => exact bucket.ordered_keys.imp compare_lt_iff_lt.mp

theorem mem_musicIds : id ∈ m.musicIds ↔ (m.text musicName id).isSome := by
  unfold musicIds text
  cases m[musicName]? <;> simp

end LocalifyMap

-- ---------------------------------------------------------------------------
-- One id
-- ---------------------------------------------------------------------------

theorem probeParts_complete (h : probeParts sid part misses written answers = some p)
    (hok : p.result = .ok ()) : p.complete = true := by
  induction answers generalizing part misses written with
  | nil =>
    rw [probeParts] at h
    split at h
    · cases h
    · cases h
      rfl
  | cons c answers ih =>
    unfold probeParts at h
    split at h
    case isFalse =>
      cases h
      rfl
    case isTrue =>
      cases c with
      | noString =>
        cases h
        cases hok
      | missing => exact ih h
      | found _ file =>
        cases hfile : dumpOneDataFile file with
        | error =>
          simp only [hfile] at h
          cases h
          cases hok
        | ok =>
          simp only [hfile] at h
          exact ih h

theorem probePatterns_complete (h : probePatterns id written complete patterns answers = some p)
    (hanswers : .noString ∉ answers) (hok : p.result = .ok ()) :
    p.complete = complete ∧ .noString ∉ p.rest := by
  induction patterns generalizing written answers with
  | nil =>
    cases h
    exact ⟨rfl, hanswers⟩
  | cons pattern patterns ih =>
    cases answers with
    | nil => cases h
    | cons c answers =>
      obtain ⟨hc, hrest⟩ := not_or.mp (List.mem_cons.not.mp hanswers)
      cases c with
      | noString => exact absurd rfl hc
      | missing => exact ih h hrest
      | found target file =>
        cases target with
        | true => exact ih h hrest
        | false =>
          rw [probePatterns] at h
          cases hfile : dumpOneDataFile file with
          | error =>
            rw [hfile] at h
            cases h
            cases hok
          | ok =>
            rw [hfile] at h
            exact ih h hrest

-- ---------------------------------------------------------------------------
-- A call
-- ---------------------------------------------------------------------------

/-- A call whose probes are complete moves the cursor over what it probes. -/
theorem visited_walk {A : List Candidate → Prop}
    (hprobe : ∀ id answers p, A answers → probe id answers = some p → p.result = .ok () →
      p.complete = true ∧ A p.rest)
    (h : Visited l w.cursor w.probed) (hids : l.drop w.cursor = ids) (hanswers : A answers)
    (hw : walk probe limit ids w answers = some (w', result)) :
    Visited l w'.cursor w'.probed := by
  induction ids generalizing w answers with
  | nil =>
    cases hw
    exact h
  | cons id ids ih =>
    rw [walk] at hw
    split at hw
    case isFalse =>
      cases hw
      exact h
    case isTrue =>
      obtain ⟨p, hp, hw⟩ := Option.bind_eq_some_iff.mp hw
      cases hresult : p.result with
      | error =>
        rw [hresult] at hw
        cases hw
        exact h
      | ok =>
        rw [hresult] at hw
        obtain ⟨hcomplete, hrest⟩ := hprobe id answers p hanswers hp hresult
        refine ih ?_ ?_ hrest hw
        · rw [if_pos hcomplete]
          exact h.next hids
        · rw [← List.drop_drop, hids, List.drop_one, List.tail_cons]

namespace Probing

variable {s s' : Probing}

/-- Of a table with these categories and these music ids, what was not probed
yet sorts after all that was. -/
structure After (s : Probing) (categories musicIds : String → Prop) : Prop where
  scenario : ∀ key, categories key → isTitle key →
    sidOf key ∈ s.scenarioProbed ∨ ∀ sid ∈ s.scenarioProbed, sid < sidOf key
  lyrics : ∀ id, musicIds id → id ∈ s.lyricsProbed ∨ ∀ musicId ∈ s.lyricsProbed, musicId < id

def Careful (s : Probing) : Action → Prop
  | .merge record => ∀ category id text, record.decode = some (category, id, text) →
      s.After (· = category) fun id' => category = musicName ∧ id' = id
  | .mergeMap map => s.After (· ∈ map) fun id => (map.text musicName id).isSome
  | .scenarioDump .. => True
  | .lyricsDump _ _ _ answers => .noString ∉ answers

/-- What a call that answers `done` owes, and what every state does. -/
structure CoversOnce (s : Probing) : Prop where
  scenario : ∀ response, s.reply = some (.scenario (.ok response)) → response.done = true →
    ∀ sid ∈ s.dump.entries.sids, sid ∈ s.scenarioProbed
  scenarioOnce : s.scenarioProbed.Nodup
  lyrics : ∀ response, s.reply = some (.lyrics (.ok response)) → response.done = true →
    ∀ id ∈ s.dump.entries.musicIds, id ∈ s.lyricsProbed
  lyricsOnce : s.lyricsProbed.Nodup

structure Inv (s : Probing) : Prop where
  scenario : Visited s.dump.entries.sids s.scenarioCursor s.scenarioProbed
  scenarioDone : ∀ response, s.reply = some (.scenario (.ok response)) → response.done = true →
    s.dump.entries.sids.length ≤ s.scenarioCursor
  lyrics : Visited s.dump.entries.musicIds s.lyricsCursor s.lyricsProbed
  lyricsDone : ∀ response, s.reply = some (.lyrics (.ok response)) → response.done = true →
    s.dump.entries.musicIds.length ≤ s.lyricsCursor

theorem Inv.coversOnce (h : s.Inv) : s.CoversOnce where
  scenario response hreply hdone _ := h.scenario.mem_of_le (h.scenarioDone response hreply hdone)
  scenarioOnce := h.scenario.nodup (LocalifyMap.pairwise_sids _)
  lyrics response hreply hdone _ := h.lyrics.mem_of_le (h.lyricsDone response hreply hdone)
  lyricsOnce := h.lyrics.nodup (LocalifyMap.pairwise_musicIds _)

theorem Inv.load (entries : LocalifyMap) : (load entries).Inv where
  scenario := .zero _
  scenarioDone _ := nofun
  lyrics := .zero _
  lyricsDone _ := nofun

theorem Inv.grow {categories musicIds : String → Prop} (h : s.Inv) {dump : DumpState}
    (hmem : ∀ key, key ∈ dump.entries ↔ key ∈ s.dump.entries ∨ categories key)
    (hids : ∀ id, id ∈ dump.entries.musicIds ↔ id ∈ s.dump.entries.musicIds ∨ musicIds id)
    (hafter : s.After categories musicIds) :
    Inv { s with dump := dump, reply := none } where
  scenario := by
    have hsids := LocalifyMap.pairwise_sids s.dump.entries
    refine (h.scenario.grow_iff hsids (LocalifyMap.pairwise_sids _) ?_).mpr ?_
    · intro sid hsid
      obtain ⟨key, hkey, htitle⟩ := LocalifyMap.mem_sids.mp hsid
      exact LocalifyMap.mem_sids.mpr ⟨key, (hmem key).mpr (.inl hkey), htitle⟩
    · intro sid hsid
      obtain ⟨key, hkey, htitle, rfl⟩ := LocalifyMap.mem_sids.mp hsid
      obtain hold | hnew := (hmem key).mp hkey
      · exact (h.scenario.grow_iff hsids hsids fun _ h => h).mp h.scenario _
          (LocalifyMap.mem_sids.mpr ⟨key, hold, htitle, rfl⟩)
      · exact hafter.scenario key hnew htitle
  scenarioDone _ := nofun
  lyrics := by
    have hmusic := LocalifyMap.pairwise_musicIds s.dump.entries
    refine (h.lyrics.grow_iff hmusic (LocalifyMap.pairwise_musicIds _) ?_).mpr ?_
    · exact fun id hid => (hids id).mpr (.inl hid)
    · intro id hid
      obtain hold | hnew := (hids id).mp hid
      · exact (h.lyrics.grow_iff hmusic hmusic fun _ h => h).mp h.lyrics id hold
      · exact hafter.lyrics id hnew
  lyricsDone _ := nofun

theorem Inv.merge (h : s.Inv) {record : DumpRecord} (hc : s.Careful (.merge record)) :
    Inv { s with dump := s.dump.merge record, reply := none } := by
  unfold DumpState.merge
  cases hdecode : record.decode with
  | none => exact ⟨h.scenario, fun _ => nofun, h.lyrics, fun _ => nofun⟩
  | some e =>
    obtain ⟨category, id, text⟩ := e
    refine h.grow (fun key => ?_) (fun id' => ?_) (hc category id text hdecode)
    · rw [DumpState.entries_insert, LocalifyMap.mem_put, or_comm, eq_comm]
    · rw [DumpState.entries_insert, LocalifyMap.mem_musicIds, LocalifyMap.mem_musicIds,
        LocalifyMap.text_put, @eq_comm _ id' id]
      split <;> simp_all

theorem Inv.mergeMap (h : s.Inv) {map : LocalifyMap} (hc : s.Careful (.mergeMap map)) :
    Inv { s with dump := s.dump.mergeMap map, reply := none } := by
  have hmerged := s.dump.merged_mergeMap map
  refine h.grow hmerged.mem (fun id => ?_) hc
  rw [LocalifyMap.mem_musicIds, LocalifyMap.mem_musicIds]
  cases hnew : map.text musicName id with
  | none =>
    rw [hmerged.old musicName id fun text htext => Option.some_ne_none _ (htext.symm.trans hnew)]
    simp
  | some text =>
    rw [hmerged.new musicName id text hnew]
    simp

theorem Inv.scenarioDump (h : s.Inv) (hs : s.scenarioDumpHandler limit methods answers = some s') :
    s'.Inv := by
  unfold scenarioDumpHandler at hs
  cases hmethods : methods.resolve with
  | error =>
    simp only [hmethods] at hs
    cases hs
    exact ⟨h.scenario, fun _ => nofun, h.lyrics, fun _ => nofun⟩
  | ok =>
    simp only [hmethods] at hs
    obtain ⟨⟨w, result⟩, hw, rfl⟩ := Option.map_eq_some_iff.mp hs
    have hprobe : ∀ sid answers p, True → probeParts sid 0 0 [] answers = some p →
        p.result = .ok () → p.complete = true ∧ True :=
      fun _ _ _ _ hp hok => ⟨probeParts_complete hp hok, trivial⟩
    refine ⟨visited_walk hprobe ?_ ?_ trivial hw, ?_, h.lyrics, fun _ => nofun⟩
    · exact h.scenario
    · rfl
    · intro response hreply hdone
      cases result with
      | error => cases hreply
      | ok =>
        cases hreply
        exact of_decide_eq_true hdone

theorem Inv.lyricsDump (h : s.Inv) (hc : .noString ∉ answers)
    (hs : s.lyricsDumpHandler patterns limit methods answers = some s') : s'.Inv := by
  unfold lyricsDumpHandler at hs
  cases hmethods : methods.resolve with
  | error =>
    simp only [hmethods] at hs
    cases hs
    exact ⟨h.scenario, fun _ => nofun, h.lyrics, fun _ => nofun⟩
  | ok =>
    simp only [hmethods] at hs
    obtain ⟨⟨w, result⟩, hw, rfl⟩ := Option.map_eq_some_iff.mp hs
    have hprobe (patterns : List String) : ∀ id answers p, Candidate.noString ∉ answers →
        probePatterns id [] true patterns answers = some p → p.result = .ok () →
        p.complete = true ∧ Candidate.noString ∉ p.rest :=
      fun _ _ _ hanswers hp hok => probePatterns_complete hp hanswers hok
    refine ⟨h.scenario, fun _ => nofun, visited_walk (hprobe _) ?_ ?_ hc hw, ?_⟩
    · exact h.lyrics
    · rfl
    · intro response hreply hdone
      cases result with
      | error => cases hreply
      | ok =>
        cases hreply
        exact of_decide_eq_true hdone

theorem Inv.step (h : s.Inv) (hc : s.Careful a) (hs : s.step a = some s') : s'.Inv := by
  cases a with
  | merge record =>
    cases hs
    exact h.merge hc
  | mergeMap map =>
    cases hs
    exact h.mergeMap hc
  | scenarioDump => exact h.scenarioDump hs
  | lyricsDump => exact h.lyricsDump hc hs

/-- The cursors cover everything once in every run in which no merge brings an
id that sorts before a probed one and no candidate of a music id is passed over. -/
theorem chunks_cover_once (entries : LocalifyMap) (as : List Action)
    (h : Machine.Each step Careful (load entries) as) :
    Machine.Always step CoversOnce (load entries) as :=
  (Machine.Each.always (fun _ _ _ hinv hc hs => hinv.step hc hs) (.load entries) h).mono
    fun _ => Inv.coversOnce

def resolved : Methods := ⟨.va, .va⟩

def titleTable (sid : String) : LocalifyMap :=
  (∅ : LocalifyMap).put ("mlADVInfo_Title_" ++ sid) "0" "T"

def musicTable (id : String) : LocalifyMap := (∅ : LocalifyMap).put musicName id "M"

def dumpScenario : Action := .scenarioDump none resolved (.replicate 5 .missing)

theorem titles_in_order_covered :
    Machine.Always step CoversOnce (load ∅)
      [.mergeMap (titleTable "a"), dumpScenario, .mergeMap (titleTable "b"), dumpScenario,
        .mergeMap (musicTable "7"), .lyricsDump ["music/\x7bid\x7d"] none resolved [.missing]] := by
  refine chunks_cover_once _ _ ?_
  refine Machine.Each.cons rfl ⟨fun _ _ _ => .inr nofun, fun _ _ => .inr nofun⟩ ?_
  refine Machine.Each.cons rfl trivial ?_
  refine Machine.Each.cons rfl ⟨?_, fun _ _ => .inr nofun⟩ ?_
  · intro key hkey _
    obtain rfl | hkey := LocalifyMap.mem_put.mp hkey
    · exact .inr (by decide)
    · exact absurd hkey ExtTreeMap.not_mem_empty
  refine Machine.Each.cons rfl trivial ?_
  refine Machine.Each.cons rfl ⟨?_, fun _ _ => .inr nofun⟩ ?_
  · intro key hkey htitle
    obtain rfl | hkey := LocalifyMap.mem_put.mp hkey
    · exact absurd htitle (by decide)
    · exact absurd hkey ExtTreeMap.not_mem_empty
  have hanswers : Candidate.noString ∉ [.missing] := by simp
  exact Machine.Each.cons rfl hanswers trivial

/-- A merged id that sorts before a probed one, and a music id one of whose keys
no string could be made for: both calls answer `done`, and the id was never
probed. -/
theorem done_leaves_id_unprobed :
    (¬ Machine.Always step CoversOnce (load ∅)
      [.mergeMap (titleTable "b"), dumpScenario, .mergeMap (titleTable "a"), dumpScenario]) ∧
    ¬ Machine.Always step CoversOnce (load ∅)
      [.mergeMap (musicTable "7"), .lyricsDump ["music/\x7bid\x7d"] none resolved [.noString]] := by
  constructor
  · intro h
    exact absurd ((h.exec rfl).scenario _ rfl rfl "a" (by decide)) (by decide)
  · intro h
    exact absurd ((h.exec rfl).lyrics _ rfl rfl "7" (by decide)) (by decide)

end Probing
end ShinySongTools.Dump
