import Mathlib

/-!
# The translation dump

Records as the hooks copy them, and the in-memory tables they are merged into.
A record's fixed arrays and their lengths are a list that fits. Counters of the
diagnostics and the cursors of the probes are left out.
-/

namespace ShinySongTools.Dump

open Std (ExtTreeMap)

def categoryUtf16Capacity : Nat := 128
def textUtf16Capacity : Nat := 2048
def flushIntervalFrames : Nat := 60

/-- `String::from_utf16`. -/
def fromUtf16 : List UInt16 → Option (List Char)
  | [] => some []
  | unit :: rest =>
    if unit < 0xD800 ∨ 0xDFFF < unit then (Char.ofNat unit.toNat :: ·) <$> fromUtf16 rest
    else
      match rest with
      | [] => none
      | low :: rest =>
        if unit ≤ 0xDBFF ∧ 0xDC00 ≤ low ∧ low ≤ 0xDFFF then
          (Char.ofNat (0x10000 + (unit.toNat - 0xD800) * 0x400 + (low.toNat - 0xDC00)) :: ·) <$>
            fromUtf16 rest
        else none

def stringFromUtf16 (units : List UInt16) : Option String := String.ofList <$> fromUtf16 units

/-- The code points `str::trim` strips. -/
def isWhitespace (c : Char) : Bool :=
  (0x9 ≤ c.toNat && c.toNat ≤ 0xD) || c.toNat = 0x20 || c.toNat = 0x85 || c.toNat = 0xA0 ||
    c.toNat = 0x1680 || (0x2000 ≤ c.toNat && c.toNat ≤ 0x200A) || c.toNat = 0x2028 ||
    c.toNat = 0x2029 || c.toNat = 0x202F || c.toNat = 0x205F || c.toNat = 0x3000

/-- `text.trim().is_empty()`. -/
def isBlank (text : String) : Bool := text.toList.all isWhitespace

structure DumpRecord where
  category : List UInt16
  id : Int32
  text : List UInt16
  fits : category.length ≤ categoryUtf16Capacity ∧ text.length ≤ textUtf16Capacity

namespace DumpRecord

def capture (category : List UInt16) (id : Int32) (text : List UInt16) : Option DumpRecord :=
  if fits : category.length ≤ categoryUtf16Capacity ∧ text.length ≤ textUtf16Capacity then
    some ⟨category, id, text, fits⟩
  else none

def decode (record : DumpRecord) : Option (String × String × String) := do
  let category ← stringFromUtf16 record.category
  let text ← stringFromUtf16 record.text
  return (category, toString record.id.toInt, text)

end DumpRecord

/-- The capture source of a lyrics record only feeds counters. -/
structure LyricsRecord where
  text : List UInt16
  fits : text.length ≤ textUtf16Capacity

def LyricsRecord.decode (record : LyricsRecord) : String :=
  (stringFromUtf16 record.text).getD ""

abbrev Bucket := ExtTreeMap String String

abbrev LocalifyMap := ExtTreeMap String Bucket

namespace LocalifyMap

def text (m : LocalifyMap) (category id : String) : Option String :=
  m[category]?.bind (·[id]?)

/-- `entry(category).or_default()`. -/
def orDefault (m : LocalifyMap) (category : String) : Bucket := (m[category]?).getD ∅

def put (m : LocalifyMap) (category id text : String) : LocalifyMap :=
  m.insert category ((m.orDefault category).insert id text)

def touch (m : LocalifyMap) (category : String) : LocalifyMap :=
  m.insert category (m.orDefault category)

variable {m m' : LocalifyMap} {c c' i i' t : String}

theorem getElem?_orDefault : (m.orDefault c)[i]? = m.text c i := by
  unfold orDefault text
  cases m[c]? <;> simp

theorem text_put : (m.put c i t).text c' i' = if c = c' ∧ i = i' then some t else m.text c' i' := by
  unfold put
  rw [text, ExtTreeMap.getElem?_insert]
  by_cases hc : c = c'
  · subst hc
    by_cases hi : i = i' <;> simp [ExtTreeMap.getElem?_insert, getElem?_orDefault, hi]
  · simp [hc, text]

theorem mem_put : c' ∈ m.put c i t ↔ c = c' ∨ c' ∈ m := by
  simp [put, ExtTreeMap.mem_insert]

theorem text_touch : (m.touch c).text c' i' = m.text c' i' := by
  unfold touch
  rw [text, ExtTreeMap.getElem?_insert]
  by_cases hc : c = c'
  · subst hc
    simp [getElem?_orDefault]
  · simp [hc, text]

theorem mem_touch : c' ∈ m.touch c ↔ c = c' ∨ c' ∈ m := by
  simp [touch, ExtTreeMap.mem_insert]

theorem mem_of_text (h : m.text c i = some t) : c ∈ m := by
  obtain ⟨bucket, hbucket, -⟩ := Option.bind_eq_some_iff.mp h
  exact ExtTreeMap.isSome_getElem?_iff_mem.mp (by simp [hbucket])

/-- Two tables with the same categories and texts are equal. -/
theorem ext_text (hmem : ∀ c, c ∈ m ↔ c ∈ m') (htext : ∀ c i, m.text c i = m'.text c i) :
    m = m' := by
  refine ExtTreeMap.ext_getElem? fun c => ?_
  cases hc : m[c]? with
  | none =>
    symm
    simpa [← hmem] using hc
  | some bucket =>
    have hc' : c ∈ m' := (hmem c).mp (ExtTreeMap.isSome_getElem?_iff_mem.mp (by simp [hc]))
    obtain ⟨bucket', hbucket'⟩ :=
      Option.isSome_iff_exists.mp (ExtTreeMap.isSome_getElem?_iff_mem.mpr hc')
    rw [hbucket']
    refine congrArg some (ExtTreeMap.ext_getElem? fun i => ?_)
    simpa [text, hc, hbucket'] using htext c i

end LocalifyMap

structure DumpState where
  entries : LocalifyMap
  dirty : Bool
  framesSinceFlush : Nat
  lyrics : Bucket
  lyricsDirty : Bool

namespace DumpState

/-- The insert that `merge` and `merge_map` have in common. -/
def insert (s : DumpState) (category id text : String) : DumpState :=
  { s with
    entries := s.entries.put category id text
    dirty := s.dirty || decide (s.entries.text category id ≠ some text) }

@[simp] theorem entries_insert (s : DumpState) (c i t : String) :
    (s.insert c i t).entries = s.entries.put c i t := rfl

def merge (s : DumpState) (record : DumpRecord) : DumpState :=
  match record.decode with
  | some (category, id, text) => s.insert category id text
  | none => s

def mergeBucket (s : DumpState) (category : String) (bucket : List (String × String)) :
    DumpState :=
  bucket.foldl (fun s (id, text) => s.insert category id text)
    { s with entries := s.entries.touch category }

def mergeMap (s : DumpState) (map : LocalifyMap) : DumpState :=
  map.toList.foldl (fun s (category, bucket) => s.mergeBucket category bucket.toList) s

/-- What `merge_map` reports. -/
def mergeReport (map : LocalifyMap) : Nat × Nat :=
  (map.toList.length, (map.toList.map fun (_, bucket) => bucket.toList.length).sum)

/-- A lyrics record of `dump_update`. -/
def captureLyric (s : DumpState) (record : LyricsRecord) : DumpState :=
  let text := record.decode
  if isBlank text then s
  else
    { s with
      lyrics := s.lyrics.insert text ""
      lyricsDirty := s.lyricsDirty || s.lyrics[text]?.isNone }

/-- What merging leaves alone. -/
structure SameLyrics (s s' : DumpState) : Prop where
  lyrics : s'.lyrics = s.lyrics
  lyricsDirty : s'.lyricsDirty = s.lyricsDirty
  framesSinceFlush : s'.framesSinceFlush = s.framesSinceFlush

theorem SameLyrics.refl (s : DumpState) : SameLyrics s s := ⟨rfl, rfl, rfl⟩

theorem SameLyrics.trans {s₁ s₂ s₃ : DumpState} (h : SameLyrics s₁ s₂) (h' : SameLyrics s₂ s₃) :
    SameLyrics s₁ s₃ where
  lyrics := h'.lyrics.trans h.lyrics
  lyricsDirty := h'.lyricsDirty.trans h.lyricsDirty
  framesSinceFlush := h'.framesSinceFlush.trans h.framesSinceFlush

/-- What merging these categories and texts does. -/
structure Merged (s : DumpState) (categories : String → Prop)
    (texts : String → String → String → Prop)
    (s' : DumpState) : Prop extends SameLyrics s s' where
  mem : ∀ c, c ∈ s'.entries ↔ c ∈ s.entries ∨ categories c
  new : ∀ c i t, texts c i t → s'.entries.text c i = some t
  old : ∀ c i, (∀ t, ¬ texts c i t) → s'.entries.text c i = s.entries.text c i
  dirty : s'.dirty = true ↔ s.dirty = true ∨ ∃ c i t, texts c i t ∧ s.entries.text c i ≠ some t

variable {s s' : DumpState} {categories categories' : String → Prop}
variable {texts texts' : String → String → String → Prop}

theorem Merged.refl (s : DumpState) : Merged s (fun _ => False) (fun _ _ _ => False) s where
  toSameLyrics := .refl s
  mem := by simp
  new _ _ _ h := h.elim
  old _ _ _ := rfl
  dirty := by simp

theorem Merged.congr (h : Merged s categories texts s') (hc : ∀ c, categories' c ↔ categories c)
    (ht : ∀ c i t, texts' c i t ↔ texts c i t) : Merged s categories' texts' s' where
  toSameLyrics := h.toSameLyrics
  mem c := (h.mem c).trans (or_congr_right (hc c).symm)
  new c i t hct := h.new c i t ((ht c i t).mp hct)
  old c i hct := h.old c i fun t => (ht c i t).not.mp (hct t)
  dirty := by simpa only [ht] using h.dirty

theorem Merged.touch (h : Merged s categories texts s') (c : String) :
    Merged s (fun c' => c' = c ∨ categories c') texts
      { s' with entries := s'.entries.touch c } where
  lyrics := h.lyrics
  lyricsDirty := h.lyricsDirty
  framesSinceFlush := h.framesSinceFlush
  mem c' := by
    rw [LocalifyMap.mem_touch, h.mem, eq_comm]
    exact or_left_comm
  new c' i t hct := LocalifyMap.text_touch.trans (h.new c' i t hct)
  old c' i hct := LocalifyMap.text_touch.trans (h.old c' i hct)
  dirty := h.dirty

theorem Merged.insert (h : Merged s categories texts s') (hfresh : ∀ t, ¬ texts c i t)
    (t : String) :
    Merged s (fun c' => c' = c ∨ categories c')
      (fun c' i' t' => (c' = c ∧ i' = i ∧ t' = t) ∨ texts c' i' t') (s'.insert c i t) where
  lyrics := h.lyrics
  lyricsDirty := h.lyricsDirty
  framesSinceFlush := h.framesSinceFlush
  mem c' := by
    rw [entries_insert, LocalifyMap.mem_put, h.mem, eq_comm]
    exact or_left_comm
  new c' i' t' hct := by
    rw [entries_insert, LocalifyMap.text_put]
    obtain ⟨rfl, rfl, rfl⟩ | hold := hct
    · simp
    · rw [if_neg, h.new c' i' t' hold]
      rintro ⟨rfl, rfl⟩
      exact hfresh t' hold
  old c' i' hct := by
    rw [entries_insert, LocalifyMap.text_put, if_neg]
    · exact h.old c' i' fun t' => (not_or.mp (hct t')).2
    · rintro ⟨rfl, rfl⟩
      exact (not_or.mp (hct t)).1 ⟨rfl, rfl, rfl⟩
  dirty := by
    have hnow := h.old c i hfresh
    simp only [DumpState.insert, Bool.or_eq_true, decide_eq_true_eq, hnow, h.dirty]
    constructor
    · rintro ((hdirty | ⟨c', i', t', hct, hne⟩) | hne)
      · exact .inl hdirty
      · exact .inr ⟨c', i', t', .inr hct, hne⟩
      · exact .inr ⟨c, i, t, .inl ⟨rfl, rfl, rfl⟩, hne⟩
    · rintro (hdirty | ⟨c', i', t', ⟨rfl, rfl, rfl⟩ | hct, hne⟩)
      · exact .inl (.inl hdirty)
      · exact .inr hne
      · exact .inl (.inr ⟨c', i', t', hct, hne⟩)

theorem Merged.inserts (h : Merged s categories texts s') (c : String) (hc : categories c)
    (bucket : List (String × String)) (hnodup : (bucket.map Prod.fst).Nodup)
    (hfresh : ∀ e ∈ bucket, ∀ t, ¬ texts c e.1 t) :
    Merged s categories (fun c' i t => (c' = c ∧ (i, t) ∈ bucket) ∨ texts c' i t)
      (bucket.foldl (fun s (id, text) => s.insert c id text) s') := by
  induction bucket generalizing s' texts with
  | nil => exact h.congr (fun _ => Iff.rfl) (by simp)
  | cons e bucket ih =>
    obtain ⟨id, text⟩ := e
    obtain ⟨hid, hnodup⟩ := List.nodup_cons.mp hnodup
    have hinsert := h.insert (hfresh _ List.mem_cons_self) text
    have hcategories : ∀ c', categories c' ↔ (c' = c ∨ categories c') := by
      intro c'
      refine ⟨.inr, ?_⟩
      rintro (rfl | hc')
      · exact hc
      · exact hc'
    refine (ih (hinsert.congr hcategories fun _ _ _ => Iff.rfl) hnodup ?_).congr
      (fun _ => Iff.rfl) ?_
    · rintro e he t (⟨-, heid, -⟩ | hold)
      · exact hid (heid ▸ List.mem_map_of_mem he)
      · exact hfresh e (List.mem_cons_of_mem _ he) t hold
    · intro c' i t
      simp only [List.mem_cons, Prod.mk.injEq]
      tauto

theorem Merged.mergeBucket (h : Merged s categories texts s') (c : String) (bucket : Bucket)
    (hfresh : ¬ categories c) (htexts : ∀ c i t, texts c i t → categories c) :
    Merged s (fun c' => c' = c ∨ categories c')
      (fun c' i t => (c' = c ∧ bucket[i]? = some t) ∨ texts c' i t)
      (s'.mergeBucket c bucket.toList) := by
  have hnodup : (bucket.toList.map Prod.fst).Nodup := by
    rw [ExtTreeMap.map_fst_toList_eq_keys]
    exact ExtTreeMap.nodup_keys
  refine ((h.touch c).inserts c (.inl rfl) bucket.toList hnodup ?_).congr (fun _ => Iff.rfl) ?_
  · exact fun e _ t hct => hfresh (htexts c e.1 t hct)
  · intro c' i t
    rw [ExtTreeMap.mem_toList_iff_getElem?_eq_some]

theorem Merged.mergeBuckets (h : Merged s categories texts s')
    (htexts : ∀ c i t, texts c i t → categories c) (l : List (String × Bucket))
    (hnodup : (l.map Prod.fst).Nodup) (hfresh : ∀ e ∈ l, ¬ categories e.1) :
    Merged s (fun c => (∃ bucket, (c, bucket) ∈ l) ∨ categories c)
      (fun c i t => (∃ bucket, (c, bucket) ∈ l ∧ bucket[i]? = some t) ∨ texts c i t)
      (l.foldl (fun s (category, bucket) => s.mergeBucket category bucket.toList) s') := by
  induction l generalizing s' categories texts with
  | nil => exact h.congr (by simp) (by simp)
  | cons e l ih =>
    obtain ⟨c, bucket⟩ := e
    obtain ⟨hc, hnodup⟩ := List.nodup_cons.mp hnodup
    have hbucket := h.mergeBucket c bucket (hfresh _ List.mem_cons_self) htexts
    refine (ih hbucket ?_ hnodup ?_).congr ?_ ?_
    · rintro c' i t (⟨rfl, -⟩ | hct)
      · exact .inl rfl
      · exact .inr (htexts c' i t hct)
    · rintro e he (heq | hold)
      · exact hc (List.mem_map.mpr ⟨e, he, heq⟩)
      · exact hfresh e (List.mem_cons_of_mem _ he) hold
    · intro c'
      simp only [List.mem_cons, Prod.mk.injEq, exists_or, exists_and_left, exists_eq, and_true]
      tauto
    · intro c' i t
      simp only [List.mem_cons, Prod.mk.injEq, or_and_right, exists_or, and_assoc,
        exists_and_left, exists_eq_left]
      rw [or_assoc, or_left_comm]

theorem merged_mergeMap (s : DumpState) (map : LocalifyMap) :
    Merged s (· ∈ map) (fun c i t => map.text c i = some t) (s.mergeMap map) := by
  have hnodup : (map.toList.map Prod.fst).Nodup := by
    rw [ExtTreeMap.map_fst_toList_eq_keys]
    exact ExtTreeMap.nodup_keys
  refine ((Merged.refl s).mergeBuckets (fun _ _ _ => False.elim) map.toList hnodup
    fun _ _ => id).congr (fun c => ?_) fun c i t => ?_
  · simp only [ExtTreeMap.mem_toList_iff_getElem?_eq_some, or_false]
    rw [← Option.isSome_iff_exists, ExtTreeMap.isSome_getElem?_iff_mem]
  · simp only [ExtTreeMap.mem_toList_iff_getElem?_eq_some, or_false]
    exact Option.bind_eq_some_iff

end DumpState
end ShinySongTools.Dump
