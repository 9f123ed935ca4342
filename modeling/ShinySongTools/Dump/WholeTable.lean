import ShinySongTools.Dump.Walk

/-!
# The whole-table walk against the hooks

Two ways to the same entries: the walk over the dictionaries in memory, and one
record per lookup. They agree exactly on the tables that have no null text, no
category without an entry that is new to the dump, no negative id that is new to
it, an entries array, and no dictionary past the walk's bound.
-/

namespace ShinySongTools.Dump

open Std (ExtTreeMap)

-- ---------------------------------------------------------------------------
-- Decoding
-- ---------------------------------------------------------------------------

/-- `char::encode_utf16`. -/
def encodeUtf16 (c : Char) : List UInt16 :=
  if c.toNat < 0x10000 then [.ofNat c.toNat]
  else [.ofNat (0xD800 + (c.toNat - 0x10000) / 0x400),
    .ofNat (0xDC00 + (c.toNat - 0x10000) % 0x400)]

theorem encode_fromUtf16 (h : fromUtf16 units = some cs) : cs.flatMap encodeUtf16 = units := by
  induction units using fromUtf16.induct generalizing cs with
  | case1 =>
    cases h
    rfl
  | case2 unit rest hscalar ih =>
    unfold fromUtf16 at h
    rw [if_pos hscalar] at h
    obtain ⟨cs, hcs, rfl⟩ := Option.map_eq_some_iff.mp h
    have hvalid : unit.toNat.isValidChar := by
      have := unit.toNat_lt
      simp only [UInt16.lt_iff_toNat_lt] at hscalar
      simp at hscalar
      unfold Nat.isValidChar
      omega
    have hc : (Char.ofNat unit.toNat).toNat = unit.toNat := by rw [Char.toNat_ofNat, if_pos hvalid]
    have hunit : encodeUtf16 (Char.ofNat unit.toNat) = [unit] := by
      rw [encodeUtf16, hc, if_pos unit.toNat_lt, UInt16.ofNat_toNat]
    rw [List.flatMap_cons, hunit, ih hcs]
    rfl
  | case3 unit hsurrogate =>
    unfold fromUtf16 at h
    rw [if_neg hsurrogate] at h
    cases h
  | case4 unit hsurrogate low rest hpair ih =>
    unfold fromUtf16 at h
    rw [if_neg hsurrogate] at h
    simp only [if_pos hpair] at h
    obtain ⟨cs, hcs, rfl⟩ := Option.map_eq_some_iff.mp h
    simp only [UInt16.lt_iff_toNat_lt, UInt16.le_iff_toNat_le] at hsurrogate hpair
    simp at hsurrogate hpair
    set value := 0x10000 + (unit.toNat - 0xD800) * 0x400 + (low.toNat - 0xDC00) with hvalue
    have hvalid : value.isValidChar := by
      unfold Nat.isValidChar
      omega
    have hc : (Char.ofNat value).toNat = value := by rw [Char.toNat_ofNat, if_pos hvalid]
    have hhigh : 0xD800 + (value - 0x10000) / 0x400 = unit.toNat := by omega
    have hlow : 0xDC00 + (value - 0x10000) % 0x400 = low.toNat := by omega
    have hunits : encodeUtf16 (Char.ofNat value) = [unit, low] := by
      rw [encodeUtf16, hc, if_neg (by omega), hhigh, hlow, UInt16.ofNat_toNat, UInt16.ofNat_toNat]
    rw [List.flatMap_cons, hunits, ih hcs]
    rfl
  | case5 unit hsurrogate low rest hpair =>
    unfold fromUtf16 at h
    rw [if_neg hsurrogate] at h
    simp only [if_neg hpair] at h
    cases h

theorem stringFromUtf16_injective (h : stringFromUtf16 units = some text)
    (h' : stringFromUtf16 units' = some text) : units = units' := by
  obtain ⟨cs, hcs, rfl⟩ := Option.map_eq_some_iff.mp h
  obtain ⟨cs', hcs', heq⟩ := Option.map_eq_some_iff.mp h'
  obtain rfl := String.ofList_injective heq
  rw [← encode_fromUtf16 hcs, encode_fromUtf16 hcs']

-- ---------------------------------------------------------------------------
-- Ids
-- ---------------------------------------------------------------------------

/-- The id as the hooks spell it. -/
def hookId (id : Int32) : String := toString id.toInt

/-- The id as the walk spells it. -/
def walkId (id : Int32) : String := toString id.toUInt32.toNat

variable {a b : Int32}

theorem toInt_eq_ite (id : Int32) :
    id.toInt = if id.toUInt32.toNat < 2 ^ 31 then (id.toUInt32.toNat : Int)
      else id.toUInt32.toNat - 2 ^ 32 := by
  have h : id.toInt = id.toBitVec.toInt := rfl
  have h' : id.toUInt32.toNat = id.toBitVec.toNat := rfl
  rw [h, h', BitVec.toInt_eq_toNat_cond]
  split <;> split <;> omega

theorem hookId_injective (h : hookId a = hookId b) : a = b :=
  Int32.toInt_inj.mp (Int.repr_injective h)

theorem walkId_injective (h : walkId a = walkId b) : a = b := by
  have hnat : a.toUInt32.toNat = b.toUInt32.toNat := Nat.repr_injective h
  exact Int32.toInt_inj.mp (by rw [toInt_eq_ite, toInt_eq_ite, hnat])

theorem walkId_eq_hookId : walkId a = hookId b ↔ a = b ∧ 0 ≤ b.toInt := by
  have hspell : walkId a = toString ((a.toUInt32.toNat : Int)) := rfl
  constructor
  · intro h
    have hint : (a.toUInt32.toNat : Int) = b.toInt := Int.repr_injective (hspell.symm.trans h)
    have hlt := b.toInt_lt
    refine ⟨Int32.toInt_inj.mp ?_, by omega⟩
    rw [toInt_eq_ite, if_pos (by omega)]
    exact hint
  · rintro ⟨rfl, hpos⟩
    rw [hspell, hookId]
    have heq := toInt_eq_ite a
    have hlt := a.toUInt32.toNat_lt
    split at heq
    · rw [heq]
    · omega

-- ---------------------------------------------------------------------------
-- The walk, slot by slot
-- ---------------------------------------------------------------------------

variable {mem : Memory} {dict entry p : Nat}

theorem readString_null : readString mem 0 = .error "null string in dictionary entry" := rfl

theorem readString_at {s : Utf16 capacity} (h : mem.StringAt p s.units) :
    readString mem p = .ok s.text := by
  unfold readString
  rw [h.2]
  simp only [s.decodes]

/-- A fold over indices is a fold over the slots they are the indices of. -/
theorem foldlM_range {f : β → Nat → Except ε β} {g : β → α → Except ε β} {slots : List α}
    (h : ∀ out index (hi : index < slots.length), f out index = g out slots[index]) (out : β) :
    (List.range slots.length).foldlM f out = slots.foldlM g out := by
  induction slots generalizing f out with
  | nil => rfl
  | cons slot slots ih =>
    rw [List.length_cons, List.range_succ_eq_map, List.foldlM_cons, List.foldlM_cons,
      h out 0 (Nat.succ_pos _)]
    refine congrArg _ (funext fun out => ?_)
    rw [List.foldlM_map]
    exact ih (fun out index hi => h out (index + 1) (Nat.succ_lt_succ hi)) out

/-- The walk of a dictionary passes over its freed slots. -/
theorem forSlots_eq {live : Nat → α → Prop} {slots : Slots α} (h : mem.DictAt dict live slots)
    {body : β → Nat → Except String β} {g : β → α → Except String β}
    (hlive : ∀ out entry value, live entry value → body out entry = g out value) (out : β) :
    forSlots mem (mem.ptr (dict + dictEntries)) slots.length body out =
      slots.live.foldlM g out := by
  rw [Slots.live, List.foldlM_filterMap]
  refine foldlM_range (fun out index hi => ?_) out
  have hslot := h.slot index hi
  cases hcase : slots[index] with
  | none =>
    rw [hcase] at hslot
    simp only [hslot]
    rfl
  | some value =>
    rw [hcase] at hslot
    simp only [hslot.1, hlive out _ value hslot.2]
    rfl

/-- What the walk does with a live entry. -/
def walkEntry (out : Bucket) (e : Entry) : Except String Bucket :=
  match e.text with
  | none => .error "null string in dictionary entry"
  | some text => .ok (out.insert (walkId e.id) text.text)

/-- What the walk makes of the dictionary of a category. -/
def walkSlots (out : Bucket) (slots : Slots Entry) : Except String Bucket :=
  if maxWalkEntries < slots.length then .error s!"inner dictionary malformed: count={slots.length}"
  else slots.live.foldlM walkEntry out

def walkCategory (out : LocalifyMap) (c : Category) : Except String LocalifyMap := do
  let bucket ← walkSlots (out.orDefault c.name.text) c.slots
  return out.insert c.name.text bucket

theorem readEntry_at {e : Entry} (h : mem.EntryAt entry e) (out : Bucket) :
    walkIntDictionary.readEntry mem out entry = walkEntry out e := by
  obtain ⟨hid, htext⟩ := h
  unfold walkIntDictionary.readEntry walkEntry
  cases hcase : e.text with
  | none =>
    simp only [hcase] at htext
    rw [htext, readString_null]
    rfl
  | some text =>
    simp only [hcase] at htext
    rw [hid, readString_at htext]
    rfl

theorem walkIntDictionary_eq {slots : Slots Entry}
    (hnone : dict = 0 → slots = []) (h : dict ≠ 0 → mem.DictAt dict mem.EntryAt slots)
    (out : Bucket) :
    walkIntDictionary mem dict out = walkSlots out slots := by
  unfold walkIntDictionary walkSlots
  by_cases hnull : dict = 0
  · rw [if_pos hnull, hnone hnull]
    rfl
  · have h := h hnull
    rw [if_neg hnull, h.count]
    by_cases hentries : mem.ptr (dict + dictEntries) = 0
    · have hslots : slots = [] := not_not.mp fun hne => h.entries hne hentries
      rw [hslots]
      simp only [hentries]
      rfl
    · simp only [if_neg hentries]
      rw [forSlots_eq h fun out entry e he => readEntry_at he out]

theorem readCategory_at {c : Category} (h : mem.CategoryAt entry c) (out : LocalifyMap) :
    walkStringDictionary.readEntry mem out entry = walkCategory out c := by
  have hempty : ¬ c.name.text.isEmpty = true := by
    rw [String.isEmpty_iff]
    intro hname
    have hdecodes := c.name.decodes
    rw [hname] at hdecodes
    exact c.nonempty (stringFromUtf16_injective hdecodes rfl)
  unfold walkStringDictionary.readEntry walkCategory
  rw [readString_at h.1]
  change (if c.name.text.isEmpty = true then _ else _) = _
  rw [if_neg hempty, walkIntDictionary_eq h.2.1 h.2.2]

theorem walkStringDictionary_eq {table : Table} (h : mem.LaidAt dict table) (out : LocalifyMap) :
    walkStringDictionary mem dict out =
      if mem.ptr (dict + dictEntries) = 0 ∨ maxWalkEntries < table.slots.length then
        .error s!"outer dictionary malformed: count={table.slots.length}"
      else table.slots.live.foldlM walkCategory out := by
  unfold walkStringDictionary
  rw [if_neg h.1, h.2.count]
  simp only []
  rw [forSlots_eq h.2 fun out entry c hc => readCategory_at hc out]

-- ---------------------------------------------------------------------------
-- What the walk finds
-- ---------------------------------------------------------------------------

def insertAll (m : ExtTreeMap String β) (l : List (String × β)) : ExtTreeMap String β :=
  l.foldl (fun m e => m.insert e.1 e.2) m

theorem getElem?_insertAll {l : List (String × β)} (hkeys : (l.map Prod.fst).Nodup)
    {m : ExtTreeMap String β} (hfresh : ∀ e ∈ l, e.1 ∉ m) :
    (insertAll m l)[k]? = some v ↔ (k, v) ∈ l ∨ m[k]? = some v := by
  induction l generalizing m with
  | nil => simp [insertAll]
  | cons e l ih =>
    obtain ⟨hkey, hkeys⟩ := List.nodup_cons.mp hkeys
    have hfresh' : ∀ e' ∈ l, e'.1 ∉ m.insert e.1 e.2 := by
      intro e' he' hmem
      obtain heq | hmem := ExtTreeMap.mem_insert.mp hmem
      · exact hkey (Std.LawfulEqCmp.eq_of_compare heq ▸ List.mem_map_of_mem he')
      · exact hfresh e' (List.mem_cons_of_mem _ he') hmem
    refine (ih hkeys hfresh').trans ?_
    rw [ExtTreeMap.getElem?_insert, List.mem_cons, or_comm (a := (k, v) = e), or_assoc]
    refine or_congr_right ?_
    by_cases hk : e.1 = k
    · subst hk
      have hnone : m[e.1]? = none := by simpa using hfresh e List.mem_cons_self
      simp [hnone, Prod.ext_iff, eq_comm]
    · have hne : ¬ (k, v) = e := fun heq => hk (heq ▸ rfl)
      simp [hk, hne]

def textsOf (es : List Entry) : List (String × String) :=
  es.filterMap fun e => e.text.map fun text => (walkId e.id, text.text)

theorem foldlM_walkEntry {es : List Entry} {out out' : Bucket} :
    es.foldlM walkEntry out = .ok out' ↔
      (∀ e ∈ es, e.text ≠ none) ∧ out' = insertAll out (textsOf es) := by
  induction es generalizing out with
  | nil =>
    refine ⟨?_, ?_⟩
    · rintro ⟨⟩
      exact ⟨by simp, rfl⟩
    · rintro ⟨-, rfl⟩
      rfl
  | cons e es ih =>
    rw [List.foldlM_cons, List.forall_mem_cons]
    cases htext : e.text with
    | none =>
      have hstep : walkEntry out e = .error "null string in dictionary entry" := by
        simp only [walkEntry, htext]
      rw [hstep]
      refine ⟨nofun, ?_⟩
      rintro ⟨⟨hnull, -⟩, -⟩
      exact absurd rfl hnull
    | some text =>
      have hstep : walkEntry out e = .ok (out.insert (walkId e.id) text.text) := by
        simp only [walkEntry, htext]
      have htexts : textsOf (e :: es) = (walkId e.id, text.text) :: textsOf es := by
        simp [textsOf, htext]
      rw [hstep, htexts]
      refine ih.trans ?_
      simp [insertAll]

/-- A category the walk gets through. -/
structure Category.Readable (c : Category) : Prop where
  count : c.slots.length ≤ maxWalkEntries
  texts : ∀ e ∈ c.slots.live, e.text ≠ none

def Category.bucket (c : Category) : Bucket := insertAll ∅ (textsOf c.slots.live)

theorem walkSlots_ok {slots : Slots Entry} {out out' : Bucket} :
    walkSlots out slots = .ok out' ↔
      (slots.length ≤ maxWalkEntries ∧ ∀ e ∈ slots.live, e.text ≠ none) ∧
        out' = insertAll out (textsOf slots.live) := by
  unfold walkSlots
  split
  · rename_i hlong
    refine ⟨nofun, ?_⟩
    rintro ⟨⟨hshort, -⟩, -⟩
    exact absurd hlong hshort.not_gt
  · rename_i hshort
    rw [foldlM_walkEntry, and_iff_right (Nat.le_of_not_lt hshort)]

theorem foldlM_walkCategory {cs : List Category} (hnames : (cs.map fun c => c.name.text).Nodup)
    {out out' : LocalifyMap} (hfresh : ∀ c ∈ cs, c.name.text ∉ out) :
    cs.foldlM walkCategory out = .ok out' ↔
      (∀ c ∈ cs, c.Readable) ∧ out' = insertAll out (cs.map fun c => (c.name.text, c.bucket)) := by
  induction cs generalizing out with
  | nil =>
    refine ⟨?_, ?_⟩
    · rintro ⟨⟩
      exact ⟨by simp, rfl⟩
    · rintro ⟨-, rfl⟩
      rfl
  | cons c cs ih =>
    obtain ⟨hname, hnames⟩ := List.nodup_cons.mp hnames
    have hempty : out.orDefault c.name.text = ∅ := by
      have hnone : out[c.name.text]? = none := by simpa using hfresh c List.mem_cons_self
      simp [LocalifyMap.orDefault, hnone]
    have hfresh' : ∀ c' ∈ cs, c'.name.text ∉ out.insert c.name.text c.bucket := by
      intro c' hc' hmem
      obtain heq | hmem := ExtTreeMap.mem_insert.mp hmem
      · exact hname (List.mem_map.mpr ⟨c', hc', (Std.LawfulEqCmp.eq_of_compare heq).symm⟩)
      · exact hfresh c' (List.mem_cons_of_mem _ hc') hmem
    rw [List.foldlM_cons, List.forall_mem_cons]
    unfold walkCategory
    rw [hempty]
    cases hwalk : walkSlots ∅ c.slots with
    | error =>
      refine ⟨nofun, ?_⟩
      rintro ⟨⟨hc, -⟩, -⟩
      have hok : walkSlots ∅ c.slots = .ok c.bucket :=
        walkSlots_ok.mpr ⟨⟨hc.count, hc.texts⟩, rfl⟩
      cases hwalk.symm.trans hok
    | ok bucket =>
      obtain ⟨⟨hcount, htexts⟩, rfl⟩ := walkSlots_ok.mp hwalk
      refine (ih hnames hfresh').trans ?_
      rw [and_iff_right (Category.Readable.mk hcount htexts)]
      rfl

theorem nodup_textsOf {es : List Entry} (h : (es.map Entry.id).Nodup) :
    ((textsOf es).map Prod.fst).Nodup := by
  rw [List.Nodup, List.pairwise_map] at h
  rw [List.Nodup, List.pairwise_map, textsOf, List.pairwise_filterMap]
  refine h.imp fun hne => ?_
  rintro ⟨i, text⟩ he ⟨i', text'⟩ he' heq
  obtain ⟨_, -, hpair⟩ := Option.map_eq_some_iff.mp he
  obtain ⟨_, -, hpair'⟩ := Option.map_eq_some_iff.mp he'
  obtain ⟨rfl, -⟩ := Prod.mk.inj hpair
  obtain ⟨rfl, -⟩ := Prod.mk.inj hpair'
  exact hne (walkId_injective heq)

namespace Table

variable {table : Table} {c i t : String}

theorem nodup_names (table : Table) : (table.slots.live.map fun c => c.name.text).Nodup := by
  have hnames := table.names
  rw [List.Nodup, List.pairwise_map] at hnames ⊢
  refine hnames.imp fun {a b} hne htext => hne ?_
  exact stringFromUtf16_injective a.name.decodes (htext ▸ b.name.decodes)

/-- What the walk makes of the table, if nothing stops it. -/
def parsed (table : Table) : LocalifyMap :=
  insertAll ∅ (table.slots.live.map fun c => (c.name.text, c.bucket))

theorem getElem?_parsed {bucket : Bucket} : table.parsed[c]? = some bucket ↔
    ∃ category ∈ table.slots.live, category.name.text = c ∧ category.bucket = bucket := by
  have hkeys : ((table.slots.live.map fun c => (c.name.text, c.bucket)).map Prod.fst).Nodup := by
    rw [List.map_map]
    exact table.nodup_names
  rw [parsed, getElem?_insertAll hkeys fun _ _ => ExtTreeMap.not_mem_empty]
  simp [Prod.ext_iff]

theorem mem_parsed : c ∈ table.parsed ↔ ∃ category ∈ table.slots.live, category.name.text = c := by
  rw [← ExtTreeMap.isSome_getElem?_iff_mem, Option.isSome_iff_exists]
  simp only [getElem?_parsed]
  constructor
  · rintro ⟨_, category, hcategory, hname, -⟩
    exact ⟨category, hcategory, hname⟩
  · rintro ⟨category, hcategory, hname⟩
    exact ⟨_, category, hcategory, hname, rfl⟩

theorem mem_shown {e : Shown} : e ∈ table.shown ↔ ∃ category ∈ table.slots.live,
    ∃ entry ∈ category.slots.live, entry.text = some e.text ∧ category.name = e.category ∧
      entry.id = e.id := by
  simp only [shown, List.mem_flatMap, Category.shown, List.mem_filterMap, Option.map_eq_some_iff]
  constructor
  · rintro ⟨category, hcategory, entry, hentry, text, htext, rfl⟩
    exact ⟨category, hcategory, entry, hentry, htext, rfl, rfl⟩
  · rintro ⟨category, hcategory, entry, hentry, htext, hname, hid⟩
    exact ⟨category, hcategory, entry, hentry, e.text, htext, by rw [hname, hid]⟩

theorem text_parsed : table.parsed.text c i = some t ↔
    ∃ e ∈ table.shown, e.category.text = c ∧ walkId e.id = i ∧ e.text.text = t := by
  have hbucket (category : Category) : category.bucket[i]? = some t ↔
      ∃ entry ∈ category.slots.live, ∃ text, entry.text = some text ∧ walkId entry.id = i ∧
        text.text = t := by
    rw [Category.bucket, getElem?_insertAll (nodup_textsOf category.ids)
      fun _ _ => ExtTreeMap.not_mem_empty]
    simp [textsOf]
  rw [LocalifyMap.text, Option.bind_eq_some_iff]
  simp only [getElem?_parsed, mem_shown]
  constructor
  · rintro ⟨_, ⟨category, hcategory, hname, rfl⟩, ht⟩
    obtain ⟨entry, hentry, text, htext, hid, ht⟩ := (hbucket category).mp ht
    exact ⟨⟨category.name, entry.id, text⟩, ⟨category, hcategory, entry, hentry, htext, rfl, rfl⟩,
      hname, hid, ht⟩
  · rintro ⟨e, ⟨category, hcategory, entry, hentry, htext, hname, hid⟩, rfl, rfl, rfl⟩
    refine ⟨_, ⟨category, hcategory, by rw [hname], rfl⟩, (hbucket category).mpr ?_⟩
    exact ⟨entry, hentry, e.text, htext, by rw [hid], rfl⟩

theorem walk_ok (h : mem.LaidAt dict table) {out : LocalifyMap} :
    walkStringDictionary mem dict ∅ = .ok out ↔
      (mem.ptr (dict + dictEntries) ≠ 0 ∧ table.slots.length ≤ maxWalkEntries ∧
        ∀ c ∈ table.slots.live, c.Readable) ∧ out = table.parsed := by
  rw [walkStringDictionary_eq h]
  split
  · rename_i hbad
    refine ⟨nofun, ?_⟩
    rintro ⟨⟨hentries, hcount, -⟩, -⟩
    exact (hbad.elim hentries hcount.not_gt).elim
  · rename_i hgood
    obtain ⟨hentries, hcount⟩ := not_or.mp hgood
    rw [foldlM_walkCategory table.nodup_names fun _ _ => ExtTreeMap.not_mem_empty]
    rw [and_iff_right hentries, and_iff_right (Nat.le_of_not_lt hcount)]
    rfl

theorem pairwise_shown (table : Table) : table.shown.Pairwise fun a b =>
    a.category.text = b.category.text → a.id ≠ b.id := by
  rw [shown, List.pairwise_flatMap]
  constructor
  · intro c _
    have hids := c.ids
    rw [List.Nodup, List.pairwise_map] at hids
    rw [Category.shown, List.pairwise_filterMap]
    refine hids.imp fun hne => ?_
    intro x hx y hy _
    obtain ⟨_, -, rfl⟩ := Option.map_eq_some_iff.mp hx
    obtain ⟨_, -, rfl⟩ := Option.map_eq_some_iff.mp hy
    exact hne
  · have hnames := table.nodup_names
    rw [List.Nodup, List.pairwise_map] at hnames
    refine hnames.imp fun hne => ?_
    intro x hx y hy htext
    obtain ⟨_, -, hx⟩ := List.mem_filterMap.mp hx
    obtain ⟨_, -, hy⟩ := List.mem_filterMap.mp hy
    obtain ⟨_, -, rfl⟩ := Option.map_eq_some_iff.mp hx
    obtain ⟨_, -, rfl⟩ := Option.map_eq_some_iff.mp hy
    exact absurd htext hne

end Table

-- ---------------------------------------------------------------------------
-- What the hooks leave
-- ---------------------------------------------------------------------------

namespace DumpState

variable {s s' : DumpState}

theorem mergeShown_eq (s : DumpState) (e : Shown) :
    s.mergeShown e = s.insert e.category.text (hookId e.id) e.text.text := by
  have hdecode : (DumpRecord.mk e.category.units e.id e.text.units
      ⟨e.category.fits, e.text.fits⟩).decode =
        some (e.category.text, hookId e.id, e.text.text) := by
    simp only [DumpRecord.decode, e.category.decodes, e.text.decodes]
    rfl
  unfold mergeShown DumpRecord.capture
  rw [dif_pos ⟨e.category.fits, e.text.fits⟩]
  simp only [merge, hdecode]

theorem Merged.shown {categories : String → Prop} {texts : String → String → String → Prop}
    (h : Merged s categories texts s') (l : List Shown)
    (hkeys : l.Pairwise fun a b => a.category.text = b.category.text → a.id ≠ b.id)
    (hfresh : ∀ e ∈ l, ∀ t, ¬ texts e.category.text (hookId e.id) t) :
    Merged s (fun c => (∃ e ∈ l, e.category.text = c) ∨ categories c)
      (fun c i t => (∃ e ∈ l, e.category.text = c ∧ hookId e.id = i ∧ e.text.text = t) ∨
        texts c i t)
      (l.foldl mergeShown s') := by
  induction l generalizing s' categories texts with
  | nil => exact h.congr (by simp) (by simp)
  | cons e l ih =>
    obtain ⟨hkey, hkeys⟩ := List.pairwise_cons.mp hkeys
    have hinsert := h.insert (hfresh e List.mem_cons_self) e.text.text
    rw [← mergeShown_eq] at hinsert
    refine (ih hinsert hkeys ?_).congr ?_ ?_
    · rintro e' he' t (⟨hcategory, hid, -⟩ | hold)
      · exact hkey e' he' hcategory.symm (hookId_injective hid).symm
      · exact hfresh e' (List.mem_cons_of_mem _ he') t hold
    · intro c
      simp only [List.mem_cons, exists_eq_or_imp, @eq_comm _ c, or_assoc]
      exact or_left_comm
    · intro c i t
      simp only [List.mem_cons, exists_eq_or_imp, @eq_comm _ c, @eq_comm _ i, @eq_comm _ t,
        or_assoc]
      exact or_left_comm

theorem merged_shown (s : DumpState) {table : Table} {order : List Shown}
    (h : order.Perm table.shown) :
    Merged s (fun c => ∃ e ∈ table.shown, e.category.text = c)
      (fun c i t => ∃ e ∈ table.shown, e.category.text = c ∧ hookId e.id = i ∧ e.text.text = t)
      (order.foldl mergeShown s) := by
  have hkeys : order.Pairwise fun a b => a.category.text = b.category.text → a.id ≠ b.id :=
    (h.pairwise_iff fun hne heq => (hne heq.symm).symm).mpr table.pairwise_shown
  refine ((Merged.refl s).shown order hkeys fun _ _ _ => id).congr ?_ ?_
  · simp [h.mem_iff]
  · simp [h.mem_iff]

theorem merged_parsed (s : DumpState) (table : Table) :
    Merged s (fun c => ∃ category ∈ table.slots.live, category.name.text = c)
      (fun c i t => ∃ e ∈ table.shown, e.category.text = c ∧ walkId e.id = i ∧ e.text.text = t)
      (s.mergeMap table.parsed) :=
  (s.merged_mergeMap table.parsed).congr (fun _ => Table.mem_parsed.symm)
    fun _ _ _ => Table.text_parsed.symm

end DumpState

-- ---------------------------------------------------------------------------
-- Agreement
-- ---------------------------------------------------------------------------

/-- The tables, and states before, that the two ways agree on. -/
structure Regular (mem : Memory) (dict : Nat) (table : Table) (s : DumpState) : Prop where
  entries : mem.ptr (dict + dictEntries) ≠ 0
  count : table.slots.length ≤ maxWalkEntries
  counts : ∀ c ∈ table.slots.live, c.slots.length ≤ maxWalkEntries
  texts : ∀ c ∈ table.slots.live, ∀ e ∈ c.slots.live, e.text ≠ none
  categories : ∀ c ∈ table.slots.live, c.slots.live ≠ [] ∨ c.name.text ∈ s.entries
  ids : ∀ e ∈ table.shown, e.id.toInt < 0 →
    s.entries.text e.category.text (toString e.id.toInt) = some e.text.text ∧
      s.entries.text e.category.text (toString e.id.toUInt32.toNat) = some e.text.text

variable {table : Table} {s walked hooked : DumpState}

/-- The two ways leave the same categories when each the walk makes is one the
hooks make or the dump has. -/
theorem mem_of_regular (h : Regular mem dict table s)
    (hwalked :
      s.Merged (fun c => ∃ category ∈ table.slots.live, category.name.text = c) texts walked)
    (hhooked : s.Merged (fun c => ∃ e ∈ table.shown, e.category.text = c) texts' hooked)
    (c : String) :
    c ∈ walked.entries ↔ c ∈ hooked.entries := by
  rw [hwalked.mem, hhooked.mem]
  constructor
  · rintro (hold | ⟨category, hcategory, rfl⟩)
    · exact .inl hold
    · obtain hlive | hold := h.categories category hcategory
      · obtain ⟨entry, hentry⟩ := List.exists_mem_of_ne_nil _ hlive
        obtain ⟨text, htext⟩ :=
          Option.ne_none_iff_exists'.mp (h.texts category hcategory entry hentry)
        refine .inr ⟨⟨category.name, entry.id, text⟩, Table.mem_shown.mpr ?_, rfl⟩
        exact ⟨category, hcategory, entry, hentry, htext, rfl, rfl⟩
      · exact .inl hold
  · rintro (hold | ⟨e, he, rfl⟩)
    · exact .inl hold
    · obtain ⟨category, hcategory, -, -, -, hname, -⟩ := Table.mem_shown.mp he
      exact .inr ⟨category, hcategory, by rw [hname]⟩

theorem text_of_regular (h : Regular mem dict table s)
    (hwalked : s.Merged categories
      (fun c i t => ∃ e ∈ table.shown, e.category.text = c ∧ walkId e.id = i ∧ e.text.text = t)
        walked)
    (hhooked : s.Merged categories'
      (fun c i t => ∃ e ∈ table.shown, e.category.text = c ∧ hookId e.id = i ∧ e.text.text = t)
        hooked)
    (c i : String) : walked.entries.text c i = hooked.entries.text c i := by
  by_cases hwalk : ∃ e ∈ table.shown, e.category.text = c ∧ walkId e.id = i
  · obtain ⟨e, he, rfl, rfl⟩ := hwalk
    rw [hwalked.new _ _ _ ⟨e, he, rfl, rfl, rfl⟩]
    by_cases hpos : 0 ≤ e.id.toInt
    · rw [walkId_eq_hookId.mpr ⟨rfl, hpos⟩, hhooked.new _ _ _ ⟨e, he, rfl, rfl, rfl⟩]
    · rw [hhooked.old, ← (h.ids e he (not_le.mp hpos)).2]
      · rfl
      · rintro t ⟨e', -, -, hid, -⟩
        obtain ⟨heq, hpos'⟩ := walkId_eq_hookId.mp hid.symm
        exact hpos (heq ▸ hpos')
  · rw [hwalked.old c i fun t ⟨e, he, hc, hi, _⟩ => hwalk ⟨e, he, hc, hi⟩]
    by_cases hhook : ∃ e ∈ table.shown, e.category.text = c ∧ hookId e.id = i
    · obtain ⟨e, he, rfl, rfl⟩ := hhook
      rw [hhooked.new _ _ _ ⟨e, he, rfl, rfl, rfl⟩]
      have hneg : ¬ 0 ≤ e.id.toInt :=
        fun hpos => hwalk ⟨e, he, rfl, walkId_eq_hookId.mpr ⟨rfl, hpos⟩⟩
      exact (h.ids e he (not_le.mp hneg)).1
    · rw [hhooked.old c i fun t ⟨e, he, hc, hi, _⟩ => hhook ⟨e, he, hc, hi⟩]

/-- A negative id is spelt in two ways, and each way leaves the other's text as
it was. -/
theorem texts_of_entries_eq
    (hwalked : s.Merged categories
      (fun c i t => ∃ e ∈ table.shown, e.category.text = c ∧ walkId e.id = i ∧ e.text.text = t)
        walked)
    (hhooked : s.Merged categories'
      (fun c i t => ∃ e ∈ table.shown, e.category.text = c ∧ hookId e.id = i ∧ e.text.text = t)
        hooked)
    (heq : walked.entries = hooked.entries) {e : Shown} (he : e ∈ table.shown)
    (hneg : e.id.toInt < 0) :
    s.entries.text e.category.text (hookId e.id) = some e.text.text ∧
      s.entries.text e.category.text (walkId e.id) = some e.text.text := by
  constructor
  · rw [← hwalked.old, heq, hhooked.new _ _ _ ⟨e, he, rfl, rfl, rfl⟩]
    rintro t ⟨e', -, -, hid, -⟩
    exact (walkId_eq_hookId.mp hid).2.not_gt hneg
  · rw [← hhooked.old, ← heq, hwalked.new _ _ _ ⟨e, he, rfl, rfl, rfl⟩]
    rintro t ⟨e', -, -, hid, -⟩
    obtain ⟨hid, hpos⟩ := walkId_eq_hookId.mp hid.symm
    exact hpos.not_gt (hid ▸ hneg)

theorem agrees_iff (h : mem.LaidAt dict table) :
    AgreesWithHooks mem dict table s ↔ Regular mem dict table s := by
  constructor
  · rintro ⟨parsed, hwalk, hagree⟩
    obtain ⟨⟨hentries, hcount, hreadable⟩, rfl⟩ := (Table.walk_ok h).mp hwalk
    have heq := hagree table.shown (.refl _)
    have hwalked := s.merged_parsed table
    have hhooked := s.merged_shown (List.Perm.refl table.shown)
    refine ⟨hentries, hcount, fun c hc => (hreadable c hc).count, fun c hc =>
      (hreadable c hc).texts,
      fun c hc => ?_, fun e he hneg => texts_of_entries_eq hwalked hhooked heq he hneg⟩
    rw [or_iff_not_imp_left, not_not]
    intro hnone
    have hmem : c.name.text ∈ (s.mergeMap table.parsed).entries :=
      (hwalked.mem _).mpr (.inr ⟨c, hc, rfl⟩)
    rw [heq, hhooked.mem] at hmem
    obtain hold | ⟨e, he, htext⟩ := hmem
    · exact hold
    · -- the category of `e` has the name of `c`, so it is `c`, which has no entry
      obtain ⟨category, hcategory, entry, hentry, -, hname, -⟩ := Table.mem_shown.mp he
      have hsame : category = c :=
        List.inj_on_of_nodup_map table.nodup_names hcategory hc (by rw [hname, htext])
      rw [hsame, hnone] at hentry
      exact absurd hentry List.not_mem_nil
  · intro hregular
    have hreadable : ∀ c ∈ table.slots.live, c.Readable :=
      fun c hc => ⟨hregular.counts c hc, hregular.texts c hc⟩
    refine ⟨table.parsed,
      (Table.walk_ok h).mpr ⟨⟨hregular.entries, hregular.count, hreadable⟩, rfl⟩, ?_⟩
    intro order horder
    have hwalked := s.merged_parsed table
    have hhooked := s.merged_shown horder
    exact LocalifyMap.ext_text (mem_of_regular hregular hwalked hhooked)
      (text_of_regular hregular hwalked hhooked)

-- ---------------------------------------------------------------------------
-- Tables of one category
-- ---------------------------------------------------------------------------

/-- One category with one entry; `low` and `high` make its id, and the text is
at `text`. -/
def oneEntryMemory (low high text : UInt8) : Memory := fun a =>
  (List.lookup a [(0x1019, 0x20), (0x1020, 1), (0x2029, 0x30), (0x2031, 0x40), (0x3010, 1),
    (0x3014, 0x41), (0x4019, 0x50), (0x4020, 1), (0x5028, low), (0x5029, high), (0x502A, high),
    (0x502B, high), (0x5031, text), (0x6010, 1), (0x6014, 0x54)]).getD 0

def letter (unit : UInt16) (text : String) (h : stringFromUtf16 [unit] = some text)
    (hcapacity : 1 ≤ capacity) : Utf16 capacity := ⟨[unit], text, h, hcapacity⟩

def oneCategory (slots : Slots Entry) (ids : (slots.live.map Entry.id).Nodup) : Table where
  slots := [some ⟨letter 0x41 "A" rfl (by decide), nofun, slots, ids⟩]
  names := by simp [Slots.live]

def oneEntry (id : Int32) (text : Option (Utf16 textUtf16Capacity)) : Table :=
  oneCategory [some ⟨id, text⟩] (by simp [Slots.live])

def emptyDump : DumpState := ⟨∅, false, 0, ∅, false⟩

/-- The part of the layout that is the same for all of them. -/
structure Memory.CategoryA (mem : Memory) : Prop where
  count : (mem.u32 0x1020).toNat = 1
  entries : mem.ptr 0x1018 = 0x2000
  hash : freed mem 0x2020 = false
  key : mem.ptr 0x2028 = 0x3000
  name : readIl2cppStringUtf16 mem 0x3000 = some [0x41]
  value : mem.ptr 0x2030 = 0x4000

theorem laidAt_oneCategory {mem : Memory} {slots : Slots Entry}
    (ids : (slots.live.map Entry.id).Nodup) (h : mem.CategoryA)
    (hslots : mem.DictAt 0x4000 mem.EntryAt slots) :
    mem.LaidAt 0x1000 (oneCategory slots ids) := by
  refine ⟨by decide, h.count, fun _ => ?_, fun index hindex => ?_⟩
  · exact h.entries ▸ by decide
  · obtain rfl : index = 0 := Nat.lt_one_iff.mp hindex
    refine ⟨h.entries ▸ h.hash, ?_⟩
    change mem.CategoryAt (slotAt (mem.ptr 0x1018) 0) _
    rw [h.entries]
    refine ⟨?_, ?_, ?_⟩
    · change mem.StringAt (mem.ptr 0x2028) _
      rw [h.key]
      exact ⟨by decide, h.name⟩
    · change mem.ptr 0x2030 = 0 → _
      rw [h.value]
      exact nofun
    · change mem.ptr 0x2030 ≠ 0 → mem.DictAt (mem.ptr 0x2030) _ _
      rw [h.value]
      exact fun _ => hslots

theorem laidAt_oneEntry {mem : Memory} {id : Int32} {text : Option (Utf16 textUtf16Capacity)}
    (h : mem.CategoryA) (hcount : (mem.u32 0x4020).toNat = 1) (hentries : mem.ptr 0x4018 = 0x5000)
    (hhash : freed mem 0x5020 = false) (hentry : mem.EntryAt 0x5020 ⟨id, text⟩) :
    mem.LaidAt 0x1000 (oneEntry id text) := by
  refine laidAt_oneCategory _ h ⟨hcount, fun _ => ?_, fun index hindex => ?_⟩
  · exact hentries ▸ by decide
  · obtain rfl : index = 0 := Nat.lt_one_iff.mp hindex
    change freed mem (slotAt (mem.ptr 0x4018) 0) = false ∧
      mem.EntryAt (slotAt (mem.ptr 0x4018) 0) _
    rw [hentries]
    exact ⟨hhash, hentry⟩

def letterT : Utf16 textUtf16Capacity := letter 0x54 "T" rfl (by decide)

theorem laidAt_null : (oneEntryMemory 7 0 0).LaidAt 0x1000 (oneEntry 7 none) :=
  laidAt_oneEntry (by constructor <;> decide +kernel) (by decide +kernel) (by decide +kernel)
    (by decide +kernel) ⟨by decide +kernel, by decide +kernel⟩

theorem laidAt_negative :
    (oneEntryMemory 0xFF 0xFF 0x60).LaidAt 0x1000 (oneEntry (-1) (some letterT)) :=
  laidAt_oneEntry (by constructor <;> decide +kernel) (by decide +kernel) (by decide +kernel)
    (by decide +kernel) ⟨by decide +kernel, by decide +kernel, by decide +kernel⟩

def letterU : Utf16 textUtf16Capacity := letter 0x55 "U" rfl (by decide)

/-- Two entries with a freed slot between them. -/
def twoEntriesMemory : Memory := fun a =>
  (List.lookup a [(0x1019, 0x20), (0x1020, 1), (0x2029, 0x30), (0x2031, 0x40), (0x3010, 1),
    (0x3014, 0x41), (0x4019, 0x50), (0x4020, 3), (0x5028, 7), (0x5031, 0x60), (0x503B, 0x80),
    (0x5058, 9), (0x5061, 0x70), (0x6010, 1), (0x6014, 0x54), (0x7010, 1),
    (0x7014, 0x55)]).getD 0

def twoEntries : Table :=
  oneCategory [some ⟨7, some letterT⟩, none, some ⟨9, some letterU⟩] (by decide)

theorem laidAt_twoEntries : twoEntriesMemory.LaidAt 0x1000 twoEntries := by
  have hentries : twoEntriesMemory.ptr 0x4018 = 0x5000 := by decide +kernel
  have hlayout : twoEntriesMemory.CategoryA := by constructor <;> decide +kernel
  refine laidAt_oneCategory _ hlayout
    ⟨by decide +kernel, fun _ => by decide +kernel, fun index hindex => ?_⟩
  match index with
  | 0 =>
    change freed twoEntriesMemory (slotAt (twoEntriesMemory.ptr 0x4018) 0) = false ∧
      twoEntriesMemory.EntryAt (slotAt (twoEntriesMemory.ptr 0x4018) 0) ⟨7, some letterT⟩
    rw [hentries]
    exact ⟨by decide +kernel, by decide +kernel, by decide +kernel, by decide +kernel⟩
  | 1 =>
    change freed twoEntriesMemory (slotAt (twoEntriesMemory.ptr 0x4018) 1) = true
    rw [hentries]
    decide +kernel
  | 2 =>
    change freed twoEntriesMemory (slotAt (twoEntriesMemory.ptr 0x4018) 2) = false ∧
      twoEntriesMemory.EntryAt (slotAt (twoEntriesMemory.ptr 0x4018) 2) ⟨9, some letterU⟩
    rw [hentries]
    exact ⟨by decide +kernel, by decide +kernel, by decide +kernel, by decide +kernel⟩

theorem twoEntries_agree :
    AgreesWithHooks twoEntriesMemory 0x1000 twoEntries emptyDump := by
  refine (agrees_iff laidAt_twoEntries).mpr ⟨by decide +kernel, by decide, ?_, ?_, ?_, ?_⟩
  · rintro c (_ | ⟨_, ⟨⟩⟩)
    decide
  · rintro c (_ | ⟨_, ⟨⟩⟩) e (_ | ⟨_, _ | ⟨_, ⟨⟩⟩⟩)
    · exact nofun
    · exact nofun
  · rintro c (_ | ⟨_, ⟨⟩⟩)
    exact .inl nofun
  · rintro e (_ | ⟨_, _ | ⟨_, ⟨⟩⟩⟩) hneg
    · exact absurd hneg (by decide)
    · exact absurd hneg (by decide)

/-- A null text stops the walk, and a negative id is spelt as the number it is
without its sign. -/
theorem null_and_negative_disagree :
    ((oneEntryMemory 7 0 0).LaidAt 0x1000 (oneEntry 7 none) ∧
      ¬ AgreesWithHooks (oneEntryMemory 7 0 0) 0x1000 (oneEntry 7 none) emptyDump) ∧
    (oneEntryMemory 0xFF 0xFF 0x60).LaidAt 0x1000 (oneEntry (-1) (some letterT)) ∧
      ¬ AgreesWithHooks (oneEntryMemory 0xFF 0xFF 0x60) 0x1000 (oneEntry (-1) (some letterT))
        emptyDump := by
  refine ⟨⟨laidAt_null, ?_⟩, laidAt_negative, ?_⟩
  · rintro ⟨parsed, hwalk, -⟩
    obtain ⟨⟨-, -, hreadable⟩, -⟩ := (Table.walk_ok laidAt_null).mp hwalk
    exact (hreadable _ List.mem_cons_self).texts _ List.mem_cons_self rfl
  · rintro ⟨parsed, hwalk, hagree⟩
    obtain ⟨-, rfl⟩ := (Table.walk_ok laidAt_negative).mp hwalk
    have hold := texts_of_entries_eq (emptyDump.merged_parsed _) (emptyDump.merged_shown (.refl _))
      (hagree _ (.refl _)) List.mem_cons_self (by decide)
    exact absurd hold.1 (by decide)

end ShinySongTools.Dump
