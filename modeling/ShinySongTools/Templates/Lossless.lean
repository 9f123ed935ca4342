import ShinySongTools.Templates.Catalog
import ShinySongTools.Templates.Spans

/-!
# Nothing is lost

Every unit of a generated catalog is its texts with holes, every binding says
what is in them, and the ids lead to the units. So the bindings rebuild the
dump, whatever the translators have done to the targets, and a catalog whose
targets are its sources is applied to the dump itself.
-/

namespace ShinySongTools.Templates

open Regex Holed Keyed Fallible

variable {h : Hashing} {dump : Dump}

-- ---------------------------------------------------------------------------
-- The material of a dump
-- ---------------------------------------------------------------------------

theorem finds_reserved_iff {text : Text} :
    (lit reserved).finds text = true ↔ reserved <:+: text := by
  rw [finds_iff (by decide) (solid_of_nullable (by decide))]
  constructor
  · rintro ⟨w, hw, hpart⟩
    rwa [← mem_language_lit.mp hw]
  · exact fun hpart => ⟨reserved, self_mem_lit _, hpart⟩

theorem ensureNoReservedSyntax_eq_ok {records : List Record} :
    ensureNoReservedSyntax records = .ok () ↔
      ∀ record ∈ records, ¬ reserved <:+: record.text := by
  rw [ensureNoReservedSyntax]
  split
  next record hfound =>
    refine iff_of_false (by rintro ⟨⟩) fun hall => ?_
    have hpart := List.find?_some hfound
    exact hall record (List.mem_of_find?_eq_some hfound) (finds_reserved_iff.mp hpart)
  next hnone =>
    refine iff_of_true rfl fun record hrecord hpart => ?_
    exact List.find?_eq_none.mp hnone record hrecord (finds_reserved_iff.mpr hpart)

/-- The unit is the text with holes, and the arguments say what is in them. -/
structure Restores (h : Hashing) (m : Material) (ls : Holed UInt16) (v : Text → Text) : Prop where
  unit : m.unitSource = printed ls
  known : ∀ w ∈ names ls, w ∈ customPattern.language
  text : filled v ls = m.text
  args : ∀ w ∈ names ls, m.args.lookup w = some (.literal (v w)) ∨
    ∃ type, m.args.lookup w = some (.entity (entityId h type (v w))) ∧
      (type, v w) ∈ m.usedEntityArgs
  used : ∀ arg ∈ m.usedEntityArgs,
    ∃ w ∈ names ls, m.args.lookup w = some (.entity (entityId h arg.1 arg.2))

theorem lookup_orderedMap {β : Type} {m : List (Text × β)} (hm : (m.map Prod.fst).Nodup)
    (k : Text) :
    (orderedMap m).lookup k = m.lookup k :=
  (lookup_perm hm (List.perm_insertionSort _ m).symm).symm

theorem materialRecord_restores {record : Record} {pattern : Regex UInt16}
    {characterSet qualified : List Text} {c : Candidate}
    (hc : candidate record pattern characterSet = .ok c) (hfree : ¬ reserved <:+: record.text) :
    (materialRecord h qualified c).toRecord = record ∧
      ∃ ls v, Restores h (materialRecord h qualified c) ls v := by
  obtain ⟨rfl, s, hs, hargs, ls, hls, hfills, hall⟩ := candidate_fills hc hfree
  rw [materialRecord]
  split
  · have hlookup {w : Text} {arg : Arg} (harg : s.args.lookup w = some arg) :
        (orderedMap (c.candidateArgs.map fun e => (e.1, e.2.bound h))).lookup w =
          some (arg.bound h) := by
      have hnodup : ((s.args.map fun e => (e.1, e.2.bound h)).map Prod.fst).Nodup := by
        rw [List.map_map]
        exact hs.nodup
      rw [hargs, lookup_orderedMap hnodup, lookup_map, harg]
      rfl
    refine ⟨rfl, ls, s.value, hls, fun w hw => hs.tokens w (hfills.known w hw), hfills.filled_eq,
      fun w hw => ?_, fun ⟨type, source⟩ hused => ?_⟩
    · obtain ⟨arg, harg⟩ := Option.isSome_iff_exists.mp (hfills.known w hw)
      have hvalue : s.value w = arg.source := by
        rw [Filling.value, harg]
        rfl
      rw [hvalue]
      cases arg with
      | literal value => exact .inl (hlookup harg)
      | entity type source =>
        refine .inr ⟨type, hlookup harg,
          List.mem_filterMap.mpr ⟨(w, .entity type source), ?_, rfl⟩⟩
        rw [hargs]
        exact mem_of_lookup harg
    · obtain ⟨⟨w, arg⟩, hmem, hentity⟩ := List.mem_filterMap.mp hused
      cases arg with
      | literal value => cases hentity
      | entity type' source' =>
        cases hentity
        have harg := lookup_of_mem hs.nodup (hargs ▸ hmem)
        exact ⟨w, hall w (harg ▸ rfl), hlookup harg⟩
  · exact ⟨rfl, plain c.text, id, (printed_plain _).symm, by simp, filled_plain _ _, by simp,
      by simp⟩

/-- The material of a dump, record by record. -/
structure Materials (h : Hashing) (dump : Dump) (material : List Material) (F : Record → Material) :
    Prop where
  eq_map : material = (dumpRecords dump).map F
  free : ∀ record ∈ dumpRecords dump, ¬ reserved <:+: record.text
  record_eq : ∀ record ∈ dumpRecords dump, (F record).toRecord = record
  restores : ∀ record ∈ dumpRecords dump, ∃ ls v, Restores h (F record) ls v

theorem materialRecords_spec {material : List Material}
    (hmaterial : materialRecords h dump = .ok material) : ∃ F, Materials h dump material F := by
  obtain ⟨⟨⟩, hfree, hrest⟩ := bind_eq_ok.mp hmaterial
  obtain ⟨candidates, hcandidates, heq⟩ := bind_eq_ok.mp hrest
  have hfree := ensureNoReservedSyntax_eq_ok.mp hfree
  let F (record : Record) : Material :=
    match candidate record (characterPattern (characterAliases dump)) (characterAliases dump) with
    | .ok c => materialRecord h (qualifiedTemplates candidates) c
    | .error _ => ⟨record, [], [], []⟩
  have hF (record : Record) (hrecord : record ∈ dumpRecords dump) :
      (F record).toRecord = record ∧ ∃ ls v, Restores h (F record) ls v := by
    have hok := isOk_mapM_iff.mp (isOk_iff.mpr ⟨_, hcandidates⟩) record hrecord
    obtain ⟨c, hc⟩ := isOk_iff.mp hok
    have heq : F record = materialRecord h (qualifiedTemplates candidates) c := by
      simp only [F, hc]
    rw [heq]
    exact materialRecord_restores hc (hfree record hrecord)
  refine ⟨F, ?_, hfree, fun record hrecord => (hF record hrecord).1,
    fun record hrecord => (hF record hrecord).2⟩
  cases heq
  exact map_of_mapM hcandidates fun record c hc => by simp only [F, hc]

-- ---------------------------------------------------------------------------
-- Putting the arguments in
-- ---------------------------------------------------------------------------

variable {ls : Holed UInt16} {v : Text → Text} {m : Material} {index : List Entry} {entry : Entry}

theorem custom_placeholders (hls : ∀ w ∈ names ls, w ∈ customPattern.language)
    (hfree : ¬ reserved <:+: filled v ls) : (placeholders (printed ls)).custom = names ls :=
  custom_vocabulary.map_snd_tiling customPattern_plain (fun _ => Iff.rfl)
    (tiling_tiles customPattern_solid _) rfl hls hfree

/-- The entities that the arguments of a record name are in the index. -/
def Resolves (h : Hashing) (index : List Entry) (m : Material) : Prop :=
  ∀ arg ∈ m.usedEntityArgs, ∃ entity, lookupEntry index (entityId h arg.1 arg.2) = some entity ∧
    entity.kind = .entity ∧ entity.source = arg.2

theorem replacementValue_source {id : Text} (hentry : lookupEntry index id = some entry)
    (hkind : entry.kind = .entity) :
    replacementValue index false (.entity id) = .ok entry.source := by
  simp only [replacementValue, hentry, hkind]
  rfl

theorem replacementValue_target {id text : Text} (hentry : lookupEntry index id = some entry)
    (hkind : entry.kind = .entity) (htarget : entry.target = .text text) :
    replacementValue index true (.entity id) = .ok text := by
  simp only [replacementValue, hentry, hkind, htarget]
  rfl

theorem replacePlaceholder_eq {args : List (Text × BindingArg)} {translated : Bool}
    {w : Text} {arg : BindingArg} {value : Text} (harg : args.lookup w = some arg)
    (hvalue : replacementValue index translated arg = .ok value) (text : Text) :
    replacePlaceholder index entry args translated text w =
      .ok (Scan.replaceAll w value text) := by
  rw [replacePlaceholder, harg]
  show replacementValue index translated arg >>= _ = _
  rw [hvalue]
  rfl

/-- The placeholders of a unit are replaced one after the other, and that puts
all the values in. -/
theorem foldlM_replacePlaceholder {args : List (Text × BindingArg)} {translated : Bool}
    {order : List Text} (hls : ∀ w ∈ names ls, w ∈ customPattern.language)
    (hfree : ¬ reserved <:+: filled v ls) (horder : order.Perm (names ls))
    (hvalue : ∀ w ∈ names ls, ∃ arg, args.lookup w = some arg ∧
      replacementValue index translated arg = .ok (v w)) :
    order.foldlM (replacePlaceholder index entry args translated) (printed ls) =
      .ok (filled v ls) := by
  have hstep : ∀ w ∈ order, ∀ text, replacePlaceholder index entry args translated text w =
      .ok (Scan.replaceAll w (v w) text) := by
    intro w hw text
    obtain ⟨arg, harg, hv⟩ := hvalue w (horder.mem_iff.mp hw)
    exact replacePlaceholder_eq harg hv text
  rw [foldlM_of_forall hstep]
  exact congrArg _ (custom_vocabulary.foldl_replaceAll hls hfree
    (fun w hw => hls w (horder.mem_iff.mp hw)) fun w hw => horder.mem_iff.mpr hw)

/-- A binding's unit and arguments give the text back. -/
theorem expandUnit_source (hm : Restores h m ls v) (hfree : ¬ reserved <:+: m.text)
    (hindex : Resolves h index m) (hsource : entry.source = m.unitSource)
    (hcustom : entry.customPlaceholders = (placeholders m.unitSource).custom) :
    expandUnit index entry m.args false = .ok m.text := by
  rw [← hm.text] at hfree ⊢
  rw [hm.unit] at hsource hcustom
  rw [custom_placeholders hm.known hfree] at hcustom
  show entry.customPlaceholders.foldlM _ entry.source = _
  rw [hcustom, hsource]
  refine foldlM_replacePlaceholder hm.known hfree (List.Perm.refl _) fun w hw => ?_
  obtain harg | ⟨type, harg, hused⟩ := hm.args w hw
  · exact ⟨_, harg, rfl⟩
  · obtain ⟨entity, hentity, hkind, hvalue⟩ := hindex _ hused
    exact ⟨_, harg, (replacementValue_source hentity hkind).trans (congrArg _ hvalue)⟩

/-- With the sources for targets a unit is translated to the text. -/
theorem expandUnit_target (hm : Restores h m ls v) (hfree : ¬ reserved <:+: m.text)
    (hindex : Resolves h index m)
    (htargets : ∀ entity ∈ index, entity.target = .text entity.source) (hentry : entry ∈ index)
    (hsource : entry.source = m.unitSource)
    (hcustom : entry.customPlaceholders = (placeholders m.unitSource).custom) :
    expandUnit index entry m.args true = .ok m.text := by
  have hvalidate : validateTargetPlaceholders entry = .ok entry.source := by
    simp only [validateTargetPlaceholders, htargets entry hentry]
    rw [if_neg (not_not.mpr (List.Perm.refl _)), if_neg (not_not.mpr (List.Perm.refl _))]
  rw [← hm.text] at hfree ⊢
  rw [hm.unit] at hsource hcustom
  rw [custom_placeholders hm.known hfree] at hcustom
  show validateTargetPlaceholders entry >>= _ = _
  rw [hvalidate]
  show entry.customPlaceholders.foldlM _ entry.source = _
  rw [hcustom, hsource]
  refine foldlM_replacePlaceholder hm.known hfree (List.Perm.refl _) fun w hw => ?_
  obtain harg | ⟨type, harg, hused⟩ := hm.args w hw
  · exact ⟨_, harg, rfl⟩
  · obtain ⟨entity, hentity, hkind, hvalue⟩ := hindex _ hused
    refine ⟨_, harg, replacementValue_target hentity hkind ?_⟩
    rw [htargets entity (List.mem_of_find?_eq_some hentity), hvalue]

-- ---------------------------------------------------------------------------
-- Ids
-- ---------------------------------------------------------------------------

def hashedStrings (material : List Material) : List Text :=
  material.map (fun m => hashed [m.unitSource]) ++
    (material.flatMap (·.usedEntityArgs)).map fun arg => hashed [units arg.1.name, arg.2]

/-- No two strings that are hashed for the ids of the dump share an id. -/
def Distinct (h : Hashing) (dump : Dump) : Prop :=
  ∀ material, materialRecords h dump = .ok material →
    ∀ a ∈ hashedStrings material, ∀ b ∈ hashedStrings material,
      (h.sha256 a).take 16 = (h.sha256 b).take 16 → a = b

instance (h : Hashing) (dump : Dump) : Decidable (Distinct h dump) :=
  match hmaterial : materialRecords h dump with
  | .error _ => .isTrue fun material heq => by cases hmaterial.symm.trans heq
  | .ok material =>
    decidable_of_iff (∀ a ∈ hashedStrings material, ∀ b ∈ hashedStrings material,
        (h.sha256 a).take 16 = (h.sha256 b).take 16 → a = b)
      ⟨fun hall material' heq => by cases hmaterial.symm.trans heq; exact hall,
        fun hdistinct => hdistinct material hmaterial⟩

variable {material : List Material} {old : List (Text × Entry)}

theorem hashed_entity_injective {type type' : Kind} {source source' : Text}
    (heq : hashed [units type.name, source] = hashed [units type'.name, source']) :
    (type, source) = (type', source') := by
  have hnul (kind : Kind) : 0 ∉ units kind.name := by cases kind <;> decide
  have heq : units type.name ++ 0 :: source = units type'.name ++ 0 :: source' := by
    simpa [hashed, List.intercalate] using heq
  obtain ⟨hname, rfl⟩ := Scan.append_cons_inj (hnul type) (hnul type') heq
  rw [Kind.name_injective hname]

theorem templateId_injOn (hdistinct : Distinct h dump)
    (hmaterial : materialRecords h dump = .ok material) {m m' : Material} (hm : m ∈ material)
    (hm' : m' ∈ material) (heq : templateId h m.unitSource = templateId h m'.unitSource) :
    m.unitSource = m'.unitSource := by
  have hshort := List.append_cancel_left heq
  have hhashed := hdistinct material hmaterial _ (List.mem_append_left _ (List.mem_map_of_mem hm))
    _ (List.mem_append_left _ (List.mem_map_of_mem hm')) hshort
  simpa [hashed, List.intercalate] using hhashed

theorem entityId_injOn (hdistinct : Distinct h dump)
    (hmaterial : materialRecords h dump = .ok material) {arg arg' : Kind × Text}
    (harg : arg ∈ material.flatMap (·.usedEntityArgs))
    (harg' : arg' ∈ material.flatMap (·.usedEntityArgs))
    (heq : entityId h arg.1 arg.2 = entityId h arg'.1 arg'.2) : arg = arg' := by
  have hshort := List.append_cancel_left heq
  exact hashed_entity_injective (hdistinct material hmaterial _
    (List.mem_append_right _ (List.mem_map_of_mem harg)) _
    (List.mem_append_right _ (List.mem_map_of_mem harg')) hshort)

theorem entityId_ne_templateId (type : Kind) (source source' : Text) :
    entityId h type source ≠ templateId h source' := by
  intro heq
  cases (List.cons.inj heq).1

-- ---------------------------------------------------------------------------
-- The entries of a catalog
-- ---------------------------------------------------------------------------

theorem mem_entityEntries {entry : Entry} :
    entry ∈ entityEntries h old material ↔ ∃ arg ∈ material.flatMap (·.usedEntityArgs),
      entry = entityEntry h old arg.1 arg.2
        ((material.flatMap (·.usedEntityArgs)).filter (· == arg)).length := by
  rw [entityEntries, sortBySource, List.mem_insertionSort, List.mem_map]
  constructor
  · rintro ⟨⟨arg, uses⟩, hgroup, rfl⟩
    obtain ⟨⟨arg', harg, rfl⟩, rfl⟩ := mem_groupBy.mp hgroup
    exact ⟨_, harg, rfl⟩
  · rintro ⟨arg, harg, rfl⟩
    exact ⟨(arg, _), mem_groupBy.mpr ⟨⟨arg, harg, rfl⟩, rfl⟩, rfl⟩

theorem mem_textEntries {entry : Entry} :
    entry ∈ textEntries h old material ↔ ∃ m ∈ material, entry = catalogEntry h old m.unitSource
      (material.filter (·.unitSource == m.unitSource)) := by
  rw [textEntries, sortBySource, List.mem_insertionSort, List.mem_map]
  constructor
  · rintro ⟨⟨source, group⟩, hgroup, rfl⟩
    obtain ⟨⟨m, hm, rfl⟩, rfl⟩ := mem_groupBy.mp hgroup
    exact ⟨m, hm, rfl⟩
  · rintro ⟨m, hm, rfl⟩
    exact ⟨(m.unitSource, _), mem_groupBy.mpr ⟨⟨m, hm, rfl⟩, rfl⟩, rfl⟩

theorem textEntry_mem (h : Hashing) (old : List (Text × Entry)) {m : Material}
    (hm : m ∈ material) :
    catalogEntry h old m.unitSource (material.filter (·.unitSource == m.unitSource)) ∈
      catalogEntries h old material :=
  List.mem_append_right _ (mem_textEntries.mpr ⟨m, hm, rfl⟩)

theorem entityEntry_mem (h : Hashing) (old : List (Text × Entry)) {m : Material}
    (hm : m ∈ material) {arg : Kind × Text} (harg : arg ∈ m.usedEntityArgs) :
    entityEntry h old arg.1 arg.2
        ((material.flatMap (·.usedEntityArgs)).filter (· == arg)).length ∈
      catalogEntries h old material :=
  List.mem_append_left _
    (mem_entityEntries.mpr ⟨arg, List.mem_flatMap.mpr ⟨m, hm, harg⟩, rfl⟩)

theorem nodup_ids (hdistinct : Distinct h dump)
    (hmaterial : materialRecords h dump = .ok material) :
    ((catalogEntries h old material).map (·.id)).Nodup := by
  have hentities : ((entityEntries h old material).map (·.id)).Nodup := by
    refine ((List.perm_insertionSort _ _).map _).nodup_iff.mpr ?_
    rw [List.map_map]
    refine nodup_map_groupBy fun arg harg arg' harg' _ _ heq => ?_
    exact entityId_injOn hdistinct hmaterial harg harg' heq
  have htexts : ((textEntries h old material).map (·.id)).Nodup := by
    refine ((List.perm_insertionSort _ _).map _).nodup_iff.mpr ?_
    rw [List.map_map]
    refine nodup_map_groupBy fun m hm m' hm' _ _ heq => ?_
    exact templateId_injOn hdistinct hmaterial hm hm' heq
  rw [catalogEntries, List.map_append, List.nodup_append']
  refine ⟨hentities, htexts, fun id hid hid' => ?_⟩
  obtain ⟨entity, hentity, rfl⟩ := List.mem_map.mp hid
  obtain ⟨text, htext, heq⟩ := List.mem_map.mp hid'
  obtain ⟨arg, -, rfl⟩ := mem_entityEntries.mp hentity
  obtain ⟨m, -, rfl⟩ := mem_textEntries.mp htext
  exact entityId_ne_templateId _ _ _ heq.symm

-- ---------------------------------------------------------------------------
-- The index
-- ---------------------------------------------------------------------------

theorem lookupEntry_of_mem {index : List Entry} (hindex : (index.map (·.id)).Nodup) {entry : Entry}
    (hentry : entry ∈ index) : lookupEntry index entry.id = some entry := by
  induction index with
  | nil => cases hentry
  | cons other index ih =>
    obtain ⟨hother, hindex⟩ := List.nodup_cons.mp hindex
    rw [lookupEntry, List.find?_cons]
    obtain rfl | hentry := List.mem_cons.mp hentry
    · rw [decide_eq_true rfl]
    · have hne : other.id ≠ entry.id := fun heq =>
        hother (List.mem_map.mpr ⟨entry, hentry, heq.symm⟩)
      rw [decide_eq_false hne]
      exact ih hindex hentry

theorem catalogIndex_of_nodup {digest : Text} {entries : List Entry}
    (hentries : (entries.map (·.id)).Nodup) :
    catalogIndex ⟨schemaVersion, digest, entries⟩ = .ok entries := by
  have hnone : (groupBy (·.id) entries).find? (fun group => 1 < group.2.length) = none := by
    refine List.find?_eq_none.mpr fun group hgroup => ?_
    simpa using length_group_le hentries hgroup
  rw [catalogIndex, if_neg (not_not.mpr rfl), hnone]

theorem entriesOf_map (entries : List Entry) : entriesOf (entries.map .entry) = entries := by
  rw [entriesOf, List.filterMap_map]
  exact List.filterMap_some

theorem readCatalog_entries (version : Nat) (digest : Text) (entries : List Entry) :
    readCatalog (.header version digest :: entries.map .entry) =
      .ok ⟨version, digest, entries⟩ := by
  have hparsed : (Line.header version digest :: entries.map Line.entry).contains .malformed =
      false := by simp
  have hlines : (Line.header version digest :: entries.map Line.entry).filter (· ≠ .blank) =
      .header version digest :: entries.map .entry :=
    List.filter_eq_self.mpr (by simp)
  rw [readCatalog, hparsed, hlines]
  simp [entriesOf_map]

theorem map_id_retarget (target : Entry → Target) (entries : List Entry) :
    (entries.map (Entry.retarget target)).map (·.id) = entries.map (·.id) := by
  rw [List.map_map]
  rfl

theorem translate_lines (target : Entry → Target) (version : Nat) (digest : Text)
    (entries : List Entry) :
    translate target (.header version digest :: entries.map .entry) =
      .header version digest :: (entries.map (Entry.retarget target)).map .entry := by
  simp [translate, Line.retarget, Function.comp_def]

theorem readCatalog_translate (target : Entry → Target) (old : List (Text × Entry))
    (material : List Material) :
    readCatalog (translate target (generated h dump old material).catalog) =
      .ok ⟨schemaVersion, dumpDigest h dump,
        (catalogEntries h old material).map (Entry.retarget target)⟩ := by
  rw [generated, translate_lines, readCatalog_entries]

theorem entriesOf_generated (h : Hashing) (dump : Dump) (old : List (Text × Entry))
    (material : List Material) :
    entriesOf (generated h dump old material).catalog = catalogEntries h old material :=
  entriesOf_map _

theorem entriesOf_translate (target : Entry → Target) (catalog : List Line) :
    entriesOf (translate target catalog) = (entriesOf catalog).map (Entry.retarget target) := by
  rw [entriesOf, translate, List.filterMap_map, entriesOf, List.map_filterMap]
  refine congrArg (List.filterMap · catalog) (funext fun line => ?_)
  cases line with
  | entry e => rfl
  | blank | header | malformed => rfl

-- ---------------------------------------------------------------------------
-- The bindings
-- ---------------------------------------------------------------------------

theorem filterMap_runBindings {blocks : List (Text × List Material)}
    (hkey : ∀ block ∈ blocks, ∀ m ∈ block.2, m.category = block.1) :
    ((blocks.map Prod.snd).filter (!·.isEmpty)).filterMap (runBindings h) =
      (blocks.filter (!·.2.isEmpty)).map fun block =>
        (block.1, block.2.map fun m => (m.id, bindingValue h m)) := by
  induction blocks with
  | nil => rfl
  | cons block blocks ih =>
    obtain ⟨hblock, hblocks⟩ := List.forall_mem_cons.mp hkey
    obtain ⟨category, group⟩ := block
    cases group with
    | nil => exact ih hblocks
    | cons m group =>
      have hcategory : m.category = category := hblock m List.mem_cons_self
      rw [List.map_cons, List.filter_cons_of_pos rfl, List.filter_cons_of_pos rfl,
        List.filterMap_cons_some (by rfl), ih hblocks, hcategory]
      rfl

theorem mem_slotRecords {category : Text} {entries : List (Text × Text)} {record : Record} :
    record ∈ slotRecords category entries ↔
      record.category = category ∧ (record.id, record.text) ∈ entries ∧
        isBlank record.text = false := by
  simp only [slotRecords, List.mem_map, List.mem_filter, Bool.not_eq_true']
  constructor
  · rintro ⟨⟨id, text⟩, ⟨hmem, hblank⟩, rfl⟩
    exact ⟨rfl, hmem, hblank⟩
  · rintro ⟨rfl, hmem, hblank⟩
    exact ⟨(record.id, record.text), ⟨hmem, hblank⟩, rfl⟩

theorem mem_dumpRecords {record : Record} :
    record ∈ dumpRecords dump ↔ ∃ entries, (record.category, entries) ∈ dump.categories ∧
      (record.id, record.text) ∈ entries ∧ isBlank record.text = false := by
  simp only [dumpRecords, List.mem_flatMap, mem_slotRecords]
  constructor
  · rintro ⟨⟨category, entries⟩, hmem, rfl, hslot⟩
    exact ⟨entries, hmem, hslot⟩
  · rintro ⟨entries, hmem, hslot⟩
    exact ⟨(record.category, entries), hmem, rfl, hslot⟩

theorem nodup_ids_slotRecords {category : Text} {entries : List (Text × Text)}
    (hentries : (entries.map Prod.fst).Nodup) :
    ((slotRecords category entries).map (·.id)).Nodup := by
  rw [slotRecords, List.map_map]
  exact hentries.sublist (List.filter_sublist.map _)

/-- The material of the dump, category by category. -/
def blocks (dump : Dump) (F : Record → Material) : List (Text × List Material) :=
  dump.categories.map fun category => (category.1, (slotRecords category.1 category.2).map F)

theorem Materials.eq_blocks {F : Record → Material} (hF : Materials h dump material F) :
    material = (blocks dump F).flatMap Prod.snd := by
  rw [hF.eq_map, dumpRecords, blocks, List.map_flatMap, List.flatMap_map]

theorem Materials.block_key {F : Record → Material} (hF : Materials h dump material F) :
    ∀ block ∈ blocks dump F, ∀ m ∈ block.2, m.category = block.1 := by
  intro block hblock m hm
  obtain ⟨category, hcategory, rfl⟩ := List.mem_map.mp hblock
  obtain ⟨record, hrecord, rfl⟩ := List.mem_map.mp hm
  have hmem : record ∈ dumpRecords dump := List.mem_flatMap.mpr ⟨category, hcategory, hrecord⟩
  rw [hF.record_eq record hmem]
  exact (mem_slotRecords.mp hrecord).1

/-- The binding of a slot that is not blank is found under its category and id. -/
theorem slotBinding_eq {F : Record → Material} (hF : Materials h dump material F) (digest : Text)
    {record : Record} (hrecord : record ∈ dumpRecords dump) :
    slotBinding (writtenBindings h material digest) record.category record.id =
      some (bindingValue h (F record)) := by
  have hnodup : ((blocks dump F).map Prod.fst).Nodup := by
    rw [blocks, List.map_map]
    exact dump.nodup
  obtain ⟨category, hcategory, hslot⟩ := List.mem_flatMap.mp hrecord
  have hrecord_eq := hF.record_eq record hrecord
  have hmem : F record ∈ (slotRecords category.1 category.2).map F := List.mem_map_of_mem hslot
  have hblock : (category.1, (slotRecords category.1 category.2).map F) ∈
      (blocks dump F).filter (!·.2.isEmpty) := by
    refine List.mem_filter.mpr ⟨List.mem_map_of_mem hcategory, ?_⟩
    simpa using List.ne_nil_of_mem hmem
  have hcategories : (writtenBindings h material digest).bindings.lookup record.category =
      some (((slotRecords category.1 category.2).map F).map fun m => (m.id, bindingValue h m)) := by
    rw [(mem_slotRecords.mp hslot).1, writtenBindings, hF.eq_blocks,
      partitionBy_blocks hnodup hF.block_key, filterMap_runBindings hF.block_key]
    refine lookup_of_mem ?_ (List.mem_map_of_mem hblock)
    rw [List.map_map]
    exact hnodup.sublist (List.filter_sublist.map _)
  have hids : ((((slotRecords category.1 category.2).map F).map fun m =>
      (m.id, bindingValue h m)).map Prod.fst).Nodup := by
    have hsame : (((slotRecords category.1 category.2).map F).map fun m =>
        (m.id, bindingValue h m)).map Prod.fst =
          (slotRecords category.1 category.2).map (·.id) := by
      rw [List.map_map, List.map_map]
      refine List.map_congr_left fun other hother => ?_
      have hother := hF.record_eq other (List.mem_flatMap.mpr ⟨category, hcategory, hother⟩)
      exact congrArg Record.id hother
    rw [hsame]
    exact nodup_ids_slotRecords (dump.slots_nodup category hcategory)
  rw [slotBinding, hcategories]
  refine lookup_of_mem hids (List.mem_map.mpr ⟨F record, hmem, ?_⟩)
  rw [hrecord_eq]

-- ---------------------------------------------------------------------------
-- Checking and applying
-- ---------------------------------------------------------------------------

/-- A generated catalog, with whatever targets, and its bindings. -/
structure Indexed (h : Hashing) (dump : Dump) (material : List Material) (F : Record → Material)
    (old : List (Text × Entry)) (target : Entry → Target) (index : List Entry) : Prop where
  materials : Materials h dump material F
  index_eq : index = (catalogEntries h old material).map (Entry.retarget target)
  nodup : (index.map (·.id)).Nodup

variable {F : Record → Material} {target : Entry → Target} {record : Record}

theorem Indexed.mem_material (hi : Indexed h dump material F old target index)
    (hrecord : record ∈ dumpRecords dump) : F record ∈ material :=
  hi.materials.eq_map ▸ List.mem_map_of_mem hrecord

theorem Indexed.lookup (hi : Indexed h dump material F old target index) {entry : Entry}
    (hentry : entry ∈ catalogEntries h old material) :
    lookupEntry index entry.id = some (entry.retarget target) := by
  have hmem : entry.retarget target ∈ index := hi.index_eq ▸ List.mem_map_of_mem hentry
  exact lookupEntry_of_mem hi.nodup hmem

/-- The unit of a record is in the index. -/
theorem Indexed.unit (hi : Indexed h dump material F old target index)
    (hrecord : record ∈ dumpRecords dump) :
    ∃ entry, lookupEntry index (templateId h (F record).unitSource) = some entry ∧
      entry ∈ index ∧ entry.source = (F record).unitSource ∧
      entry.customPlaceholders = (placeholders (F record).unitSource).custom := by
  have hlookup := hi.lookup (textEntry_mem h old (hi.mem_material hrecord))
  exact ⟨_, hlookup, List.mem_of_find?_eq_some hlookup, rfl, rfl⟩

theorem Indexed.resolves (hi : Indexed h dump material F old target index)
    (hrecord : record ∈ dumpRecords dump) : Resolves h index (F record) := by
  intro arg harg
  exact ⟨_, hi.lookup (entityEntry_mem h old (hi.mem_material hrecord) harg), rfl, rfl⟩

theorem Indexed.validateSlot (hi : Indexed h dump material F old target index) (digest : Text)
    (hrecord : record ∈ dumpRecords dump) :
    validateSlot (writtenBindings h material digest) index record = .ok () := by
  obtain ⟨entry, hlookup, -, hsource, hcustom⟩ := hi.unit hrecord
  obtain ⟨ls, v, hrestores⟩ := hi.materials.restores record hrecord
  have htext : (F record).text = record.text :=
    congrArg Record.text (hi.materials.record_eq record hrecord)
  have hfree : ¬ reserved <:+: (F record).text := htext ▸ hi.materials.free record hrecord
  have hrebuilt := expandUnit_source hrestores hfree (hi.resolves hrecord) hsource hcustom
  rw [htext] at hrebuilt
  simp only [Templates.validateSlot, slotBinding_eq hi.materials digest hrecord, bindingValue,
    hlookup, hrebuilt]
  exact if_neg (not_not.mpr rfl)

theorem Indexed.validateSource (hi : Indexed h dump material F old target index) :
    validateSource h dump (writtenBindings h material (dumpDigest h dump)) index = .ok () := by
  have hdigest : ¬ (writtenBindings h material (dumpDigest h dump)).sourceDigest ≠
      dumpDigest h dump := not_not.mpr rfl
  rw [Templates.validateSource, if_neg hdigest]
  exact forM_of_forall fun record hrecord => hi.validateSlot _ hrecord

theorem Indexed.applySlot (hi : Indexed h dump material F old (fun e => .text e.source) index)
    (digest : Text) {category id text : Text} {entries : List (Text × Text)}
    (hcategory : (category, entries) ∈ dump.categories) (hslot : (id, text) ∈ entries) :
    applySlot (writtenBindings h material digest) index category id text = .ok text := by
  rw [Templates.applySlot]
  cases hblank : isBlank text with
  | true => rfl
  | false =>
    have hrecord : ⟨category, id, text⟩ ∈ dumpRecords dump :=
      mem_dumpRecords.mpr ⟨entries, hcategory, hslot, hblank⟩
    obtain ⟨entry, hlookup, hentry, hsource, hcustom⟩ := hi.unit hrecord
    obtain ⟨ls, v, hrestores⟩ := hi.materials.restores _ hrecord
    have htext : (F ⟨category, id, text⟩).text = text :=
      congrArg Record.text (hi.materials.record_eq _ hrecord)
    have hfree : ¬ reserved <:+: (F ⟨category, id, text⟩).text :=
      htext.symm ▸ hi.materials.free _ hrecord
    have htargets : ∀ entity ∈ index, entity.target = .text entity.source := by
      intro entity hentity
      rw [hi.index_eq] at hentity
      obtain ⟨e, -, rfl⟩ := List.mem_map.mp hentity
      rfl
    have htranslated :=
      expandUnit_target hrestores hfree (hi.resolves hrecord) htargets hentry hsource hcustom
    rw [htext] at htranslated
    have hbinding := slotBinding_eq hi.materials digest hrecord
    rw [if_neg Bool.false_ne_true, hbinding]
    simp only [bindingValue, hlookup]
    exact htranslated

theorem Indexed.applyCategory (hi : Indexed h dump material F old (fun e => .text e.source) index)
    (digest : Text) {category : Text × List (Text × Text)}
    (hcategory : category ∈ dump.categories) :
    applyCategory (writtenBindings h material digest) index category =
      .ok (category.1, orderedMap category.2) := by
  have hslots : (category.2.mapM fun entry => do
      let text ← Templates.applySlot (writtenBindings h material digest) index category.1
        entry.1 entry.2
      return (entry.1, text) : Except Failure _) = .ok (category.2.map id) := by
    refine mapM_of_forall fun slot hslot => ?_
    show (Templates.applySlot _ index category.1 slot.1 slot.2 >>= _) = _
    rw [hi.applySlot digest hcategory hslot]
    rfl
  rw [List.map_id] at hslots
  rw [Templates.applyCategory, hslots]
  rfl

theorem generate_eq_ok {catalog : Option (List Line)} {g : Generated} :
    generate h dump catalog = .ok g ↔ ∃ material old, materialRecords h dump = .ok material ∧
      oldTargets catalog = .ok old ∧ g = generated h dump old material := by
  simp only [generate, bind_eq_ok, exists_and_left]
  refine exists_congr fun material => and_congr_right fun _ => exists_congr fun old =>
    and_congr_right fun _ => ?_
  exact ⟨fun heq => by cases heq; rfl, fun heq => by rw [heq]; rfl⟩

theorem indexed (hdistinct : Distinct h dump) (hmaterial : materialRecords h dump = .ok material)
    (old : List (Text × Entry)) (target : Entry → Target) :
    ∃ F, Indexed h dump material F old target
      ((catalogEntries h old material).map (Entry.retarget target)) := by
  obtain ⟨F, hF⟩ := materialRecords_spec hmaterial
  refine ⟨F, hF, rfl, ?_⟩
  rw [map_id_retarget]
  exact nodup_ids hdistinct hmaterial

/-- Whatever the targets are, the bindings rebuild the dump. -/
theorem check_generated (hdistinct : Distinct h dump)
    (hmaterial : materialRecords h dump = .ok material) (old : List (Text × Entry))
    (target : Entry → Target) :
    check h dump (translate target (generated h dump old material).catalog)
        (generated h dump old material).bindings =
      .ok ⟨material.length, (catalogEntries h old material).length,
        (catalogEntries h old material).length -
          ((catalogEntries h old material).map (Entry.retarget target)).countP (·.target = .null),
        ((catalogEntries h old material).map (Entry.retarget target)).countP
        (·.target = .null)⟩ := by
  obtain ⟨F, hi⟩ := indexed hdistinct hmaterial old target
  rw [check, readCatalog_translate]
  show (catalogIndex _ >>= _) = _
  rw [catalogIndex_of_nodup hi.nodup]
  show (validateSource h dump (writtenBindings h material (dumpDigest h dump)) _ >>= _) = _
  rw [hi.validateSource]
  simp only [List.length_map]
  rfl

/-- With its sources for targets a generated catalog is applied to the dump. -/
theorem apply_generated (hdistinct : Distinct h dump)
    (hmaterial : materialRecords h dump = .ok material) (old : List (Text × Entry)) :
    apply h dump
      (translate (fun entry => .text entry.source) (generated h dump old material).catalog)
        (generated h dump old material).bindings =
      .ok ⟨canonicalDump dump.categories, material.length, dumpDigest h dump⟩ := by
  obtain ⟨F, hi⟩ := indexed hdistinct hmaterial old fun entry => .text entry.source
  have hcategories : dump.categories.mapM (Templates.applyCategory
      (writtenBindings h material (dumpDigest h dump))
      ((catalogEntries h old material).map (Entry.retarget fun entry => .text entry.source))) =
      .ok (dump.categories.map fun category => (category.1, orderedMap category.2)) :=
    mapM_of_forall fun category hcategory => hi.applyCategory _ hcategory
  rw [apply, readCatalog_translate]
  show (catalogIndex _ >>= _) = _
  rw [catalogIndex_of_nodup hi.nodup]
  show (validateSource h dump (writtenBindings h material (dumpDigest h dump)) _ >>= _) = _
  rw [hi.validateSource]
  show (dump.categories.mapM (Templates.applyCategory
    (writtenBindings h material (dumpDigest h dump)) _) >>= _) = _
  rw [hcategories]
  rfl

theorem fillTargetsWithSource_generated (h : Hashing) (dump : Dump) (old : List (Text × Entry))
    (material : List Material) :
    fillTargetsWithSource (generated h dump old material).catalog =
      .ok
        (translate (fun entry => .text entry.source) (generated h dump old material).catalog) := by
  rw [fillTargetsWithSource, generated, readCatalog_entries, translate_lines, List.map_map]
  rfl

/-- What is not pending is translated. -/
theorem translated_eq (target : Entry → Target) (entries : List Entry) :
    entries.length - (entries.map (Entry.retarget target)).countP (·.target = .null) =
      (entries.map (Entry.retarget target)).countP (·.target ≠ .null) := by
  have hall := List.length_eq_countP_add_countP (fun entry : Entry => decide (entry.target = .null))
    (l := entries.map (Entry.retarget target))
  rw [List.length_map] at hall
  refine Nat.sub_eq_of_eq_add' (hall.trans ?_)
  simp

/-- Generating loses nothing. Whatever is made of the targets of the catalog,
the check passes and counts its units; with the sources for targets what is
applied is the dump, in the order of its keys. -/
theorem generate_lossless (h : Hashing) (dump : Dump) (catalog : Option (List Line))
    (g : Generated) (hdistinct : Distinct h dump) (hg : generate h dump catalog = .ok g) :
    (∀ target, ∃ checked, check h dump (translate target g.catalog) g.bindings = .ok checked ∧
        checked.slots = (dumpRecords dump).length ∧ checked.units = g.units + g.entities ∧
        checked.pending = (entriesOf (translate target g.catalog)).countP (·.target = .null) ∧
        checked.translated =
          (entriesOf (translate target g.catalog)).countP (·.target ≠ .null)) ∧
      ∃ filled applied, fillTargetsWithSource g.catalog = .ok filled ∧
        apply h dump filled g.bindings = .ok applied ∧
        applied.output = canonicalDump dump.categories := by
  obtain ⟨material, old, hmaterial, -, rfl⟩ := generate_eq_ok.mp hg
  obtain ⟨F, hF⟩ := materialRecords_spec hmaterial
  refine ⟨fun target => ⟨_, check_generated hdistinct hmaterial _ target, ?_, ?_, ?_, ?_⟩, _, _,
    fillTargetsWithSource_generated h dump _ material, apply_generated hdistinct hmaterial _, rfl⟩
  · show material.length = _
    rw [hF.eq_map, List.length_map]
  · show (catalogEntries h _ material).length = _
    rw [catalogEntries, List.length_append, Nat.add_comm]
    rfl
  · rw [entriesOf_translate, entriesOf_generated]
  · rw [entriesOf_translate, entriesOf_generated]
    exact translated_eq target (catalogEntries h old material)

-- ---------------------------------------------------------------------------
-- A dump of two idols
-- ---------------------------------------------------------------------------

/-- The digests of the texts that are hashed for the dump below. -/
def sampleDigests : List (Text × String) :=
  [(units "\x7b\"mlCharacterText_FirstName\":\x7b\"1\":\"真乃\",\"2\":\"灯織\"\x7d," ++
        units "\"mlSkill\":\x7b\"1\":\"真乃がSSR\",\"2\":\"灯織がSR\"\x7d\x7d",
      "62b7dd5eabed10d752c9eeababb1fb75b7c64e002efe8eb2b7ef6fcd51e0e31f"),
    (units "character\x00真乃", "9ab318ba134d0b3c63fec90c1e81eee18e3bd787b717015aa5253bcd44a14851"),
    (units "character\x00灯織", "dcdcf7e52d6a904135fed26bbc2e6fb302746c3b67225691b160448a38e257e1"),
    (units "\x7b\x7bsst:character:0\x7d\x7d",
      "f53ce1cd416051f3d21b5592ca8dcfdba8bc9f9efa99bcfcfda5d35931188b45"),
    (units "\x7b\x7bsst:character:0\x7d\x7dが\x7b\x7bsst:rarity:0\x7d\x7d",
      "d887008f3162805a6dfbdaa7e654c1c62e686201183aa9f9f7ed514714f08b68")]

/-- A JSON object of entries that need no escapes. -/
def jsonObject (entries : List (Text × Text)) : Text :=
  units "\x7b" ++ List.intercalate (units ",") (entries.map fun (key, value) =>
    units "\"" ++ key ++ units "\":" ++ value) ++ units "\x7d"

def sampleHashing : Hashing where
  sha256 text := units ((sampleDigests.lookup text).getD "")
  generateString dump := jsonObject (dump.map fun (category, entries) =>
    (category, jsonObject (entries.map fun (id, text) => (id, units "\"" ++ text ++ units "\""))))

def sampleDump : Dump where
  categories :=
    [(units "mlCharacterText_FirstName", [(units "1", units "真乃"), (units "2", units "灯織")]),
      (units "mlSkill", [(units "1", units "真乃がSSR"), (units "2", units "灯織がSR")])]
  nodup := by decide
  slots_nodup := by decide

theorem sampleDump_distinct : Distinct sampleHashing sampleDump := by decide +kernel

theorem generate_lossless_sample :
    ∃ g, generate sampleHashing sampleDump none = .ok g ∧
      (∀ target, ∃ checked,
        check sampleHashing sampleDump (translate target g.catalog) g.bindings = .ok checked ∧
          checked.slots = 4 ∧ checked.units = g.units + g.entities ∧
          checked.pending = (entriesOf (translate target g.catalog)).countP (·.target = .null) ∧
          checked.translated =
            (entriesOf (translate target g.catalog)).countP (·.target ≠ .null)) ∧
      ∃ filled applied, fillTargetsWithSource g.catalog = .ok filled ∧
        apply sampleHashing sampleDump filled g.bindings = .ok applied ∧
        applied.output = canonicalDump sampleDump.categories := by
  have hok : (generate sampleHashing sampleDump none).isOk := by decide +kernel
  obtain ⟨g, hg⟩ := isOk_iff.mp hok
  exact ⟨g, hg, generate_lossless _ _ none g sampleDump_distinct hg⟩

end ShinySongTools.Templates
