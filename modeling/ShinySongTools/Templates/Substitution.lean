import ShinySongTools.Templates.Regeneration

/-!
# Translating a dump

When a translated catalog is applied, and to what: every target has its
placeholders replaced by the arguments of the slot, all at once.
-/

namespace ShinySongTools.Templates

open Regex Holed Keyed Fallible

-- ---------------------------------------------------------------------------
-- What a translation is meant to be
-- ---------------------------------------------------------------------------

def holes (text : Text) : Holed UInt16 :=
  ofPieces (customPattern.tiles text).1 (customPattern.tiles text).2

def substitute (v : Text → Text) (text : Text) : Text := filled v (holes text)

/-- A translator has moved placeholders, and neither lost nor added one. -/
structure KeepsPlaceholders (source target : Text) : Prop where
  original : (placeholders source).original.Perm (placeholders target).original
  custom : (placeholders source).custom.Perm (placeholders target).custom

/-- The entry has a text for a target, and a unit has its placeholders in it. -/
def Entry.Translated (entry : Entry) : Prop :=
  ∃ text, entry.target = .text text ∧
    (entry.kind ≠ .entity → KeepsPlaceholders entry.source text)

def argumentText (index : List Entry) (args : List (Text × BindingArg)) (w : Text) : Text :=
  match args.lookup w with
  | none => []
  | some arg => (replacementValue index true arg).toOption.getD []

def slotText (bindings : Bindings) (index : List Entry) (category id source : Text) : Text :=
  if isBlank source then source
  else
    match slotBinding bindings category id with
    | none => source
    | some binding =>
      match (lookupEntry index binding.unit).map Entry.target with
      | some (.text target) => substitute (argumentText index binding.args) target
      | _ => source

variable {h : Hashing} {dump : Dump} {material : List Material} {F : Record → Material}
  {old : List (Text × Entry)} {target : Entry → Target} {index : List Entry} {record : Record}
  {entry : Entry} {ls : Holed UInt16} {v : Text → Text} {m : Material}

theorem printed_holes (text : Text) : printed (holes text) = text := by
  rw [holes, printed_ofPieces]
  exact (tiles_spec customPattern text).1

theorem names_holes (text : Text) : names (holes text) = (placeholders text).custom :=
  names_ofPieces _ _

theorem names_holes_known (text : Text) : ∀ w ∈ names (holes text), w ∈ customPattern.language := by
  intro w hw
  rw [holes, names_ofPieces] at hw
  obtain ⟨piece, hpiece, rfl⟩ := List.mem_map.mp hw
  exact (tiles_spec customPattern text).2 piece hpiece

theorem argumentText_eq {args : List (Text × BindingArg)} {w value : Text} {arg : BindingArg}
    (harg : args.lookup w = some arg) (hvalue : replacementValue index true arg = .ok value) :
    argumentText index args w = value := by
  simp only [argumentText, harg, hvalue]
  rfl

-- ---------------------------------------------------------------------------
-- Targets
-- ---------------------------------------------------------------------------

theorem isOk_replacementValue_iff {id : Text} (hentry : lookupEntry index id = some entry)
    (hkind : entry.kind = .entity) :
    (replacementValue index true (.entity id)).isOk ↔ ∃ text, entry.target = .text text := by
  simp only [replacementValue, hentry, hkind]
  cases htarget : entry.target with
  | null => exact iff_of_false Bool.false_ne_true (by rintro ⟨_, h⟩; cases h)
  | text text => exact iff_of_true rfl ⟨text, rfl⟩
  | other json => exact iff_of_false Bool.false_ne_true (by rintro ⟨_, h⟩; cases h)

theorem validateTargetPlaceholders_eq_ok {text : Text} :
    validateTargetPlaceholders entry = .ok text ↔
      entry.target = .text text ∧ KeepsPlaceholders entry.source text := by
  rw [validateTargetPlaceholders]
  split
  next htarget =>
    exact iff_of_false (by rintro ⟨⟩) fun h => by cases htarget.symm.trans h.1
  next htarget =>
    exact iff_of_false (by rintro ⟨⟩) fun h => by cases htarget.symm.trans h.1
  next target htarget =>
    rw [htarget, Target.text.injEq]
    dsimp only
    split
    next hperm => exact iff_of_false (by rintro ⟨⟩) fun h => hperm (h.1 ▸ h.2.original)
    next horiginal =>
      split
      next hperm => exact iff_of_false (by rintro ⟨⟩) fun h => hperm (h.1 ▸ h.2.custom)
      next hcustom =>
        rw [Except.ok.injEq]
        refine ⟨fun heq => ⟨heq, ?_⟩, And.left⟩
        exact heq ▸ ⟨not_not.mp horiginal, not_not.mp hcustom⟩

theorem isOk_replacePlaceholder_iff {args : List (Text × BindingArg)} {translated : Bool}
    (text w : Text) : (replacePlaceholder index entry args translated text w).isOk ↔
      ∃ arg, args.lookup w = some arg ∧ (replacementValue index translated arg).isOk := by
  rw [replacePlaceholder]
  cases args.lookup w with
  | none => exact iff_of_false Bool.false_ne_true (by rintro ⟨_, h, _⟩; cases h)
  | some arg =>
    refine isOk_bind_iff.trans ?_
    simp only [Option.some.injEq, exists_eq_left', isOk_iff (x := replacementValue _ _ _)]
    exact exists_congr fun value => and_iff_left rfl

/-- All values of a record's arguments are there when its entities have a target. -/
theorem arguments_isOk_iff (hm : Restores h m ls v) (hindex : Resolves h index m) :
    (∀ w ∈ names ls, ∃ arg, m.args.lookup w = some arg ∧ (replacementValue index true arg).isOk) ↔
      ∀ arg ∈ m.usedEntityArgs, ∃ entity,
        lookupEntry index (entityId h arg.1 arg.2) = some entity ∧
          ∃ text, entity.target = .text text := by
  constructor
  · intro hall arg harg
    obtain ⟨entity, hentity, hkind, -⟩ := hindex arg harg
    obtain ⟨w, hw, hlookup⟩ := hm.used arg harg
    obtain ⟨arg', hlookup', hok⟩ := hall w hw
    cases hlookup.symm.trans hlookup'
    exact ⟨entity, hentity, (isOk_replacementValue_iff hentity hkind).mp hok⟩
  · intro hall w hw
    obtain harg | ⟨type, harg, hused⟩ := hm.args w hw
    · exact ⟨_, harg, rfl⟩
    · obtain ⟨entity, hentity, hkind, -⟩ := hindex _ hused
      obtain ⟨entity', hentity', htarget⟩ := hall _ hused
      cases hentity.symm.trans hentity'
      exact ⟨_, harg, (isOk_replacementValue_iff hentity hkind).mpr htarget⟩

theorem expandUnit_isOk_iff (hm : Restores h m ls v) (hfree : ¬ reserved <:+: m.text)
    (hindex : Resolves h index m)
    (hcustom : entry.customPlaceholders = (placeholders m.unitSource).custom) :
    (expandUnit index entry m.args true).isOk ↔
      (∃ text, entry.target = .text text ∧ KeepsPlaceholders entry.source text) ∧
        ∀ arg ∈ m.usedEntityArgs, ∃ entity,
          lookupEntry index (entityId h arg.1 arg.2) = some entity ∧
            ∃ text, entity.target = .text text := by
  rw [← hm.text] at hfree
  rw [hm.unit, custom_placeholders hm.known hfree] at hcustom
  have hfold (text : Text) :
      (entry.customPlaceholders.foldlM
        (replacePlaceholder index entry m.args true) text).isOk ↔ _ :=
    (isOk_foldlM_iff isOk_replacePlaceholder_iff _ text).trans
      (hcustom.symm ▸ arguments_isOk_iff hm hindex)
  refine Iff.trans (isOk_bind_iff (x := validateTargetPlaceholders entry)) ?_
  simp only [hfold, validateTargetPlaceholders_eq_ok, exists_and_right]

theorem expandUnit_eq (hm : Restores h m ls v) (hfree : ¬ reserved <:+: m.text)
    (hindex : Resolves h index m) (hsource : entry.source = m.unitSource)
    (hcustom : entry.customPlaceholders = (placeholders m.unitSource).custom)
    (hok : (expandUnit index entry m.args true).isOk) {text : Text}
    (htarget : entry.target = .text text)
    (hclear : ¬ reserved <:+: substitute (argumentText index m.args) text) :
    expandUnit index entry m.args true = .ok (substitute (argumentText index m.args) text) := by
  obtain ⟨⟨text', htext, hkeeps⟩, hentities⟩ :=
    (expandUnit_isOk_iff hm hfree hindex hcustom).mp hok
  obtain rfl : text = text' := Target.text.inj (htarget.symm.trans htext)
  have hvalues := (arguments_isOk_iff hm hindex).mpr hentities
  rw [← hm.text] at hfree
  have hnames : (placeholders m.unitSource).custom = names ls := by
    rw [hm.unit, custom_placeholders hm.known hfree]
  have hperm : (names ls).Perm (names (holes text)) := by
    rw [names_holes, ← hnames, ← hsource]
    exact hkeeps.custom
  have hvalidate := validateTargetPlaceholders_eq_ok.mpr ⟨htarget, hkeeps⟩
  show validateTargetPlaceholders entry >>= _ = _
  rw [hvalidate, hcustom, hnames]
  show (names ls).foldlM _ text = _
  nth_rewrite 1 [← printed_holes text]
  refine foldlM_replacePlaceholder (names_holes_known text) hclear hperm fun w hw => ?_
  obtain ⟨arg, harg, hvalue⟩ := hvalues w (hperm.mem_iff.mpr hw)
  obtain ⟨value, hvalue⟩ := isOk_iff.mp hvalue
  exact ⟨arg, harg, hvalue.trans (congrArg _ (argumentText_eq harg hvalue).symm)⟩

-- ---------------------------------------------------------------------------
-- Applying
-- ---------------------------------------------------------------------------

theorem Indexed.applySlot_eq (hi : Indexed h dump material F old target index) (digest : Text)
    (hrecord : record ∈ dumpRecords dump) :
    ∃ entry, lookupEntry index (templateId h (F record).unitSource) = some entry ∧
      Templates.applySlot (writtenBindings h material digest) index record.category record.id
          record.text = expandUnit index entry (F record).args true := by
  obtain ⟨entry, hlookup, -⟩ := hi.unit hrecord
  obtain ⟨-, -, -, hblank⟩ := mem_dumpRecords.mp hrecord
  refine ⟨entry, hlookup, ?_⟩
  have hbinding := slotBinding_eq hi.materials digest hrecord
  rw [Templates.applySlot, hblank, if_neg Bool.false_ne_true, hbinding]
  simp only [bindingValue, hlookup]

/-- A slot is translated when its unit and the entities in it are. -/
theorem Indexed.isOk_applySlot_iff (hi : Indexed h dump material F old target index)
    (digest : Text) {record : Record} (hrecord : record ∈ dumpRecords dump) :
    (Templates.applySlot (writtenBindings h material digest) index record.category record.id
        record.text).isOk ↔
      (∃ entry, lookupEntry index (templateId h (F record).unitSource) = some entry ∧
        ∃ text, entry.target = .text text ∧ KeepsPlaceholders entry.source text) ∧
      ∀ arg ∈ (F record).usedEntityArgs, ∃ entity,
        lookupEntry index (entityId h arg.1 arg.2) = some entity ∧
          ∃ text, entity.target = .text text := by
  obtain ⟨entry, hlookup, heq⟩ := hi.applySlot_eq digest hrecord
  obtain ⟨entry', hlookup', -, -, hcustom⟩ := hi.unit hrecord
  cases hlookup.symm.trans hlookup'
  obtain ⟨ls, v, hrestores⟩ := hi.materials.restores record hrecord
  have hfree : ¬ reserved <:+: (F record).text := by
    rw [hi.materials.record_eq record hrecord]
    exact hi.materials.free record hrecord
  rw [heq, expandUnit_isOk_iff hrestores hfree (hi.resolves hrecord) hcustom]
  simp only [hlookup, Option.some.injEq, exists_eq_left']

theorem Indexed.applySlot_substitutes (hi : Indexed h dump material F old target index)
    (digest : Text) {record : Record} (hrecord : record ∈ dumpRecords dump)
    (hok : (Templates.applySlot (writtenBindings h material digest) index record.category record.id
      record.text).isOk)
    (hclear : ¬ reserved <:+: slotText (writtenBindings h material digest) index record.category
      record.id record.text) :
    Templates.applySlot (writtenBindings h material digest) index record.category record.id
        record.text =
      .ok (slotText (writtenBindings h material digest) index record.category record.id
        record.text) := by
  obtain ⟨entry, hlookup, heq⟩ := hi.applySlot_eq digest hrecord
  obtain ⟨⟨entry', hlookup', text, htarget, -⟩, -⟩ := (hi.isOk_applySlot_iff digest hrecord).mp hok
  cases hlookup.symm.trans hlookup'
  obtain ⟨entry', hlookup', -, hsource, hcustom⟩ := hi.unit hrecord
  cases hlookup.symm.trans hlookup'
  obtain ⟨ls, v, hrestores⟩ := hi.materials.restores record hrecord
  have hfree : ¬ reserved <:+: (F record).text := by
    rw [hi.materials.record_eq record hrecord]
    exact hi.materials.free record hrecord
  have hblank : isBlank record.text = false := by
    obtain ⟨-, -, -, hblank⟩ := mem_dumpRecords.mp hrecord
    exact hblank
  have hslot : slotText (writtenBindings h material digest) index record.category record.id
      record.text = substitute (argumentText index (F record).args) text := by
    have hbinding := slotBinding_eq hi.materials digest hrecord
    simp only [slotText, hblank, hbinding, bindingValue, hlookup, Option.map_some, htarget]
    rfl
  rw [heq] at hok ⊢
  rw [hslot] at hclear ⊢
  exact expandUnit_eq hrestores hfree (hi.resolves hrecord) hsource hcustom hok htarget hclear

theorem catalogEntry_kind_ne (h : Hashing) (old : List (Text × Entry)) (source : Text)
    (records : List Material) : (catalogEntry h old source records).kind ≠ .entity := by
  rw [catalogEntry]
  dsimp only
  split
  · rintro ⟨⟩
  · rintro ⟨⟩

/-- Every unit is some slot's, and every entity is in some slot's unit. -/
theorem Indexed.isOk_slots_iff (hi : Indexed h dump material F old target index) (digest : Text) :
    (∀ record ∈ dumpRecords dump, (Templates.applySlot (writtenBindings h material digest) index
        record.category record.id record.text).isOk) ↔ ∀ entry ∈ index, entry.Translated := by
  have hmem {e : Entry} (he : e ∈ catalogEntries h old material) : e.retarget target ∈ index :=
    List.mem_of_find?_eq_some (hi.lookup he)
  constructor
  · intro hall entry hentry
    rw [hi.index_eq] at hentry
    obtain ⟨e, he, rfl⟩ := List.mem_map.mp hentry
    have hlookup := hi.lookup he
    obtain he | he := List.mem_append.mp he
    · obtain ⟨arg, harg, rfl⟩ := mem_entityEntries.mp he
      obtain ⟨m, hm, harg⟩ := List.mem_flatMap.mp harg
      rw [hi.materials.eq_map] at hm
      obtain ⟨record, hrecord, rfl⟩ := List.mem_map.mp hm
      obtain ⟨-, hentities⟩ := (hi.isOk_applySlot_iff digest hrecord).mp (hall record hrecord)
      obtain ⟨entity, hentity, text, htext⟩ := hentities arg harg
      cases hlookup.symm.trans hentity
      exact ⟨text, htext, fun hkind => absurd rfl hkind⟩
    · obtain ⟨m, hm, rfl⟩ := mem_textEntries.mp he
      rw [hi.materials.eq_map] at hm
      obtain ⟨record, hrecord, heq⟩ := List.mem_map.mp hm
      obtain ⟨⟨unit, hunit, text, htext, hkeeps⟩, -⟩ :=
        (hi.isOk_applySlot_iff digest hrecord).mp (hall record hrecord)
      rw [heq] at hunit
      cases hlookup.symm.trans hunit
      exact ⟨text, htext, fun _ => hkeeps⟩
  · intro hall record hrecord
    refine (hi.isOk_applySlot_iff digest hrecord).mpr ⟨?_, fun arg harg => ?_⟩
    · have he := textEntry_mem h old (hi.mem_material hrecord)
      obtain ⟨text, htext, hkeeps⟩ := hall _ (hmem he)
      have hkind := catalogEntry_kind_ne h old (F record).unitSource
        (material.filter (·.unitSource == (F record).unitSource))
      exact ⟨_, hi.lookup he, text, htext, hkeeps hkind⟩
    · have he := entityEntry_mem h old (hi.mem_material hrecord) harg
      obtain ⟨text, htext, -⟩ := hall _ (hmem he)
      exact ⟨_, hi.lookup he, text, htext⟩

theorem isOk_applyCategory_iff {bindings : Bindings} {category : Text × List (Text × Text)} :
    (applyCategory bindings index category).isOk ↔
      ∀ slot ∈ category.2, (applySlot bindings index category.1 slot.1 slot.2).isOk := by
  rw [applyCategory, isOk_bind_iff]
  have hslot (slot : Text × Text) :
      (applySlot bindings index category.1 slot.1 slot.2 >>= fun text =>
        (pure (slot.1, text) : Except Failure _)).isOk ↔
      (applySlot bindings index category.1 slot.1 slot.2).isOk := by
    rw [isOk_bind_iff, isOk_iff]
    exact exists_congr fun text => and_iff_left rfl
  simp only [← hslot, ← isOk_mapM_iff]
  rw [isOk_iff]
  exact exists_congr fun entries => and_iff_left rfl

/-- Blank slots are left as they are, the others are records of the dump. -/
theorem isOk_slots_of_records {bindings : Bindings} :
    (∀ category ∈ dump.categories, ∀ slot ∈ category.2,
        (applySlot bindings index category.1 slot.1 slot.2).isOk) ↔
      ∀ record ∈ dumpRecords dump,
        (applySlot bindings index record.category record.id record.text).isOk := by
  constructor
  · intro hall record hrecord
    obtain ⟨entries, hcategory, hslot, -⟩ := mem_dumpRecords.mp hrecord
    exact hall _ hcategory _ hslot
  · rintro hall ⟨category, entries⟩ hcategory ⟨id, text⟩ hslot
    cases hblank : isBlank text with
    | true =>
      rw [applySlot, hblank, if_pos rfl]
      rfl
    | false =>
      exact hall ⟨category, id, text⟩ (mem_dumpRecords.mpr ⟨entries, hcategory, hslot, hblank⟩)

theorem Indexed.apply_eq (hi : Indexed h dump material F old target
      ((catalogEntries h old material).map (Entry.retarget target))) :
    Templates.apply h dump (translate target (generated h dump old material).catalog)
        (generated h dump old material).bindings =
      (dump.categories.mapM
        (Templates.applyCategory (writtenBindings h material (dumpDigest h dump))
        ((catalogEntries h old material).map (Entry.retarget target))) >>= fun output =>
          .ok ⟨orderedMap output, material.length, dumpDigest h dump⟩) := by
  rw [Templates.apply, readCatalog_translate]
  show (catalogIndex _ >>= _) = _
  rw [catalogIndex_of_nodup hi.nodup]
  show (Templates.validateSource h dump (writtenBindings h material (dumpDigest h dump)) _
    >>= _) = _
  rw [hi.validateSource]
  rfl

theorem entriesOf_translated (target : Entry → Target) (old : List (Text × Entry))
    (material : List Material) :
    entriesOf (translate target (generated h dump old material).catalog) =
      (catalogEntries h old material).map (Entry.retarget target) := by
  rw [entriesOf_translate, entriesOf_generated]

theorem Indexed.applyCategory_substitutes {digest : Text}
    (hi : Indexed h dump material F old target index)
    (hok : ∀ record ∈ dumpRecords dump, (Templates.applySlot (writtenBindings h material digest)
      index record.category record.id record.text).isOk)
    (hclear : ∀ record ∈ dumpRecords dump, ¬ reserved <:+: slotText
      (writtenBindings h material digest) index record.category record.id record.text)
    {category : Text × List (Text × Text)} (hcategory : category ∈ dump.categories) :
    Templates.applyCategory (writtenBindings h material digest) index category =
      .ok (category.1, orderedMap (category.2.map fun slot => (slot.1,
        slotText (writtenBindings h material digest) index category.1 slot.1 slot.2))) := by
  have hslots : (category.2.mapM fun entry => do
      let text ← Templates.applySlot (writtenBindings h material digest) index category.1
        entry.1 entry.2
      return (entry.1, text) : Except Failure _) = .ok (category.2.map fun slot => (slot.1,
        slotText (writtenBindings h material digest) index category.1 slot.1 slot.2)) := by
    refine mapM_of_forall fun slot hslot => ?_
    show (Templates.applySlot _ index category.1 slot.1 slot.2 >>= _) = _
    cases hblank : isBlank slot.2 with
    | true =>
      rw [Templates.applySlot, slotText, hblank]
      rfl
    | false =>
      have hrecord : ⟨category.1, slot.1, slot.2⟩ ∈ dumpRecords dump :=
        mem_dumpRecords.mpr ⟨category.2, hcategory, hslot, hblank⟩
      rw [hi.applySlot_substitutes digest hrecord (hok _ hrecord) (hclear _ hrecord)]
      rfl
  rw [Templates.applyCategory, hslots]
  rfl

/-- A generated catalog can be applied when every entry of it has been translated,
to a text that keeps the placeholders. -/
theorem apply_completes_iff (h : Hashing) (dump : Dump) (catalog : Option (List Line))
    (g : Generated) (hdistinct : Distinct h dump) (hg : generate h dump catalog = .ok g)
    (target : Entry → Target) :
    (apply h dump (translate target g.catalog) g.bindings).isOk ↔
      ∀ entry ∈ entriesOf (translate target g.catalog), entry.Translated := by
  obtain ⟨material, old, hmaterial, -, rfl⟩ := generate_eq_ok.mp hg
  obtain ⟨F, hi⟩ := indexed hdistinct hmaterial old target
  have hcategories : (dump.categories.mapM (applyCategory
      (writtenBindings h material (dumpDigest h dump))
      ((catalogEntries h old material).map (Entry.retarget target)))).isOk ↔
      ∀ entry ∈ entriesOf (translate target (generated h dump old material).catalog),
        entry.Translated := by
    rw [entriesOf_translated, ← hi.isOk_slots_iff (dumpDigest h dump), ← isOk_slots_of_records,
      isOk_mapM_iff]
    exact forall₂_congr fun category _ => isOk_applyCategory_iff
  rw [← hcategories, hi.apply_eq, isOk_bind_iff, isOk_iff]
  exact exists_congr fun output => and_iff_left rfl

def sampleTranslation (entry : Entry) : Target :=
  .text (([(units "真乃", units "Mano"), (units "灯織", units "Hiori"),
    (sampleUnit, sampleText)].lookup entry.source).getD entry.source)

theorem apply_completes_sample :
    ∃ g, generate sampleHashing sampleDump none = .ok g ∧
      ((apply sampleHashing sampleDump (translate sampleTranslation g.catalog) g.bindings).isOk ↔
        ∀ entry ∈ entriesOf (translate sampleTranslation g.catalog), entry.Translated) := by
  have hok : (generate sampleHashing sampleDump none).isOk := by decide +kernel
  obtain ⟨g, hg⟩ := isOk_iff.mp hok
  exact ⟨g, hg, apply_completes_iff _ _ none g sampleDump_distinct hg sampleTranslation⟩

/-- When it is applied, every slot is the target of its unit with all arguments
in it, put in at once, unless one of these texts has the tool's own syntax. -/
theorem apply_substitutes (h : Hashing) (dump : Dump) (catalog : Option (List Line))
    (g : Generated) (hdistinct : Distinct h dump) (hg : generate h dump catalog = .ok g)
    (target : Entry → Target) (applied : Applied)
    (happlied : apply h dump (translate target g.catalog) g.bindings = .ok applied)
    (hclear : ∀ record ∈ dumpRecords dump,
      ¬ reserved <:+: slotText g.bindings (entriesOf (translate target g.catalog))
        record.category record.id record.text) :
    applied.output = canonicalDump (dump.categories.map fun (category, entries) =>
      (category, entries.map fun (id, text) =>
        (id, slotText g.bindings (entriesOf (translate target g.catalog)) category id text))) := by
  obtain ⟨material, old, hmaterial, -, rfl⟩ := generate_eq_ok.mp hg
  obtain ⟨F, hi⟩ := indexed hdistinct hmaterial old target
  rw [entriesOf_translated] at hclear ⊢
  rw [hi.apply_eq] at happlied
  obtain ⟨output, houtput, heq⟩ := bind_eq_ok.mp happlied
  cases heq
  have hslots := isOk_slots_of_records.mp fun category hcategory slot hslot =>
    isOk_applyCategory_iff.mp
      (isOk_mapM_iff.mp (isOk_iff.mpr ⟨output, houtput⟩) category hcategory) slot hslot
  have hcategories : dump.categories.mapM (Templates.applyCategory _ _) = .ok _ :=
    mapM_of_forall fun category hcategory => hi.applyCategory_substitutes hslots hclear hcategory
  cases houtput.symm.trans hcategories
  rw [canonicalDump, List.map_map]
  rfl

theorem apply_substitutes_sample :
    ∃ g applied, generate sampleHashing sampleDump none = .ok g ∧
      apply sampleHashing sampleDump (translate sampleTranslation g.catalog) g.bindings =
        .ok applied ∧
      applied.output = canonicalDump (sampleDump.categories.map fun (category, entries) =>
        (category, entries.map fun (id, text) => (id, slotText g.bindings
          (entriesOf (translate sampleTranslation g.catalog)) category id text))) := by
  have hsome : (generate sampleHashing sampleDump none).toOption.any (fun g =>
      (apply sampleHashing sampleDump (translate sampleTranslation g.catalog) g.bindings).isOk &&
        decide (∀ record ∈ dumpRecords sampleDump,
          ¬ reserved <:+: slotText g.bindings (entriesOf (translate sampleTranslation g.catalog))
            record.category record.id record.text)) = true := by
    decide +kernel
  obtain ⟨g, hg, hboth⟩ := exists_of_any hsome
  obtain ⟨hok, hclear⟩ := Bool.and_eq_true_iff.mp hboth
  obtain ⟨applied, happlied⟩ := isOk_iff.mp hok
  exact ⟨g, applied, hg, happlied, apply_substitutes _ _ none g sampleDump_distinct hg
    sampleTranslation applied happlied (of_decide_eq_true hclear)⟩

end ShinySongTools.Templates
