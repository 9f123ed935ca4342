import ShinySongTools.Templates.Lossless

/-!
# Generating again

When a catalog is generated at all, and what a run of generations makes of the
targets: a completed one is there in the end just when it was there before and
its unit was in every dump.
-/

namespace ShinySongTools.Templates

open Regex Keyed Fallible

variable {h : Hashing} {dump : Dump} {material : List Material}

-- ---------------------------------------------------------------------------
-- When it completes
-- ---------------------------------------------------------------------------

theorem ne_nil_of_mem_characterAliases {name : Text} (hname : name ∈ characterAliases dump) :
    name ≠ [] := by
  rw [characterAliases, List.mem_insertionSort, List.mem_eraseDups, List.mem_filter] at hname
  rintro rfl
  simp at hname

theorem isOk_materialRecords_iff :
    (materialRecords h dump).isOk ↔
      (∀ record ∈ dumpRecords dump, ¬ reserved <:+: record.text) ∧
        (characterAliases dump ≠ [] ∨
          ∀ record ∈ dumpRecords dump, cardPattern.finds record.text = false) := by
  have hcandidates : ((dumpRecords dump).mapM fun record =>
        candidate record (characterPattern (characterAliases dump)) (characterAliases dump)).isOk ↔
      characterAliases dump ≠ [] ∨
        ∀ record ∈ dumpRecords dump, cardPattern.finds record.text = false := by
    have hnames : ∀ name ∈ characterAliases dump, name ≠ [] :=
      fun _ => ne_nil_of_mem_characterAliases
    simp only [isOk_mapM_iff, candidate_isOk_iff hnames]
    by_cases hne : characterAliases dump ≠ []
    · simp [hne]
    · simp [hne]
  rw [materialRecords, isOk_bind_iff, ← hcandidates]
  constructor
  · rintro ⟨⟨⟩, hfree, hrest⟩
    obtain ⟨candidates, hok, -⟩ := isOk_bind_iff.mp hrest
    exact ⟨ensureNoReservedSyntax_eq_ok.mp hfree, isOk_iff.mpr ⟨candidates, hok⟩⟩
  · rintro ⟨hfree, hok⟩
    obtain ⟨candidates, hok⟩ := isOk_iff.mp hok
    exact ⟨(), ensureNoReservedSyntax_eq_ok.mpr hfree, isOk_bind_iff.mpr ⟨candidates, hok, rfl⟩⟩

theorem isOk_readTarget_iff (targets : List (Text × Entry)) (line : Line) :
    (readTarget targets line).isOk ↔ line ≠ .malformed := by
  cases line with
  | malformed => exact iff_of_false Bool.noConfusion (absurd rfl)
  | blank | header | entry => exact iff_of_true rfl (by rintro ⟨⟩)

theorem isOk_oldTargets_iff {catalog : Option (List Line)} :
    (oldTargets catalog).isOk ↔ .malformed ∉ catalog.getD [] := by
  rw [oldTargets, isOk_foldlM_iff isOk_readTarget_iff]
  exact ⟨fun h hmem => h _ hmem rfl, fun h line hline heq => h (heq ▸ hline)⟩

/-- Generating fails for the tool's own syntax in a text, for a card in a dump
without names, and for a line of the catalog that is no JSON. -/
theorem generate_completes_iff (h : Hashing) (dump : Dump) (catalog : Option (List Line)) :
    (generate h dump catalog).isOk ↔
      (∀ record ∈ dumpRecords dump, ¬ reserved <:+: record.text) ∧
        (characterAliases dump ≠ [] ∨
          ∀ record ∈ dumpRecords dump, cardPattern.finds record.text = false) ∧
        ∀ lines, catalog = some lines → .malformed ∉ lines := by
  have hcatalog : (oldTargets catalog).isOk ↔
      ∀ lines, catalog = some lines → .malformed ∉ lines := by
    rw [isOk_oldTargets_iff]
    cases catalog with
    | none => simp
    | some lines => simp
  rw [← and_assoc, ← isOk_materialRecords_iff, ← hcatalog, generate, isOk_bind_iff]
  constructor
  · rintro ⟨material, hmaterial, hrest⟩
    obtain ⟨old, hold, -⟩ := isOk_bind_iff.mp hrest
    exact ⟨isOk_iff.mpr ⟨material, hmaterial⟩, isOk_iff.mpr ⟨old, hold⟩⟩
  · rintro ⟨hmaterial, hold⟩
    obtain ⟨material, hmaterial⟩ := isOk_iff.mp hmaterial
    obtain ⟨old, hold⟩ := isOk_iff.mp hold
    exact ⟨material, hmaterial, isOk_bind_iff.mpr ⟨old, hold, rfl⟩⟩

-- ---------------------------------------------------------------------------
-- The targets that are kept
-- ---------------------------------------------------------------------------

variable {old old' : List (Text × Entry)}

theorem foldlM_readTarget {lines : List Line} {targets : List (Text × Entry)}
    (hread : lines.foldlM readTarget targets = .ok old) :
    old = (entriesOf lines).foldl keepTarget targets := by
  induction lines generalizing targets with
  | nil =>
    cases hread
    rfl
  | cons line lines ih =>
    cases line with
    | malformed => cases hread
    | blank | header | entry => exact ih hread

theorem oldTargets_eq {catalog : List Line} (hold : oldTargets (some catalog) = .ok old) :
    old = (entriesOf catalog).foldl keepTarget [] := foldlM_readTarget hold

theorem mem_of_oldTargets {entries : List Entry} {id : Text} {entry : Entry}
    (hlookup : (entries.foldl keepTarget []).lookup id = some entry) :
    entry ∈ entries ∧ entry.id = id ∧ entry.target ≠ .null := by
  refine List.foldlRecOn (motive := fun targets => ∀ id entry, targets.lookup id = some entry →
    entry ∈ entries ∧ entry.id = id ∧ entry.target ≠ .null) entries keepTarget
    (fun _ _ h => by cases h) (fun targets ih e he id entry hlookup => ?_) id entry hlookup
  rw [keepTarget] at hlookup
  split at hlookup
  next => exact ih id entry hlookup
  next htarget =>
    by_cases hid : id = e.id
    · rw [hid, lookup_assoc_self] at hlookup
      cases hlookup
      exact ⟨he, hid.symm, htarget⟩
    · rw [lookup_assoc_of_ne hid] at hlookup
      exact ih id entry hlookup

theorem lookup_foldl_keepTarget {entries : List Entry} {id : Text}
    (hentries : ∀ entry ∈ entries, entry.id ≠ id) (targets : List (Text × Entry)) :
    (entries.foldl keepTarget targets).lookup id = targets.lookup id := by
  induction entries generalizing targets with
  | nil => rfl
  | cons e entries ih =>
    obtain ⟨he, hentries⟩ := List.forall_mem_cons.mp hentries
    rw [List.foldl_cons, ih hentries, keepTarget]
    split
    · rfl
    · exact lookup_assoc_of_ne he.symm

theorem foldl_keepTarget_of_mem {entries : List Entry} (hnodup : (entries.map (·.id)).Nodup)
    {entry : Entry} (hentry : entry ∈ entries) (htarget : entry.target ≠ .null)
    (targets : List (Text × Entry)) :
    (entries.foldl keepTarget targets).lookup entry.id = some entry := by
  induction entries generalizing targets with
  | nil => cases hentry
  | cons e entries ih =>
    obtain ⟨he, hnodup⟩ := List.nodup_cons.mp hnodup
    rw [List.foldl_cons]
    obtain rfl | hentry := List.mem_cons.mp hentry
    · rw [lookup_foldl_keepTarget fun other hother heq => he ?_, keepTarget, if_neg htarget]
      · exact lookup_assoc_self
      · exact List.mem_map.mpr ⟨other, hother, heq⟩
    · exact ih hnodup hentry _

-- ---------------------------------------------------------------------------
-- One generation
-- ---------------------------------------------------------------------------

def retained (old : List (Text × Entry)) (entry : Entry) : Target :=
  retainedTarget old entry.id entry.kind entry.source

theorem map_sortBySource (target : Entry → Target) (entries : List Entry) :
    (sortBySource entries).map (Entry.retarget target) =
      sortBySource (entries.map (Entry.retarget target)) :=
  List.map_insertionSort _ _ _ _ fun _ _ _ _ => Iff.rfl

theorem entityEntries_eq (h : Hashing) (old : List (Text × Entry)) (material : List Material) :
    entityEntries h old material =
      (entityEntries h [] material).map (Entry.retarget (retained old)) := by
  rw [entityEntries, entityEntries, map_sortBySource, List.map_map]
  rfl

theorem textEntries_eq (h : Hashing) (old : List (Text × Entry)) (material : List Material) :
    textEntries h old material =
      (textEntries h [] material).map (Entry.retarget (retained old)) := by
  rw [textEntries, textEntries, map_sortBySource, List.map_map]
  rfl

/-- The old targets are all that a generation takes from the catalog before. -/
theorem catalogEntries_eq (h : Hashing) (old : List (Text × Entry)) (material : List Material) :
    catalogEntries h old material =
      (catalogEntries h [] material).map (Entry.retarget (retained old)) := by
  rw [catalogEntries, catalogEntries, List.map_append, entityEntries_eq, textEntries_eq]

theorem map_retarget_congr {target target' : Entry → Target} {entries : List Entry}
    (heq : ∀ entry ∈ entries, target entry = target' entry) :
    entries.map (Entry.retarget target) = entries.map (Entry.retarget target') :=
  List.map_congr_left fun entry hentry => by rw [Entry.retarget, Entry.retarget, heq entry hentry]

theorem generated_congr
    (heq : ∀ entry ∈ catalogEntries h [] material, retained old entry = retained old' entry) :
    generated h dump old material = generated h dump old' material := by
  have hentities : entityEntries h old material = entityEntries h old' material := by
    rw [entityEntries_eq, entityEntries_eq h old']
    exact map_retarget_congr fun entry hentry => heq entry (List.mem_append_left _ hentry)
  have htexts : textEntries h old material = textEntries h old' material := by
    rw [textEntries_eq, textEntries_eq h old']
    exact map_retarget_congr fun entry hentry => heq entry (List.mem_append_right _ hentry)
  rw [generated, generated, catalogEntries, catalogEntries, hentities, htexts]

theorem eq_of_id {entries : List Entry} (hnodup : (entries.map (·.id)).Nodup) {e e' : Entry}
    (he : e ∈ entries) (he' : e' ∈ entries) (hid : e.id = e'.id) : e = e' :=
  List.inj_on_of_nodup_map hnodup he he' hid

theorem retained_of_lookup {entry kept : Entry} (hlookup : old.lookup entry.id = some kept)
    (hkind : entry.kind = kept.kind) (hsource : entry.source = kept.source) :
    retained old entry = kept.target := by
  rw [retained, retainedTarget, hlookup]
  exact if_pos ⟨hkind, hsource⟩

theorem retained_of_none {entry : Entry} (hlookup : old.lookup entry.id = none) :
    retained old entry = .null := by
  rw [retained, retainedTarget, hlookup]

/-- What a catalog has for an entry of its own is the target of the entry. -/
theorem retained_oldTargets {entries : List Entry} (hnodup : (entries.map (·.id)).Nodup)
    {entry : Entry} (hentry : entry ∈ entries) :
    retained (entries.foldl keepTarget []) entry = entry.target := by
  by_cases htarget : entry.target = .null
  · rw [htarget]
    refine retained_of_none ?_
    cases hlookup : (entries.foldl keepTarget []).lookup entry.id with
    | none => rfl
    | some other =>
      obtain ⟨hother, hid, hnull⟩ := mem_of_oldTargets hlookup
      have heq : other = entry := eq_of_id hnodup hother hentry hid
      exact absurd (heq ▸ htarget) hnull
  · exact retained_of_lookup (foldl_keepTarget_of_mem hnodup hentry htarget []) rfl rfl

theorem oldTargets_generated (h : Hashing) (dump : Dump) (old : List (Text × Entry))
    (material : List Material) :
    oldTargets (some (generated h dump old material).catalog) =
      .ok ((catalogEntries h old material).foldl keepTarget []) := by
  have hok : (oldTargets (some (generated h dump old material).catalog)).isOk :=
    isOk_oldTargets_iff.mpr (by simp [generated])
  obtain ⟨old', hold⟩ := isOk_iff.mp hok
  rw [hold, oldTargets_eq hold, entriesOf_generated]

/-- A generation over its own catalog changes nothing. -/
theorem generate_idempotent (h : Hashing) (dump : Dump) (catalog : Option (List Line))
    (g : Generated) (hdistinct : Distinct h dump) (hg : generate h dump catalog = .ok g) :
    generate h dump (some g.catalog) = .ok g := by
  obtain ⟨material, old, hmaterial, -, rfl⟩ := generate_eq_ok.mp hg
  refine generate_eq_ok.mpr ⟨material, _, hmaterial, oldTargets_generated h dump old material,
    (generated_congr fun entry hentry => ?_).symm⟩
  have hmem : entry.retarget (retained old) ∈ catalogEntries h old material := by
    rw [catalogEntries_eq]
    exact List.mem_map_of_mem hentry
  exact retained_oldTargets (nodup_ids hdistinct hmaterial) hmem

/-- The names are translated, the rest is pending. -/
theorem generate_idempotent_sample :
    ∃ g g', generate sampleHashing sampleDump none = .ok g ∧
      generate sampleHashing sampleDump (some (translate (fun entry =>
        if entry.kind = .entity then .text entry.source else entry.target) g.catalog)) = .ok g' ∧
      (g.pending, g'.pending) = (4, 2) ∧
      generate sampleHashing sampleDump (some g'.catalog) = .ok g' := by
  have hsome : (generate sampleHashing sampleDump none).toOption.any (fun g =>
      (generate sampleHashing sampleDump (some (translate (fun entry =>
        if entry.kind = .entity then .text entry.source else entry.target)
          g.catalog))).toOption.any fun g' => (g.pending, g'.pending) = (4, 2)) = true := by
    decide +kernel
  obtain ⟨g, hg, hsome'⟩ := exists_of_any hsome
  obtain ⟨g', hg', hpending⟩ := exists_of_any hsome'
  exact ⟨g, g', hg, hg', of_decide_eq_true hpending,
    generate_idempotent _ _ _ g' sampleDump_distinct hg'⟩

-- ---------------------------------------------------------------------------
-- A run of generations
-- ---------------------------------------------------------------------------

structure Key where
  id : Text
  kind : EntryKind
  source : Text
  deriving DecidableEq

def Entry.key (entry : Entry) : Key := ⟨entry.id, entry.kind, entry.source⟩

/-- What becomes of a catalog: it is generated for a dump, or a translator
leaves a target in it. -/
inductive Event where
  | generate (dump : Dump)
  | fill (key : Key) (target : Target)

def filledTarget (key : Key) (target : Target) (entry : Entry) : Target :=
  if entry.key = key then target else entry.target

def Event.step (h : Hashing) (catalog : List Line) : Event → Except Failure (List Line)
  | .generate dump => do
    let g ← Templates.generate h dump (some catalog)
    return g.catalog
  | .fill key target => .ok (translate (filledTarget key target) catalog)

/-- The target of a unit, if the catalog has the unit. -/
def targetOf (catalog : List Line) (key : Key) : Option Target :=
  ((entriesOf catalog).find? (·.key = key)).map (·.target)

def unitsOf (h : Hashing) (dump : Dump) : List Key :=
  match materialRecords h dump with
  | .ok material => (catalogEntries h [] material).map Entry.key
  | .error _ => []

/-- What an event makes of the target of one unit. -/
def Event.remembered (h : Hashing) (key : Key) (target : Option Target) : Event → Option Target
  | .generate dump => if key ∈ unitsOf h dump then some (target.getD .null) else none
  | .fill key' target' => if key = key' then target.map fun _ => target' else target

def Event.Distinct (h : Hashing) : Event → Prop
  | .generate dump => Templates.Distinct h dump
  | .fill .. => True

variable {catalog catalog' : List Line} {key : Key} {event : Event} {entry : Entry}

theorem find?_retarget (target : Entry → Target) (entries : List Entry) (key : Key) :
    (entries.map (Entry.retarget target)).find? (·.key = key) =
      (entries.find? (·.key = key)).map (Entry.retarget target) :=
  List.find?_map

theorem of_find?_key {entries : List Entry} (hfind : entries.find? (·.key = key) = some entry) :
    entry ∈ entries ∧ entry.key = key :=
  ⟨List.mem_of_find?_eq_some hfind, by simpa using List.find?_some hfind⟩

theorem retained_eq (hnodup : ((entriesOf catalog).map (·.id)).Nodup)
    (hold : oldTargets (some catalog) = .ok old) (entry : Entry) :
    retained old entry = (targetOf catalog entry.key).getD .null := by
  rw [targetOf, oldTargets_eq hold]
  cases hfind : (entriesOf catalog).find? (·.key = entry.key) with
  | some kept =>
    obtain ⟨hmem, hkey⟩ := of_find?_key hfind
    obtain ⟨hid, hkind, hsource⟩ := Key.mk.inj hkey
    have hkept := retained_oldTargets hnodup hmem
    rw [retained, hid, hkind, hsource] at hkept
    exact hkept
  | none =>
    rw [retained, retainedTarget]
    split
    next other hlookup =>
      obtain ⟨hother, hid, -⟩ := mem_of_oldTargets hlookup
      refine if_neg fun ⟨hkind, hsource⟩ => ?_
      have hne := List.find?_eq_none.mp hfind other hother
      exact hne (decide_eq_true (Key.mk.injEq .. ▸ ⟨hid, hkind.symm, hsource.symm⟩))
    next => rfl

theorem targetOf_generated (hnodup : ((entriesOf catalog).map (·.id)).Nodup)
    (hmaterial : materialRecords h dump = .ok material)
    (hold : oldTargets (some catalog) = .ok old) (key : Key) :
    targetOf (generated h dump old material).catalog key =
      (Event.generate dump).remembered h key (targetOf catalog key) := by
  rw [targetOf, entriesOf_generated, catalogEntries_eq, find?_retarget, Event.remembered, unitsOf,
    hmaterial]
  cases hfind : (catalogEntries h [] material).find? (·.key = key) with
  | some entry =>
    obtain ⟨hmem, rfl⟩ := of_find?_key hfind
    rw [if_pos (List.mem_map_of_mem hmem), ← retained_eq hnodup hold]
    rfl
  | none =>
    refine (if_neg fun hmem => ?_).symm
    obtain ⟨entry, hentry, hkey⟩ := List.mem_map.mp hmem
    exact List.find?_eq_none.mp hfind entry hentry (decide_eq_true hkey)

theorem targetOf_fill (catalog : List Line) (key key' : Key) (target : Target) :
    targetOf (translate (filledTarget key' target) catalog) key =
      (Event.fill key' target).remembered h key (targetOf catalog key) := by
  rw [targetOf, entriesOf_translate, find?_retarget, Event.remembered, targetOf]
  cases hfind : (entriesOf catalog).find? (·.key = key) with
  | some entry =>
    obtain ⟨-, rfl⟩ := of_find?_key hfind
    show some (filledTarget key' target entry) = _
    rw [filledTarget]
    split
    · rfl
    · rfl
  | none =>
    split
    · rfl
    · rfl

theorem Event.step_spec (hdistinct : event.Distinct h)
    (hnodup : ((entriesOf catalog).map (·.id)).Nodup)
    (hstep : event.step h catalog = .ok catalog') :
    ((entriesOf catalog').map (·.id)).Nodup ∧
      ∀ key, targetOf catalog' key = event.remembered h key (targetOf catalog key) := by
  cases event with
  | generate dump =>
    obtain ⟨g, hg, hcatalog⟩ := bind_eq_ok.mp hstep
    obtain ⟨material, old, hmaterial, hold, rfl⟩ := generate_eq_ok.mp hg
    cases hcatalog
    rw [entriesOf_generated]
    exact ⟨nodup_ids hdistinct hmaterial, targetOf_generated hnodup hmaterial hold⟩
  | fill key' target =>
    cases hstep
    rw [entriesOf_translate, map_id_retarget]
    exact ⟨hnodup, fun key => targetOf_fill catalog key key' target⟩

/-- Whatever becomes of a catalog, a unit has the target that a translator left
last, from then on as long as every dump has the unit. -/
theorem targetOf_run (h : Hashing) (events : List Event) (start final : List Line)
    (hstart : ((entriesOf start).map (·.id)).Nodup)
    (hdistinct : ∀ event ∈ events, event.Distinct h)
    (hrun : events.foldlM (Event.step h) start = .ok final) (key : Key) :
    targetOf final key = events.foldl (Event.remembered h key) (targetOf start key) := by
  induction events generalizing start with
  | nil =>
    cases hrun
    rfl
  | cons event events ih =>
    obtain ⟨hevent, hevents⟩ := List.forall_mem_cons.mp hdistinct
    obtain ⟨catalog, hstep, hrest⟩ := bind_eq_ok.mp hrun
    obtain ⟨hnodup, htarget⟩ := Event.step_spec hevent hstart hstep
    rw [ih catalog hnodup hevents hrest, htarget, List.foldl_cons]

def sampleUnit : Text := units "\x7b\x7bsst:character:0\x7d\x7dが\x7b\x7bsst:rarity:0\x7d\x7d"

def sampleKey : Key := ⟨units "t_d887008f3162805a", .template, sampleUnit⟩

def sampleText : Text := units "\x7b\x7bsst:rarity:0\x7d\x7d \x7b\x7bsst:character:0\x7d\x7d"

def sampleEvents : List Event :=
  [.generate sampleDump, .fill sampleKey (.text sampleText), .generate sampleDump]

theorem targetOf_run_sample :
    ∃ final, sampleEvents.foldlM (Event.step sampleHashing) [] = .ok final ∧
      targetOf final sampleKey = some (.text sampleText) := by
  have hok : (sampleEvents.foldlM (Event.step sampleHashing) []).isOk := by decide +kernel
  obtain ⟨final, hfinal⟩ := isOk_iff.mp hok
  have hdistinct : ∀ event ∈ sampleEvents, event.Distinct sampleHashing := by
    simp [sampleEvents, Event.Distinct, sampleDump_distinct]
  have hrun := targetOf_run sampleHashing sampleEvents [] final .nil hdistinct hfinal sampleKey
  exact ⟨final, hfinal, hrun.trans (by decide +kernel)⟩

end ShinySongTools.Templates
