import ShinySongTools.Templates.Candidate

/-!
# The catalog and the bindings

What `generate!` writes for a dump and what `check!` and `apply!` make of it.
Files are the values they hold: reading back what was written gives the same.
The digest and the text it is taken of are parameters.
-/

namespace ShinySongTools.Templates

open Regex Keyed

structure Hashing where
  sha256 : Text → Text
  generateString : List (Text × List (Text × Text)) → Text

-- ---------------------------------------------------------------------------
-- Dumps
-- ---------------------------------------------------------------------------

/-- What `read-dump!` accepts: texts under their ids, under their categories. -/
structure Dump where
  categories : List (Text × List (Text × Text))
  nodup : (categories.map Prod.fst).Nodup
  slots_nodup : ∀ category ∈ categories, (category.2.map Prod.fst).Nodup

/-- The order of `compare` on strings. -/
def textLe : Text → Text → Bool
  | [], _ => true
  | _ :: _, [] => false
  | a :: s, b :: t => decide (a < b) || a == b && textLe s t

def orderedMap {β : Type} (entries : List (Text × β)) : List (Text × β) :=
  entries.insertionSort fun a b => textLe a.1 b.1

def canonicalDump (dump : List (Text × List (Text × Text))) : List (Text × List (Text × Text)) :=
  orderedMap (dump.map fun (category, entries) => (category, orderedMap entries))

def dumpDigest (h : Hashing) (dump : Dump) : Text :=
  h.sha256 (h.generateString (canonicalDump dump.categories))

def isBlank (text : Text) : Bool := blankPattern.matchesAll text

def slotRecords (category : Text) (entries : List (Text × Text)) : List Record :=
  (entries.filter fun slot => !isBlank slot.2).map fun (id, text) => ⟨category, id, text⟩

def dumpRecords (dump : Dump) : List Record :=
  dump.categories.flatMap fun (category, entries) => slotRecords category entries

def ensureNoReservedSyntax (records : List Record) : Except Failure Unit :=
  match records.find? fun record => (lit reserved).finds record.text with
  | some record => .error (.reservedSyntax record.category record.id record.text)
  | none => .ok ()

/-- `Character/isWhitespace` on one unit. -/
def isWhitespace (u : UInt16) : Bool :=
  9 ≤ u && u ≤ 13 || 0x1C ≤ u && u ≤ 0x20 || u = 0x1680 ||
    0x2000 ≤ u && u ≤ 0x200A && u ≠ 0x2007 || u = 0x2028 || u = 0x2029 || u = 0x205F || u = 0x3000

/-- `str/blank?` -/
def strBlank (text : Text) : Bool := text.all isWhitespace

def aliasValues (dump : Dump) (category : String) : List Text :=
  (((dump.categories.lookup (units category)).getD []).map Prod.snd).filter (!strBlank ·)

def characterAliases (dump : Dump) : List Text :=
  let full := aliasValues dump "mlCharacterText_Name"
  let compactFull := full.map fun name => name.filter fun u => u ≠ 0x20 ∧ u ≠ 0xA0
  let firstNames := aliasValues dump "mlCharacterText_FirstName"
  let lastNames := aliasValues dump "mlCharacterText_LastName"
  ((full ++ compactFull ++ firstNames ++ lastNames).filter fun name =>
      !(strBlank name || name.length < 2)).eraseDups.insertionSort
    fun a b => b.length < a.length ∨ a.length = b.length ∧ textLe a b

-- ---------------------------------------------------------------------------
-- Units and their bindings
-- ---------------------------------------------------------------------------

def qualifiedTemplates (candidates : List Candidate) : List Text :=
  ((groupBy (·.candidate) (candidates.filter (·.candidateArgs ≠ []))).filter fun (_, group) =>
    2 ≤ (group.map (·.text)).eraseDups.length).map Prod.fst

/-- What is hashed for an id. -/
def hashed (parts : List Text) : Text := List.intercalate [0] parts

def stableId (h : Hashing) (start : String) (parts : List Text) : Text :=
  units start ++ units "_" ++ (h.sha256 (hashed parts)).take 16

def entityId (h : Hashing) (type : Kind) (source : Text) : Text :=
  stableId h "e" [units type.name, source]

def templateId (h : Hashing) (source : Text) : Text := stableId h "t" [source]

/-- An argument as the bindings hold it. -/
inductive BindingArg where
  | entity (id : Text)
  | literal (value : Text)
  deriving DecidableEq

def Arg.bound (h : Hashing) : Arg → BindingArg
  | .entity type source => .entity (entityId h type source)
  | .literal value => .literal value

def Arg.entity? : Arg → Option (Kind × Text)
  | .entity type source => some (type, source)
  | .literal _ => none

structure Material extends Record where
  unitSource : Text
  args : List (Text × BindingArg)
  usedEntityArgs : List (Kind × Text)
  deriving DecidableEq

def materialRecord (h : Hashing) (qualified : List Text) (record : Candidate) : Material :=
  if qualified.contains record.candidate then
    { record.toRecord with
      unitSource := record.candidate
      args := orderedMap (record.candidateArgs.map fun hole => (hole.1, hole.2.bound h))
      usedEntityArgs := record.candidateArgs.filterMap fun hole => hole.2.entity? }
  else { record.toRecord with unitSource := record.text, args := [], usedEntityArgs := [] }

def materialRecords (h : Hashing) (dump : Dump) : Except Failure (List Material) := do
  let records := dumpRecords dump
  ensureNoReservedSyntax records
  let aliases := characterAliases dump
  let candidates ← records.mapM fun record => candidate record (characterPattern aliases) aliases
  return candidates.map (materialRecord h (qualifiedTemplates candidates))

-- ---------------------------------------------------------------------------
-- The catalog
-- ---------------------------------------------------------------------------

inductive EntryKind where
  | entity
  | template
  | text
  deriving DecidableEq, Repr

/-- What a translator has left in an entry. -/
inductive Target where
  | null
  | text (text : Text)
  /-- Any other JSON value, as it is written. -/
  | other (json : Text)
  deriving DecidableEq

structure Entry where
  id : Text
  kind : EntryKind
  entityType : Option Kind
  source : Text
  target : Target
  occurrences : Nat
  variants : Nat
  originalPlaceholders : List Text
  customPlaceholders : List Text
  deriving DecidableEq

/-- A line of `catalog.jsonl`. -/
inductive Line where
  | blank
  | header (schemaVersion : Nat) (sourceDigest : Text)
  | entry (entry : Entry)
  /-- No JSON, as a marker of a merge conflict. -/
  | malformed
  deriving DecidableEq

def schemaVersion : Nat := 1

def keepTarget (targets : List (Text × Entry)) (entry : Entry) : List (Text × Entry) :=
  if entry.target = .null then targets else assoc targets entry.id entry

def readTarget (targets : List (Text × Entry)) : Line → Except Failure (List (Text × Entry))
  | .blank | .header .. => .ok targets
  | .entry entry => .ok (keepTarget targets entry)
  | .malformed => .error .jsonParse

/-- The completed entries of the catalog that is there, the last with an id. -/
def oldTargets (catalog : Option (List Line)) : Except Failure (List (Text × Entry)) :=
  (catalog.getD []).foldlM readTarget []

def retainedTarget (old : List (Text × Entry)) (id : Text) (kind : EntryKind) (source : Text) :
    Target :=
  match old.lookup id with
  | some entry => if kind = entry.kind ∧ source = entry.source then entry.target else .null
  | none => .null

def catalogEntry (h : Hashing) (old : List (Text × Entry)) (source : Text)
    (records : List Material) : Entry :=
  let id := templateId h source
  let ph := placeholders source
  let kind := if ph.custom ≠ [] ∨ ph.original ≠ [] then .template else .text
  { id, kind, source
    entityType := none
    target := retainedTarget old id kind source
    occurrences := records.length
    variants := (records.map (·.text)).eraseDups.length
    originalPlaceholders := ph.original
    customPlaceholders := ph.custom }

def entityEntry (h : Hashing) (old : List (Text × Entry)) (type : Kind) (source : Text)
    (uses : Nat) : Entry :=
  let id := entityId h type source
  { id, source
    kind := .entity
    entityType := some type
    target := retainedTarget old id .entity source
    occurrences := uses
    variants := 1
    originalPlaceholders := []
    customPlaceholders := [] }

def sortBySource (entries : List Entry) : List Entry :=
  entries.insertionSort fun a b => textLe a.source b.source

def entityEntries (h : Hashing) (old : List (Text × Entry)) (records : List Material) :
    List Entry :=
  sortBySource ((groupBy id (records.flatMap (·.usedEntityArgs))).map
    fun ((type, source), uses) => entityEntry h old type source uses.length)

def textEntries (h : Hashing) (old : List (Text × Entry)) (records : List Material) :
    List Entry :=
  sortBySource ((groupBy (·.unitSource) records).map
    fun (source, group) => catalogEntry h old source group)

structure Binding where
  unit : Text
  args : List (Text × BindingArg)
  deriving DecidableEq

def bindingValue (h : Hashing) (record : Material) : Binding :=
  ⟨templateId h record.unitSource, record.args⟩

structure Bindings where
  bindings : List (Text × List (Text × Binding))
  schemaVersion : Nat
  slots : Nat
  sourceDigest : Text
  deriving DecidableEq

/-- The category of a run and its slots. -/
def runBindings (h : Hashing) : List Material → Option (Text × List (Text × Binding))
  | [] => none
  | record :: group =>
    some (record.category, (record :: group).map fun record => (record.id, bindingValue h record))

/-- What `atomic-write-bindings!` writes. -/
def writtenBindings (h : Hashing) (records : List Material) (digest : Text) : Bindings where
  bindings := (partitionBy (·.category) records).filterMap (runBindings h)
  schemaVersion := schemaVersion
  slots := records.length
  sourceDigest := digest

def catalogEntries (h : Hashing) (old : List (Text × Entry)) (records : List Material) :
    List Entry :=
  entityEntries h old records ++ textEntries h old records

structure Generated where
  catalog : List Line
  bindings : Bindings
  slots : Nat
  units : Nat
  entities : Nat
  templates : Nat
  pending : Nat
  sourceDigest : Text

def generated (h : Hashing) (dump : Dump) (old : List (Text × Entry)) (material : List Material) :
    Generated :=
  let entries := catalogEntries h old material
  let digest := dumpDigest h dump
  { catalog := .header schemaVersion digest :: entries.map .entry
    bindings := writtenBindings h material digest
    slots := material.length
    units := (textEntries h old material).length
    entities := (entityEntries h old material).length
    templates := (textEntries h old material).countP (·.kind = .template)
    pending := entries.countP (·.target = .null)
    sourceDigest := digest }

/-- The catalog that is there is read for its targets and written anew. -/
def generate (h : Hashing) (dump : Dump) (catalog : Option (List Line)) :
    Except Failure Generated := do
  let material ← materialRecords h dump
  let old ← oldTargets catalog
  return generated h dump old material

-- ---------------------------------------------------------------------------
-- Reading a catalog back
-- ---------------------------------------------------------------------------

structure Catalog where
  schemaVersion : Nat
  sourceDigest : Text
  entries : List Entry

def Line.entry? : Line → Option Entry
  | .entry e => some e
  | .blank | .header .. | .malformed => none

def entriesOf (catalog : List Line) : List Entry := catalog.filterMap Line.entry?

/-- All lines are parsed before the first is looked at. -/
def readCatalog (lines : List Line) : Except Failure Catalog :=
  if lines.contains .malformed then .error .unreadableCatalog
  else
    match lines.filter (· ≠ .blank) with
    | [] => .error .unreadableCatalog
    | .header version digest :: records => .ok ⟨version, digest, entriesOf records⟩
    | _ :: _ => .error .noHeader

/-- The entries, once no id is there twice. -/
def catalogIndex (catalog : Catalog) : Except Failure (List Entry) :=
  if catalog.schemaVersion ≠ schemaVersion then .error (.schemaVersion catalog.schemaVersion)
  else
    match (groupBy (·.id) catalog.entries).find? fun group => 1 < group.2.length with
    | some (id, duplicates) => .error (.duplicateId id duplicates.length)
    | none => .ok catalog.entries

def lookupEntry (index : List Entry) (id : Text) : Option Entry := index.find? (·.id = id)

def replacementValue (index : List Entry) (translated : Bool) :
    BindingArg → Except Failure Text
  | .literal value => .ok value
  | .entity id =>
    match lookupEntry index id with
    | none => .error (.noEntity id)
    | some entity =>
      if entity.kind ≠ .entity then .error (.noEntity id)
      else if translated = false then .ok entity.source
      else
        match entity.target with
        | .null => .error (.untranslatedEntity entity.id entity.source)
        | .text value => .ok value
        | .other _ => .error .classCast

def validateTargetPlaceholders (entry : Entry) : Except Failure Text :=
  match entry.target with
  | .null | .other _ => .error (.noTarget entry.id entry.source)
  | .text target =>
    let sourcePh := placeholders entry.source
    let targetPh := placeholders target
    if ¬ sourcePh.original.Perm targetPh.original then
      .error (.originalPlaceholders entry.id sourcePh.original targetPh.original)
    else if ¬ sourcePh.custom.Perm targetPh.custom then
      .error (.customPlaceholders entry.id sourcePh.custom targetPh.custom)
    else .ok target

def replacePlaceholder (index : List Entry) (entry : Entry) (args : List (Text × BindingArg))
    (translated : Bool) (result placeholder : Text) : Except Failure Text :=
  match args.lookup placeholder with
  | none => .error (.noArgument entry.id placeholder)
  | some arg => do
    let value ← replacementValue index translated arg
    return Scan.replaceAll placeholder value result

def expandUnit (index : List Entry) (entry : Entry) (args : List (Text × BindingArg))
    (translated : Bool) : Except Failure Text := do
  let text ← if translated then validateTargetPlaceholders entry else .ok entry.source
  entry.customPlaceholders.foldlM (replacePlaceholder index entry args translated) text

/-- `(get-in slot-bindings [category id])` -/
def slotBinding (bindings : Bindings) (category id : Text) : Option Binding :=
  (bindings.bindings.lookup category).bind (·.lookup id)

def validateSlot (bindings : Bindings) (index : List Entry) (record : Record) :
    Except Failure Unit :=
  match slotBinding bindings record.category record.id with
  | none => .error (.noBinding record.category record.id)
  | some binding =>
    match lookupEntry index binding.unit with
    | none => .error (.noUnit record.category record.id binding.unit)
    | some entry => do
      let rebuilt ← expandUnit index entry binding.args false
      if record.text ≠ rebuilt then
        .error (.notRebuilt record.category record.id record.text rebuilt)
      else .ok ()

def validateSource (h : Hashing) (dump : Dump) (bindings : Bindings) (index : List Entry) :
    Except Failure Unit :=
  if bindings.sourceDigest ≠ dumpDigest h dump then
    .error (.sourceDigest bindings.sourceDigest (dumpDigest h dump))
  else (dumpRecords dump).forM (validateSlot bindings index)

structure Checked where
  slots : Nat
  units : Nat
  translated : Nat
  pending : Nat
  deriving DecidableEq

def check (h : Hashing) (dump : Dump) (catalog : List Line) (bindings : Bindings) :
    Except Failure Checked := do
  let catalog ← readCatalog catalog
  let index ← catalogIndex catalog
  validateSource h dump bindings index
  let pending := index.countP (·.target = .null)
  return ⟨bindings.slots, index.length, index.length - pending, pending⟩

structure Applied where
  output : List (Text × List (Text × Text))
  slots : Nat
  sourceDigest : Text
  deriving DecidableEq

/-- The text `apply!` writes for a slot; the bindings have been checked. -/
def applySlot (bindings : Bindings) (index : List Entry) (category id source : Text) :
    Except Failure Text :=
  if isBlank source then .ok source
  else
    match slotBinding bindings category id with
    | none => .error (.noBinding category id)
    | some binding =>
      match lookupEntry index binding.unit with
      | none => .error (.noUnit category id binding.unit)
      | some entry => expandUnit index entry binding.args true

def applyCategory (bindings : Bindings) (index : List Entry)
    (category : Text × List (Text × Text)) : Except Failure (Text × List (Text × Text)) := do
  let entries ← category.2.mapM fun entry => do
    let text ← applySlot bindings index category.1 entry.1 entry.2
    return (entry.1, text)
  return (category.1, orderedMap entries)

def apply (h : Hashing) (dump : Dump) (catalog : List Line) (bindings : Bindings) :
    Except Failure Applied := do
  let catalog ← readCatalog catalog
  let index ← catalogIndex catalog
  validateSource h dump bindings index
  let output ← dump.categories.mapM (applyCategory bindings index)
  return ⟨orderedMap output, bindings.slots, dumpDigest h dump⟩

def Entry.retarget (target : Entry → Target) (entry : Entry) : Entry :=
  { entry with target := target entry }

def Line.retarget (target : Entry → Target) : Line → Line
  | .entry e => .entry (e.retarget target)
  | .blank => .blank
  | .header version digest => .header version digest
  | .malformed => .malformed

/-- The catalog with other targets, as a translator leaves it. -/
def translate (target : Entry → Target) (catalog : List Line) : List Line :=
  catalog.map (Line.retarget target)

def fillTargetsWithSource (catalog : List Line) : Except Failure (List Line) := do
  let catalog ← readCatalog catalog
  return .header catalog.schemaVersion catalog.sourceDigest ::
    catalog.entries.map fun entry => .entry (entry.retarget fun entry => .text entry.source)

end ShinySongTools.Templates
