import ShinySongTools.Dump.State

/-!
# The whole-table walk

`dicdump` reads the manager's dictionary of dictionaries out of memory. A
table is what the game has in it, slot by slot; `LaidAt` says that it lies at an
address in the layout of the runtime: the entries array may be longer than the
count, and a freed slot has a negative hash and anything else.
-/

namespace ShinySongTools.Dump

open Std (ExtTreeMap)

abbrev Memory := Nat → UInt8

namespace Memory

variable (mem : Memory) (a : Nat)

def u16 : UInt16 := (mem a).toUInt16 + ((mem (a + 1)).toUInt16 <<< 8)

def u32 : UInt32 := (mem.u16 a).toUInt32 + ((mem.u16 (a + 2)).toUInt32 <<< 16)

def ptr : Nat := (mem.u32 a).toNat + (mem.u32 (a + 4)).toNat * 2 ^ 32

end Memory

def arrayData : Nat := 0x20
def dictEntries : Nat := 0x18
def dictCount : Nat := 0x20
def entryStride : Nat := 0x18
def entryHash : Nat := 0x0
def entryKey : Nat := 0x8
def entryValue : Nat := 0x10
def maxWalkEntries : Nat := 500000

-- ---------------------------------------------------------------------------
-- The walk
-- ---------------------------------------------------------------------------

def readIl2cppStringUtf16 (mem : Memory) (p : Nat) : Option (List UInt16) :=
  if p = 0 then none
  else
    let len := (mem.u32 (p + 0x10)).toInt32.toInt
    if len ≤ 0 then some []
    else some ((List.range len.toNat).map fun index => mem.u16 (p + 0x14 + index * 2))

def readString (mem : Memory) (p : Nat) : Except String String :=
  match readIl2cppStringUtf16 mem p with
  | none => .error "null string in dictionary entry"
  | some units =>
    match stringFromUtf16 units with
    | none => .error "invalid utf16 in dictionary string"
    | some text => .ok text

/-- The address of a slot of the entries array. -/
def slotAt (entries index : Nat) : Nat := entries + arrayData + index * entryStride

/-- A freed slot has a negative hash. -/
def freed (mem : Memory) (entry : Nat) : Bool := (mem.u32 (entry + entryHash)).toInt32.toInt < 0

/-- The loop of both walks over the slots of an entries array. -/
def forSlots (mem : Memory) (entries count : Nat) (body : β → Nat → Except String β) (out : β) :
    Except String β :=
  (List.range count).foldlM (fun out index =>
    let entry := slotAt entries index
    if freed mem entry then .ok out else body out entry) out

def walkIntDictionary (mem : Memory) (dict : Nat) (out : Bucket) : Except String Bucket :=
  if dict = 0 then .ok out
  else
    let count := (mem.u32 (dict + dictCount)).toNat
    let entries := mem.ptr (dict + dictEntries)
    if entries = 0 then .ok out
    else if maxWalkEntries < count then .error s!"inner dictionary malformed: count={count}"
    else forSlots mem entries count readEntry out
where
  readEntry (out : Bucket) (entry : Nat) : Except String Bucket := do
    let id := mem.u32 (entry + entryKey)
    let text ← readString mem (mem.ptr (entry + entryValue))
    return out.insert (toString id.toNat) text

def walkStringDictionary (mem : Memory) (dict : Nat) (out : LocalifyMap) :
    Except String LocalifyMap :=
  if dict = 0 then .error "outer dictionary is null"
  else
    let count := (mem.u32 (dict + dictCount)).toNat
    let entries := mem.ptr (dict + dictEntries)
    if entries = 0 ∨ maxWalkEntries < count then
      .error s!"outer dictionary malformed: count={count}"
    else forSlots mem entries count readEntry out
where
  readEntry (out : LocalifyMap) (entry : Nat) : Except String LocalifyMap := do
    let category ← readString mem (mem.ptr (entry + entryKey))
    if category.isEmpty then return out
    else
      let bucket ← walkIntDictionary mem (mem.ptr (entry + entryValue)) (out.orDefault category)
      return out.insert category bucket

-- ---------------------------------------------------------------------------
-- Tables
-- ---------------------------------------------------------------------------

/-- Valid UTF-16 within a capture limit. -/
structure Utf16 (capacity : Nat) where
  units : List UInt16
  text : String
  decodes : stringFromUtf16 units = some text
  fits : units.length ≤ capacity

/-- A live entry; `none` is a null text. -/
structure Entry where
  id : Int32
  text : Option (Utf16 textUtf16Capacity)

/-- The slots of a dictionary, `none` where one was freed. -/
abbrev Slots (α : Type) := List (Option α)

def Slots.live (slots : Slots α) : List α := slots.filterMap id

structure Category where
  name : Utf16 categoryUtf16Capacity
  nonempty : name.units ≠ []
  slots : Slots Entry
  ids : (slots.live.map Entry.id).Nodup

structure Table where
  slots : Slots Category
  names : (slots.live.map fun c => c.name.units).Nodup

namespace Memory

/-- A string object. -/
def StringAt (mem : Memory) (p : Nat) (units : List UInt16) : Prop :=
  p ≠ 0 ∧ readIl2cppStringUtf16 mem p = some units

/-- The slots of a dictionary object, each live one as `live` says. -/
structure DictAt (mem : Memory) (dict : Nat) (live : Nat → α → Prop) (slots : Slots α) : Prop where
  count : (mem.u32 (dict + dictCount)).toNat = slots.length
  entries : slots ≠ [] → mem.ptr (dict + dictEntries) ≠ 0
  slot : ∀ index (h : index < slots.length),
    match slots[index] with
    | none => freed mem (slotAt (mem.ptr (dict + dictEntries)) index) = true
    | some value =>
      freed mem (slotAt (mem.ptr (dict + dictEntries)) index) = false ∧
        live (slotAt (mem.ptr (dict + dictEntries)) index) value

def EntryAt (mem : Memory) (entry : Nat) (e : Entry) : Prop :=
  mem.u32 (entry + entryKey) = e.id.toUInt32 ∧
    match e.text with
    | none => mem.ptr (entry + entryValue) = 0
    | some text => mem.StringAt (mem.ptr (entry + entryValue)) text.units

/-- A category without a slot may have no dictionary at all. -/
def CategoryAt (mem : Memory) (entry : Nat) (c : Category) : Prop :=
  mem.StringAt (mem.ptr (entry + entryKey)) c.name.units ∧
    (mem.ptr (entry + entryValue) = 0 → c.slots = []) ∧
    (mem.ptr (entry + entryValue) ≠ 0 →
      mem.DictAt (mem.ptr (entry + entryValue)) mem.EntryAt c.slots)

def LaidAt (mem : Memory) (dict : Nat) (table : Table) : Prop :=
  dict ≠ 0 ∧ mem.DictAt dict mem.CategoryAt table.slots

end Memory

-- ---------------------------------------------------------------------------
-- The hooks
-- ---------------------------------------------------------------------------

/-- What a hook sees of one entry. -/
structure Shown where
  category : Utf16 categoryUtf16Capacity
  id : Int32
  text : Utf16 textUtf16Capacity

def Category.shown (c : Category) : List Shown :=
  c.slots.live.filterMap fun e => e.text.map fun text => ⟨c.name, e.id, text⟩

/-- The entries with a text. -/
def Table.shown (table : Table) : List Shown := table.slots.live.flatMap Category.shown

/-- The record a hook captures of an entry, merged. -/
def DumpState.mergeShown (s : DumpState) (shown : Shown) : DumpState :=
  match DumpRecord.capture shown.category.units shown.id shown.text.units with
  | some record => s.merge record
  | none => s

/-- The walk of the table and the merge of what it found leave the entries that
the hooks' records leave, in whatever order they come. -/
def AgreesWithHooks (mem : Memory) (dict : Nat) (table : Table) (s : DumpState) : Prop :=
  ∃ parsed, walkStringDictionary mem dict ∅ = .ok parsed ∧
    ∀ order : List Shown, order.Perm table.shown →
      (s.mergeMap parsed).entries = (order.foldl DumpState.mergeShown s).entries

end ShinySongTools.Dump
