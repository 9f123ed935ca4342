import ShinySongTools.Traced
import ShinySongTools.Publish.Manifest

/-!
# The walk over a Mach-O header

`macho_text_section` goes through the load commands of a mapped image and then
through the sections of its `__TEXT` segments. It checks that a command lies in
the region of the load commands, and not that what it reads of a segment does.
-/

namespace ShinySongTools.Recon

open Traced
open Publish (Bytes ascii)

def mhMagic64 : Nat := 0xfeedfacf

def lcSegment64 : Nat := 0x19

-- ---------------------------------------------------------------------------
-- The walk
-- ---------------------------------------------------------------------------

def sectionsLoop (mem : Memory) (header sections : Nat) :
    Nat → Nat → Reading (Option (Nat × Nat))
  | 0, _ => return none
  | n + 1, s => do
    let base ← add sections (← mul s 80)
    let sectname ← readBytes mem base 16
    if ascii "__text\x00" <+: sectname then
      let addr ← readNat mem (← add base 32) 8
      let size ← readNat mem (← add base 40) 8
      -- A `wrapping_add`, unlike the sums before it.
      return some (behind header addr, size)
    else sectionsLoop mem header sections n (s + 1)

def segmentText (mem : Memory) (header offset : Nat) : Reading (Option (Nat × Nat)) := do
  let segname ← readBytes mem (← add (← add header offset) 8) 16
  if ascii "__TEXT\x00" <+: segname then
    let nsects ← readNat mem (← add (← add header offset) 64) 4
    let sections ← add (← add header offset) 72
    sectionsLoop mem header sections nsects 0
  else return none

def commandText (mem : Memory) (header cmd offset : Nat) : Reading (Option (Nat × Nat)) :=
  if cmd = lcSegment64 then segmentText mem header offset else return none

/-- The loop over the commands, with the number of those that are left. -/
def commandsLoop (mem : Memory) (header stop : Nat) : Nat → Nat → Reading (Option (Nat × Nat))
  | 0, _ => return none
  | n + 1, offset => do
    if (← add offset 8) > stop then return none
    else
      let cmd ← readNat mem (← add header offset) 4
      let cmdsize ← readNat mem (← add (← add header offset) 4) 4
      if cmdsize = 0 then return none
      else if (← add offset cmdsize) > stop then return none
      else
        match ← commandText mem header cmd offset with
        | some text => return some text
        | none => commandsLoop mem header stop n (← add offset cmdsize)

def machoTextSection (mem : Memory) (header : Nat) : Reading (Option (Nat × Nat)) := do
  let magic ← readNat mem header 4
  if magic ≠ mhMagic64 then return none
  else
    let ncmds ← readNat mem (← add header 16) 4
    let sizeofcmds ← readNat mem (← add header 20) 4
    if 2 ^ 64 ≤ 32 + sizeofcmds then return none
    else commandsLoop mem header (32 + sizeofcmds) ncmds 32

/-- The first image that the loader lists under a name that ends so. -/
def textSection (mem : Memory) : List (Option String × Nat) → Reading (Option (Nat × Nat))
  | [] => return none
  | (name, header) :: images =>
    match name with
    | none => textSection mem images
    | some path =>
      if ¬ path.endsWith "UnityFramework" then textSection mem images
      else if header = 0 then textSection mem images
      else machoTextSection mem header

/-- An entry of the loader with a header, under the name of the framework. -/
def isFramework : Option String × Nat → Bool
  | (some path, header) => path.endsWith "UnityFramework" && header != 0
  | (none, _) => false

/-- The walk is over the first such image. -/
theorem textSection_eq (mem : Memory) (images : List (Option String × Nat)) :
    textSection mem images =
      ((images.find? isFramework).map fun image => machoTextSection mem image.2).getD
        (return none) := by
  induction images with
  | nil => rfl
  | cons image images ih =>
    obtain ⟨name, header⟩ := image
    cases name with
    | none => exact ih
    | some path =>
      by_cases hpath : path.endsWith "UnityFramework"
      · by_cases hheader : header = 0
        · simp [textSection, isFramework, hheader, ih]
        · simp [textSection, isFramework, hpath, hheader]
      · simp [textSection, isFramework, hpath, ih]

-- ---------------------------------------------------------------------------
-- What is in a header
-- ---------------------------------------------------------------------------

/-- A header and its load commands, mapped together. -/
structure Image where
  mem : Memory
  header : Nat
  low : header < 2 ^ 64
  mapped : header + (32 + littleEndian (bytesAt mem (behind header 20) 4)) ≤ 2 ^ 64

namespace Image

variable (image : Image)

def field (offset size : Nat) : Nat :=
  littleEndian (bytesAt image.mem (behind image.header offset) size)

def name (offset : Nat) : Bytes := bytesAt image.mem (behind image.header offset) 16

def ncmds : Nat := image.field 16 4
def sizeofcmds : Nat := image.field 20 4
def cmd (o : Nat) : Nat := image.field o 4
def cmdsize (o : Nat) : Nat := image.field (o + 4) 4
def vmaddr (o : Nat) : Nat := image.field (o + 24) 8
def nsects (o : Nat) : Nat := image.field (o + 64) 4

end Image

def sectionAt (o s : Nat) : Nat := o + 72 + 80 * s

/-- The name in a field of 16 bytes, which zeros fill up. -/
def Named (field : Bytes) (text : String) : Prop := field.takeWhile (· ≠ 0) = ascii text

instance (field : Bytes) (text : String) : Decidable (Named field text) :=
  inferInstanceAs (Decidable (_ = _))

namespace Image

variable (image : Image)

def IsText (o : Nat) : Prop :=
  image.cmd o = lcSegment64 ∧ Named (image.name (o + 8)) "__TEXT"

def IsCode (o s : Nat) : Prop :=
  s < image.nsects o ∧ Named (image.name (sectionAt o s)) "__text"

instance (o : Nat) : Decidable (image.IsText o) := inferInstanceAs (Decidable (_ ∧ _))

instance (o s : Nat) : Decidable (image.IsCode o s) := inferInstanceAs (Decidable (_ ∧ _))

def HasCode (o : Nat) : Prop := image.IsText o ∧ ∃ s, image.IsCode o s

def codeAt (o s : Nat) : Nat × Nat :=
  (behind image.header (image.field (sectionAt o s + 32) 8), image.field (sectionAt o s + 40) 8)

def Inside (span : Span) : Prop :=
  span.In image.header (image.header + (32 + image.sizeofcmds))

instance (span : Span) : Decidable (image.Inside span) :=
  inferInstanceAs (Decidable (span.In _ _))

/-- The command with the number `i`, counted from the one at `o`. -/
def commandFrom (o : Nat) : Nat → Nat
  | 0 => o
  | i + 1 => commandFrom (o + image.cmdsize o) i

/-- The commands in the header tile their region, a segment has room for its sections, and
`__TEXT` and its `__text` are there once at most. -/
structure WellFormed : Prop where
  magic : image.field 0 4 = mhMagic64
  size : ∀ i < image.ncmds, 8 ≤ image.cmdsize (image.commandFrom 32 i)
  segment : ∀ i < image.ncmds, image.cmd (image.commandFrom 32 i) = lcSegment64 →
    image.cmdsize (image.commandFrom 32 i) =
      72 + 80 * image.nsects (image.commandFrom 32 i)
  fills : image.commandFrom 32 image.ncmds = 32 + image.sizeofcmds
  text : ∀ i < image.ncmds, ∀ j < image.ncmds, image.IsText (image.commandFrom 32 i) →
    image.IsText (image.commandFrom 32 j) → i = j
  code : ∀ i < image.ncmds, image.IsText (image.commandFrom 32 i) → ∀ s t,
    image.IsCode (image.commandFrom 32 i) s → image.IsCode (image.commandFrom 32 i) t → s = t

/-- The address of a section in memory: the segment was linked at `vmaddr` and is at the header. -/
def slid (o s : Nat) : Nat :=
  (image.header + (2 ^ 64 - image.vmaddr o) + image.field (sectionAt o s + 32) 8) % 2 ^ 64

def workBound (sizeofcmds : Nat) : Nat := 3 + sizeofcmds * (sizeofcmds + 8)

/-- The walk reads the header and its commands only, adds without overflow where programs are
mapped, does a work that the size of the commands bounds, and finds `__text`. -/
structure Walks : Prop where
  inside : ∀ span ∈ (machoTextSection image.mem image.header).reads, image.Inside span
  exact : image.header < 2 ^ 47 →
    ∀ x ∈ (machoTextSection image.mem image.header).results, x < 2 ^ 64
  bounded : (machoTextSection image.mem image.header).reads.length ≤ workBound image.sizeofcmds
  finds : image.WellFormed → ∀ found,
    (machoTextSection image.mem image.header).value = some found ↔
      ∃ i < image.ncmds, image.IsText (image.commandFrom 32 i) ∧
        ∃ s, image.IsCode (image.commandFrom 32 i) s ∧
          found = (image.slid (image.commandFrom 32 i) s,
            image.field (sectionAt (image.commandFrom 32 i) s + 40) 8)

-- ---------------------------------------------------------------------------
-- What is looked at
-- ---------------------------------------------------------------------------

/-- The command lies in the region of the commands. -/
def Complete (o : Nat) : Prop :=
  o + 8 ≤ 32 + image.sizeofcmds ∧ image.cmdsize o ≠ 0 ∧
    o + image.cmdsize o ≤ 32 + image.sizeofcmds

/-- The command with the number `i` of the `n` from `o` on is complete, as are those before it,
and none of these has the code. -/
def Reached (o n i : Nat) : Prop :=
  i < n ∧ (∀ j ≤ i, image.Complete (image.commandFrom o j)) ∧
    ∀ j < i, ¬ image.HasCode (image.commandFrom o j)

def firstCode (o : Nat) : Option Nat :=
  (List.range (image.nsects o)).find? fun s => decide (image.IsCode o s)

/-- Where the part of a segment that decides about it ends: the name, the number of sections, and
the sections up to the first `__text`, of which the address and the size count too. -/
def extent (o : Nat) : Nat :=
  if Named (image.name (o + 8)) "__TEXT" then
    match image.firstCode o with
    | some s => sectionAt o s + 48
    | none => if image.nsects o = 0 then o + 68 else sectionAt o (image.nsects o - 1) + 16
  else o + 24

/-- That part of each segment is in the region of the commands. -/
def Fits : Prop :=
  image.field 0 4 = mhMagic64 → ∀ i, image.Reached 32 image.ncmds i →
    image.cmd (image.commandFrom 32 i) = lcSegment64 →
    image.extent (image.commandFrom 32 i) ≤ 32 + image.sizeofcmds

/-- A `__TEXT` that has the code was linked at zero. -/
def Unslid : Prop :=
  image.WellFormed → ∀ i < image.ncmds, image.HasCode (image.commandFrom 32 i) →
    image.vmaddr (image.commandFrom 32 i) = 0

end Image

end ShinySongTools.Recon
