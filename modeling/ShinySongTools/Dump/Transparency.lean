import ShinySongTools.Core.Container
import ShinySongTools.Core.Replacement
import ShinySongTools.Dump.Targets

/-!
# The dump hooks, seen from the game

The six replacements, over managed strings and arrays of the game. Every read
of them is logged; what a read finds where there is no object is left open, and
so is where the capture code panics. Counters are left out.
-/

namespace ShinySongTools.Dump.Hooks

open Hook Effects Replacement

def dumpQueueCapacity : Nat := 256

-- ---------------------------------------------------------------------------
-- The game's memory
-- ---------------------------------------------------------------------------

/-- What `string_length` and `string_chars` return, and the units that are there. -/
structure ManagedString where
  length : Int32
  chars : Addr
  units : List UInt16
  stated : chars ≠ 0 → length.toInt.toNat ≤ units.length

/-- The live objects of the game. -/
structure Heap where
  string : Addr → Option ManagedString
  array : Addr → Option (List UInt8)
  stray : Addr → UInt32
  string_null : string 0 = none
  array_null : array 0 = none

inductive Read where
  | length (string : Addr)
  | chars (string : Addr)
  | units (string : Addr) (count : Nat)
  | maxLength (array : Addr)
  | elements (array : Addr) (count : Nat)
  deriving DecidableEq, Repr

/-- The read stays inside a live object. -/
def Read.Sound (heap : Heap) : Read → Prop
  | .length string | .chars string => (heap.string string).isSome = true
  | .units string count => ∃ object, heap.string string = some object ∧ count ≤ object.units.length
  | .maxLength array => (heap.array array).isSome = true
  | .elements array count => ∃ bytes, heap.array array = some bytes ∧ count ≤ bytes.length

def Heap.maxLength (heap : Heap) (array : Addr) : Nat :=
  match heap.array array with
  | some bytes => bytes.length
  | none => (heap.stray (array + 0x18)).toNat

def Heap.elements (heap : Heap) (array : Addr) (count : Nat) : List UInt8 :=
  match heap.array array with
  | some bytes => bytes.take count
  | none => (List.range count).map fun i => (heap.stray (array + 0x20 + .ofNat 64 i)).toUInt8

-- ---------------------------------------------------------------------------
-- A game call
-- ---------------------------------------------------------------------------

/-- Where capture code may panic. -/
inductive Point where
  | count
  | storeInstance
  | string
  | text
  | decode
  | capture
  | trySend
  | allocate
  | copy
  | sanitize
  | exists
  | write
  | outcome
  deriving DecidableEq, Repr

/-- `files` are those of `json_dir`. -/
structure DumpSites where
  records : BoundedQueue DumpRecord dumpQueueCapacity
  lyrics : BoundedQueue LyricsRecord dumpQueueCapacity
  instanceAddr : Addr
  files : String → Option (List UInt8)

/-- A call with arguments `A`: the cell `returned`, what the originals were
called with, the reads. -/
structure Call (A : Type) where
  returned : Addr
  entered : List (Addr × A)
  reads : List Read
  sites : DumpSites

def Call.new (sites : DumpSites) : Call A := ⟨0, [], [], sites⟩

/-- What a call meets. -/
structure World where
  heap : Heap
  panics : Point → Bool
  /-- Whether `fs::write` succeeds. -/
  writes : Bool

variable {A R α : Type}

namespace World

def reach (w : World) (point : Point) : Code (Call A) Unit :=
  if w.panics point then throw () else pure ()

end World

def update (f : Call A → Call A) : Code (Call A) Unit :=
  modify fun s => { s with own := f s.own }

def read (r : Read) : Code (Call A) Unit := update fun c => { c with reads := c.reads ++ [r] }

def setReturned (value : Addr) : Code (Call A) Unit := update fun c => { c with returned := value }

def getReturned : Code (Call A) Addr := do
  let s ← get
  pure s.own.returned

/-- The game's function, which returns this value. -/
def enter (args : A) (value : R) (original : Addr) : Code (Call A) R := do
  update fun c => { c with entered := c.entered ++ [(original, args)] }
  pure value

namespace World

/-- `CallbackIl2Cpp::string_utf16`. -/
def stringUtf16 (w : World) (string : Addr) : Code (Call A) (Option (List UInt16)) :=
  if string = 0 then pure none
  else do
    read (.length string)
    match w.heap.string string with
    | none => pure none
    | some object =>
      if object.length < 0 then pure none
      else if object.length = 0 then pure (some [])
      else do
        read (.chars string)
        if object.chars = 0 then pure none
        else do
          read (.units string object.length.toInt.toNat)
          pure (some (object.units.take object.length.toInt.toNat))

end World

-- ---------------------------------------------------------------------------
-- The replacements
-- ---------------------------------------------------------------------------

structure TextArgs where
  this : Addr
  category : Addr
  id : Int32
  method : Addr
  deriving DecidableEq, Repr

structure BytesArgs where
  path : Addr
  method : Addr
  deriving DecidableEq, Repr

structure LyricsArgs where
  this : Addr
  text : Addr
  method : Addr
  deriving DecidableEq, Repr

def sendRecord (record : DumpRecord) : Code (Call A) Unit := update fun c =>
  { c with sites := { c.sites with records := (c.sites.records.trySend record).2 } }

def captureText (w : World) (args : TextArgs) (value : Addr) : Code (Call TextArgs) Addr := do
  setReturned value
  w.reach .count
  w.reach .storeInstance
  update fun c => { c with sites := { c.sites with instanceAddr := args.this } }
  w.reach .string
  let categoryUtf16 ← w.stringUtf16 args.category
  w.reach .text
  let textUtf16 ← w.stringUtf16 value
  match categoryUtf16, textUtf16 with
  | some categoryUtf16, some textUtf16 => do
    w.reach .capture
    match DumpRecord.capture categoryUtf16 args.id textUtf16 with
    | some record => do
      w.reach .trySend
      sendRecord record
    | none => pure ()
  | _, _ => pure ()
  w.reach .outcome
  pure value

/-- What `call_original` leaves of a second call is the cell. -/
def originalOrReturned (site : HookSite) (args : A) (value : Addr) : Code (Call A) Addr := do
  match ← callOriginal site (enter args value) with
  | some value => pure value
  | none => getReturned

/-- The passthrough of the hooks that return a value. -/
def enterAndKeep (args : A) (value : Addr) (original : Addr) : Code (Call A) Addr := do
  let value ← enter args value original
  setReturned value
  pure value

def textReplacement (w : World) (site : HookSite) (slot : Addr) (args : TextArgs) (value : Addr) :
    Code (Call TextArgs) Addr :=
  tryCatch
    (dispatch site slot (enterAndKeep args value) getReturned do
      let value ← originalOrReturned site args value
      captureText w args value)
    fun _ => getReturned

/-- `get_text_or_null_replacement`. -/
def getTextOrNullReplacement := textReplacement

/-- `get_text_replacement`; it counts elsewhere. -/
def getTextReplacement := textReplacement

def captureBytes (w : World) (args : BytesArgs) (value : Addr) : Code (Call BytesArgs) Addr := do
  setReturned value
  w.reach .count
  w.reach .string
  match ← w.stringUtf16 args.path with
  | none => pure value
  | some pathUnits => do
    w.reach .decode
    let path := stringFromUtf16Lossy pathUnits
    if ¬ ".json".toList <:+ path.toList ∨ ['.', '.'] <:+: path.toList then pure value
    else do
      read (.maxLength value)
      let len := w.heap.maxLength value
      if len = 0 ∨ maxDataFileBytes < len then pure value
      else do
        w.reach .allocate
        read (.elements value len)
        let bytes := w.heap.elements value len
        w.reach .sanitize
        if ['.', '.'] <:+: (sanitized path).toList then pure value
        else do
          w.reach .exists
          let s ← get
          if s.own.sites.files (sanitized path) = none then do
            w.reach .write
            update fun c =>
              { c with
                sites :=
                  { c.sites with
                    files :=
                      if w.writes then Function.update c.sites.files (sanitized path) (some bytes)
                      else c.sites.files } }
            w.reach .outcome
            pure value
          else pure value

def getBytesReplacement (w : World) (site : HookSite) (slot : Addr) (args : BytesArgs)
    (value : Addr) : Code (Call BytesArgs) Addr :=
  tryCatch
    (dispatch site slot (enterAndKeep args value) getReturned do
      let value ← originalOrReturned site args value
      captureBytes w args value)
    fun _ => getReturned

def lyricsCapture (text : List UInt16) : Option LyricsRecord :=
  if fits : text.length ≤ textUtf16Capacity then some ⟨text, fits⟩ else none

def sendLyric (record : LyricsRecord) : Code (Call A) Unit := update fun c =>
  { c with sites := { c.sites with lyrics := (c.sites.lyrics.trySend record).2 } }

def captureLyric (w : World) (args : LyricsArgs) : Code (Call LyricsArgs) Unit := do
  w.reach .count
  w.reach .string
  match ← w.stringUtf16 args.text with
  | none => pure ()
  | some units => do
    w.reach .capture
    match lyricsCapture units with
    | none => pure ()
    | some record => do
      w.reach .trySend
      sendLyric record
      w.reach .outcome

def lyricsReplacement (w : World) (site : HookSite) (slot : Addr) (args : LyricsArgs) :
    Code (Call LyricsArgs) Unit :=
  tryCatch (dispatch site slot (enter args ()) (pure ()) (captureLyric w args)) fun _ => pure ()

/-- The three lyrics hooks differ in the source they tag a record with. -/
def updateLyricsReplacement := lyricsReplacement

def setLyricReplacement := lyricsReplacement

def tmpTextReplacement := lyricsReplacement

-- ---------------------------------------------------------------------------
-- What the game is owed
-- ---------------------------------------------------------------------------

/-- The original is called once, with these arguments; its value is returned,
and nothing is read but live objects. -/
def Transparent (heap : Heap) (original : Addr) (args : A) (value : R) (sites : DumpSites)
    (m : Code (Call A) R) : Prop :=
  Ends m (.start (.new sites))
    (fun result s => result = value ∧ s.own.entered = [(original, args)] ∧
      ∀ r ∈ s.own.reads, r.Sound heap)
    fun _ _ => False

inductive DumpHook where
  | getTextOrNull
  | getText
  | getBytes
  | updateLyrics
  | setLyric
  | tmpText
  deriving DecidableEq, Repr

structure Swapped where
  site : HookSite
  slot : Addr
  held : Held site slot

/-- One call of each hook, with what the originals return. -/
structure GameCalls where
  world : World
  sites : DumpSites
  hooks : DumpHook → Swapped
  textOrNull : TextArgs
  textOrNullValue : Addr
  text : TextArgs
  textValue : Addr
  bytes : BytesArgs
  bytesValue : Addr
  updateLyrics : LyricsArgs
  setLyric : LyricsArgs
  tmpText : LyricsArgs
  /-- The game passes and returns null or what the signatures say. -/
  strings : ∀ string ∈ [textOrNull.category, textOrNullValue, text.category, textValue, bytes.path,
    updateLyrics.text, setLyric.text, tmpText.text],
    string = 0 ∨ (world.heap.string string).isSome = true
  array : bytesValue = 0 ∨ (world.heap.array bytesValue).isSome = true

def GameCalls.Owed (g : GameCalls) (hook : DumpHook) (args : A) (value : R)
    (replacement : World → HookSite → Addr → Code (Call A) R) : Prop :=
  Transparent g.world.heap (g.hooks hook).site.originalAddr args value g.sites
    (replacement g.world (g.hooks hook).site (g.hooks hook).slot)

structure AllTransparent (g : GameCalls) : Prop where
  textOrNull : g.Owed .getTextOrNull g.textOrNull g.textOrNullValue fun w site slot =>
    getTextOrNullReplacement w site slot g.textOrNull g.textOrNullValue
  text : g.Owed .getText g.text g.textValue fun w site slot =>
    getTextReplacement w site slot g.text g.textValue
  bytes : g.Owed .getBytes g.bytes g.bytesValue fun w site slot =>
    getBytesReplacement w site slot g.bytes g.bytesValue
  updateLyrics : g.Owed .updateLyrics g.updateLyrics () fun w site slot =>
    updateLyricsReplacement w site slot g.updateLyrics
  setLyric : g.Owed .setLyric g.setLyric () fun w site slot =>
    setLyricReplacement w site slot g.setLyric
  tmpText : g.Owed .tmpText g.tmpText () fun w site slot =>
    tmpTextReplacement w site slot g.tmpText

def ManagedString.utf16 (string : ManagedString) : Option (List UInt16) :=
  if string.length < 0 then none
  else if string.length = 0 then some []
  else if string.chars = 0 then none
  else some (string.units.take string.length.toInt.toNat)

-- ---------------------------------------------------------------------------
-- Reading
-- ---------------------------------------------------------------------------

variable {w : World} {s : Shared (Call A)} {I : Shared (Call A) → Prop}

theorem reach_ends (point : Point) {post : Unit → Shared (Call A) → Prop}
    {thrown : Unit → Shared (Call A) → Prop} (hpost : w.panics point = false → post () s)
    (hthrown : thrown () s) : Ends (w.reach point) s post thrown := by
  unfold World.reach
  cases hpanics : w.panics point with
  | true => exact hthrown
  | false => exact hpost hpanics

theorem keeps_reach (point : Point) : Keeps I (w.reach point) := fun _ h =>
  reach_ends point (fun _ => h) h

theorem keeps_update {f : Call A → Call A} (h : ∀ s, I s → I { s with own := f s.own }) :
    Keeps I (update f) := Keeps.modify h

/-- Of a string or of null, the units are read, and all reads are sound. -/
theorem stringUtf16_ends {string : Addr}
    (hlive : string = 0 ∨ (w.heap.string string).isSome = true)
    (hread : ∀ s r, I s → r.Sound w.heap →
      I { s with own := { s.own with reads := s.own.reads ++ [r] } })
    (h : I s) {thrown : Unit → Shared (Call A) → Prop} :
    Ends (w.stringUtf16 string) s
      (fun units s' => I s' ∧ units = (w.heap.string string).bind ManagedString.utf16) thrown := by
  unfold World.stringUtf16
  split
  · next hnull =>
    refine Ends.pure ⟨h, ?_⟩
    rw [hnull, w.heap.string_null]
    rfl
  · next hne =>
    have hsome := hlive.resolve_left hne
    obtain ⟨object, hobject⟩ := Option.isSome_iff_exists.mp hsome
    have hlength := hread s (.length string) h hsome
    refine Ends.bind (R := fun _ s' => I s') (Ends.modify hlength) fun _ s' h => ?_
    rw [hobject]
    dsimp only
    rw [Option.bind_some, ManagedString.utf16]
    split
    · exact Ends.pure ⟨h, rfl⟩
    split
    · exact Ends.pure ⟨h, rfl⟩
    have hchars := hread s' (.chars string) h hsome
    refine Ends.bind (R := fun _ s' => I s') (Ends.modify hchars) fun _ s' h => ?_
    split
    · exact Ends.pure ⟨h, rfl⟩
    · next hchars =>
      have hunits := hread s' (.units string object.length.toInt.toNat) h
        ⟨object, hobject, object.stated hchars⟩
      exact Ends.bind (R := fun _ s' => I s') (Ends.modify hunits) fun _ s' h =>
        Ends.pure ⟨h, rfl⟩

-- ---------------------------------------------------------------------------
-- The hooks that return a value
-- ---------------------------------------------------------------------------

variable {original : Addr} {args : A} {value : Addr} {heap : Heap}

/-- The original was called, and only live objects were read. -/
structure Entered (heap : Heap) (original : Addr) (args : A) (s : Shared (Call A)) : Prop where
  asked : s.attempts.guard.needsOriginal = false
  entered : s.own.entered = [(original, args)]
  reads : ∀ r ∈ s.own.reads, r.Sound heap

/-- ... and the cell has its value. -/
structure Kept (heap : Heap) (original : Addr) (args : A) (value : Addr) (s : Shared (Call A)) :
    Prop extends Entered heap original args s where
  returned : s.own.returned = value

theorem sound_concat {reads : List Read} {r : Read} (h : ∀ r' ∈ reads, r'.Sound heap)
    (hr : r.Sound heap) : ∀ r' ∈ reads ++ [r], r'.Sound heap := by
  intro r' hr'
  obtain hold | hnew := List.mem_append.mp hr'
  · exact h r' hold
  · exact List.mem_singleton.mp hnew ▸ hr

theorem Kept.read (h : Kept heap original args value s) {r : Read} (hr : r.Sound heap) :
    Kept heap original args value { s with own := { s.own with reads := s.own.reads ++ [r] } } where
  asked := h.asked
  entered := h.entered
  reads := sound_concat h.reads hr
  returned := h.returned

theorem Kept.sites (h : Kept heap original args value s) (sites : DumpSites) :
    Kept heap original args value { s with own := { s.own with sites } } :=
  ⟨⟨h.asked, h.entered, h.reads⟩, h.returned⟩

theorem Entered.keep (h : Entered heap original args s) (value : Addr) :
    Kept heap original args value { s with own := { s.own with returned := value } } :=
  ⟨⟨h.asked, h.entered, h.reads⟩, rfl⟩

/-- Capture code that keeps what was entered and passes the value on. -/
def Captures (heap : Heap) (original : Addr) (args : A) (value : Addr) (s : Shared (Call A))
    (m : Code (Call A) Addr) : Prop :=
  Ends m s (fun result s' => result = value ∧ Kept heap original args value s')
    fun _ s' => Kept heap original args value s'

theorem captures_pure (h : Kept heap original args value s) :
    Captures heap original args value s (pure value) := Ends.pure ⟨rfl, h⟩

theorem transparent_of_captures {site : HookSite} {slot : Addr} (hheld : Held site slot)
    {sites : DumpSites} {capture : Addr → Code (Call A) Addr}
    (hcapture : Open site → ∀ s, Entered heap site.originalAddr args s →
      Captures heap site.originalAddr args value s (capture value)) :
    Transparent heap site.originalAddr args value sites
      (tryCatch
        (dispatch site slot (enterAndKeep args value) getReturned do
          let value ← originalOrReturned site args value
          capture value)
        fun _ => getReturned) := by
  refine Ends.tryCatch (C := fun _ _ => False) (dispatch_ends hheld (fun _ => ?_) fun hopen => ?_)
    fun _ _ h => h.elim
  · exact ⟨rfl, rfl, nofun⟩
  · have hentered : Ends (originalOrReturned site args value) (.start (.new sites))
        (fun result s => result = value ∧ Entered heap site.originalAddr args s) fun _ _ => False :=
      ⟨rfl, rfl, rfl, nofun⟩
    refine (hentered.mono (fun _ _ h => h) fun _ _ h => h.elim).bind ?_
    rintro _ s ⟨rfl, hs⟩
    refine (hcapture hopen s hs).mono ?_ ?_
    · rintro _ s' ⟨rfl, h⟩
      rw [h.asked]
      exact ⟨rfl, h.entered, h.reads⟩
    · intro _ s' h
      rw [h.asked, if_neg Bool.false_ne_true]
      exact Ends.get_bind (Ends.pure ⟨h.returned, h.entered, h.reads⟩)

theorem captures_bind {m : Code (Call A) α} {f : α → Code (Call A) Addr}
    {Q : α → Shared (Call A) → Prop}
    (hm : Ends m s Q fun _ s' => Kept heap original args value s')
    (hf : ∀ a s', Q a s' → Captures heap original args value s' (f a)) :
    Captures heap original args value s (m >>= f) := hm.bind hf

theorem captures_keeps {m : Code (Call A) α} {f : α → Code (Call A) Addr}
    (h : Kept heap original args value s) (hm : Keeps (Kept heap original args value) m)
    (hf : ∀ a s', Kept heap original args value s' → Captures heap original args value s' (f a)) :
    Captures heap original args value s (m >>= f) := captures_bind (hm s h) hf

theorem captures_string {f : Option (List UInt16) → Code (Call A) Addr} {string : Addr}
    (h : Kept w.heap original args value s)
    (hlive : string = 0 ∨ (w.heap.string string).isSome = true)
    (hf : ∀ s', Kept w.heap original args value s' → Captures w.heap original args value s'
      (f ((w.heap.string string).bind ManagedString.utf16))) :
    Captures w.heap original args value s (w.stringUtf16 string >>= f) := by
  refine captures_bind (stringUtf16_ends hlive (fun _ _ h hr => h.read hr) h) ?_
  rintro _ s' ⟨h, rfl⟩
  exact hf s' h

theorem keeps_sites (f : Call A → DumpSites) :
    Keeps (Kept heap original args value) (update fun c => { c with sites := f c }) :=
  keeps_update fun _ h => h.sites _

theorem captureText_captures {args : TextArgs} {s : Shared (Call TextArgs)}
    (hcategory : args.category = 0 ∨ (w.heap.string args.category).isSome = true)
    (hvalue : value = 0 ∨ (w.heap.string value).isSome = true)
    (h : Entered w.heap original args s) :
    Captures w.heap original args value s (captureText w args value) := by
  refine captures_bind (Q := fun _ s' => Kept w.heap original args value s')
    (Ends.modify (h.keep value)) fun _ s h => ?_
  refine captures_keeps h (keeps_reach _) fun _ s h => ?_
  refine captures_keeps h (keeps_reach _) fun _ s h => ?_
  refine captures_keeps h (keeps_sites _) fun _ s h => ?_
  refine captures_keeps h (keeps_reach _) fun _ s h => ?_
  refine captures_string h hcategory fun s h => ?_
  refine captures_keeps h (keeps_reach _) fun _ s h => ?_
  refine captures_string h hvalue fun s h => ?_
  have hout (s : Shared (Call TextArgs)) (h : Kept w.heap original args value s) :
      Captures w.heap original args value s (w.reach .outcome >>= fun _ => pure value) :=
    captures_keeps h (keeps_reach _) fun _ s h => captures_pure h
  dsimp only
  split
  · refine captures_keeps h (keeps_reach _) fun _ s h => ?_
    split
    · refine captures_keeps h (keeps_reach _) fun _ s h => ?_
      exact captures_keeps h (keeps_sites _) fun _ s h => hout s h
    · exact hout s h
  · exact hout s h

/-- There is no array, and the hook comes to read it. -/
structure NullCapture (w : World) (args : BytesArgs) (value : Addr) : Prop where
  value : value = 0
  panics : ∀ point ∈ [Point.count, .string, .decode], w.panics point = false
  path : ∃ units, (w.heap.string args.path).bind ManagedString.utf16 = some units ∧
    ".json".toList <:+ (stringFromUtf16Lossy units).toList ∧
    ¬ ['.', '.'] <:+: (stringFromUtf16Lossy units).toList

theorem maxLength_le {array : Addr} (h : (w.heap.array array).isSome = true) :
    (Read.elements array (w.heap.maxLength array)).Sound w.heap := by
  obtain ⟨bytes, hbytes⟩ := Option.isSome_iff_exists.mp h
  refine ⟨bytes, hbytes, ?_⟩
  rw [Heap.maxLength, hbytes]

theorem captures_reach {f : Unit → Code (Call A) Addr} (point : Point)
    (h : Kept w.heap original args value s)
    (hf : w.panics point = false → ∀ s', Kept w.heap original args value s' →
      Captures w.heap original args value s' (f ())) :
    Captures w.heap original args value s (w.reach point >>= f) :=
  captures_bind (Q := fun _ s' => w.panics point = false ∧ Kept w.heap original args value s')
    (reach_ends point (fun hpanics => ⟨hpanics, h⟩) h) fun _ s' hs' => hf hs'.1 s' hs'.2

theorem captureBytes_captures {args : BytesArgs} {s : Shared (Call BytesArgs)}
    (hpath : args.path = 0 ∨ (w.heap.string args.path).isSome = true)
    (hvalue : value = 0 ∨ (w.heap.array value).isSome = true)
    (hnull : ¬ NullCapture w args value) (h : Entered w.heap original args s) :
    Captures w.heap original args value s (captureBytes w args value) := by
  refine captures_bind (Q := fun _ s' => Kept w.heap original args value s')
    (Ends.modify (h.keep value)) fun _ s h => ?_
  refine captures_reach .count h fun hcount s h => ?_
  refine captures_reach .string h fun hstring s h => ?_
  refine captures_string h hpath fun s h => ?_
  cases hunits : (w.heap.string args.path).bind ManagedString.utf16 with
  | none => exact captures_pure h
  | some units =>
    refine captures_reach .decode h fun hdecode s h => ?_
    dsimp only
    split
    · exact captures_pure h
    · next hname =>
      have hlive : (w.heap.array value).isSome = true := by
        refine hvalue.resolve_left fun hzero => hnull ⟨hzero, ?_, units, hunits, ?_⟩
        · simp [hcount, hstring, hdecode]
        · obtain ⟨hjson, hdots⟩ := not_or.mp hname
          exact ⟨not_not.mp hjson, hdots⟩
      refine captures_bind (Q := fun _ s' => Kept w.heap original args value s')
        (Ends.modify (h.read hlive)) fun _ s h => ?_
      split
      · exact captures_pure h
      · refine captures_keeps h (keeps_reach _) fun _ s h => ?_
        refine captures_bind (Q := fun _ s' => Kept w.heap original args value s')
          (Ends.modify (h.read (maxLength_le hlive))) fun _ s h => ?_
        refine captures_keeps h (keeps_reach _) fun _ s h => ?_
        generalize sanitized (stringFromUtf16Lossy units) = name
        split
        · exact captures_pure h
        · refine captures_keeps h (keeps_reach _) fun _ s h => Ends.get_bind ?_
          split
          · refine captures_keeps h (keeps_reach _) fun _ s h => ?_
            refine captures_keeps h (keeps_sites _) fun _ s h => ?_
            exact captures_keeps h (keeps_reach _) fun _ s h => captures_pure h
          · exact captures_pure h

/-- The original was asked for, and this was read. -/
def HasRead (r : Read) (s : Shared (Call A)) : Prop :=
  s.attempts.guard.needsOriginal = false ∧ r ∈ s.own.reads

theorem keeps_read_hasRead (r r' : Read) : Keeps (HasRead r) (read r' : Code (Call A) Unit) :=
  keeps_update fun _ h => ⟨h.1, List.mem_append_left _ h.2⟩

/-- What follows the read of `max_length` leaves it in the log. -/
theorem captureBytes_reads {args : BytesArgs} {s : Shared (Call BytesArgs)}
    (hlive : (w.heap.string args.path).isSome = true) (hnull : NullCapture w args value)
    (hasked : s.attempts.guard.needsOriginal = false) :
    Ends (captureBytes w args value) s (fun _ s' => HasRead (.maxLength 0) s')
      fun _ s' => HasRead (.maxLength 0) s' := by
  obtain ⟨rfl, hpanics, units, hunits, hjson, hdots⟩ := hnull
  have hreach (point : Point) (hmem : point ∈ [Point.count, .string, .decode])
      (s : Shared (Call BytesArgs)) {thrown : Unit → Shared (Call BytesArgs) → Prop} :
      Ends (w.reach point) s (fun _ s' => s' = s) thrown := by
    rw [World.reach, hpanics point hmem]
    exact Ends.pure rfl
  refine Ends.bind (R := fun _ s' => s'.attempts.guard.needsOriginal = false)
    (Ends.modify hasked) fun _ s hasked => ?_
  refine (hreach .count (by simp) s).bind ?_
  rintro _ s rfl
  refine (hreach .string (by simp) s).bind ?_
  rintro _ s rfl
  refine (stringUtf16_ends (I := fun s => s.attempts.guard.needsOriginal = false) (.inr hlive)
    (fun _ _ h _ => h) hasked).bind ?_
  rintro _ s ⟨hasked, rfl⟩
  rw [hunits]
  refine (hreach .decode (by simp) s).bind ?_
  rintro _ s rfl
  dsimp only
  rw [if_neg (not_or.mpr ⟨not_not.mpr hjson, hdots⟩)]
  refine Ends.bind (R := fun _ s' => HasRead (.maxLength 0) s') (Ends.modify ?_) fun _ s h => ?_
  · exact ⟨hasked, List.mem_append_right _ (List.mem_singleton_self _)⟩
  have hdone (s : Shared (Call BytesArgs)) (h : HasRead (.maxLength 0) s) :
      Ends (pure 0 : Code (Call BytesArgs) Addr) s (fun _ s' => HasRead (.maxLength 0) s')
        fun _ s' => HasRead (.maxLength 0) s' := Ends.pure h
  have hkeeps (f : Call BytesArgs → DumpSites) : Keeps (HasRead (.maxLength 0))
      (update fun c => { c with sites := f c }) := keeps_update fun _ h => h
  split
  · exact hdone s h
  · refine (keeps_reach .allocate s h).bind fun _ s h => ?_
    refine (keeps_read_hasRead _ _ s h).bind fun _ s h => ?_
    refine (keeps_reach .sanitize s h).bind fun _ s h => ?_
    generalize sanitized (stringFromUtf16Lossy units) = name
    split
    · exact hdone s h
    · refine (keeps_reach .exists s h).bind fun _ s h => Ends.get_bind ?_
      split
      · refine (keeps_reach .write s h).bind fun _ s h => ?_
        refine (hkeeps _ s h).bind fun _ s h => ?_
        exact (keeps_reach .outcome s h).bind fun _ s h => hdone s h
      · exact hdone s h

theorem not_transparent_of_nullCapture {args : BytesArgs} {site : HookSite} {slot : Addr}
    {sites : DumpSites} (hheld : Held site slot) (hopen : Open site)
    (hlive : (w.heap.string args.path).isSome = true) (hnull : NullCapture w args value) :
    ¬ Transparent w.heap site.originalAddr args value sites
      (getBytesReplacement w site slot args value) := by
  intro h
  have hreads : Ends (getBytesReplacement w site slot args value) (.start (.new sites))
      (fun _ s => Read.maxLength 0 ∈ s.own.reads) fun _ _ => False := by
    refine Ends.tryCatch (C := fun _ _ => False)
      (dispatch_ends hheld (fun hclosed => absurd hopen hclosed) fun _ => ?_) fun _ _ h => h.elim
    have hentered : Ends (originalOrReturned site args value) (.start (.new sites))
        (fun result s => result = value ∧ s.attempts.guard.needsOriginal = false)
        fun _ _ => False :=
      ⟨rfl, rfl⟩
    refine (hentered.mono (fun _ _ h => h) fun _ _ h => h.elim).bind ?_
    rintro _ s ⟨rfl, hasked⟩
    refine (captureBytes_reads hlive hnull hasked).mono ?_ ?_
    · rintro _ s' ⟨hasked, hmem⟩
      rw [hasked, if_neg Bool.false_ne_true]
      exact hmem
    · rintro _ s' ⟨hasked, hmem⟩
      rw [hasked, if_neg Bool.false_ne_true]
      exact Ends.get_bind (Ends.pure hmem)
  refine ((hreads.and h).mono (fun _ s' hs' => ?_) fun _ _ h => h.1).absurd
  have hsound : (w.heap.array 0).isSome = true := hs'.2.2.2 _ hs'.1
  rw [w.heap.array_null] at hsound
  cases hsound

-- ---------------------------------------------------------------------------
-- The hooks that return nothing
-- ---------------------------------------------------------------------------

/-- The original is still to be called, and only live objects were read. -/
structure Unasked (heap : Heap) (s : Shared (Call A)) : Prop where
  asked : s.attempts.guard.needsOriginal = true
  entered : s.own.entered = []
  reads : ∀ r ∈ s.own.reads, r.Sound heap

theorem Unasked.read (h : Unasked heap s) {r : Read} (hr : r.Sound heap) :
    Unasked heap { s with own := { s.own with reads := s.own.reads ++ [r] } } where
  asked := h.asked
  entered := h.entered
  reads := sound_concat h.reads hr

theorem keeps_captureLyric {args : LyricsArgs}
    (htext : args.text = 0 ∨ (w.heap.string args.text).isSome = true) :
    Keeps (Unasked w.heap) (captureLyric w args) := by
  refine Keeps.bind (keeps_reach _) fun _ => Keeps.bind (keeps_reach _) fun _ => ?_
  refine Keeps.bind (fun s h => ?_) fun units => ?_
  · exact (stringUtf16_ends htext (fun _ _ h hr => h.read hr) h).mono (fun _ _ h => h.1)
      fun _ _ h => h
  · cases units with
    | none => exact Keeps.pure
    | some units =>
      refine Keeps.bind (keeps_reach _) fun _ => ?_
      split
      · exact Keeps.pure
      · refine Keeps.bind (keeps_reach _) fun _ => ?_
        refine Keeps.bind (keeps_update fun _ h => ⟨h.asked, h.entered, h.reads⟩) fun _ => ?_
        exact keeps_reach _

theorem lyrics_transparent {args : LyricsArgs} {site : HookSite} {slot : Addr} {sites : DumpSites}
    (hheld : Held site slot) (htext : args.text = 0 ∨ (w.heap.string args.text).isSome = true) :
    Transparent w.heap site.originalAddr args () sites (lyricsReplacement w site slot args) := by
  have hpass (s : Shared (Call LyricsArgs)) (h : Unasked w.heap s) :
      Ends (passOn site (enter args ())) s
        (fun _ s => s.own.entered = [(site.originalAddr, args)] ∧ ∀ r ∈ s.own.reads, r.Sound w.heap)
        fun _ _ => False := by
    refine ⟨?_, h.reads⟩
    exact congrArg (· ++ [(site.originalAddr, args)]) h.entered
  have hstart : Unasked w.heap (.start (.new sites) : Shared (Call LyricsArgs)) := ⟨rfl, rfl, nofun⟩
  have hdispatch : Ends (dispatch site slot (enter args ()) (pure ()) (captureLyric w args))
      (.start (.new sites))
      (fun _ s => s.own.entered = [(site.originalAddr, args)] ∧ ∀ r ∈ s.own.reads, r.Sound w.heap)
      fun _ _ => False := by
    refine dispatch_ends hheld (fun _ => hpass _ hstart) fun _ => ?_
    refine (keeps_captureLyric htext _ hstart).mono ?_ ?_
    all_goals
      intro _ s' h
      rw [h.asked, if_pos rfl]
      exact hpass s' h
  refine Ends.tryCatch (hdispatch.mono (fun _ _ h => ⟨rfl, h⟩) fun _ _ h => h) fun _ _ h => h.elim

-- ---------------------------------------------------------------------------
-- All six
-- ---------------------------------------------------------------------------

/-- Both gates are open for `get_bytes_replacement` and its capture reads null. -/
def ReadsNull (g : GameCalls) : Prop :=
  Open (g.hooks .getBytes).site ∧ NullCapture g.world g.bytes g.bytesValue

theorem bytes_transparent_iff (g : GameCalls) :
    (g.Owed .getBytes g.bytes g.bytesValue fun w site slot =>
      getBytesReplacement w site slot g.bytes g.bytesValue) ↔ ¬ ReadsNull g := by
  have hpath := g.strings g.bytes.path (by simp)
  constructor
  · rintro h ⟨hopen, hnull⟩
    obtain ⟨units, hunits, -⟩ := hnull.path
    obtain ⟨object, hobject, -⟩ := Option.bind_eq_some_iff.mp hunits
    exact not_transparent_of_nullCapture (g.hooks .getBytes).held hopen (by simp [hobject]) hnull h
  · intro hnull
    exact transparent_of_captures (g.hooks .getBytes).held fun hopen _ hs =>
      captureBytes_captures hpath g.array (fun h => hnull ⟨hopen, h⟩) hs

/-- All six are transparent to the game exactly when `get_bytes_replacement`
does not come to read an array where the original returned null. -/
theorem transparent_iff (g : GameCalls) : AllTransparent g ↔ ¬ ReadsNull g := by
  constructor
  · exact fun h => (bytes_transparent_iff g).mp h.bytes
  · intro hnull
    refine ⟨?_, ?_, (bytes_transparent_iff g).mpr hnull, ?_, ?_, ?_⟩
    · exact transparent_of_captures (g.hooks .getTextOrNull).held fun _ _ hs =>
        captureText_captures (g.strings _ (by simp)) (g.strings _ (by simp)) hs
    · exact transparent_of_captures (g.hooks .getText).held fun _ _ hs =>
        captureText_captures (g.strings _ (by simp)) (g.strings _ (by simp)) hs
    · exact lyrics_transparent (g.hooks .updateLyrics).held (g.strings _ (by simp))
    · exact lyrics_transparent (g.hooks .setLyric).held (g.strings _ (by simp))
    · exact lyrics_transparent (g.hooks .tmpText).held (g.strings _ (by simp))

/-- `a.json`. -/
def jsonPath : ManagedString where
  length := 6
  chars := 0x20
  units := [97, 46, 106, 115, 111, 110]
  stated _ := by decide

def jsonHeap : Heap where
  string string := if string = 0x10 then some jsonPath else none
  array _ := none
  stray _ := 0
  string_null := by decide
  array_null := rfl

def swapped : Swapped where
  site := ⟨true, 1, some ⟨⟨1⟩, 2⟩, true, true, true⟩
  slot := 2
  held := ⟨rfl, ⟨_, rfl, rfl⟩, by decide⟩

/-- `GetBytes` finds no file `a.json`. -/
def missingFile : GameCalls where
  world := ⟨jsonHeap, fun _ => false, true⟩
  sites := ⟨.new, .new, 0, fun _ => none⟩
  hooks _ := swapped
  textOrNull := ⟨0, 0, 0, 0⟩
  textOrNullValue := 0
  text := ⟨0, 0, 0, 0⟩
  textValue := 0
  bytes := ⟨0x10, 0⟩
  bytesValue := 0
  updateLyrics := ⟨0, 0, 0⟩
  setLyric := ⟨0, 0, 0⟩
  tmpText := ⟨0, 0, 0⟩
  strings := by simp [jsonHeap]
  array := .inl rfl

/-- Then the hook reads the length of an array at null. -/
theorem missingFile_reads_null : ¬ AllTransparent missingFile := by
  intro h
  refine (bytes_transparent_iff missingFile).mp h.bytes ⟨⟨rfl, rfl⟩, rfl, fun _ _ => rfl, ?_⟩
  exact ⟨[97, 46, 106, 115, 111, 110], rfl, by decide +kernel, by decide +kernel⟩

end ShinySongTools.Dump.Hooks
