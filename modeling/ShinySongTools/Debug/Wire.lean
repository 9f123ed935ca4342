import ShinySongTools.Framing
import ShinySongTools.Debug.Transport

/-!
# The two ends of the debug socket

`request-frame` and `read-response` of the client script, `encode_frame` and
the read loop of the I/O worker. The script writes into a `ByteBuffer` it has
allocated for `count` of the text, which is the number of UTF-16 code units;
what it puts there are the UTF-8 bytes. A string of the script is taken as its
characters.

The JSON libraries are parameters: `generateString` and `parseString` are the
script's, `toVec` is the worker's.
-/

namespace ShinySongTools.Debug

open Framing

def maxFrameBytes : Nat := 1024 * 1024

inductive ClientError where
  | bufferOverflow
  | illegalArgument
  | closed
  | malformed
  deriving DecidableEq, Repr

/-- A `java.nio.ByteBuffer` while it is being filled. -/
structure ByteBuffer where
  capacity : Nat
  filled : List UInt8

namespace ByteBuffer

/-- The capacity is an `int`. -/
def allocate (capacity : Int) : Except ClientError ByteBuffer :=
  if capacity < 0 ∨ 2 ^ 31 ≤ capacity then .error .illegalArgument else .ok ⟨capacity.toNat, []⟩

def put (buf : ByteBuffer) (bytes : List UInt8) : Except ClientError ByteBuffer :=
  if buf.filled.length + bytes.length ≤ buf.capacity then
    .ok { buf with filled := buf.filled ++ bytes }
  else .error .bufferOverflow

def putInt (buf : ByteBuffer) (value : Nat) : Except ClientError ByteBuffer :=
  buf.put (encode32 value)

end ByteBuffer

def utf16Size (c : Char) : Nat := if c.val ≤ 0xFFFF then 1 else 2

/-- `count` of a string. -/
def count (text : String) : Nat := (text.toList.map utf16Size).sum

def getBytes (text : String) : List UInt8 := text.toList.flatMap String.utf8EncodeChar

def getInt (bytes : List UInt8) : Int := (BitVec.ofNat 32 (decode32 bytes)).toInt

def readExact (stream : List UInt8) (n : Int) : Except ClientError (List UInt8 × List UInt8) := do
  let buf ← ByteBuffer.allocate n
  if stream.length < buf.capacity then throw .closed
  pure (stream.take buf.capacity, stream.drop buf.capacity)

def requestBody (method : String) (params : Json) (id : Nat) : Json :=
  .obj [("jsonrpc", .str "2.0"), ("id", .num (toString id)), ("method", .str method),
    ("params", params)]

def requestFrame (generateString : Json → String) (method : String) (params : Json) (id : Nat) :
    Except ClientError (List UInt8) := do
  let body := generateString (requestBody method params id)
  let buf ← ByteBuffer.allocate (4 + count body : Nat)
  let buf ← buf.putInt (count body)
  let buf ← buf.put (getBytes body)
  pure buf.filled

def readResponse (parseString : List UInt8 → Option Json) (stream : List UInt8) :
    Except ClientError (Json × List UInt8) := do
  let (header, stream) ← readExact stream 4
  let (body, stream) ← readExact stream (getInt header)
  match parseString body with
  | some value => pure (value, stream)
  | none => throw .malformed

/-- `none` stands for an I/O error, which ends the connection. -/
def encodeFrame (toVec : Json → List UInt8) (body : Json) : Option (List UInt8) :=
  let json := toVec body
  if json.length < 2 ^ 32 then some (encode32 json.length ++ json) else none

/-- The worker reads the request's bytes as one frame, and what follows as if
it had read nothing before. -/
def RequestAgrees (generateString : Json → String) (method : String) (params : Json) (id : Nat) :
    Prop :=
  let body := getBytes (generateString (requestBody method params id))
  requestFrame generateString method params id = .ok (encode32 body.length ++ body) ∧
    ∀ rest, Reader.start.run maxFrameBytes (encode32 body.length ++ body ++ rest) =
      ((Reader.start.run maxFrameBytes rest).1,
        .frame body :: (Reader.start.run maxFrameBytes rest).2)

/-- The client reads the response back and no byte more. -/
def ResponseAgrees (toVec : Json → List UInt8) (parseString : List UInt8 → Option Json)
    (response : Json) : Prop :=
  ∃ frame, encodeFrame toVec response = some frame ∧
    ∀ rest, readResponse parseString (frame ++ rest) = .ok (response, rest)

def IsAscii (text : String) : Prop := ∀ c ∈ text.toList, c.val ≤ 0x7F

instance (text : String) : Decidable (IsAscii text) :=
  List.decidableBAll (fun c : Char => c.val ≤ 0x7F) text.toList

-- ---------------------------------------------------------------------------
-- Code units and bytes
-- ---------------------------------------------------------------------------

/-- A character takes as many bytes as code units if it is ASCII, and more
otherwise. -/
theorem utf16Size_utf8Size (c : Char) :
    utf16Size c ≤ c.utf8Size ∧ (c.utf8Size ≤ utf16Size c ↔ c.val ≤ 0x7F) := by
  have hutf8 : c.utf8Size = if c.val.toNat ≤ 0x7F then 1 else if c.val.toNat ≤ 0x7FF then 2 else
      if c.val.toNat ≤ 0xFFFF then 3 else 4 := rfl
  have hutf16 : utf16Size c = if c.val.toNat ≤ 0xFFFF then 1 else 2 := rfl
  have hascii : c.val ≤ 0x7F ↔ c.val.toNat ≤ 0x7F := Iff.rfl
  rw [hutf8, hutf16, hascii]
  by_cases h : c.val.toNat ≤ 0x7F
  · rw [if_pos h, if_pos (by omega)]
    omega
  · rw [if_neg h]
    split
    · split <;> omega
    · rw [if_neg (by omega)]
      omega

theorem count_getBytes (text : String) :
    count text ≤ (getBytes text).length ∧ ((getBytes text).length ≤ count text ↔ IsAscii text) := by
  unfold count getBytes IsAscii
  induction text.toList with
  | nil => simp
  | cons c cs ih =>
    obtain ⟨hle, hiff⟩ := ih
    obtain ⟨hc, hciff⟩ := utf16Size_utf8Size c
    rw [List.map_cons, List.sum_cons, List.flatMap_cons, List.length_append,
      String.length_utf8EncodeChar, List.forall_mem_cons, ← hciff, ← hiff]
    omega

-- ---------------------------------------------------------------------------
-- Both directions
-- ---------------------------------------------------------------------------

@[simp] theorem ok_bind (a : α) (f : α → Except ε β) : (Except.ok a >>= f) = f a := rfl

@[simp] theorem error_bind (e : ε) (f : α → Except ε β) : (Except.error e >>= f) = .error e := rfl

theorem allocate_ok {n : Nat} (h : n < 2 ^ 31) : ByteBuffer.allocate n = .ok ⟨n, []⟩ := by
  unfold ByteBuffer.allocate
  rw [if_neg (by omega), Int.toNat_natCast]

/-- The length is in, and there is room for `count` bytes. -/
theorem requestFrame_eq (generateString : Json → String) (method : String) (params : Json)
    (id : Nat)
    (h : 4 + count (generateString (requestBody method params id)) < 2 ^ 31) :
    requestFrame generateString method params id =
      let body := generateString (requestBody method params id)
      if (getBytes body).length ≤ count body then .ok (encode32 (count body) ++ getBytes body)
      else .error .bufferOverflow := by
  simp only [requestFrame, allocate_ok h, ByteBuffer.putInt, ByteBuffer.put, ok_bind,
    length_encode32,
    List.length_nil, Nat.zero_add, Nat.le_add_right, if_true, List.nil_append,
    Nat.add_le_add_iff_left]
  split
  · rfl
  · rfl

theorem requestAgrees_iff (generateString : Json → String) (method : String) (params : Json)
    (id : Nat)
    (hfits : (getBytes (generateString (requestBody method params id))).length ≤ maxFrameBytes) :
    RequestAgrees generateString method params id ↔
      IsAscii (generateString (requestBody method params id)) := by
  obtain ⟨hle, hiff⟩ := count_getBytes (generateString (requestBody method params id))
  have hsmall : 4 + count (generateString (requestBody method params id)) < 2 ^ 31 := by
    unfold maxFrameBytes at hfits
    omega
  have hframe := requestFrame_eq generateString method params id hsmall
  dsimp only at hframe
  constructor
  · rintro ⟨hok, -⟩
    rw [hframe] at hok
    split at hok
    case isTrue hroom => exact hiff.mp hroom
    case isFalse => cases hok
  · intro hascii
    have hroom := hiff.mpr hascii
    rw [if_pos hroom, Nat.le_antisymm hle hroom] at hframe
    exact ⟨hframe, fun rest =>
      Reader.run_frame hfits (by unfold maxFrameBytes at hfits; omega) rest⟩

theorem readExact_append {bytes : List UInt8} (h : bytes.length < 2 ^ 31) (rest : List UInt8) :
    readExact (bytes ++ rest) bytes.length = .ok (bytes, rest) := by
  simp only [readExact, allocate_ok h, ok_bind, List.length_append]
  rw [if_neg (by omega), List.take_left, List.drop_left]
  rfl

theorem getInt_encode32 (h : n < 2 ^ 32) :
    getInt (encode32 n) = if n < 2 ^ 31 then (n : Int) else n - 2 ^ 32 := by
  rw [getInt, decode32_encode32 h, BitVec.toInt_eq_toNat_cond, BitVec.toNat_ofNat,
    Nat.mod_eq_of_lt h]
  split <;> split <;> omega

theorem responseAgrees_iff {toVec : Json → List UInt8} {parseString : List UInt8 → Option Json}
    {response : Json} (hjson : parseString (toVec response) = some response) :
    ResponseAgrees toVec parseString response ↔ (toVec response).length < 2 ^ 31 := by
  have hread (rest : List UInt8) (h : (toVec response).length < 2 ^ 32) :
      readResponse parseString (encode32 (toVec response).length ++ toVec response ++ rest) =
        readExact (toVec response ++ rest) (getInt (encode32 (toVec response).length)) >>=
          fun read =>
          match parseString read.1 with
          | some value => pure (value, read.2)
          | none => throw .malformed := by
    have hlength : (encode32 (toVec response).length).length < 2 ^ 31 := by simp
    have hheader := readExact_append hlength (toVec response ++ rest)
    rw [length_encode32] at hheader
    rw [readResponse, List.append_assoc, show (4 : Int) = ((4 : Nat) : Int) from rfl, hheader,
      ok_bind]
  constructor
  · rintro ⟨frame, hframe, hresponse⟩
    simp only [encodeFrame] at hframe
    split at hframe
    case isFalse => cases hframe
    case isTrue h =>
      cases hframe
      refine Nat.lt_of_not_le fun hbig => ?_
      have := hresponse []
      rw [hread [] h, getInt_encode32 h, if_neg (Nat.not_lt.mpr hbig)] at this
      have hnegative : ByteBuffer.allocate ((toVec response).length - 2 ^ 32) =
          .error .illegalArgument := if_pos (.inl (by omega))
      rw [readExact, hnegative] at this
      cases this
  · intro h
    refine ⟨_, if_pos (by omega), fun rest => ?_⟩
    rw [hread rest (by omega), getInt_encode32 (by omega), if_pos h, readExact_append h, ok_bind]
    simp only [hjson]
    rfl

/-- Both ends agree on the request exactly when its text is ASCII, and on the
response exactly when its length is a positive `int`. -/
theorem frames_agree_iff {toVec : Json → List UInt8} {parseString : List UInt8 → Option Json}
    {response : Json} (generateString : Json → String) (method : String) (params : Json) (id : Nat)
    (hfits : (getBytes (generateString (requestBody method params id))).length ≤ maxFrameBytes)
    (hjson : parseString (toVec response) = some response) :
    RequestAgrees generateString method params id ∧ ResponseAgrees toVec parseString response ↔
      IsAscii (generateString (requestBody method params id)) ∧
        (toVec response).length < 2 ^ 31 :=
  and_congr (requestAgrees_iff generateString method params id hfits) (responseAgrees_iff hjson)

def plainText : Json → String
  | .obj [_, ("id", .num id), ("method", .str method), _] =>
    "\x7b\"jsonrpc\":\"2.0\",\"id\":" ++ id ++ ",\"method\":\"" ++ method ++
      "\",\"params\":\x7b\x7d\x7d"
  | _ => ""

theorem frames_agree_ascii :
    RequestAgrees plainText "runtime.plugins" (.obj []) 1 ∧
      ResponseAgrees (fun _ => getBytes "null") (fun _ => some .null) .null :=
  (frames_agree_iff plainText "runtime.plugins" (.obj []) 1 (by decide +kernel) rfl).mpr
    ⟨by decide +kernel, by decide +kernel⟩

/-- One letter outside ASCII, and the buffer is a byte short. -/
theorem accented_method_overflows : ¬ ∀ (toVec : Json → List UInt8)
    (parseString : List UInt8 → Option Json) (response : Json) (generateString : Json → String)
    (method : String) (params : Json) (id : Nat),
    (getBytes (generateString (requestBody method params id))).length ≤ maxFrameBytes →
    parseString (toVec response) = some response →
    RequestAgrees generateString method params id ∧ ResponseAgrees toVec parseString response := by
  intro h
  obtain ⟨⟨hok, -⟩, -⟩ := h (fun _ => getBytes "null") (fun _ => some .null) .null plainText
    "café" (.obj []) 1 (by decide +kernel) rfl
  have hoverflow : requestFrame plainText "café" (.obj []) 1 = .error .bufferOverflow := rfl
  rw [hoverflow] at hok
  cases hok

end ShinySongTools.Debug
