import ShinySongTools.Machine
import ShinySongTools.Debug.Wire

/-!
# The read loops of a connection

`handle_connection`, `read_exact_resilient` and `discard`, one `read` of the
socket at a time, on a connection that the peer keeps open. A read finds some
bytes or times out; only the loop that reads the length reads on after that.
-/

namespace ShinySongTools.Debug

open Framing

/-- The `read` that is waited for, with what its loop holds. -/
inductive Waits where
  | length (buffer : List UInt8)
  /-- In `read_exact_resilient`. -/
  | body (size : Nat) (buffer : List UInt8)
  /-- In `discard`. -/
  | discard (remaining : Nat)

/-- `waits` is `none` when the connection is closed. `handled` is what is passed
to `handle_frame` and what is answered with `payload_too_large`. -/
structure Connection where
  waits : Option Waits
  stream : List UInt8
  handled : List Received

/-- How a read ends: with `WouldBlock`, or with the bytes that are there, `more`
than one. -/
inductive Read where
  | wouldBlock
  | ready (more : Nat)
  deriving DecidableEq, Repr

def Waits.room : Waits → Nat
  | .length buffer => 4 - buffer.length
  | .body size buffer => size - buffer.length
  | .discard remaining => min remaining 4096

def beginFrame (length : Nat) : Waits × List Received :=
  if maxFrameBytes < length then (.discard length, [.oversized length])
  else if length = 0 then (.length [], [.frame []])
  else (.body length [], [])

def Waits.read (bytes : List UInt8) : Waits → Waits × List Received
  | .length buffer =>
    let buffer := buffer ++ bytes
    if buffer.length = 4 then beginFrame (decode32 buffer) else (.length buffer, [])
  | .body size buffer =>
    let buffer := buffer ++ bytes
    if buffer.length < size then (.body size buffer, []) else (.length [], [.frame buffer])
  | .discard remaining =>
    let remaining := remaining - bytes.length
    if 0 < remaining then (.discard remaining, []) else (.length [], [])

/-- The loop over the length sleeps and goes on; the other two return the error,
which closes the connection. -/
def Waits.timeout : Waits → Option Waits
  | .length buffer => some (.length buffer)
  | .body .. => none
  | .discard _ => none

/-- A read with bytes needs bytes that are not read yet. -/
def Connection.step (c : Connection) (read : Read) : Option Connection := do
  let waits ← c.waits
  match read with
  | .wouldBlock => some { c with waits := waits.timeout }
  | .ready more =>
    let n := min waits.room (more + 1)
    if c.stream = [] then none
    else
      let (waits, received) := waits.read (c.stream.take n)
      some ⟨some waits, c.stream.drop n, c.handled ++ received⟩

def Connection.start (frames : List (List UInt8)) : Connection :=
  ⟨some (.length []), frames.flatMap wire, []⟩

-- ---------------------------------------------------------------------------
-- The stream read byte by byte
-- ---------------------------------------------------------------------------

/-- The loop as a reader of single bytes. -/
def Waits.reader : Waits → Reader
  | .length buffer => .length buffer
  | .body size buffer => .body (size - buffer.length) buffer
  | .discard remaining => .discard remaining

def Waits.Hungry : Waits → Prop
  | .length buffer => buffer.length < 4
  | .body size buffer => buffer.length < size
  | .discard remaining => 0 < remaining

theorem beginFrame_reader (length : Nat) :
    ((beginFrame length).1.reader, (beginFrame length).2) = Reader.begin maxFrameBytes length ∧
      (beginFrame length).1.Hungry := by
  unfold beginFrame Reader.begin
  split
  case isTrue hlimit => exact ⟨rfl, Nat.zero_lt_of_lt hlimit⟩
  case isFalse =>
    split
    case isTrue => exact ⟨rfl, Nat.zero_lt_succ 3⟩
    case isFalse hne => exact ⟨rfl, Nat.pos_of_ne_zero hne⟩

theorem Waits.read_reader {waits : Waits} {bytes : List UInt8} (h : waits.Hungry)
    (hroom : bytes.length ≤ waits.room) :
    ((waits.read bytes).1.reader, (waits.read bytes).2) = waits.reader.run maxFrameBytes bytes ∧
      (waits.read bytes).1.Hungry := by
  cases waits with
  | length buffer =>
    have h : buffer.length < 4 := h
    have hroom : bytes.length ≤ 4 - buffer.length := hroom
    have hfits : buffer.length + bytes.length ≤ 4 := by omega
    rw [reader, Reader.run_length h hfits, read, List.length_append]
    split
    case isTrue => exact beginFrame_reader _
    case isFalse hne => exact ⟨rfl, by simp only [Hungry, List.length_append]; omega⟩
  | body size buffer =>
    have h : buffer.length < size := h
    have hroom : bytes.length ≤ size - buffer.length := hroom
    rw [reader, Reader.run_body buffer (Nat.sub_pos_of_lt h) hroom, read, List.length_append]
    by_cases hlast : bytes.length = size - buffer.length
    · rw [if_pos hlast, if_neg (by omega)]
      exact ⟨rfl, Nat.zero_lt_succ 3⟩
    · have hmissing : size - (buffer ++ bytes).length = size - buffer.length - bytes.length := by
        rw [List.length_append, Nat.sub_add_eq]
      have hless : (buffer ++ bytes).length < size := by
        rw [List.length_append]
        omega
      rw [if_neg hlast, if_pos (by omega), ← hmissing]
      exact ⟨rfl, hless⟩
  | discard remaining =>
    have h : 0 < remaining := h
    have hroom : bytes.length ≤ min remaining 4096 := hroom
    rw [reader, Reader.run_discard h (by omega), read]
    by_cases hlast : bytes.length = remaining
    · rw [if_pos hlast, if_neg (by omega)]
      exact ⟨rfl, Nat.zero_lt_succ 3⟩
    · rw [if_neg hlast, if_pos (by omega)]
      exact ⟨rfl, Nat.sub_pos_of_lt (by omega)⟩

-- ---------------------------------------------------------------------------
-- Runs
-- ---------------------------------------------------------------------------

/-- The connection is open and stands where the bytes read so far have led a
reader of single bytes, and what it has handled is what they say. -/
structure Aligned (frames : List (List UInt8)) (c : Connection) : Prop where
  read : ∃ waits consumed, c.waits = some waits ∧ waits.Hungry ∧
    consumed ++ c.stream = frames.flatMap wire ∧
    (waits.reader, c.handled) = Reader.start.run maxFrameBytes consumed

/-- The connection is open, each frame so far has met its fate, and no frame is
left when the stream is read. -/
structure Faithful (frames : List (List UInt8)) (c : Connection) : Prop where
  isOpen : c.waits ≠ none
  handled : ∃ later, c.handled ++ later = frames.map (fate maxFrameBytes)
  complete : c.stream = [] → c.handled = frames.map (fate maxFrameBytes)

/-- Only the read of a length times out. -/
def Patient (c : Connection) (read : Read) : Prop :=
  read = .wouldBlock → ∃ buffer, c.waits = some (.length buffer)

variable {frames : List (List UInt8)} {c c' : Connection} {read : Read}

theorem Aligned.start : Aligned frames (Connection.start frames) :=
  ⟨.length [], [], rfl, Nat.zero_lt_succ 3, rfl, rfl⟩

theorem Aligned.faithful (hframes : ∀ body ∈ frames, body.length < 2 ^ 32) (h : Aligned frames c) :
    Faithful frames c := by
  obtain ⟨waits, consumed, hwaits, -, hstream, hread⟩ := h
  have hhandled : c.handled = (Reader.start.run maxFrameBytes consumed).2 := congrArg Prod.snd hread
  have hall := Reader.run_append maxFrameBytes .start consumed c.stream
  rw [hstream, Reader.run_frames hframes, Prod.mk.injEq] at hall
  refine ⟨by rw [hwaits]; nofun, ⟨_, hhandled ▸ hall.2.symm⟩, fun hnil => ?_⟩
  rw [hnil, List.append_nil] at hstream
  rw [hhandled, hstream, Reader.run_frames hframes]

theorem Aligned.step (h : Aligned frames c) (hpatient : Patient c read)
    (hs : c.step read = some c') : Aligned frames c' := by
  obtain ⟨waits, consumed, hwaits, hhungry, hstream, hread⟩ := h
  cases read with
  | wouldBlock =>
    obtain ⟨buffer, hbuffer⟩ := hpatient rfl
    cases hwaits.symm.trans hbuffer
    simp only [Connection.step, hwaits, Option.bind_eq_bind, Option.bind_some,
      Option.some.injEq] at hs
    subst hs
    exact ⟨.length buffer, consumed, rfl, hhungry, hstream, hread⟩
  | ready more =>
    simp only [Connection.step, hwaits, Option.bind_eq_bind, Option.bind_some,
      Option.ite_none_left_eq_some, Option.some.injEq] at hs
    obtain ⟨-, rfl⟩ := hs
    have hroom : (c.stream.take (min waits.room (more + 1))).length ≤ waits.room := by
      rw [List.length_take]
      omega
    obtain ⟨hreader, hhungry'⟩ := Waits.read_reader hhungry hroom
    refine ⟨_, consumed ++ c.stream.take (min waits.room (more + 1)), rfl, hhungry', ?_, ?_⟩
    · rw [List.append_assoc, List.take_append_drop, hstream]
    · rw [Reader.run_append, ← hread, ← hreader]

theorem patient_of_open (h : Aligned frames c) (hs : c.step read = some c')
    (hopen : c'.waits ≠ none) : Patient c read := by
  rintro rfl
  obtain ⟨waits, consumed, hwaits, -⟩ := h
  simp only [Connection.step, hwaits, Option.bind_eq_bind, Option.bind_some,
    Option.some.injEq] at hs
  subst hs
  cases waits with
  | length buffer => exact ⟨buffer, hwaits⟩
  | body => exact absurd rfl hopen
  | discard => exact absurd rfl hopen

/-- However the stream is cut into reads, every frame meets its fate exactly if
only reads of a length time out. -/
theorem faithful_iff_patient (frames : List (List UInt8))
    (hframes : ∀ body ∈ frames, body.length < 2 ^ 32) (reads : List Read) :
    Machine.Always Connection.step (Faithful frames) (.start frames) reads ↔
      Machine.Each Connection.step Patient (.start frames) reads :=
  Machine.always_iff_each (fun _ h => h.faithful hframes) (fun _ _ _ h hp hs => h.step hp hs)
    (fun _ _ _ h hs hp => patient_of_open h hs hp.isOpen) .start

/-- Two frames, the second one empty, in reads that cut the first length and the
first body. -/
def cutReads : List Read :=
  [.ready 2, .wouldBlock, .ready 9, .ready 0, .ready 9, .ready 1, .wouldBlock, .ready 1]

theorem cut_faithful :
    Machine.Always Connection.step (Faithful [[65, 66], []]) (.start [[65, 66], []]) cutReads ∧
      (Machine.exec Connection.step (.start [[65, 66], []]) cutReads).map (·.handled) =
        some [.frame [65, 66], .frame []] := by
  refine ⟨(faithful_iff_patient [[65, 66], []] (by decide) cutReads).mpr ?_, rfl⟩
  refine Machine.Each.cons rfl nofun (Machine.Each.cons rfl (fun _ => ⟨[0, 0, 0], rfl⟩) ?_)
  refine Machine.Each.cons rfl nofun (Machine.Each.cons rfl nofun ?_)
  refine Machine.Each.cons rfl nofun (Machine.Each.cons rfl nofun ?_)
  refine Machine.Each.cons rfl (fun _ => ⟨[0, 0], rfl⟩) (Machine.Each.cons rfl nofun ?_)
  trivial

/-- The length arrives, and the body a moment later. -/
theorem late_body_closes : ¬ ∀ (frames : List (List UInt8)) (reads : List Read),
    (∀ body ∈ frames, body.length < 2 ^ 32) →
    Machine.Always Connection.step (Faithful frames) (.start frames) reads := by
  intro h
  have hclosed : Machine.exec Connection.step (.start [[65]]) [.ready 3, .wouldBlock] =
      some ⟨none, [65], []⟩ := rfl
  exact ((h [[65]] [.ready 3, .wouldBlock] (by decide)).exec hclosed).isOpen rfl

end ShinySongTools.Debug
