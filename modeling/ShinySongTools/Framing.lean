import Mathlib

/-!
# Length-prefixed frames

A frame is a four-byte big-endian length and as many bytes. The reader takes
one byte at a time, so what it reads does not depend on how the stream was cut
into reads; a length over the limit is reported and its bytes are skipped.
-/

namespace Framing

/-- Four bytes, the most significant first. -/
def encode32 (n : Nat) : List UInt8 :=
  [.ofNat (n / 2 ^ 24), .ofNat (n / 2 ^ 16), .ofNat (n / 2 ^ 8), .ofNat n]

def decode32 (bytes : List UInt8) : Nat := bytes.foldl (fun n b => n * 256 + b.toNat) 0

theorem decode32_encode32 (h : n < 2 ^ 32) : decode32 (encode32 n) = n := by
  simp only [decode32, encode32, List.foldl_cons, List.foldl_nil, UInt8.toNat_ofNat']
  omega

@[simp] theorem length_encode32 (n : Nat) : (encode32 n).length = 4 := rfl

inductive Reader where
  | length (got : List UInt8)
  | body (missing : Nat) (got : List UInt8)
  | discard (remaining : Nat)

inductive Received where
  | frame (body : List UInt8)
  | oversized (length : Nat)

def Reader.start : Reader := .length []

/-- The four length bytes are there. -/
def Reader.begin (limit length : Nat) : Reader × List Received :=
  if limit < length then (.discard length, [.oversized length])
  else if length = 0 then (.start, [.frame []])
  else (.body length [], [])

def Reader.feed (limit : Nat) : Reader → UInt8 → Reader × List Received
  | .length got, b =>
    if got.length = 3 then Reader.begin limit (decode32 (got ++ [b]))
    else (.length (got ++ [b]), [])
  | .body missing got, b =>
    if missing = 1 then (.start, [.frame (got ++ [b])]) else (.body (missing - 1) (got ++ [b]), [])
  | .discard remaining, _ => if remaining = 1 then (.start, []) else (.discard (remaining - 1), [])

def Reader.run (limit : Nat) (r : Reader) : List UInt8 → Reader × List Received
  | [] => (r, [])
  | b :: bytes =>
    let (r, received) := r.feed limit b
    let (r, later) := Reader.run limit r bytes
    (r, received ++ later)

theorem Reader.run_append (limit : Nat) (r : Reader) (xs ys : List UInt8) :
    r.run limit (xs ++ ys) =
      (((r.run limit xs).1.run limit ys).1,
        (r.run limit xs).2 ++ ((r.run limit xs).1.run limit ys).2) := by
  induction xs generalizing r with
  | nil => rfl
  | cons x xs ih =>
    simp only [List.cons_append, run]
    rw [ih]
    simp

theorem Reader.run_length {got bytes : List UInt8} (hgot : got.length < 4)
    (h : got.length + bytes.length ≤ 4) :
    Reader.run limit (.length got) bytes =
      if got.length + bytes.length = 4 then Reader.begin limit (decode32 (got ++ bytes))
      else (.length (got ++ bytes), []) := by
  induction bytes generalizing got with
  | nil =>
    rw [if_neg (by simp; omega), List.append_nil]
    rfl
  | cons b bytes ih =>
    rw [List.length_cons] at h ⊢
    by_cases hlast : got.length = 3
    · have hnil : bytes = [] := List.length_eq_zero_iff.mp (by omega)
      subst hnil
      rw [if_pos (by simp [hlast])]
      simp only [run, feed, if_pos hlast, List.append_nil]
    · have hlength : (got ++ [b]).length = got.length + 1 := by simp
      have hfeed : Reader.feed limit (.length got) b = (.length (got ++ [b]), []) := if_neg hlast
      have hrest := @ih (got ++ [b]) (by omega) (by omega)
      simp only [run, hfeed, hrest, hlength, List.append_assoc, List.singleton_append,
        List.nil_append, Nat.add_assoc, Nat.add_comm 1]

theorem Reader.run_body {missing : Nat} (got : List UInt8) {bytes : List UInt8}
    (hmissing : 0 < missing) (h : bytes.length ≤ missing) :
    Reader.run limit (.body missing got) bytes =
      if bytes.length = missing then (.start, [.frame (got ++ bytes)])
      else (.body (missing - bytes.length) (got ++ bytes), []) := by
  induction bytes generalizing got missing with
  | nil =>
    rw [if_neg (by simp; omega), List.append_nil]
    rfl
  | cons b bytes ih =>
    rw [List.length_cons] at h ⊢
    by_cases hlast : missing = 1
    · have hnil : bytes = [] := List.length_eq_zero_iff.mp (by omega)
      subst hlast hnil
      rfl
    · have hfeed : Reader.feed limit (.body missing got) b =
          (.body (missing - 1) (got ++ [b]), []) := if_neg hlast
      have hiff : bytes.length = missing - 1 ↔ bytes.length + 1 = missing := by omega
      have hsub : missing - 1 - bytes.length = missing - (bytes.length + 1) := by omega
      have hrest := @ih (missing - 1) (got ++ [b]) (by omega) (by omega)
      simp only [run, hfeed, hrest, hiff, hsub, List.append_assoc, List.singleton_append,
        List.nil_append]

theorem Reader.run_discard {remaining : Nat} {bytes : List UInt8} (hremaining : 0 < remaining)
    (h : bytes.length ≤ remaining) :
    Reader.run limit (.discard remaining) bytes =
      (if bytes.length = remaining then .start else .discard (remaining - bytes.length), []) := by
  induction bytes generalizing remaining with
  | nil =>
    rw [if_neg (by simp; omega)]
    rfl
  | cons b bytes ih =>
    rw [List.length_cons] at h ⊢
    by_cases hlast : remaining = 1
    · have hnil : bytes = [] := List.length_eq_zero_iff.mp (by omega)
      subst hlast hnil
      rfl
    · have hfeed : Reader.feed limit (.discard remaining) b = (.discard (remaining - 1), []) :=
        if_neg hlast
      have hiff : bytes.length = remaining - 1 ↔ bytes.length + 1 = remaining := by omega
      have hsub : remaining - 1 - bytes.length = remaining - (bytes.length + 1) := by omega
      have hrest := @ih (remaining - 1) (by omega) (by omega)
      simp only [run, hfeed, hrest, hiff, hsub, List.nil_append]

theorem Reader.run_begin {body : List UInt8} (h : body.length ≤ limit) :
    Reader.run limit (Reader.begin limit body.length).1 body =
        (.start, if body = [] then [] else [.frame body]) ∧
      (Reader.begin limit body.length).2 = if body = [] then [.frame []] else [] := by
  by_cases hempty : body = []
  · subst hempty
    exact ⟨rfl, rfl⟩
  · have hlen : body.length ≠ 0 := by simpa using hempty
    have hbegin : Reader.begin limit body.length = (.body body.length [], []) := by
      simp only [begin, Nat.not_lt.mpr h, hlen, if_false]
    rw [hbegin, run_body [] (Nat.pos_of_ne_zero hlen) (Nat.le_refl _)]
    simp [hempty]

theorem Reader.run_encode32 (h : n < 2 ^ 32) :
    Reader.start.run limit (encode32 n) = Reader.begin limit n := by
  have hlength : Reader.start.run limit (encode32 n) = _ :=
    Reader.run_length (Nat.zero_lt_succ 3) (Nat.le_refl 4)
  rwa [if_pos (by rfl), List.nil_append, decode32_encode32 h] at hlength

/-- A frame within the limit is received whole, and the next one finds the
reader as this one did. -/
theorem Reader.run_frame {body : List UInt8} (hlimit : body.length ≤ limit)
    (h : body.length < 2 ^ 32) (rest : List UInt8) :
    Reader.start.run limit (encode32 body.length ++ body ++ rest) =
      ((Reader.start.run limit rest).1, .frame body :: (Reader.start.run limit rest).2) := by
  obtain ⟨hbody, hbegin⟩ := run_begin hlimit
  rw [run_append, run_append, run_encode32 h, hbody, hbegin]
  split
  case isTrue hempty => simp [hempty]
  case isFalse => simp

/-- A frame over the limit is reported and skipped. -/
theorem Reader.run_oversized {body : List UInt8} (hlimit : limit < body.length)
    (h : body.length < 2 ^ 32) (rest : List UInt8) :
    Reader.start.run limit (encode32 body.length ++ body ++ rest) =
      ((Reader.start.run limit rest).1,
        .oversized body.length :: (Reader.start.run limit rest).2) := by
  have hbegin : Reader.begin limit body.length = (.discard body.length, [.oversized body.length]) :=
    if_pos hlimit
  have hbody : Reader.run limit (.discard body.length) body = _ :=
    Reader.run_discard (Nat.zero_lt_of_lt hlimit) (Nat.le_refl body.length)
  rw [if_pos rfl] at hbody
  rw [run_append, run_append, run_encode32 h, hbegin, hbody]
  rfl

def wire (body : List UInt8) : List UInt8 := encode32 body.length ++ body

/-- What is to become of a frame with this body. -/
def fate (limit : Nat) (body : List UInt8) : Received :=
  if limit < body.length then .oversized body.length else .frame body

theorem Reader.run_frames {frames : List (List UInt8)} (h : ∀ body ∈ frames, body.length < 2 ^ 32) :
    Reader.start.run limit (frames.flatMap wire) = (.start, frames.map (fate limit)) := by
  induction frames with
  | nil => rfl
  | cons body frames ih =>
    obtain ⟨hbody, hframes⟩ := List.forall_mem_cons.mp h
    rw [List.flatMap_cons, List.map_cons]
    by_cases hlimit : limit < body.length
    · rw [wire, run_oversized hlimit hbody, ih hframes, fate, if_pos hlimit]
    · rw [wire, run_frame (Nat.not_lt.mp hlimit) hbody, ih hframes, fate, if_neg hlimit]

end Framing
