import Mathlib.Data.List.Basic

/-!
# Rust strings as bytes

`as_bytes`, and `String::from_utf8` with the text of its error: the length of the
longest valid start, and how many bytes after it are wrong, if more are not to
come.
-/

namespace Rust

/-- `str::as_bytes`. -/
def asBytes (s : String) : List UInt8 := s.toByteArray.data.toList

/-- The string with these bytes, if they are one. -/
def ofBytes (bs : List UInt8) : Option String := String.fromUTF8? ⟨bs.toArray⟩

@[simp] theorem ofBytes_asBytes (s : String) : ofBytes (asBytes s) = some s := by
  unfold ofBytes asBytes String.fromUTF8?
  exact dif_pos s.isValidUTF8

theorem asBytes_of_ofBytes {bs : List UInt8} {s : String} (h : ofBytes bs = some s) :
    asBytes s = bs := by
  unfold ofBytes String.fromUTF8? at h
  split at h
  · cases h
    rfl
  · cases h

/-! ## The error -/

/-- `Utf8Error::valid_up_to`. -/
def validUpTo (bs : List UInt8) : Nat :=
  (((List.range (bs.length + 1)).filter fun n => (ofBytes (bs.take n)).isSome).getLast?).getD 0

/-- A byte after the first one of a character. -/
def isContinuation (b : UInt8) : Bool := 0x80 ≤ b && b ≤ 0xBF

/-- How many bytes after the first one belong to the character, and the range of the first of
them. -/
def charTail (b : UInt8) : Option (Nat × UInt8 × UInt8) :=
  if 0xC2 ≤ b && b ≤ 0xDF then some (1, 0x80, 0xBF)
  else if b = 0xE0 then some (2, 0xA0, 0xBF)
  else if b = 0xED then some (2, 0x80, 0x9F)
  else if 0xE1 ≤ b && b ≤ 0xEF then some (2, 0x80, 0xBF)
  else if b = 0xF0 then some (3, 0x90, 0xBF)
  else if 0xF1 ≤ b && b ≤ 0xF3 then some (3, 0x80, 0xBF)
  else if b = 0xF4 then some (3, 0x80, 0x8F)
  else none

/-- `Utf8Error::error_len` for the bytes after the valid ones: `none` if they end too early. -/
def errorLen : List UInt8 → Option Nat
  | [] => none
  | b :: bs =>
    match charTail b, bs with
    | none, _ => some 1
    | some _, [] => none
    | some (n, low, high), c :: cs =>
      if low ≤ c && c ≤ high then
        let good := (cs.take (n - 1)).takeWhile isContinuation
        if good.length = cs.length then none else some (2 + good.length)
      else some 1

/-- `String::from_utf8`, with the text of its error. -/
def fromUtf8 (bs : List UInt8) : Except String String :=
  match ofBytes bs with
  | some s => .ok s
  | none =>
    let n := validUpTo bs
    match errorLen (bs.drop n) with
    | some len => .error
        (s!"invalid utf-8 sequence of {len} bytes from index {n}")
    | none => .error (s!"incomplete utf-8 byte sequence from index {n}")

@[simp] theorem fromUtf8_asBytes (s : String) : fromUtf8 (asBytes s) = .ok s := by
  unfold fromUtf8
  rw [ofBytes_asBytes]

theorem asBytes_of_fromUtf8 {bs : List UInt8} {s : String} (h : fromUtf8 bs = .ok s) :
    asBytes s = bs := by
  unfold fromUtf8 at h
  split at h
  · next t ht =>
    cases h
    exact asBytes_of_ofBytes ht
  · dsimp only at h
    split at h <;> cases h

end Rust
