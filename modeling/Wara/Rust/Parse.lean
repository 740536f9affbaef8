import Mathlib.Algebra.Order.Ring.Nat
import Wara.Rust.Text

/-!
# Rust number parsing

`str::parse` for the unsigned integer types, and `to_ascii_lowercase`.
-/

namespace Rust

/-- The number a run of decimal digits stands for. -/
def digitsValue (cs : List Char) : Nat :=
  cs.foldl (fun n c => 10 * n + (c.toNat - '0'.toNat)) 0

/-- `str::parse` at an unsigned type: one plus sign may stand before the digits. -/
def parseUnsigned (bits : Nat) (s : String) : Option Nat :=
  let digits := match s.toList with
    | '+' :: cs => cs
    | cs => cs
  if digits.isEmpty || !digits.all isAsciiDigit then none
  else if digitsValue digits < 2 ^ bits then some (digitsValue digits)
  else none

def parseU16 (s : String) : Option UInt16 := (parseUnsigned 16 s).map UInt16.ofNat

def parseU64 (s : String) : Option UInt64 := (parseUnsigned 64 s).map UInt64.ofNat

/-- `str::to_ascii_lowercase`. -/
def toAsciiLowercase (s : String) : String := String.ofList (s.toList.map Char.toLower)

end Rust
