import Mathlib.Data.List.Basic

/-!
# Rust string operations

The `str` and `char` methods the backend uses, over the character list of a
string. `len` counts bytes, everything else characters.
-/

namespace Rust

def isAsciiLowercase (c : Char) : Bool := 'a' ≤ c && c ≤ 'z'

def isAsciiDigit (c : Char) : Bool := '0' ≤ c && c ≤ '9'

def isAsciiAlphanumeric (c : Char) : Bool :=
  isAsciiLowercase c || ('A' ≤ c && c ≤ 'Z') || isAsciiDigit c

/-- `char::is_whitespace`, the Unicode property `White_Space`. -/
def isWhitespace (c : Char) : Bool :=
  let n := c.toNat
  (9 ≤ n && n ≤ 13) || (0x2000 ≤ n && n ≤ 0x200A) ||
    [0x20, 0x85, 0xA0, 0x1680, 0x2028, 0x2029, 0x202F, 0x205F, 0x3000].contains n

/-- `str::trim`, then `is_empty`. -/
def isBlank (s : String) : Bool := s.toList.all isWhitespace

/-- `str::len`. -/
def len (s : String) : Nat := s.utf8ByteSize

/-- `str::replace` with a `char` pattern. -/
def replaceChar (s : String) (c : Char) (repl : String) : String :=
  String.ofList (s.toList.flatMap fun d => if d = c then repl.toList else [d])

/-- `str::trim_end_matches` with a `char` pattern. -/
def trimEndMatches (s : String) (c : Char) : String :=
  String.ofList (s.toList.reverse.dropWhile (· == c)).reverse

/-- `str::trim_matches` with a `char` pattern. -/
def trimMatches (s : String) (c : Char) : String :=
  trimEndMatches (String.ofList (s.toList.dropWhile (· == c))) c

/-- `str::starts_with`. -/
def startsWith (s p : String) : Bool := p.toList.isPrefixOf s.toList

/-- `str::strip_prefix`. -/
def stripPrefix (s p : String) : Option String :=
  if startsWith s p then some (String.ofList (s.toList.drop p.toList.length)) else none

theorem stripPrefix_append (p s : String) : stripPrefix (p ++ s) p = some s := by
  have hstarts : startsWith (p ++ s) p = true := by
    rw [startsWith, String.toList_append, List.isPrefixOf_iff_prefix]
    exact List.prefix_append _ _
  rw [stripPrefix, if_pos hstarts, String.toList_append, List.drop_left, String.ofList_toList]

/-- `char::escape_debug_ext`, as `{:?}` calls it in a string. Beyond ASCII, `prints` is the table of
the characters that are printable and extend no grapheme. -/
def escapeDebug (prints : Char → Bool) (c : Char) : List Char :=
  if c = '"' || c = '\\' then ['\\', c]
  else if c = '\n' then ['\\', 'n']
  else if c = '\r' then ['\\', 'r']
  else if c = '\t' then ['\\', 't']
  else if c.toNat = 0 then ['\\', '0']
  else if 32 ≤ c.toNat && c.toNat < 127 || 127 < c.toNat && prints c then [c]
  else ['\\', 'u', Char.ofNat 123] ++ Nat.toDigits 16 c.toNat ++ [Char.ofNat 125]

/-- The `{:?}` format of a string. -/
def debug (prints : Char → Bool) (s : String) : String :=
  String.ofList ('"' :: s.toList.flatMap (escapeDebug prints) ++ ['"'])

/-- A newline and a combining accent are escaped. -/
example : debug (fun c => c ≠ '\u0301') "é\ne\u0301" = "\"é\\ne\\u\x7b301\x7d\"" := by decide +kernel

end Rust
