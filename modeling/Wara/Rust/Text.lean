import Wara.Rust.Str

/-!
# Rust string patterns

`contains`, `replace`, `trim` and `lines` of `str`, and `dedup_by_key` of `Vec`.
-/

namespace Rust

/-- `str::contains` with a string pattern. -/
def contains (s p : String) : Bool := go s.toList
where
  go : List Char → Bool
    | [] => p.toList.isEmpty
    | c :: cs => p.toList.isPrefixOf (c :: cs) || go cs

/-- Replace the leftmost matches, one after another; `skip` characters belong to the last one. -/
def replaceFrom {α : Type} [BEq α] (p repl : List α) : Nat → List α → List α
  | _, [] => []
  | skip + 1, _ :: cs => replaceFrom p repl skip cs
  | 0, c :: cs =>
    if p.isPrefixOf (c :: cs) then repl ++ replaceFrom p repl (p.length - 1) cs
    else c :: replaceFrom p repl 0 cs

/-- `str::replace` with a string pattern; the empty one matches around every character. -/
def replace (s p repl : String) : String :=
  if p.toList.isEmpty then
    String.ofList (repl.toList ++ s.toList.flatMap fun c => c :: repl.toList)
  else String.ofList (replaceFrom p.toList repl.toList 0 s.toList)

/-- `str::trim_start`. -/
def trimStart (s : String) : String := String.ofList (s.toList.dropWhile isWhitespace)

/-- `str::trim_end`. -/
def trimEnd (s : String) : String :=
  String.ofList (s.toList.reverse.dropWhile isWhitespace).reverse

/-- `str::trim`. -/
def trim (s : String) : String := trimEnd (trimStart s)

/-- A line without its carriage return. -/
def stripReturn (line : List Char) : List Char :=
  match line.getLast? with
  | some '\r' => line.dropLast
  | _ => line

/-- The pieces between line feeds; the last one only if it is not empty. -/
def linesFrom (line : List Char) : List Char → List (List Char)
  | [] => if line.isEmpty then [] else [line]
  | '\n' :: cs => stripReturn line :: linesFrom [] cs
  | c :: cs => linesFrom (line ++ [c]) cs

/-- `str::lines`. -/
def lines (s : String) : List String := (linesFrom [] s.toList).map String.ofList

/-- `Vec::dedup_by_key`: of neighbours with one key the first stays. -/
def dedupByKey {α κ : Type} [DecidableEq κ] (key : α → κ) : List α → List α
  | [] => []
  | a :: as =>
    match dedupByKey key as with
    | [] => [a]
    | b :: bs => if key a = key b then a :: bs else a :: b :: bs

end Rust
