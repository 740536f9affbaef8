import Mathlib.Tactic.IntervalCases
import Wara.Errors
import Wara.Rust.Utf8

/-!
# Error envelopes as JSON

`serde_json` as the error responses use it. What they rely on is that an envelope
reads back from its own text (`SerdeJson.Lawful`). `compact` is such a pair: the
text that `serde_json` writes, and a reader of texts of that shape.
-/

namespace Wara

structure SerdeJson where
  /-- `serde_json::to_vec`. -/
  toVec : ErrorResponse → List UInt8
  /-- `serde_json::from_slice::<ErrorResponse>`. -/
  fromSlice : List UInt8 → Except String ErrorResponse

/-- An envelope reads back from its own text. -/
def SerdeJson.Lawful (j : SerdeJson) : Prop := ∀ e, j.fromSlice (j.toVec e) = .ok e

namespace Json

/-! ## Strings -/

def hexDigit (n : Nat) : Char := if n < 10 then Char.ofNat (48 + n) else Char.ofNat (87 + n)

def hexValue (c : Char) : Nat := if c.toNat < 58 then c.toNat - 48 else c.toNat - 87

/-- The two-character escapes. -/
def shortEscapes : List (Char × Char) :=
  [('"', '"'), ('\\', '\\'), ('\n', 'n'), ('\r', 'r'), ('\t', 't'), (Char.ofNat 8, 'b'),
    (Char.ofNat 12, 'f')]

def escape (c : Char) : List Char :=
  match shortEscapes.lookup c with
  | some e => ['\\', e]
  | none =>
    if c.toNat < 32 then ['\\', 'u', '0', '0', hexDigit (c.toNat / 16), hexDigit (c.toNat % 16)]
    else [c]

def writeString (s : String) : List Char := '"' :: s.toList.flatMap escape ++ ['"']

/-- The characters up to the closing quote, and what follows it. -/
def readChars : List Char → Option (List Char × List Char)
  | [] => none
  | '"' :: cs => some ([], cs)
  | '\\' :: 'u' :: '0' :: '0' :: h :: l :: cs =>
    (readChars cs).map fun r => (Char.ofNat (16 * hexValue h + hexValue l) :: r.1, r.2)
  | '\\' :: e :: cs =>
    match (shortEscapes.map Prod.swap).lookup e with
    | some c => (readChars cs).map fun r => (c :: r.1, r.2)
    | none => none
  | c :: cs => (readChars cs).map fun r => (c :: r.1, r.2)

theorem readChars_escape (c : Char) (cs : List Char) :
    readChars (escape c ++ cs) = (readChars cs).map fun r => (c :: r.1, r.2) := by
  by_cases hquote : c = '"'
  · subst hquote
    rfl
  by_cases hslash : c = '\\'
  · subst hslash
    rfl
  by_cases hcontrol : c.toNat < 32
  · -- one of 32 characters, each with its escape
    obtain ⟨n, hn⟩ : ∃ n, c.toNat = n := ⟨_, rfl⟩
    have hc : c = Char.ofNat n := by rw [← hn, Char.ofNat_toNat]
    rw [hn] at hcontrol
    subst hc
    interval_cases n <;> rfl
  · have hnone : shortEscapes.lookup c = none := by
      rw [List.lookup_eq_none_iff]
      intro p hp
      rw [bne_iff_ne]
      rintro rfl
      have hkeys : (shortEscapes.all fun p =>
          p.1 == '"' || p.1 == '\\' || p.1.toNat < 32) = true := by decide
      have hkey := List.all_eq_true.mp hkeys p hp
      simp only [Bool.or_eq_true, beq_iff_eq, decide_eq_true_eq] at hkey
      tauto
    unfold escape
    rw [hnone]
    dsimp only
    rw [if_neg hcontrol]
    show readChars (c :: cs) = _
    rw [readChars.eq_def]
    split <;> simp_all

theorem readChars_flatMap (s cs : List Char) :
    readChars (s.flatMap escape ++ '"' :: cs) = some (s, cs) := by
  induction s with
  | nil => rfl
  | cons c s ih =>
    rw [List.flatMap_cons, List.append_assoc, readChars_escape, ih]
    rfl

/-! ## Envelopes -/

def writeField (name : String) (value : String) : List Char :=
  '"' :: name.toList ++ '"' :: ':' :: writeString value

/-- `details` is skipped when there are none. -/
def writeDetails : Option String → List Char
  | none => [Char.ofNat 125]
  | some details => ',' :: (writeField "details" details ++ [Char.ofNat 125])

def write (e : ErrorResponse) : List Char :=
  Char.ofNat 123 :: (writeField "code" e.code ++
    ',' :: (writeField "message" e.message ++ writeDetails e.details))

/-- What follows the given text. -/
def expect (lead cs : List Char) : Option (List Char) :=
  if lead.isPrefixOf cs then some (cs.drop lead.length) else none

def readField (name : String) (cs : List Char) : Option (String × List Char) := do
  let cs ← expect ('"' :: name.toList ++ ['"', ':', '"']) cs
  let r ← readChars cs
  return (String.ofList r.1, r.2)

/-- The end of the object, or one more field and then the end. -/
def readDetails (cs : List Char) : Option (Option String) :=
  match cs with
  | c :: cs =>
    if c = ',' then
      match readField "details" cs with
      | some (details, [d]) => if d = Char.ofNat 125 then some (some details) else none
      | _ => none
    else if c = Char.ofNat 125 ∧ cs = [] then some none
    else none
  | [] => none

def read (cs : List Char) : Option ErrorResponse := do
  let cs ← expect [Char.ofNat 123] cs
  let (code, cs) ← readField "code" cs
  let cs ← expect [','] cs
  let (message, cs) ← readField "message" cs
  let details ← readDetails cs
  return ⟨code, message, details⟩

theorem expect_append (lead cs : List Char) : expect lead (lead ++ cs) = some cs := by
  unfold expect
  rw [if_pos (List.isPrefixOf_iff_prefix.mpr (List.prefix_append _ _)), List.drop_left]

theorem readField_writeField (name value : String) (cs : List Char) :
    readField name (writeField name value ++ cs) = some (value, cs) := by
  have hlead : writeField name value ++ cs = ('"' :: name.toList ++ ['"', ':', '"']) ++
      (value.toList.flatMap escape ++ '"' :: cs) := by
    unfold writeField writeString
    simp only [List.cons_append, List.append_assoc, List.nil_append]
  unfold readField
  rw [hlead, expect_append]
  show (readChars _).bind _ = _
  rw [readChars_flatMap]
  show some (String.ofList value.toList, cs) = _
  rw [String.ofList_toList]

theorem readDetails_writeDetails (details : Option String) :
    readDetails (writeDetails details) = some details := by
  cases details with
  | none => rfl
  | some details =>
    unfold writeDetails readDetails
    dsimp only
    rw [if_pos rfl, readField_writeField]
    rfl

theorem read_write (e : ErrorResponse) : read (write e) = some e := by
  have hopen : ∀ c cs, expect [c] (c :: cs) = some cs := fun c cs => expect_append [c] cs
  unfold read write
  simp only [hopen, readField_writeField, readDetails_writeDetails, bind, Option.bind, pure]

/-- The writer, and the reader of what it writes. -/
def compact : SerdeJson where
  toVec e := Rust.asBytes (String.ofList (write e))
  fromSlice bs :=
    match Rust.ofBytes bs with
    | none => .error "invalid unicode code point"
    | some s =>
      match read s.toList with
      | none => .error "expected value"
      | some e => .ok e

theorem fromSlice_compact {bs : List UInt8} {s : String} {e : ErrorResponse}
    (hs : Rust.ofBytes bs = some s) (hread : read s.toList = some e) :
    compact.fromSlice bs = .ok e := by
  simp only [compact, hs, hread]

theorem compact_lawful : compact.Lawful := by
  intro e
  have hbytes : Rust.ofBytes (compact.toVec e) = some (String.ofList (write e)) :=
    Rust.ofBytes_asBytes _
  refine fromSlice_compact hbytes ?_
  rw [String.toList_ofList, read_write]

end Json

end Wara
