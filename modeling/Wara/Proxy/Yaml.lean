import Mathlib.Data.List.Chain
import Mathlib.Tactic.Common

/-!
# Block YAML

Mappings and sequences in block style, with plain scalars on the line of their
key. A text is read line by line into its entries: the path of keys that leads
to an entry, and its scalar if it has one. A text that uses another style, or is
no YAML, is not read.

`line_of_key` and `line_of_item` read one line; `parse_plain` says that every
scalar of a text is a plain one.
-/

namespace Yaml

/-! ## Characters -/

def isBlank (c : Char) : Bool := c == ' ' || c == '\t'

def isBreak (c : Char) : Bool := c == '\n' || c == '\r'

/-- Printable, and neither a line break nor a byte order mark. -/
def isPrintable (c : Char) : Bool :=
  let n := c.toNat
  n == 9 || (0x20 ≤ n && n ≤ 0x7E) || n == 0x85 || (0xA0 ≤ n && n ≤ 0xFFFD && n != 0xFEFF) ||
    0x10000 ≤ n

/-- Characters that a plain scalar does not begin with; 96 is the backquote. -/
def indicators : List Char :=
  ['-', '?', ':', ',', '[', ']', '\x7b', '\x7d', '#', '&', '*', '!', '|', '>', '\'', '"', '%', '@',
    Char.ofNat 96]

/-- Neighbours in a plain scalar: a blank and a `#` begin a comment, a `:` and a blank end a key. -/
def Joined (a b : Char) : Prop :=
  ¬ (isBlank a = true ∧ b = '#') ∧ ¬ (a = ':' ∧ isBlank b = true)

instance : DecidableRel Joined := fun _ _ => inferInstanceAs (Decidable (_ ∧ _))

def isFirst (c : Char) : Bool := !indicators.contains c && !isBlank c

def isLast (c : Char) : Bool := c != ':' && !isBlank c

/-- A plain scalar on one line. -/
structure IsPlain (v : List Char) : Prop where
  first : v.head?.any isFirst = true
  last : v.getLast?.any isLast = true
  printable : v.all isPrintable = true
  joined : v.IsChain Joined

theorem isPlain_iff {v : List Char} : IsPlain v ↔ v.head?.any isFirst = true ∧
    v.getLast?.any isLast = true ∧ v.all isPrintable = true ∧ v.IsChain Joined :=
  ⟨fun h => ⟨h.first, h.last, h.printable, h.joined⟩, fun h => ⟨h.1, h.2.1, h.2.2.1, h.2.2.2⟩⟩

instance (v : List Char) : Decidable (IsPlain v) := decidable_of_iff _ isPlain_iff.symm

/-! ## Lines -/

def linesFrom (line : List Char) : List Char → List (List Char)
  | [] => [line]
  | c :: cs => if isBreak c then line :: linesFrom [] cs else linesFrom (line ++ [c]) cs

def lines (cs : List Char) : List (List Char) := linesFrom [] cs

/-- What is before a comment; `blank` tells whether a blank is before the text. -/
def uncommented (blank : Bool) : List Char → List Char
  | [] => []
  | c :: cs => if blank && c = '#' then [] else c :: uncommented (isBlank c) cs

def trim (cs : List Char) : List Char :=
  ((cs.dropWhile isBlank).reverse.dropWhile isBlank).reverse

/-- What follows the `:` of a key: no scalar on this line, or a plain one. -/
def scalarOf (cs : List Char) : Option (Option (List Char)) :=
  let v := trim (uncommented true cs)
  if v.isEmpty then some none else if IsPlain v then some (some v) else none

/-- A key, and what follows its `:`. -/
def splitKey : List Char → Option (List Char × List Char)
  | [] => none
  | c :: cs =>
    if c = ':' ∧ cs.head?.all isBlank then some ([], cs)
    else (splitKey cs).map fun p => (c :: p.1, p.2)

/-- A line without its indentation. -/
def entryOf (cs : List Char) : Option (List Char × Option (List Char)) := do
  let (key, rest) ← splitKey cs
  let value ← scalarOf rest
  if IsPlain key then some (key, value) else none

/-! ## Documents -/

inductive Key where
  | name (key : List Char)
  | item (i : Nat)
  deriving DecidableEq, Repr

structure Entry where
  path : List Key
  value : Option (List Char)
  deriving DecidableEq, Repr

/-- A collection that is open: its last key, where that is indented, and whether a scalar has closed
it to entries below. -/
structure Frame where
  indent : Nat
  key : Key
  scalar : Bool
  deriving DecidableEq, Repr

/-- The open collections, innermost first, and the entries so far. -/
structure State where
  frames : List Frame
  entries : List Entry
  deriving DecidableEq, Repr

/-- The key after `key` in the same collection. -/
def Key.next : Key → Option (List Char) → Option Key
  | .name _, some k => some (.name k)
  | .item i, none => some (.item (i + 1))
  | _, _ => none

/-- The first key of a collection; `none` stands for an item. -/
def firstKey : Option (List Char) → Key
  | some k => .name k
  | none => .item 0

/-- An entry below the given frames, unless its key is there already. -/
def State.add (s : State) (frames : List Frame) (indent : Nat) (key : Key)
    (value : Option (List Char)) : Option State :=
  let path := ((key :: frames.map Frame.key).reverse)
  if (s.entries.map Entry.path).contains path then none
  else some ⟨⟨indent, key, value.isSome⟩ :: frames, s.entries ++ [⟨path, value⟩]⟩

/-- An entry goes beside an open one with its indentation, or begins a collection below the
innermost one. -/
def State.place (s : State) (indent : Nat) (key : Option (List Char))
    (value : Option (List Char)) : Option State :=
  match s.frames.dropWhile fun f => indent < f.indent with
  | [] => if s.frames.isEmpty then s.add [] indent (firstKey key) value else none
  | f :: frames =>
    if f.indent = indent then do s.add frames indent (← f.key.next key) value
    else if s.frames.length = frames.length + 1 ∧ f.scalar = false then
      s.add (f :: frames) indent (firstKey key) value
    else none

/-- Blank lines and comments say nothing. -/
def isSilent (content : List Char) : Bool := content.head?.all (· == '#') || content.all isBlank

def State.line (s : State) (line : List Char) : Option State :=
  let indent := (line.takeWhile (· == ' ')).length
  let content := line.dropWhile (· == ' ')
  if isSilent content then some s
  else
    match content with
    | '-' :: ' ' :: content => do
      let s ← s.place indent none none
      let (key, value) ← entryOf content
      s.place (indent + 2) (some key) value
    | _ => do
      let (key, value) ← entryOf content
      s.place indent (some key) value

def State.empty : State := ⟨[], []⟩

/-- The entries of a text. -/
def parse (cs : List Char) : Option (List Entry) :=
  ((lines cs).foldlM State.line State.empty).map State.entries

/-- The keys right below a path. -/
def keysUnder (path : List Key) (es : List Entry) : List Key :=
  es.filterMap fun e => if e.path.dropLast = path then e.path.getLast? else none

theorem keysUnder_cons {path : List Key} {e : Entry} (es : List Entry) {k : Key}
    (h : e.path.dropLast = path) (hk : e.path.getLast? = some k) :
    keysUnder path (e :: es) = k :: keysUnder path es :=
  List.filterMap_cons_some ((if_pos h).trans hk)

def valueAt (path : List Key) (es : List Entry) : Option (List Char) :=
  (es.find? fun e => e.path = path).bind Entry.value

/-! ## Reading a line -/

theorem linesFrom_append {line l : List Char} (hl : ∀ c ∈ l, isBreak c = false) (cs : List Char) :
    linesFrom line (l ++ '\n' :: cs) = (line ++ l) :: lines cs := by
  induction l generalizing line with
  | nil =>
    rw [List.nil_append, List.append_nil]
    rfl
  | cons c l ih =>
    rw [List.cons_append, linesFrom, hl c List.mem_cons_self, if_neg Bool.false_ne_true,
      ih fun d hd => hl d (List.mem_cons_of_mem _ hd), List.append_assoc, List.singleton_append]

/-- Lines with a line feed behind each. -/
theorem lines_flatMap {ls : List (List Char)} (hls : ∀ l ∈ ls, ∀ c ∈ l, isBreak c = false) :
    lines (ls.flatMap (· ++ ['\n'])) = ls ++ [[]] := by
  induction ls with
  | nil => rfl
  | cons l ls ih =>
    rw [List.flatMap_cons, List.append_assoc, List.singleton_append, lines,
      linesFrom_append (hls l List.mem_cons_self), ih fun l' hl' => hls l' (List.mem_cons_of_mem _ hl')]
    rfl

theorem uncommented_of_joined {blank : Bool} {v : List Char} (h : v.IsChain Joined)
    (hfirst : blank = true → v.head? ≠ some '#') : uncommented blank v = v := by
  induction v generalizing blank with
  | nil => rfl
  | cons c v ih =>
    have hc : ¬ (blank && c = '#') = true := by
      intro hb
      obtain ⟨hb, hc⟩ := Bool.and_eq_true_iff.mp hb
      exact hfirst hb (congrArg some (of_decide_eq_true hc))
    obtain ⟨hhead, htail⟩ := List.isChain_cons.mp h
    rw [uncommented, if_neg hc, ih htail fun hb he => (hhead '#' he).1 ⟨hb, rfl⟩]

theorem trim_eq {v : List Char} (hfirst : ∀ c, v.head? = some c → isBlank c = false)
    (hlast : ∀ c, v.getLast? = some c → isBlank c = false) : trim (' ' :: v) = v := by
  have hdrop : ∀ w : List Char, (∀ c, w.head? = some c → isBlank c = false) →
      w.dropWhile isBlank = w := by
    intro w hw
    cases w with
    | nil => rfl
    | cons c w => exact List.dropWhile_cons_of_neg (by rw [hw c rfl]; exact Bool.false_ne_true)
  have hstart : (' ' :: v).dropWhile isBlank = v := by
    rw [List.dropWhile_cons_of_pos rfl, hdrop v hfirst]
  unfold trim
  rw [hstart, hdrop v.reverse (by rw [List.head?_reverse]; exact hlast), List.reverse_reverse]

theorem IsPlain.ne_nil {v : List Char} (h : IsPlain v) : v ≠ [] := by
  rintro rfl
  exact absurd h (by decide)

theorem IsPlain.head {v : List Char} (h : IsPlain v) {c : Char} (hc : v.head? = some c) :
    isFirst c = true := by
  have hfirst := h.first
  rw [hc] at hfirst
  exact hfirst

theorem isFirst_not_blank {c : Char} (h : isFirst c = true) : isBlank c = false := by
  simpa using (Bool.and_eq_true_iff.mp h).2

/-- A plain scalar after its key. -/
theorem scalarOf_plain {v : List Char} (h : IsPlain v) : scalarOf (' ' :: v) = some (some v) := by
  have hhash : v.head? ≠ some '#' := fun he => absurd (h.head he) (by decide)
  have hlast : ∀ c, v.getLast? = some c → isBlank c = false := by
    intro c hc
    have hlast := h.last
    rw [hc] at hlast
    simpa using (Bool.and_eq_true_iff.mp hlast).2
  have hun : uncommented true (' ' :: v) = ' ' :: v := by
    rw [uncommented, if_neg (by decide), uncommented_of_joined h.joined fun _ => hhash]
  unfold scalarOf
  rw [hun, trim_eq (fun c hc => isFirst_not_blank (h.head hc)) hlast]
  dsimp only
  rw [List.isEmpty_eq_false_iff.mpr h.ne_nil, if_neg Bool.false_ne_true, if_pos h]

/-- The `:` of a key without `:` ends it. -/
theorem splitKey_append {key rest : List Char} (hkey : ':' ∉ key)
    (hrest : rest.head?.all isBlank = true) : splitKey (key ++ ':' :: rest) = some (key, rest) := by
  induction key with
  | nil => rw [List.nil_append, splitKey, if_pos ⟨rfl, hrest⟩]
  | cons c key ih =>
    have hc : c ≠ ':' := fun he => hkey (he ▸ List.mem_cons_self)
    rw [List.cons_append, splitKey, if_neg fun h => hc h.1,
      ih fun hm => hkey (List.mem_cons_of_mem _ hm)]
    rfl

/-- A key, without a scalar or with a plain one. -/
def printed (key : List Char) : Option (List Char) → List Char
  | none => key ++ [':']
  | some v => key ++ ':' :: ' ' :: v

theorem entryOf_printed {key : List Char} {value : Option (List Char)} (hkey : IsPlain key)
    (hcolon : ':' ∉ key) (hvalue : ∀ v, value = some v → IsPlain v) :
    entryOf (printed key value) = some (key, value) := by
  unfold entryOf
  cases value with
  | none =>
    rw [printed, splitKey_append hcolon rfl]
    exact if_pos hkey
  | some v =>
    rw [printed, splitKey_append hcolon rfl]
    show ((scalarOf (' ' :: v)).bind fun value => if IsPlain key then some (key, value) else none) = _
    rw [scalarOf_plain (hvalue v rfl)]
    exact if_pos hkey

theorem isBreak_of_printable {c : Char} (h : isPrintable c = true) : isBreak c = false := by
  refine Bool.eq_false_iff.mpr fun hbreak => ?_
  rcases Bool.or_eq_true_iff.mp hbreak with hc | hc
  · rw [beq_iff_eq.mp hc] at h
    exact absurd h (by decide)
  · rw [beq_iff_eq.mp hc] at h
    exact absurd h (by decide)

/-- A printed key is on one line. -/
theorem printed_one_line {key : List Char} {value : Option (List Char)} (hkey : IsPlain key)
    (hvalue : ∀ v, value = some v → IsPlain v) : ∀ c ∈ printed key value, isBreak c = false := by
  have hplain : ∀ {v : List Char}, IsPlain v → ∀ c ∈ v, isBreak c = false := fun hv c hc =>
    isBreak_of_printable (List.all_eq_true.mp hv.printable c hc)
  intro c hc
  cases value with
  | none =>
    rcases List.mem_append.mp hc with hc | hc
    · exact hplain hkey c hc
    · rw [List.mem_singleton.mp hc]
      rfl
  | some v =>
    rcases List.mem_append.mp hc with hc | hc
    · exact hplain hkey c hc
    rcases List.mem_cons.mp hc with rfl | hc
    · rfl
    rcases List.mem_cons.mp hc with rfl | hc
    · rfl
    · exact hplain (hvalue v rfl) c hc

theorem printed_eq_cons {key : List Char} (hkey : IsPlain key) (value : Option (List Char)) :
    ∃ c rest, printed key value = c :: rest ∧ isFirst c = true := by
  cases hk : key with
  | nil => exact absurd hk hkey.ne_nil
  | cons c cs =>
    have hc : isFirst c = true := hkey.head (by rw [hk]; rfl)
    cases value with
    | none => exact ⟨c, cs ++ [':'], rfl, hc⟩
    | some v => exact ⟨c, cs ++ ':' :: ' ' :: v, rfl, hc⟩

/-- The indentation of a line and what follows it. -/
theorem indented (n : Nat) (content : List Char) (h : content.head? ≠ some ' ') :
    ((List.replicate n ' ' ++ content).takeWhile (· == ' ')).length = n ∧
      (List.replicate n ' ' ++ content).dropWhile (· == ' ') = content := by
  have hspaces : ∀ c ∈ List.replicate n ' ', (c == ' ') = true := fun c hc =>
    beq_iff_eq.mpr (List.eq_of_mem_replicate hc)
  rw [List.takeWhile_append_of_pos hspaces, List.dropWhile_append_of_pos hspaces]
  cases content with
  | nil => simp
  | cons c cs =>
    have hc : ¬ (c == ' ') = true := fun hc => h (congrArg some (beq_iff_eq.mp hc))
    rw [List.takeWhile_cons_of_neg (p := fun a => a == ' ') hc,
      List.dropWhile_cons_of_neg (p := fun a => a == ' ') hc, List.append_nil,
      List.length_replicate]
    exact ⟨rfl, rfl⟩

section line

variable {n : Nat} {key : List Char} {value : Option (List Char)} (hkey : IsPlain key)
  (hcolon : ':' ∉ key) (hvalue : ∀ v, value = some v → IsPlain v)
include hkey hcolon hvalue

/-- **A line with a key.** -/
theorem line_of_key (s : State) : s.line (List.replicate n ' ' ++ printed key value) =
    s.place n (some key) value := by
  obtain ⟨c, rest, heq, hc⟩ := printed_eq_cons hkey value
  have hcs : c ≠ ' ' := fun he => absurd (he ▸ hc) (by decide)
  obtain ⟨htake, hdrop⟩ := indented n (printed key value) (by rw [heq]; simpa using hcs)
  have hsilent : isSilent (printed key value) = false := by
    rw [heq]
    have hhash : (c == '#') = false := beq_eq_false_iff_ne.mpr fun he => absurd (he ▸ hc) (by decide)
    simp [isSilent, hhash, isFirst_not_blank hc]
  unfold State.line
  rw [htake, hdrop]
  dsimp only
  rw [hsilent, if_neg Bool.false_ne_true]
  split
  · next content hdash =>
    rw [heq] at hdash
    obtain ⟨rfl, -⟩ := List.cons.inj hdash
    exact absurd hc (by decide)
  · rw [entryOf_printed hkey hcolon hvalue]
    rfl

/-- **A line with an item**, which begins with a key. -/
theorem line_of_item (s : State) :
    s.line (List.replicate n ' ' ++ '-' :: ' ' :: printed key value) =
      (s.place n none none).bind fun s => s.place (n + 2) (some key) value := by
  obtain ⟨htake, hdrop⟩ := indented n ('-' :: ' ' :: printed key value) (by simp)
  unfold State.line
  rw [htake, hdrop]
  dsimp only
  rw [show isSilent ('-' :: ' ' :: printed key value) = false from rfl, if_neg Bool.false_ne_true]
  show ((s.place n none none).bind fun s => (entryOf (printed key value)).bind fun p =>
    s.place (n + 2) (some p.1) p.2) = _
  rw [entryOf_printed hkey hcolon hvalue]
  rfl

end line

/-- A silent line. -/
theorem line_nil (s : State) : s.line [] = some s := rfl

/-! ## Scalars -/

theorem scalarOf_isPlain {cs v : List Char} (h : scalarOf cs = some (some v)) : IsPlain v := by
  unfold scalarOf at h
  dsimp only at h
  split at h
  · cases h
  · split at h
    · next hv =>
      cases h
      exact hv
    · cases h

theorem entryOf_isPlain {cs : List Char} {p : List Char × Option (List Char)}
    (h : entryOf cs = some p) {v : List Char} (hv : p.2 = some v) : IsPlain v := by
  unfold entryOf at h
  obtain ⟨⟨k, rest⟩, -, h⟩ := Option.bind_eq_some_iff.mp h
  obtain ⟨value, hvalue, h⟩ := Option.bind_eq_some_iff.mp h
  split at h
  · cases h
    exact scalarOf_isPlain (hvalue.trans (congrArg some hv))
  · cases h

/-- What placing an entry does to the entries. -/
theorem place_entries {s s' : State} {n : Nat} {key value : Option (List Char)}
    (h : s.place n key value = some s') : ∃ path, s'.entries = s.entries ++ [⟨path, value⟩] := by
  have hadd : ∀ {frames n key s'}, s.add frames n key value = some s' →
      ∃ path, s'.entries = s.entries ++ [⟨path, value⟩] := by
    intro frames n key s' h
    unfold State.add at h
    dsimp only at h
    split at h
    · cases h
    · cases h
      exact ⟨_, rfl⟩
  unfold State.place at h
  split at h
  · split at h
    · exact hadd h
    · cases h
  · split at h
    · obtain ⟨k, -, h⟩ := Option.bind_eq_some_iff.mp h
      exact hadd h
    · split at h
      · exact hadd h
      · cases h

/-- All scalars so far are plain. -/
def State.Scalars (s : State) : Prop := ∀ e ∈ s.entries, ∀ v, e.value = some v → IsPlain v

theorem place_scalars {s s' : State} {n : Nat} {key value : Option (List Char)} (hs : s.Scalars)
    (hvalue : ∀ v, value = some v → IsPlain v) (h : s.place n key value = some s') :
    s'.Scalars := by
  obtain ⟨path, hentries⟩ := place_entries h
  intro e he v hv
  rw [hentries] at he
  rcases List.mem_append.mp he with he | he
  · exact hs e he v hv
  · rw [List.mem_singleton.mp he] at hv
    exact hvalue v hv

theorem line_scalars {s s' : State} {line : List Char} (hs : s.Scalars)
    (h : s.line line = some s') : s'.Scalars := by
  unfold State.line at h
  dsimp only at h
  split at h
  · cases h
    exact hs
  · split at h
    · obtain ⟨s₁, h1, h⟩ := Option.bind_eq_some_iff.mp h
      obtain ⟨p, hentry, h⟩ := Option.bind_eq_some_iff.mp h
      exact place_scalars (place_scalars hs (by nofun) h1)
        (fun v hv => entryOf_isPlain hentry hv) h
    · obtain ⟨p, hentry, h⟩ := Option.bind_eq_some_iff.mp h
      exact place_scalars hs (fun v hv => entryOf_isPlain hentry hv) h

theorem lines_scalars {ls : List (List Char)} {s s' : State} (hs : s.Scalars)
    (h : ls.foldlM State.line s = some s') : s'.Scalars := by
  induction ls generalizing s with
  | nil =>
    cases h
    exact hs
  | cons l ls ih =>
    rw [List.foldlM_cons] at h
    obtain ⟨s₁, h1, h⟩ := Option.bind_eq_some_iff.mp h
    exact ih (line_scalars hs h1) h

/-- **Every scalar of a text is plain.** -/
theorem parse_plain {cs : List Char} {es : List Entry} (h : parse cs = some es) {path : List Key}
    {v : List Char} (hv : valueAt path es = some v) : IsPlain v := by
  obtain ⟨s, hs, rfl⟩ := Option.map_eq_some_iff.mp h
  obtain ⟨e, he, hev⟩ := Option.bind_eq_some_iff.mp hv
  have h0 : State.empty.Scalars := fun e he => (List.not_mem_nil he).elim
  exact lines_scalars h0 hs e (List.mem_of_find?_eq_some he) v hev

end Yaml
