import Mathlib.Data.List.Basic

/-!
# POSIX shell token recognition

A character-at-a-time recogniser for the token grammar of the shell: words are
split at unquoted blanks and newlines, operators are read greedily, single
quotes make everything literal, double quotes all but `$`, `` ` `` and some
backslashes, and an unquoted backslash quotes one character. A word keeps, for
each character, whether it is quoted, plain, or the start of an expansion, so
"this word is inert" can be said of it. Here-documents and aliases are left out.

`lex_blank` cuts the input at an unquoted blank, and `lex_singleQuoted` reads a
single-quoted text back.
-/

namespace Shell

/-- A character of a word and how the shell got it. -/
inductive Piece where
  | plain (c : Char)
  | quoted (c : Char)
  | expand (c : Char)
  deriving DecidableEq, Repr

def Piece.char : Piece → Char
  | plain c | quoted c | expand c => c

abbrev Word := List Piece

/-- The characters of a word, quotes removed. -/
def Word.value (w : Word) : List Char := w.map Piece.char

inductive Tok where
  | word (w : Word)
  | op (s : List Char)
  | comment (s : List Char)
  deriving DecidableEq, Repr

def operators : List (List Char) :=
  ["&", "&&", "(", ")", ";", ";;", "|", "||", "<", ">", "<<", ">>", "<&", ">&", "<>", "<<-",
    ">|"].map String.toList

/-- Where the recogniser is. The word so far is kept in the modes inside one. -/
inductive Mode where
  | start
  | word (w : Word)
  | single (w : Word)
  | double (w : Word)
  | doubleEsc (w : Word)
  /-- After an unquoted backslash; `none` when no word has begun. -/
  | esc (w : Option Word)
  | oper (s : List Char)
  | comment (s : List Char)
  deriving DecidableEq, Repr

def isBlank (c : Char) : Bool := c == ' ' || c == '\t'

def isOperatorStart (c : Char) : Bool := operators.contains [c]

/-- Characters that start an expansion when unquoted: parameters, commands, and patterns. -/
def isExpansion (c : Char) : Bool := ['$', Char.ofNat 96, '*', '?', '[', '~'].contains c

/-- Escapes that a backslash keeps its meaning for inside double quotes. -/
def isDoubleEscaped (c : Char) : Bool := ['$', Char.ofNat 96, '"', '\\'].contains c

def plainPiece (c : Char) : Piece := if isExpansion c then .expand c else .plain c

/-- Between two tokens. -/
def stepStart (c : Char) : Mode × List Tok :=
  if isBlank c then (.start, [])
  else if c = '\n' then (.start, [.op [c]])
  else if c = '\'' then (.single [], [])
  else if c = '"' then (.double [], [])
  else if c = '\\' then (.esc none, [])
  else if c = '#' then (.comment [], [])
  else if isOperatorStart c then (.oper [c], [])
  else (.word [plainPiece c], [])

def stepWord (w : Word) (c : Char) : Mode × List Tok :=
  if isBlank c then (.start, [.word w])
  else if c = '\n' then (.start, [.word w, .op [c]])
  else if c = '\'' then (.single w, [])
  else if c = '"' then (.double w, [])
  else if c = '\\' then (.esc (some w), [])
  else if isOperatorStart c then (.oper [c], [.word w])
  else (.word (w ++ [plainPiece c]), [])

def step : Mode → Char → Mode × List Tok
  | .start, c => stepStart c
  | .word w, c => stepWord w c
  | .single w, c => if c = '\'' then (.word w, []) else (.single (w ++ [.quoted c]), [])
  | .double w, c =>
    if c = '"' then (.word w, [])
    else if c = '\\' then (.doubleEsc w, [])
    else (.double (w ++ [if c = '$' ∨ c = Char.ofNat 96 then .expand c else .quoted c]), [])
  | .doubleEsc w, c =>
    if isDoubleEscaped c then (.double (w ++ [.quoted c]), [])
    else if c = '\n' then (.double w, [])
    else (.double (w ++ [.quoted '\\', .quoted c]), [])
  | .esc w, c =>
    if c = '\n' then
      -- a line continuation is removed, and does not begin a word
      match w with
      | none => (.start, [])
      | some w => (.word w, [])
    else (.word (w.getD [] ++ [.quoted c]), [])
  | .oper s, c =>
    if operators.contains (s ++ [c]) then (.oper (s ++ [c]), [])
    else ((stepStart c).1, .op s :: (stepStart c).2)
  | .comment s, c =>
    if c = '\n' then (.start, [.comment s, .op [c]]) else (.comment (s ++ [c]), [])

/-- The last token at the end of input; `none` inside an unfinished quote or escape. -/
def finish : Mode → Option (List Tok)
  | .start => some []
  | .word w => some [.word w]
  | .oper s => some [.op s]
  | .comment s => some [.comment s]
  | .single _ | .double _ | .doubleEsc _ | .esc _ => none

def lexFrom : Mode → List Char → Option (List Tok)
  | m, [] => finish m
  | m, c :: cs => (lexFrom (step m c).1 cs).map ((step m c).2 ++ ·)

/-- The tokens of a shell input. -/
def lex (cs : List Char) : Option (List Tok) := lexFrom .start cs

/-- The mode after some input. -/
def modeAfter (m : Mode) (cs : List Char) : Mode := cs.foldl (fun m c => (step m c).1) m

/-- A blank here ends the current token. -/
def Mode.open : Mode → Bool
  | .start | .word _ => true
  | .oper _ => true
  | _ => false

/-! ## Cutting at a blank -/

theorem contains_blank (s : List Char) : operators.contains (s ++ [' ']) = false := by
  have h : ∀ o ∈ operators, ' ' ∉ o := by decide
  rw [← Bool.not_eq_true, List.contains_iff_mem]
  exact fun hm => h _ hm (by simp)

theorem step_blank {m : Mode} (h : m.open = true) :
    finish m = some (step m ' ').2 ∧ (step m ' ').1 = .start := by
  cases m with
  | start => exact ⟨rfl, rfl⟩
  | word w => exact ⟨rfl, rfl⟩
  | oper s =>
    simp only [step, contains_blank]
    exact ⟨rfl, rfl⟩
  | single _ | double _ | doubleEsc _ | esc _ | comment _ => cases h

theorem lexFrom_blank {m : Mode} {cs : List Char} {ts : List Tok} (rest : List Char)
    (h : lexFrom m cs = some ts) (hm : (modeAfter m cs).open = true) :
    lexFrom m (cs ++ ' ' :: rest) = (lex rest).map (ts ++ ·) := by
  induction cs generalizing m ts with
  | nil =>
    obtain ⟨h1, h2⟩ := step_blank (m := m) hm
    rw [lexFrom, h1] at h
    cases h
    simp only [List.nil_append, lexFrom, h2, lex]
  | cons c cs ih =>
    simp only [lexFrom, Option.map_eq_some_iff] at h
    obtain ⟨us, hus, rfl⟩ := h
    rw [List.cons_append, lexFrom, ih hus hm, Option.map_map]
    congr 1
    funext x
    simp only [Function.comp_apply, List.append_assoc]

/-- **A blank is a cut.** After input that ends outside quotes, the rest is read afresh. -/
theorem lex_blank {cs : List Char} {ts : List Tok} (rest : List Char) (h : lex cs = some ts)
    (hm : (modeAfter .start cs).open = true) :
    lex (cs ++ ' ' :: rest) = (lex rest).map (ts ++ ·) :=
  lexFrom_blank rest h hm

/-- Texts that each end outside quotes, joined by blanks: the tokens of each in order. -/
theorem lex_intercalate {ls : List (List Char × List Tok)}
    (h : ∀ l ∈ ls, lex l.1 = some l.2 ∧ (modeAfter .start l.1).open = true) :
    lex ([' '].intercalate (ls.map Prod.fst)) = some (ls.flatMap Prod.snd) := by
  induction ls with
  | nil => rfl
  | cons l ls ih =>
    obtain ⟨h1, h2⟩ := h l List.mem_cons_self
    have ih := ih fun l' hl' => h l' (List.mem_cons_of_mem _ hl')
    cases ls with
    | nil => simpa using h1
    | cons l' ls =>
      rw [List.map_cons, List.map_cons, List.intercalate_cons_cons, List.append_assoc,
        List.singleton_append, lex_blank _ h1 h2, ← List.map_cons, ih]
      rfl

/-! ## Single quotes -/

/-- A text in single quotes; a quote inside leaves the quotes, is escaped, and enters again. -/
def singleQuoted (cs : List Char) : List Char :=
  '\'' :: cs.flatMap (fun c => if c = '\'' then ['\'', '\\', '\'', '\''] else [c]) ++ ['\'']

theorem lexFrom_single (w : Word) (cs : List Char) :
    lexFrom (.single w)
      (cs.flatMap (fun c => if c = '\'' then ['\'', '\\', '\'', '\''] else [c]) ++ ['\'']) =
        some [.word (w ++ cs.map .quoted)] ∧
    modeAfter (.single w)
      (cs.flatMap (fun c => if c = '\'' then ['\'', '\\', '\'', '\''] else [c]) ++ ['\'']) =
        .word (w ++ cs.map .quoted) := by
  induction cs generalizing w with
  | nil => simp [lexFrom, step, finish, modeAfter]
  | cons c cs ih =>
    have ih := ih (w ++ [.quoted c])
    rw [List.append_assoc, List.singleton_append] at ih
    by_cases hc : c = '\''
    · -- `'` closes, `\'` is a quoted character of the same word, `'` opens again
      subst hc
      simpa [lexFrom, modeAfter, step, stepWord, isBlank] using ih
    · simpa [lexFrom, modeAfter, step, hc] using ih

/-- **Single quotes are exact.** A quoted text is one word, all of it quoted, with that value. -/
theorem lex_singleQuoted (cs : List Char) :
    lex (singleQuoted cs) = some [.word (cs.map .quoted)] ∧
      (modeAfter .start (singleQuoted cs)).open = true := by
  obtain ⟨h1, h2⟩ := lexFrom_single [] cs
  simp only [List.nil_append] at h1 h2
  constructor
  · simp only [lex, singleQuoted, List.cons_append, lexFrom]
    show Option.map _ (lexFrom (.single []) _) = _
    rw [h1]; rfl
  · have : modeAfter .start (singleQuoted cs) = .word (cs.map .quoted) := h2
    rw [this]; rfl

theorem value_quoted (cs : List Char) : Word.value (cs.map .quoted) = cs := by
  simp [Word.value, Piece.char, Function.comp_def]

end Shell
