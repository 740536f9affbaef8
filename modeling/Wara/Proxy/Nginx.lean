import Mathlib.Data.List.Basic

/-!
# Nginx configuration text

Tokens are separated by blanks, `;` and braces. A directive is its words with a
`;` or a block behind them. Quotes, escapes and comments are left out: here they
are characters of a word.

`lexFrom_append` reads a text without separators into the word it is in, and
`parse_plain` says that no word of a directive has a separator.
-/

namespace Nginx

abbrev Word := List Char

inductive Tok where
  | word (w : Word)
  | semicolon
  | opening
  | closing
  deriving DecidableEq, Repr

def isBlank (c : Char) : Bool := c == ' ' || c == '\t' || c == '\n' || c == '\r'

def isSeparator (c : Char) : Bool := isBlank c || c == ';' || c == '\x7b' || c == '\x7d'

/-- The word that a separator ends. -/
def ended : Word → List Tok
  | [] => []
  | w => [.word w]

/-- The tokens of a text; `w` is the word so far. -/
def lexFrom (w : Word) : List Char → List Tok
  | [] => ended w
  | c :: cs =>
    if isBlank c then ended w ++ lexFrom [] cs
    else if c = ';' then ended w ++ .semicolon :: lexFrom [] cs
    else if c = '\x7b' then ended w ++ .opening :: lexFrom [] cs
    else if c = '\x7d' then ended w ++ .closing :: lexFrom [] cs
    else lexFrom (w ++ [c]) cs

def lex (cs : List Char) : List Tok := lexFrom [] cs

inductive Directive where
  | simple (words : List Word)
  | block (words : List Word) (body : List Directive)

/-- The first word. -/
def Directive.name : Directive → Option Word
  | .simple words | .block words _ => words.head?

def named (name : String) (ds : List Directive) : List Directive :=
  ds.filter fun d => d.name = some name.toList

/-- The directives of a block. `stack` has, for each block that is open around it, its words and the
directives before it; `words` are those of the directive that is being read. -/
def parseFrom (stack : List (List Word × List Directive)) (words : List Word)
    (ds : List Directive) : List Tok → Option (List Directive)
  | [] => if stack.isEmpty && words.isEmpty then some ds else none
  | .word w :: ts => parseFrom stack (words ++ [w]) ds ts
  | .semicolon :: ts =>
    if words.isEmpty then none else parseFrom stack [] (ds ++ [.simple words]) ts
  | .opening :: ts => if words.isEmpty then none else parseFrom ((words, ds) :: stack) [] [] ts
  | .closing :: ts =>
    match stack, words with
    | (outer, before) :: stack, [] => parseFrom stack [] (before ++ [.block outer ds]) ts
    | _, _ => none

def parse (cs : List Char) : Option (List Directive) := parseFrom [] [] [] (lex cs)

/-! ## Words -/

/-- Without separators. -/
def Plain (w : Word) : Prop := ∀ c ∈ w, isSeparator c = false

instance (w : Word) : Decidable (Plain w) := inferInstanceAs (Decidable (∀ c ∈ w, _))

theorem Plain.append {v w : Word} (hv : Plain v) (hw : Plain w) : Plain (v ++ w) := by
  intro c hc
  rcases List.mem_append.mp hc with hc | hc
  · exact hv c hc
  · exact hw c hc

/-- **A text without separators** goes on the word before it. -/
theorem lexFrom_append {w v : Word} (hv : Plain v) (cs : List Char) :
    lexFrom w (v ++ cs) = lexFrom (w ++ v) cs := by
  induction v generalizing w with
  | nil => rw [List.append_nil, List.nil_append]
  | cons c v ih =>
    have hc : isSeparator c = false := hv c List.mem_cons_self
    simp only [isSeparator, Bool.or_eq_false_iff, beq_eq_false_iff_ne] at hc
    obtain ⟨⟨⟨hblank, hsemi⟩, hopen⟩, hclose⟩ := hc
    rw [List.cons_append, lexFrom, hblank, if_neg Bool.false_ne_true, if_neg hsemi, if_neg hopen,
      if_neg hclose, ih fun d hd => hv d (List.mem_cons_of_mem _ hd), List.append_assoc,
      List.singleton_append]

theorem mem_ended {w w' : Word} (h : .word w' ∈ ended w) : w' = w := by
  cases w with
  | nil => cases h
  | cons c cs =>
    cases List.mem_singleton.mp h
    rfl

/-- No word of a text has a separator. -/
theorem lexFrom_plain {w : Word} (hw : Plain w) {cs : List Char} {w' : Word}
    (h : .word w' ∈ lexFrom w cs) : Plain w' := by
  induction cs generalizing w with
  | nil =>
    rw [mem_ended h]
    exact hw
  | cons c cs ih =>
    have hcut : ∀ t : List Tok, (∀ v, .word v ∉ t) → .word w' ∈ ended w ++ (t ++ lexFrom [] cs) →
        Plain w' := by
      intro t ht hm
      rcases List.mem_append.mp hm with hm | hm
      · rw [mem_ended hm]
        exact hw
      · exact ih (List.forall_mem_nil _) ((List.mem_append.mp hm).resolve_left (ht w'))
    rw [lexFrom] at h
    split at h
    · exact hcut [] (by simp) h
    split at h
    · exact hcut [.semicolon] (by simp) h
    split at h
    · exact hcut [.opening] (by simp) h
    split at h
    · exact hcut [.closing] (by simp) h
    · next hblank hsemi hopen hclose =>
      refine ih (hw.append fun d hd => ?_) h
      rw [List.mem_singleton.mp hd]
      simp [isSeparator, hblank, hsemi, hopen, hclose]

/-! ## Directives -/

/-- Every word of the directive, and of those in its block, satisfies `P`. -/
inductive Directive.All (P : Word → Prop) : Directive → Prop
  | simple {words : List Word} : (∀ w ∈ words, P w) → All P (.simple words)
  | block {words : List Word} {body : List Directive} :
      (∀ w ∈ words, P w) → (∀ d ∈ body, All P d) → All P (.block words body)

/-- The words of the directives are words of the tokens. -/
theorem parseFrom_all {P : Word → Prop} {ts : List Tok} {stack : List (List Word × List Directive)}
    {words : List Word} {ds ds' : List Directive} (hts : ∀ w, .word w ∈ ts → P w)
    (hstack : ∀ f ∈ stack, (∀ w ∈ f.1, P w) ∧ ∀ d ∈ f.2, d.All P) (hwords : ∀ w ∈ words, P w)
    (hds : ∀ d ∈ ds, d.All P) (h : parseFrom stack words ds ts = some ds') :
    ∀ d ∈ ds', d.All P := by
  have hadd : ∀ {ds : List Directive} {d : Directive}, (∀ d ∈ ds, d.All P) → d.All P →
      ∀ d' ∈ ds ++ [d], d'.All P := by
    intro ds d hds hd d' hd'
    rcases List.mem_append.mp hd' with hd' | hd'
    · exact hds d' hd'
    · rw [List.mem_singleton.mp hd']
      exact hd
  induction ts generalizing stack words ds with
  | nil =>
    rw [parseFrom] at h
    split at h
    · cases h
      exact hds
    · cases h
  | cons t ts ih =>
    have hts' : ∀ w, .word w ∈ ts → P w := fun w hw => hts w (List.mem_cons_of_mem _ hw)
    cases t with
    | word w =>
      refine ih hts' hstack (fun v hv => ?_) hds h
      rcases List.mem_append.mp hv with hv | hv
      · exact hwords v hv
      · rw [List.mem_singleton.mp hv]
        exact hts w List.mem_cons_self
    | semicolon =>
      rw [parseFrom] at h
      split at h
      · cases h
      · exact ih hts' hstack (List.forall_mem_nil _) (hadd hds (.simple hwords)) h
    | opening =>
      rw [parseFrom] at h
      split at h
      · cases h
      · refine ih hts' (fun f hf => ?_) (List.forall_mem_nil _) (List.forall_mem_nil _) h
        rcases List.mem_cons.mp hf with rfl | hf
        · exact ⟨hwords, hds⟩
        · exact hstack f hf
    | closing =>
      unfold parseFrom at h
      split at h
      · next outer before stack =>
        obtain ⟨houter, hbefore⟩ := hstack _ List.mem_cons_self
        exact ih hts' (fun f hf => hstack f (List.mem_cons_of_mem _ hf))
          (List.forall_mem_nil _) (hadd hbefore (.block houter hds)) h
      · cases h

/-- **No word of a configuration has a separator.** -/
theorem parse_plain {cs : List Char} {ds : List Directive} (h : parse cs = some ds) :
    ∀ d ∈ ds, d.All Plain :=
  parseFrom_all (fun _ hw => lexFrom_plain (List.forall_mem_nil _) hw) (List.forall_mem_nil _)
    (List.forall_mem_nil _) (List.forall_mem_nil _) h

end Nginx
