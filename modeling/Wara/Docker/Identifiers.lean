import Mathlib.Data.List.Infix
import Wara.Docker.Resources
import Wara.Posix.Path

/-!
# Docker's identifiers

The grammars of a container name and of an image reference, and which names that
pass `validate_service_name` make both. A container name may be any of them. A
path component of a reference is stricter about its separators: one `.`, one or
two `_` or a run of `-`, each between two words (`isPathComponent_iff`).
-/

namespace Wara.Docker

open Rust Posix

/-! ## The grammars -/

def isWordChar (c : Char) : Bool := isAsciiLowercase c || isAsciiDigit c

def isSeparatorChar (c : Char) : Bool := c == '.' || c == '_' || c == '-'

inductive IsSeparator : List Char → Prop
  | dot : IsSeparator ['.']
  | underscore : IsSeparator ['_']
  | underscores : IsSeparator ['_', '_']
  | dashes (n : Nat) : IsSeparator (List.replicate (n + 1) '-')

/-- `[a-z0-9]+((\.|_|__|-+)[a-z0-9]+)*`. -/
inductive IsPathComponent : List Char → Prop
  | word {w : List Char} : w ≠ [] → (∀ c ∈ w, isWordChar c = true) → IsPathComponent w
  | joined {w sep rest : List Char} : w ≠ [] → (∀ c ∈ w, isWordChar c = true) →
      IsSeparator sep → IsPathComponent rest → IsPathComponent (w ++ (sep ++ rest))

/-- `[a-zA-Z0-9_][a-zA-Z0-9_.-]{0,127}`. -/
def IsTag : List Char → Prop
  | [] => False
  | c :: cs => (isAsciiAlphanumeric c || c == '_') = true ∧ cs.length ≤ 127 ∧
      ∀ d ∈ cs, (isAsciiAlphanumeric d || isSeparatorChar d) = true

/-- Path components with slashes between them, and a tag. -/
def IsImageReference (reference : String) : Prop :=
  ∃ path tag, reference.toList = path ++ ':' :: tag ∧ (∀ c ∈ pieces path, IsPathComponent c) ∧
    IsTag tag

/-- `[a-zA-Z0-9][a-zA-Z0-9_.-]+`. -/
def IsContainerName (name : String) : Prop :=
  match name.toList with
  | [] => False
  | c :: cs => isAsciiAlphanumeric c = true ∧ cs ≠ [] ∧
      ∀ d ∈ cs, (isAsciiAlphanumeric d || isSeparatorChar d) = true

/-! ## Separators side by side -/

/-- Separators that may not follow each other. -/
def clashes : List (List Char) :=
  [['.', '.'], ['.', '_'], ['_', '.'], ['.', '-'], ['-', '.'], ['_', '-'], ['-', '_'],
    ['_', '_', '_']]

/-- The text ends in a letter or digit, and its separators do not clash. -/
structure Tidy (cs : List Char) : Prop where
  last : ∀ c ∈ cs.getLast?, isSeparatorChar c = false
  apart : ∀ p ∈ clashes, ¬ p <:+: cs

instance (cs : List Char) : Decidable (Tidy cs) :=
  decidable_of_iff ((cs.getLast?.all fun c => !isSeparatorChar c) = true ∧
    (clashes.all fun p => !decide (p <:+: cs)) = true)
    ⟨fun h => ⟨by simpa [Option.all_eq_true] using h.1, by simpa using h.2⟩,
      fun h => ⟨by simpa [Option.all_eq_true] using h.last, by simpa using h.apart⟩⟩

theorem not_separator_of_word {c : Char} (h : isWordChar c = true) : isSeparatorChar c = false := by
  have hne : ∀ d, isWordChar d = false → (c == d) = false := by
    intro d hd
    rw [beq_eq_false_iff_ne]
    rintro rfl
    rw [h] at hd
    cases hd
  unfold isSeparatorChar
  rw [hne '.' (by decide), hne '_' (by decide), hne '-' (by decide)]
  rfl

theorem separators_of_clash {p : List Char} (hp : p ∈ clashes) :
    p ≠ [] ∧ ∀ c ∈ p, isSeparatorChar c = true := by
  have hall : clashes.all (fun p => !p.isEmpty && p.all isSeparatorChar) = true := by decide
  obtain ⟨hne, hc⟩ := Bool.and_eq_true_iff.mp (List.all_eq_true.mp hall p hp)
  exact ⟨by simpa using hne, List.all_eq_true.mp hc⟩

theorem not_clash_of_separator {sep p : List Char} (hsep : IsSeparator sep) (hp : p ∈ clashes) :
    ¬ p <:+: sep := by
  have hfixed : ∀ sep, (clashes.all fun p => !decide (p <:+: sep)) = true → ¬ p <:+: sep := by
    intro sep hall
    simpa using List.all_eq_true.mp hall p hp
  cases hsep with
  | dot => exact hfixed _ (by decide)
  | underscore => exact hfixed _ (by decide)
  | underscores => exact hfixed _ (by decide)
  | dashes n =>
    intro hpart
    have hother : (clashes.all fun p => !p.all (· == '-')) = true := by decide
    have hp' := List.all_eq_true.mp hother p hp
    have hdash : p.all (· == '-') = true := by
      rw [List.all_eq_true]
      intro c hc
      rw [List.eq_of_mem_replicate (hpart.subset hc)]
      rfl
    rw [hdash] at hp'
    cases hp'

/-- What is made of separators does not reach over a word. -/
theorem infix_of_word {w cs p : List Char} (hw : ∀ c ∈ w, isWordChar c = true)
    (hp : p ≠ [] ∧ ∀ c ∈ p, isSeparatorChar c = true) (h : p <:+: w ++ cs) : p <:+: cs := by
  have hsep : ∀ c ∈ p, c ∉ w := by
    intro c hc hcw
    have hno : isSeparatorChar c = false := not_separator_of_word (hw c hcw)
    rw [hp.2 c hc] at hno
    cases hno
  rcases List.infix_append_iff_ne_nil.mp h with h | h | ⟨u, v, hu, -, rfl, huw, -⟩
  · obtain ⟨c, hc⟩ := List.exists_mem_of_ne_nil p hp.1
    exact absurd (h.subset hc) (hsep c hc)
  · exact h
  · obtain ⟨c, hc⟩ := List.exists_mem_of_ne_nil u hu
    exact absurd (huw.subset hc) (hsep c (List.mem_append_left _ hc))

theorem head_of_isPathComponent {cs : List Char} (h : IsPathComponent cs) :
    ∃ c rest, cs = c :: rest ∧ isWordChar c = true := by
  have hword : ∀ {w : List Char} (tail : List Char), w ≠ [] → (∀ c ∈ w, isWordChar c = true) →
      ∃ c rest, w ++ tail = c :: rest ∧ isWordChar c = true := by
    intro w tail hne hw
    obtain ⟨c, rest, rfl⟩ := List.exists_cons_of_ne_nil hne
    exact ⟨c, rest ++ tail, rfl, hw c List.mem_cons_self⟩
  cases h with
  | word hne hw =>
    obtain ⟨c, rest, hcs, hc⟩ := hword [] hne hw
    exact ⟨c, rest, by rw [← hcs, List.append_nil], hc⟩
  | joined hne hw _ _ => exact hword _ hne hw

/-- The separators of a path component do not clash. -/
theorem tidy_of_isPathComponent {cs : List Char} (h : IsPathComponent cs) : Tidy cs := by
  induction h with
  | @word w hne hw =>
    refine ⟨fun c hc => not_separator_of_word (hw c (List.mem_of_getLast? hc)), fun p hp hin => ?_⟩
    rw [← List.append_nil w] at hin
    have hnil := infix_of_word hw (separators_of_clash hp) hin
    exact (separators_of_clash hp).1 (List.infix_nil.mp hnil)
  | @joined w sep rest hne hw hsep hrest ih =>
    obtain ⟨c, tail, rfl, hc⟩ := head_of_isPathComponent hrest
    refine ⟨fun d hd => ih.last d ?_, fun p hp hin => ?_⟩
    · rw [← List.append_assoc, List.getLast?_append_of_ne_nil _ (List.cons_ne_nil c tail)] at hd
      exact hd
    · have hin := infix_of_word hw (separators_of_clash hp) hin
      -- in the separator, in the rest, or over the first letter of the rest
      rcases List.infix_append_iff_ne_nil.mp hin with hin | hin | ⟨u, v, -, hv, rfl, -, hvr⟩
      · exact not_clash_of_separator hsep hp hin
      · exact ih.apart p hp hin
      · obtain ⟨d, ds, rfl⟩ := List.exists_cons_of_ne_nil hv
        obtain ⟨more, hmore⟩ := hvr
        have hdc : d = c := (List.cons.inj hmore).1
        have hd := (separators_of_clash hp).2 d (List.mem_append_right _ List.mem_cons_self)
        rw [hdc, not_separator_of_word hc] at hd
        cases hd

/-- Separators that do not clash are dashes, once there is one dash. -/
theorem dashes_of_not_clash {run : List Char} (hrun : ∀ c ∈ run, isSeparatorChar c = true)
    (h : ∀ p ∈ clashes, ¬ p <:+: '-' :: run) : run = List.replicate run.length '-' := by
  induction run with
  | nil => rfl
  | cons c cs ih =>
    have hpair : ['-', c] <:+: '-' :: c :: cs := ⟨[], cs, rfl⟩
    have hc : c = '-' := by
      have hsep := hrun c List.mem_cons_self
      unfold isSeparatorChar at hsep
      simp only [Bool.or_eq_true, beq_iff_eq] at hsep
      rcases hsep with (rfl | rfl) | rfl
      · exact absurd hpair (h _ (by decide))
      · exact absurd hpair (h _ (by decide))
      · rfl
    subst hc
    have hrest := ih (fun d hd => hrun d (List.mem_cons_of_mem _ hd)) fun p hp hin =>
      h p hp (List.infix_cons hin)
    rw [List.length_cons, List.replicate_succ, ← hrest]

/-- A run of separators that do not clash is one separator. -/
theorem isSeparator_of_not_clash {run : List Char} (hne : run ≠ [])
    (hrun : ∀ c ∈ run, isSeparatorChar c = true) (h : ∀ p ∈ clashes, ¬ p <:+: run) :
    IsSeparator run := by
  have hcases : ∀ c, isSeparatorChar c = true → c = '.' ∨ c = '_' ∨ c = '-' := by
    intro c hc
    unfold isSeparatorChar at hc
    simpa only [Bool.or_eq_true, beq_iff_eq, or_assoc] using hc
  obtain ⟨c, cs, rfl⟩ := List.exists_cons_of_ne_nil hne
  have hcs : ∀ d ∈ cs, isSeparatorChar d = true := fun d hd => hrun d (List.mem_cons_of_mem _ hd)
  rcases hcases c (hrun c List.mem_cons_self) with rfl | rfl | rfl
  · cases cs with
    | nil => exact .dot
    | cons d ds =>
      have hpair : ['.', d] <:+: '.' :: d :: ds := ⟨[], ds, rfl⟩
      rcases hcases d (hcs d List.mem_cons_self) with rfl | rfl | rfl
      all_goals exact absurd hpair (h _ (by decide))
  · cases cs with
    | nil => exact .underscore
    | cons d ds =>
      have hpair : ['_', d] <:+: '_' :: d :: ds := ⟨[], ds, rfl⟩
      rcases hcases d (hcs d List.mem_cons_self) with rfl | rfl | rfl
      · exact absurd hpair (h _ (by decide))
      · cases ds with
        | nil => exact .underscores
        | cons e es =>
          have htriple : ['_', '_', e] <:+: '_' :: '_' :: e :: es := ⟨[], es, rfl⟩
          have htail : ['_', e] <:+: '_' :: '_' :: e :: es := ⟨['_'], es, rfl⟩
          have he := hcs e (List.mem_cons_of_mem _ List.mem_cons_self)
          rcases hcases e he with rfl | rfl | rfl
          · exact absurd htail (h _ (by decide))
          · exact absurd htriple (h _ (by decide))
          · exact absurd htail (h _ (by decide))
      · exact absurd hpair (h _ (by decide))
  · rw [dashes_of_not_clash hcs h, ← List.replicate_succ]
    exact .dashes _

theorem tidy_suffix {cs rest : List Char} (h : Tidy cs) (hs : rest <:+ cs) : Tidy rest := by
  refine ⟨fun c hc => h.last c ?_, fun p hp hin => h.apart p hp (hin.trans hs.isInfix)⟩
  obtain ⟨front, rfl⟩ := hs
  have hne : rest ≠ [] := by
    rintro rfl
    cases hc
  rw [List.getLast?_append_of_ne_nil _ hne]
  exact hc

/-- What is left after the characters that satisfy `p` begins with one that does not. -/
theorem dropWhile_cons_not {p : Char → Bool} {cs ds : List Char} {d : Char}
    (h : cs.dropWhile p = d :: ds) : p d = false := by
  have hhead := List.head?_dropWhile_not p cs
  rw [h] at hhead
  exact hhead

/-- A tidy text of words and separators that begins with a word is a path component. -/
theorem isPathComponent_of_tidy {cs : List Char} (hhead : ∃ c ∈ cs.head?, isWordChar c = true)
    (hchars : ∀ d ∈ cs, isWordChar d = true ∨ isSeparatorChar d = true) (h : Tidy cs) :
    IsPathComponent cs := by
  induction hn : cs.length using Nat.strong_induction_on generalizing cs with
  | _ n ih =>
    have hsplit : cs.takeWhile isWordChar ++ cs.dropWhile isWordChar = cs :=
      List.takeWhile_append_dropWhile
    have hword : ∀ d ∈ cs.takeWhile isWordChar, isWordChar d = true :=
      fun d hd => List.mem_takeWhile_imp hd
    have hne : cs.takeWhile isWordChar ≠ [] := by
      obtain ⟨c, hc, hcw⟩ := hhead
      obtain ⟨tail, rfl⟩ := List.head?_eq_some_iff.mp hc
      rw [List.takeWhile_cons_of_pos hcw]
      exact List.cons_ne_nil _ _
    cases hmore : cs.dropWhile isWordChar with
    | nil =>
      rw [hmore, List.append_nil] at hsplit
      rw [← hsplit]
      exact .word hne hword
    | cons s ss =>
      rw [hmore] at hsplit
      have hsuffix : s :: ss <:+ cs := ⟨_, hsplit⟩
      have hs : isSeparatorChar s = true :=
        (hchars s (hsuffix.subset List.mem_cons_self)).resolve_left
          (by rw [dropWhile_cons_not hmore]; exact Bool.false_ne_true)
      -- the word is followed by a run of separators and the rest
      have hrest : (s :: ss).takeWhile isSeparatorChar ++ (s :: ss).dropWhile isSeparatorChar =
          s :: ss := List.takeWhile_append_dropWhile
      have hsep : IsSeparator ((s :: ss).takeWhile isSeparatorChar) := by
        refine isSeparator_of_not_clash ?_ (fun d hd => List.mem_takeWhile_imp hd) fun p hp hin => ?_
        · rw [List.takeWhile_cons_of_pos hs]
          exact List.cons_ne_nil _ _
        · have hpart := (List.takeWhile_prefix isSeparatorChar (l := s :: ss)).isInfix
          exact h.apart p hp (hin.trans (hpart.trans hsuffix.isInfix))
      cases hend : (s :: ss).dropWhile isSeparatorChar with
      | nil =>
        have hall : ∀ d ∈ s :: ss, isSeparatorChar d = true := List.dropWhile_eq_nil_iff.mp hend
        obtain ⟨d, hd⟩ := Option.isSome_iff_exists.mp
          (List.getLast?_isSome.mpr (List.cons_ne_nil s ss))
        have hlast := (tidy_suffix h hsuffix).last d hd
        rw [hall d (List.mem_of_getLast? hd)] at hlast
        cases hlast
      | cons d ds =>
        rw [hend] at hrest
        have hds : d :: ds <:+ cs := List.IsSuffix.trans ⟨_, hrest⟩ hsuffix
        have hd : isWordChar d = true :=
          (hchars d (hds.subset List.mem_cons_self)).resolve_right
            (by rw [dropWhile_cons_not hend]; exact Bool.false_ne_true)
        have hlt : (d :: ds).length < n := by
          have hlen := congrArg List.length hsplit
          have hpos := List.length_pos_iff.mpr hne
          have hle := List.IsSuffix.length_le (⟨_, hrest⟩ : d :: ds <:+ s :: ss)
          rw [List.length_append] at hlen
          omega
        have hcomponent := ih _ hlt ⟨d, rfl, hd⟩ (fun e he => hchars e (hds.subset he))
          (tidy_suffix h hds) rfl
        rw [← hsplit, ← hrest]
        exact .joined hne hword hsep hcomponent

/-! ## Names that pass the validator -/

section names

variable {name : String}

theorem isWordChar_of_start {c : Char} (h : isServiceNameStart c = true) : isWordChar c = true := h

theorem word_or_separator {c : Char} (h : isServiceNameChar c = true) :
    isWordChar c = true ∨ isSeparatorChar c = true := by
  unfold isServiceNameChar at h
  unfold isWordChar isSeparatorChar
  simp only [Bool.or_eq_true] at h ⊢
  tauto

theorem isPathComponent_iff (h : validateServiceName name = .ok ()) :
    IsPathComponent name.toList ↔ Tidy name.toList := by
  refine ⟨tidy_of_isPathComponent, fun htidy => ?_⟩
  obtain ⟨first, rest, hname, hfirst, -, hrest⟩ := validateServiceName_iff.mp h
  rw [hname] at htidy ⊢
  refine isPathComponent_of_tidy ⟨first, rfl, isWordChar_of_start hfirst⟩ (fun c hc => ?_) htidy
  rcases List.mem_cons.mp hc with rfl | hc
  · exact .inl (isWordChar_of_start hfirst)
  · exact word_or_separator (hrest c hc)

theorem isContainerName_containerName (h : validateServiceName name = .ok ()) :
    IsContainerName (containerName name) := by
  obtain ⟨first, rest, hname, hfirst, -, hrest⟩ := validateServiceName_iff.mp h
  have hword : ∀ c, isWordChar c = true → isAsciiAlphanumeric c = true := by
    intro c hc
    unfold isWordChar at hc
    unfold isAsciiAlphanumeric
    simp only [Bool.or_eq_true] at hc ⊢
    tauto
  have hchar : ∀ c ∈ name.toList, (isAsciiAlphanumeric c || isSeparatorChar c) = true := by
    intro c hc
    rw [Bool.or_eq_true]
    rw [hname] at hc
    rcases List.mem_cons.mp hc with rfl | hc
    · exact .inl (hword c (isWordChar_of_start hfirst))
    · exact (word_or_separator (hrest c hc)).imp_left (hword c)
  have hlist : (containerName name).toList = 'w' :: ("ara-".toList ++ name.toList) := by
    unfold containerName
    rw [String.toList_append]
    rfl
  have hprefix : ("ara-".toList.all fun c => isAsciiAlphanumeric c || isSeparatorChar c) = true := by
    decide
  unfold IsContainerName
  rw [hlist]
  refine ⟨by decide, List.append_ne_nil_of_left_ne_nil (by decide) _, fun c hc => ?_⟩
  rcases List.mem_append.mp hc with hc | hc
  · exact List.all_eq_true.mp hprefix c hc
  · exact hchar c hc

theorem isTag_latest : IsTag "latest".toList := by
  have hchars : ("atest".toList.all fun c => isAsciiAlphanumeric c || isSeparatorChar c) = true := by
    decide
  exact ⟨by decide, by decide, List.all_eq_true.mp hchars⟩

theorem isPathComponent_wara : IsPathComponent "wara".toList :=
  .word (by decide) (List.all_eq_true.mp (by decide : "wara".toList.all isWordChar = true))

/-- Of a built image's reference only the last path component depends on the name. -/
theorem isImageReference_builtImageName (h : validateServiceName name = .ok ()) :
    IsImageReference (builtImageName name) ↔ IsPathComponent name.toList := by
  have hlist : (builtImageName name).toList =
      ("wara".toList ++ '/' :: name.toList) ++ ':' :: "latest".toList := by
    unfold builtImageName
    rw [String.toList_append, String.toList_append, String.toList_append, List.append_assoc,
      List.append_assoc]
    rfl
  have hpieces : pieces ("wara".toList ++ '/' :: name.toList) = ["wara".toList, name.toList] := by
    rw [pieces_append_slash, pieces_of_not_mem (p := name.toList) (validateServiceName_ok h).2]
    rfl
  have hcolon : ':' ∉ "wara".toList ++ '/' :: name.toList := by
    obtain ⟨first, rest, hname, hfirst, -, hrest⟩ := validateServiceName_iff.mp h
    rw [hname, List.mem_append, List.mem_cons, List.mem_cons]
    rintro (hw | hs | hf | hr)
    · exact absurd hw (by decide)
    · exact absurd hs (by decide)
    · exact absurd hfirst (by rw [← hf]; decide)
    · exact absurd (hrest _ hr) (by decide)
  unfold IsImageReference
  rw [hlist]
  constructor
  · rintro ⟨path, tag, heq, hpath, -⟩
    obtain ⟨rfl, -, -⟩ :=
      (List.append_cons_inj_of_notMem hcolon (by decide : ':' ∉ "latest".toList)).mp heq
    exact hpath name.toList (by rw [hpieces]; exact List.mem_cons_of_mem _ List.mem_cons_self)
  · intro hname
    refine ⟨_, _, rfl, fun c hc => ?_, isTag_latest⟩
    rw [hpieces] at hc
    rcases List.mem_cons.mp hc with rfl | hc
    · exact isPathComponent_wara
    · rw [List.mem_singleton.mp hc]
      exact hname

/-- **When a service's Docker identifiers are valid.** A name that passes the validator always makes
a container name. It makes an image reference if and only if it ends in a letter or digit and its
separators do not clash. -/
theorem docker_identifiers_iff (h : validateServiceName name = .ok ()) :
    (IsContainerName (containerName name) ∧ IsImageReference (builtImageName name)) ↔
      Tidy name.toList := by
  rw [isImageReference_builtImageName h, isPathComponent_iff h]
  exact ⟨And.right, fun htidy => ⟨isContainerName_containerName h, htidy⟩⟩

end names

theorem docker_identifiers_worker :
    IsContainerName (containerName "queue_worker") ∧
      IsImageReference (builtImageName "queue_worker") :=
  (docker_identifiers_iff (by decide +kernel)).mpr (by decide +kernel)

/-- Two dots in a row pass the validator. -/
theorem docker_identifiers_dots : ¬ ∀ name, validateServiceName name = .ok () →
    IsContainerName (containerName name) ∧ IsImageReference (builtImageName name) := by
  intro hclaim
  have hvalid : validateServiceName "api..v2" = .ok () := by decide +kernel
  have htidy := (docker_identifiers_iff hvalid).mp (hclaim "api..v2" hvalid)
  exact htidy.apart ['.', '.'] (by decide) (by decide +kernel)

end Wara.Docker
