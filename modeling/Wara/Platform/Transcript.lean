import Wara.Platform.Services
import Wara.Redaction.Cuts

/-!
# What a transcript shows of a secret

`DeployRun::to_output` redacts the captured streams one by one, after their ends
are trimmed, and then joins them with the lines it writes itself. The command
lines are not redacted, a secret with a line break can come together again when
the lines are joined, and a marker can be read as a part of a secret;
`toOutput_clean` says that nothing else shows one.
-/

namespace Wara

open Redaction

/-! ## `redact_secrets` -/

def marker : List Char := "[redacted]".toList

theorem marker_ne_nil : marker ≠ [] := by decide

theorem redactSecrets_cons (text secret : String) (secrets : List String) :
    redactSecrets text (secret :: secrets) = redactSecrets (if secret.toList.isEmpty then text
      else Rust.replace text secret "[redacted]") secrets := rfl

theorem toList_redactSecrets (text : String) (secrets : List String) :
    (redactSecrets text secrets).toList =
      Rust.replaceAll marker (secrets.map String.toList) text.toList := by
  induction secrets generalizing text with
  | nil => rfl
  | cons s secrets ih =>
    rw [redactSecrets_cons, ih, List.map_cons, Rust.replaceAll_cons]
    congr 1
    unfold Rust.pass
    split
    · rfl
    · rename_i hs
      rw [List.isEmpty_iff] at hs
      exact Rust.toList_replace hs

theorem redactSecrets_eq_nil_iff (secrets : List String) (text : String) :
    (redactSecrets text secrets).toList = [] ↔ text.toList = [] := by
  induction secrets generalizing text with
  | nil => rfl
  | cons s secrets ih =>
    rw [redactSecrets_cons, ih]
    split
    · rfl
    · rename_i hs
      rw [List.isEmpty_iff] at hs
      rw [Rust.toList_replace hs]
      exact (Rust.replaceFrom_marked hs 0 text.toList).eq_nil_iff marker_ne_nil

/-! ## The lines of a transcript -/

/-- A line is written as it is, or captured and redacted. -/
inductive Line where
  | label (text : String)
  | stream (text : String)
  deriving DecidableEq, Repr

def Line.redact (secrets : List String) : Line → String
  | .label text => text
  | .stream text => redactSecrets text secrets

/-- The line is not redacted, and shows the secret. -/
def Line.leaks (secret : String) : Line → Bool
  | .label text => Rust.contains text secret
  | .stream _ => false

/-- The line with the secrets cut out, if it is redacted. -/
def Line.cut (secrets : List String) : Line → List (Option Char)
  | .label text => text.toList.map some
  | .stream text => Redaction.cut (secrets.map String.toList) text.toList

/-- A stream has a line if there is anything in it. -/
def Line.ofStream (text : String) : List Line :=
  if (Rust.trimEnd text).toList.isEmpty then [] else [.stream (Rust.trimEnd text)]

def CommandOutcome.lines (outcome : CommandOutcome) (executed : Bool) : List Line :=
  [.label ("$ " ++ outcome.command)] ++ Line.ofStream outcome.stdout ++
    Line.ofStream outcome.stderr ++
    if executed then [.label ("[exit " ++ toString outcome.exitCode ++ "]")] else []

namespace DeployRun

def previewLine : String := "(preview — commands not executed)"

/-- The lines of the transcript before redaction. -/
def lines (run : DeployRun) : List Line :=
  run.outcomes.flatMap (·.lines run.executed) ++
    if run.executed then [] else [.label previewLine]

theorem toList_toOutput (run : DeployRun) (secrets : List String) :
    (run.toOutput secrets).toList =
      ['\n'].intercalate (run.lines.map fun line => (line.redact secrets).toList) := by
  have hstream : ∀ text : String, (Line.ofStream text).map (Line.redact secrets) =
      if (redactSecrets (Rust.trimEnd text) secrets).toList.isEmpty then []
        else [redactSecrets (Rust.trimEnd text) secrets] := by
    intro text
    unfold Line.ofStream
    simp only [List.isEmpty_iff, redactSecrets_eq_nil_iff]
    split <;> rfl
  have houtcome : ∀ outcome : CommandOutcome,
      (outcome.lines run.executed).map (Line.redact secrets) =
        ["$ " ++ outcome.command] ++
          (if (redactSecrets (Rust.trimEnd outcome.stdout) secrets).toList.isEmpty then []
            else [redactSecrets (Rust.trimEnd outcome.stdout) secrets]) ++
          (if (redactSecrets (Rust.trimEnd outcome.stderr) secrets).toList.isEmpty then []
            else [redactSecrets (Rust.trimEnd outcome.stderr) secrets]) ++
          if run.executed then ["[exit " ++ toString outcome.exitCode ++ "]"] else [] := by
    intro outcome
    unfold CommandOutcome.lines
    rw [List.map_append, List.map_append, List.map_append, hstream, hstream]
    congr 1
    split <;> rfl
  have hlines : run.toOutput secrets =
      "\n".intercalate (run.lines.map (Line.redact secrets)) := by
    unfold toOutput lines
    rw [List.map_append, List.map_flatMap]
    simp only [houtcome]
    split
    · rw [List.map_nil, List.append_nil]
    · rfl
  rw [hlines, String.toList_intercalate, List.map_map]
  rfl

/-! ## Secrets in a transcript -/

/-- What the transcript adds to the command, the streams and the exit codes. -/
def fixedTexts : List String := ["$ ", "[exit ", "]", previewLine, "\n", "[redacted]"]

/-- A secret as a caller lists it: longer than the marker, and in no fixed text. -/
structure Listed (secret : String) : Prop where
  long : Rust.len "[redacted]" < Rust.len secret
  fixed : ∀ text ∈ fixedTexts, Rust.contains text secret = false

variable (run : DeployRun) (secrets : List String)

/-- The transcript shows no secret. -/
def Clean : Prop := ∀ s ∈ secrets, Rust.contains (run.toOutput secrets) s = false

/-- The lines with the secrets cut out of the captured ones. -/
def cutLines : List (List (Option Char)) := run.lines.map (·.cut secrets)

/-- In no stream is a secret read across a marker when its turn comes. -/
def InTurn : Prop :=
  ∀ text, Line.stream text ∈ run.lines →
    Redaction.InTurn marker (secrets.map String.toList) text.toList

/-- No secret is in a line that is not redacted. What is not cut of a line does not begin a secret
that goes on over the end of the line, and no secret is read across a marker, neither in the
transcript nor in a stream when its turn comes. -/
structure Shielded : Prop where
  labels : ∀ s ∈ secrets, ∀ line ∈ run.lines, line.leaks s = false
  borders : ∀ s ∈ secrets, ¬ Straddles (some '\n') (s.toList.map some) (run.cutLines secrets)
  inTurn : run.InTurn secrets
  marker : ∀ s ∈ secrets, ¬ Crosses marker s.toList ([some '\n'].intercalate (run.cutLines secrets))

variable {run secrets}

theorem contains_eq_false_iff {text s : String} :
    Rust.contains text s = false ↔ ¬ s.toList <:+: text.toList := by
  rw [← Rust.contains_iff, Bool.not_eq_true]

theorem Listed.ne_nil {s : String} (h : Listed s) : s.toList ≠ [] := by
  intro hs
  refine contains_eq_false_iff.mp (h.fixed "\n" (by decide)) ?_
  rw [hs]
  exact List.nil_infix

/-- The transcript is the lines with the secrets cut out, and a marker in every gap. -/
theorem toList_toOutput_of_inTurn (h : run.InTurn secrets) : (run.toOutput secrets).toList =
    written Wara.marker ([some '\n'].intercalate (run.cutLines secrets)) := by
  rw [toList_toOutput, written_intercalate, cutLines, List.map_map]
  congr 1
  refine List.map_congr_left fun line hline => ?_
  cases line with
  | label text => exact (written_map_some _).symm
  | stream text =>
    refine (toList_redactSecrets text secrets).trans ?_
    exact replaceAll_eq marker_ne_nil (h text hline)

/-- **What a transcript shows** of a listed secret: a label that has it, a secret that goes on over
a line end, or one that is read across a marker. -/
theorem contains_toOutput_iff (h : run.InTurn secrets) {s : String} (hs : s ∈ secrets)
    (hne : s.toList ≠ []) :
    Rust.contains (run.toOutput secrets) s = true ↔
      Crosses Wara.marker s.toList ([some '\n'].intercalate (run.cutLines secrets)) ∨
        (∃ line ∈ run.lines, line.leaks s = true) ∨
        Straddles (some '\n') (s.toList.map some) (run.cutLines secrets) := by
  rw [Rust.contains_iff, toList_toOutput_of_inTurn h, infix_written_iff marker_ne_nil,
    infix_join_iff (by simpa using hne)]
  refine or_congr_right (or_congr_left ?_)
  unfold cutLines
  simp only [List.mem_map, exists_exists_and_eq_and]
  refine exists_congr fun line => and_congr_right fun _ => ?_
  cases line with
  | label text =>
    rw [Line.leaks, Rust.contains_iff, Line.cut]
    exact infix_map_some_iff
  | stream text =>
    refine iff_of_false (not_infix_cut (List.mem_map_of_mem hs) hne) ?_
    rw [Line.leaks]
    exact Bool.false_ne_true

/-- **When a transcript is clean.** A shielded run shows no secret; where no secret is read across a
marker before its turn, no other run is clean. -/
theorem toOutput_clean (run : DeployRun) (secrets : List String)
    (hlisted : ∀ s ∈ secrets, Listed s) :
    (run.Shielded secrets → run.Clean secrets) ∧
      (run.InTurn secrets → (run.Clean secrets ↔ run.Shielded secrets)) := by
  have hiff : run.InTurn secrets → (run.Clean secrets ↔ run.Shielded secrets) := by
    intro hturn
    have hshown := fun s hs => contains_toOutput_iff hturn hs (hlisted s hs).ne_nil
    constructor
    · intro hclean
      have hnot : ∀ s ∈ secrets, ¬ Rust.contains (run.toOutput secrets) s = true := fun s hs =>
        Bool.not_eq_true _ ▸ hclean s hs
      refine ⟨fun s hs line hline => ?_, fun s hs h => ?_, hturn, fun s hs h => ?_⟩
      · rw [← Bool.not_eq_true]
        exact fun h => hnot s hs ((hshown s hs).mpr (.inr (.inl ⟨line, hline, h⟩)))
      · exact hnot s hs ((hshown s hs).mpr (.inr (.inr h)))
      · exact hnot s hs ((hshown s hs).mpr (.inl h))
    · intro h s hs
      rw [← Bool.not_eq_true, hshown s hs]
      rintro (hcross | ⟨line, hline, hin⟩ | hstraddles)
      · exact h.marker s hs hcross
      · rw [h.labels s hs line hline] at hin
        cases hin
      · exact h.borders s hs hstraddles
  exact ⟨fun h => (hiff h.inTurn).mpr h, hiff⟩

/-- So it is for a list whose secrets, but the first, are clear of the marker. -/
theorem inTurn_of_clear (h : ∀ s ∈ secrets.tail, Clear Wara.marker s.toList) :
    run.InTurn secrets := by
  intro text _ done p rest hsecrets
  cases done with
  | nil =>
    refine not_crosses_of_gapless ?_
    simp [Redaction.cut, Rust.replaceAll]
  | cons q done =>
    cases secrets with
    | nil => cases hsecrets
    | cons s secrets =>
      have hmem : p ∈ secrets.map String.toList := by
        rw [(List.cons.inj hsecrets).2]
        exact List.mem_append_right done List.mem_cons_self
      obtain ⟨z, hz, rfl⟩ := List.mem_map.mp hmem
      exact (h z hz).not_crosses

/-- A password that ends as the marker begins. -/
def loginRun : DeployRun :=
  ⟨[⟨"cat registry.password", "hunter2-password[\n", "", 0⟩], true, true⟩

/-- Nothing beside its marker completes it. -/
theorem toOutput_clean_login : loginRun.Clean ["hunter2-password["] := by
  have hlisted : ∀ s ∈ ["hunter2-password["], Listed s := by
    intro s hs
    rw [List.mem_singleton.mp hs]
    exact ⟨by decide, by decide⟩
  have hturn : loginRun.InTurn ["hunter2-password["] := inTurn_of_clear (by simp)
  refine (toOutput_clean loginRun _ hlisted).1 ⟨by decide, ?_, hturn, ?_⟩
  · intro s hs hstraddles
    rw [List.mem_singleton.mp hs] at hstraddles
    exact absurd hstraddles.mem (by decide)
  · intro s hs hcross
    rw [List.mem_singleton.mp hs] at hcross
    have hshown := (infix_written_iff marker_ne_nil).mpr (.inl hcross)
    rw [← toList_toOutput_of_inTurn hturn, ← Rust.contains_iff] at hshown
    revert hshown
    decide +kernel

/-- A secret that ends with a line break: the stream is trimmed before the secret is looked for, and
the break between the lines completes it. -/
theorem toOutput_shows_key : ¬ ∀ (run : DeployRun) (secrets : List String),
    (∀ s ∈ secrets, Listed s) → run.Clean secrets := by
  intro h
  have hlisted : ∀ s ∈ ["-----END KEY-----\n"], Listed s := by
    intro s hs
    rw [List.mem_singleton.mp hs]
    exact ⟨by decide, by decide⟩
  have hshown := h ⟨[⟨"cat key.pem", "-----END KEY-----\n", "", 0⟩], true, true⟩ _ hlisted _
    (List.mem_singleton_self _)
  revert hshown
  decide +kernel

end DeployRun

end Wara
