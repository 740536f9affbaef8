import Mathlib.Data.List.Infix
import Wara.Platform.Transcript

/-!
# The order of the secrets

`redact_secrets` replaces one secret after another, each in what the last one
has left. A short secret that is part of a longer one, and comes first, leaves
the rest of the longer one readable; so the order of the list matters unless the
secrets keep apart.
-/

namespace Wara

open Redaction

/-- The secret is replaced by something else. -/
def Counts (secret : String) : Prop := secret ≠ "" ∧ secret ≠ "[redacted]"

/-- Two different secrets of the list share no part, and share none with the marker. -/
def SecretsApart (secrets : List String) : Prop :=
  ∀ s ∈ secrets, ∀ z ∈ secrets, Counts s → Counts z → s ≠ z →
    Clear s.toList z.toList ∧ Clear marker s.toList

/-- The order of the list is not seen in any text. -/
def RedactsInAnyOrder (secrets : List String) : Prop :=
  ∀ text secrets', secrets.Perm secrets' → redactSecrets text secrets = redactSecrets text secrets'

theorem idle_iff {s : String} : Rust.Idle marker s.toList ↔ ¬ Counts s := by
  have hempty : s.toList = [] ↔ s = "" := String.toList_eq_nil_iff
  have hmarker : s.toList = marker ↔ s = "[redacted]" := String.toList_inj
  unfold Rust.Idle Counts
  rw [hempty, hmarker]
  tauto

theorem orderless_iff {secrets : List String} :
    Rust.Orderless marker (secrets.map String.toList) ↔ SecretsApart secrets := by
  unfold Rust.Orderless SecretsApart
  simp only [List.forall_mem_map, idle_iff, not_not, ne_eq, String.toList_inj]

theorem orderIndependent_iff {secrets : List String} :
    Rust.OrderIndependent marker (secrets.map String.toList) ↔ RedactsInAnyOrder secrets := by
  constructor
  · intro h text secrets' hperm
    rw [← String.toList_inj, toList_redactSecrets, toList_redactSecrets]
    exact h text.toList _ (hperm.map String.toList)
  · intro h cs ps hperm
    have hback : (ps.map String.ofList).map String.toList = ps := by simp
    have hstrings : secrets.Perm (ps.map String.ofList) := by
      have := hperm.map String.ofList
      simpa using this
    have htext := congrArg String.toList (h (String.ofList cs) _ hstrings)
    rwa [toList_redactSecrets, toList_redactSecrets, hback, String.toList_ofList] at htext

theorem marker_unbordered : Rust.Unbordered marker := by
  have htails : ∀ x ∈ marker.tails, x ≠ [] → x <+: marker → x = marker := by decide
  exact fun x hx hpre hsuf => htails x ((List.mem_tails x marker).mpr hsuf) hx hpre

/-- **The order of the secrets** does not matter if they keep apart, and where none of them meets
the marker it matters as soon as two of them do not. -/
theorem redactSecrets_order (secrets : List String) :
    (SecretsApart secrets → RedactsInAnyOrder secrets) ∧
    ((∀ s ∈ secrets, Counts s → Clear marker s.toList) →
      (RedactsInAnyOrder secrets ↔ SecretsApart secrets)) := by
  have hapart : SecretsApart secrets → RedactsInAnyOrder secrets := by
    intro h
    rw [← orderless_iff] at h
    rw [← orderIndependent_iff]
    exact fun cs ps hperm => Rust.replaceAll_perm h hperm cs
  refine ⟨hapart, fun hclear => ⟨fun h => ?_, hapart⟩⟩
  rw [← orderIndependent_iff] at h
  rw [← orderless_iff]
  refine Rust.orderless_of_perm (List.forall_mem_map.mpr fun s hs hidle => ?_) h marker_unbordered
  exact hclear s hs (not_not.mp fun hcounts => hidle (idle_iff.mpr hcounts))

theorem redactSecrets_order_two : RedactsInAnyOrder ["north-token", "pass-phrase-1"] := by
  have hmarker : ∀ s ∈ ["north-token", "pass-phrase-1"], Clear marker s.toList := by
    intro s hs
    rcases List.mem_cons.mp hs with rfl | hs
    · exact clear_of_ends (a := '[') (b := ']') (by decide) rfl rfl (by decide) (by decide)
    · rw [List.mem_singleton.mp hs]
      exact clear_of_ends (a := '[') (b := ']') (by decide) rfl rfl (by decide) (by decide)
  have hclear : Clear "north-token".toList "pass-phrase-1".toList :=
    clear_of_ends (a := 'n') (b := 'n') (by decide) rfl rfl (by decide) (by decide)
  refine (redactSecrets_order _).1 fun s hs z hz _ _ hne => ⟨?_, hmarker s hs⟩
  simp only [List.mem_cons, List.not_mem_nil, or_false] at hs hz
  rcases hs with rfl | rfl <;> rcases hz with rfl | rfl
  · exact absurd rfl hne
  · exact hclear
  · exact hclear.symm
  · exact absurd rfl hne

/-- The short secret first leaves the rest of the long one. -/
theorem redactSecrets_leaves_rest : ¬ ∀ secrets : List String, RedactsInAnyOrder secrets := by
  intro h
  have htext := h ["super", "super-key"] "super-key" ["super-key", "super"] (List.Perm.swap ..)
  revert htext
  decide

end Wara
