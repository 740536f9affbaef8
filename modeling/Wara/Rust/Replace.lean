import Mathlib.Tactic.Common
import Wara.Redaction.Marked
import Wara.Rust.Text

/-!
# What `str::replace` leaves

The result is the text marked with the replacement (`replaceFrom_marked`), and a
pattern that is clear of the replacement is gone from it
(`not_infix_replaceFrom`).
-/

open Redaction

namespace Rust

variable {α : Type} [BEq α] [LawfulBEq α] {p r : List α}

theorem replaceFrom_marked (hp : p ≠ []) (k : Nat) (cs : List α) :
    Marked r (cs.drop k) (replaceFrom p r k cs) := by
  induction cs generalizing k with
  | nil => rw [List.drop_nil]; exact .nil
  | cons c cs ih =>
    cases k with
    | succ k => exact ih k
    | zero =>
      unfold replaceFrom
      split
      · rename_i h
        obtain ⟨rest, hrest⟩ := List.isPrefixOf_iff_prefix.mp h
        have hdrop : cs.drop (p.length - 1) = rest := by
          obtain ⟨a, p, rfl⟩ := List.exists_cons_of_ne_nil hp
          obtain ⟨-, rfl⟩ := List.cons.inj hrest
          simp
        have hrec := ih (p.length - 1)
        rw [hdrop] at hrec
        rw [List.drop_zero, ← hrest]
        exact .cut hp hrec
      · exact .keep c (ih 0)

theorem replaceFrom_absent {cs : List α} (h : ¬ p <:+: cs) :
    replaceFrom p r 0 cs = cs := by
  induction cs with
  | nil => rfl
  | cons c cs ih =>
    unfold replaceFrom
    rw [if_neg fun hp => h (List.isPrefixOf_iff_prefix.mp hp).isInfix,
      ih fun hp => h (List.infix_cons hp)]

/-- What is clear of the replacement is replaced everywhere. -/
theorem not_infix_replaceFrom (hp : Clear r p) (k : Nat) (cs : List α) :
    ¬ p <:+: replaceFrom p r k cs := by
  induction cs generalizing k with
  | nil => exact fun h => hp.ne_nil (List.infix_nil.mp h)
  | cons c cs ih =>
    cases k with
    | succ k => exact ih k
    | zero =>
      have hmarked := replaceFrom_marked (r := r) hp.ne_nil 0 (c :: cs)
      unfold replaceFrom at hmarked ⊢
      split at hmarked
      · rename_i h
        rw [if_pos h]
        intro hin
        rcases List.infix_append_iff_ne_nil.mp hin with hin | hin | ⟨u, v, hu, -, rfl, hur, -⟩
        · exact hp.inside hin
        · exact ih _ hin
        · exact hp.front u hu hur (List.prefix_append u v)
      · rename_i h
        rw [if_neg h]
        intro hin
        rcases List.infix_cons_iff.mp hin with hin | hin
        · exact h (List.isPrefixOf_iff_prefix.mpr (hmarked.front hp List.suffix_rfl hin))
        · exact ih 0 hin

theorem contains_iff {s p : String} : contains s p = true ↔ p.toList <:+: s.toList := by
  have hgo : ∀ cs : List Char, contains.go p cs = true ↔ p.toList <:+: cs := by
    intro cs
    induction cs with
    | nil => simp [contains.go]
    | cons c cs ih =>
      rw [contains.go, Bool.or_eq_true, ih, List.isPrefixOf_iff_prefix, List.infix_cons_iff]
  exact hgo s.toList

theorem toList_replace {s p r : String} (hp : p.toList ≠ []) :
    (replace s p r).toList = replaceFrom p.toList r.toList 0 s.toList := by
  unfold replace
  rw [if_neg (by rwa [List.isEmpty_iff]), String.toList_ofList]

end Rust
