import Wara.Store.Table

/-!
# A property of every row

Statements that insert only rows with a property, and change rows with it into
rows with it, keep it of all rows of the database.
-/

namespace Store.Layout

variable {T V : Type} [DecidableEq V] {Row : T → Type} {L : Layout Row V} {db db' : Db L}
  {φ : (t : T) → Row t → Prop}

/-- Every row of the database has the property. -/
def Every (φ : (t : T) → Row t → Prop) (db : Db L) : Prop := ∀ t, ∀ r ∈ db.rows t, φ t r

variable (L) in
/-- The statement leaves no row without the property. -/
def Preserves (φ : (t : T) → Row t → Prop) : Write Row V → Prop
  | .insert t r => φ t r
  | .update t f sets => ∀ r : Row t, L.holds f r = true → φ t r → φ t (L.setCols sets r)

variable [DecidableEq T]

theorem Every.apply {w : Write Row V} (h : Every φ db) (hw : L.Preserves φ w)
    (ha : L.apply w db = some db') : Every φ db' := by
  intro t r' hr'
  by_cases ht : t = w.table
  · subst ht
    rw [apply_table ha] at hr'
    cases w with
    | insert t r₁ =>
      rcases List.mem_append.mp hr' with hr | hr
      · exact h t r' hr
      · have he : r' = r₁ := List.mem_singleton.mp hr
        exact he ▸ hw
    | update t f sets =>
      obtain ⟨r, hr, he⟩ := List.mem_map.mp hr'
      rw [← he]
      split
      · next hf => exact hw r hf (h t r hr)
      · exact h t r hr
  · rw [apply_frame ha ht] at hr'
    exact h t r' hr'

/-- **All or nothing.** A transaction of such statements keeps the property of all rows. -/
theorem Every.applyAll {ws : List (Write Row V)} (h : Every φ db) (hws : ∀ w ∈ ws, L.Preserves φ w)
    (ha : L.applyAll ws db = some db') : Every φ db' := by
  induction ws generalizing db with
  | nil => exact applyAll_nil.mp ha ▸ h
  | cons w ws ih =>
    obtain ⟨db₁, h1, h2⟩ := applyAll_cons.mp ha
    exact ih (h.apply (hws w List.mem_cons_self) h1) (fun w' hw' => hws w' (List.mem_cons_of_mem _ hw'))
      h2

end Store.Layout
