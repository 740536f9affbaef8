import Wara.Store.Table

/-!
# Referential integrity

A database without foreign keys, and what its rows rely on. `References` says
which rows a row needs, as a predicate over what there is: `has t p` reads "some
row of `t` satisfies `p`". So the same need is read on a database alone, and on a
database together with the rows that a transaction inserts. A transaction that
brings along or finds whatever its inserted rows need keeps the integrity.
-/

namespace Store

namespace Layout

variable {T V : Type} {Row : T → Type} (L : Layout Row V) (fixed : T → List Nat) {t u : T}

/-- A property of rows that the fixed columns decide. -/
def Stable (p : Row t → Prop) : Prop :=
  ∀ r r' : Row t, (∀ c ∈ fixed t, L.col c r' = L.col c r) → p r → p r'

variable {L fixed}

theorem Stable.and {p q : Row t → Prop} (hp : L.Stable fixed p) (hq : L.Stable fixed q) :
    L.Stable fixed fun r => p r ∧ q r :=
  fun r r' h hr => ⟨hp r r' h hr.1, hq r r' h hr.2⟩

/-- Rows are told apart by their columns. -/
theorem eq_of_cols {r r' : Row t} (h : L.cols r' = L.cols r) : r' = r := by
  have hr := L.ofCols_cols r'
  rw [h, L.ofCols_cols] at hr
  cases hr
  rfl

end Layout

/-- Some row of `t` satisfies `p`. -/
def Db.Has {T V : Type} {Row : T → Type} {L : Layout Row V} (db : Db L) (t : T)
    (p : Row t → Prop) : Prop :=
  ∃ r ∈ db.rows t, p r

namespace Layout

variable {T V : Type} {Row : T → Type} {L : Layout Row V} {fixed : T → List Nat} {db db' : Db L}
  {t : T}

theorem Keeps.has {p : Row t → Prop} (h : L.Keeps fixed db db') (hp : L.Stable fixed p)
    (hr : db.Has t p) : db'.Has t p := by
  obtain ⟨r, hr, hpr⟩ := hr
  obtain ⟨r', hr', hc⟩ := h t r hr
  exact ⟨r', hr', hp r r' hc hpr⟩

end Layout

/-- Which rows there have to be for a row. -/
structure References {T V : Type} {Row : T → Type} (L : Layout Row V) (fixed : T → List Nat) where
  needs : ((t : T) → (Row t → Prop) → Prop) → {t : T} → Row t → Prop
  mono : ∀ {has has' : (t : T) → (Row t → Prop) → Prop} {t : T} {r : Row t},
    (∀ u p, L.Stable fixed p → has u p → has' u p) → needs has r → needs has' r
  stable : ∀ {has : (t : T) → (Row t → Prop) → Prop} {t : T},
    L.Stable fixed fun r : Row t => needs has r

namespace References

variable {T V : Type} {Row : T → Type} {L : Layout Row V} {fixed : T → List Nat}
  (R : References L fixed)

/-- Every row has what it needs. -/
def Integral (db : Db L) : Prop := ∀ t, ∀ r ∈ db.rows t, R.needs db.Has r

/-- Every inserted row finds what it needs, in the database or inserted along with it. -/
def Supported (ws : List (Write Row V)) (db : Db L) : Prop :=
  ∀ t r, .insert t r ∈ ws →
    R.needs (fun u p => db.Has u p ∨ ∃ r' : Row u, .insert u r' ∈ ws ∧ p r') r

variable {R}

theorem integral_empty : R.Integral (Db.empty L) := fun _ _ hr => (List.not_mem_nil hr).elim

theorem supported_of_no_insert {ws : List (Write Row V)} {db : Db L}
    (h : ∀ t r, .insert t r ∉ ws) : R.Supported ws db := fun t r hr => (h t r hr).elim

/-- Inserted rows that find what they need in the database. -/
theorem supported_of_has {ws : List (Write Row V)} {db : Db L}
    (h : ∀ t r, .insert t r ∈ ws → R.needs db.Has r) : R.Supported ws db :=
  fun t r hr => R.mono (fun _ _ _ hp => .inl hp) (h t r hr)

variable [DecidableEq V] [DecidableEq T] {db db' : Db L} {ws : List (Write Row V)} {t : T}

/-- An inserted row is there after the transaction. -/
theorem applyAll_inserted (h : L.applyAll ws db = some db')
    (hw : ∀ w ∈ ws, ∀ c ∈ w.sets, c ∉ fixed w.table) {r : Row t} (hr : .insert t r ∈ ws) :
    ∃ r' ∈ db'.rows t, ∀ c ∈ fixed t, L.col c r' = L.col c r := by
  induction ws generalizing db with
  | nil => cases hr
  | cons w ws ih =>
    obtain ⟨db₁, h1, h2⟩ := Layout.applyAll_cons.mp h
    have hws : ∀ w ∈ ws, ∀ c ∈ w.sets, c ∉ fixed w.table :=
      fun w hm => hw w (List.mem_cons_of_mem _ hm)
    rcases List.mem_cons.mp hr with rfl | hr
    · have hmem : r ∈ db₁.rows t := by
        rw [Layout.apply_insert h1]
        exact List.mem_append_right _ (List.mem_singleton_self r)
      exact Layout.applyAll_keeps h2 hws t r hmem
    · exact ih h2 hws hr

/-- **A transaction** whose inserts are supported keeps the integrity. -/
theorem Integral.applyAll (hi : R.Integral db) (h : L.applyAll ws db = some db')
    (hw : ∀ w ∈ ws, ∀ c ∈ w.sets, c ∉ fixed w.table) (hs : R.Supported ws db) :
    R.Integral db' := by
  have hkeeps : L.Keeps fixed db db' := Layout.applyAll_keeps h hw
  intro t r' hr'
  rcases Layout.applyAll_origin h hw hr' with ⟨r, hr, hc⟩ | ⟨r, hr, hc⟩
  · have hneeds : R.needs db'.Has r :=
      R.mono (fun u p hp hhas => hkeeps.has hp hhas) (hi t r hr)
    exact R.stable r r' hc hneeds
  · have hneeds : R.needs db'.Has r := by
      refine R.mono (fun u p hp hhas => ?_) (hs t r hr)
      rcases hhas with hhas | ⟨s, hmem, hps⟩
      · exact hkeeps.has hp hhas
      · obtain ⟨s', hs', hcs⟩ := applyAll_inserted h hw hmem
        exact ⟨s', hs', hp s s' hcs hps⟩
    exact R.stable r r' hc hneeds

end References

end Store
