import Wara.Store.Table

/-!
# Two databases that are alike

`Likeness` relates rows that may differ, but not in a column with a unique index;
two databases are alike if their tables are, row by row. Related filters find
related rows, and related writes are both refused or both done, and leave the
databases alike.
-/

namespace Store

variable {T V : Type} {Row : T → Type}

/-- A relation of rows that agree on the unique columns. -/
structure Likeness (L : Layout Row V) where
  rel : {t : T} → Row t → Row t → Prop
  unique : ∀ {t : T} {r r' : Row t}, rel r r' → ∀ c ∈ L.unique t, L.col c r' = L.col c r

namespace Likeness

variable {L : Layout Row V} (K : Likeness L) {db db' : Db L} {t : T}

def Alike (db db' : Db L) : Prop := ∀ t, List.Forall₂ K.rel (db.rows t) (db'.rows t)

variable [DecidableEq V]

/-- The filter does not tell related rows apart. -/
def Respects (t : T) (f : Filter V) : Prop :=
  ∀ r r' : Row t, K.rel r r' → L.holds f r' = L.holds f r

/-- Where the filter holds, related rows are the same. -/
def Sees (t : T) (f : Filter V) : Prop :=
  ∀ r r' : Row t, K.rel r r' → L.holds f r' = L.holds f r ∧ (L.holds f r = true → r' = r)

/-- Writes that change related rows into related rows. -/
inductive Writes : Write Row V → Write Row V → Prop
  | insert {t : T} {r r' : Row t} (h : K.rel r r') : Writes (.insert t r) (.insert t r')
  | update {t : T} {f : Filter V} {sets : List (Nat × V)} (hf : K.Respects t f)
      (h : ∀ r r' : Row t, K.rel r r' → K.rel (L.setCols sets r) (L.setCols sets r')) :
      Writes (.update t f sets) (.update t f sets)

variable {K}

theorem forall₂_filter {f : Filter V} (hf : K.Respects t f) {rs rs' : List (Row t)}
    (h : List.Forall₂ K.rel rs rs') :
    List.Forall₂ K.rel (rs.filter (L.holds f)) (rs'.filter (L.holds f)) := by
  induction h with
  | nil => exact .nil
  | @cons r r' rs rs' hr _ ih =>
    rw [List.filter_cons, List.filter_cons, hf r r' hr]
    split
    · exact .cons hr ih
    · exact ih

theorem Alike.select {f : Filter V} (h : K.Alike db db') (hf : K.Respects t f) :
    List.Forall₂ K.rel (L.select db t f) (L.select db' t f) := forall₂_filter hf (h t)

theorem filter_eq {f : Filter V} (hf : K.Sees t f) {rs rs' : List (Row t)}
    (h : List.Forall₂ K.rel rs rs') : rs'.filter (L.holds f) = rs.filter (L.holds f) := by
  induction h with
  | nil => rfl
  | @cons r r' rs rs' hr _ ih =>
    obtain ⟨hholds, heq⟩ := hf r r' hr
    rw [List.filter_cons, List.filter_cons, hholds, ih]
    split
    · next hr => rw [heq hr]
    · rfl

/-- What the filter finds is the same, if it sees. -/
theorem Alike.select_eq {f : Filter V} (h : K.Alike db db') (hf : K.Sees t f) :
    L.select db' t f = L.select db t f := filter_eq hf (h t)

omit [DecidableEq V] in
/-- A column with a unique index has the same values in both tables. -/
theorem map_col_eq {c : Nat} (hc : c ∈ L.unique t) {rs rs' : List (Row t)}
    (h : List.Forall₂ K.rel rs rs') : rs'.map (L.col c) = rs.map (L.col c) := by
  induction h with
  | nil => rfl
  | cons hr _ ih => rw [List.map_cons, List.map_cons, K.unique hr c hc, ih]

omit [DecidableEq V] in
theorem unique_iff {rs rs' : List (Row t)} (h : List.Forall₂ K.rel rs rs') :
    L.Unique rs' ↔ L.Unique rs := by
  constructor
  · intro hu c hc
    rw [← map_col_eq hc h]
    exact hu c hc
  · intro hu c hc
    rw [map_col_eq hc h]
    exact hu c hc

theorem forall₂_map {f : Filter V} {sets : List (Nat × V)} (hf : K.Respects t f)
    (h : ∀ r r' : Row t, K.rel r r' → K.rel (L.setCols sets r) (L.setCols sets r'))
    {rs rs' : List (Row t)} (hrows : List.Forall₂ K.rel rs rs') :
    List.Forall₂ K.rel (rs.map fun r => if L.holds f r then L.setCols sets r else r)
      (rs'.map fun r => if L.holds f r then L.setCols sets r else r) := by
  induction hrows with
  | nil => exact .nil
  | @cons r r' rs rs' hr _ ih =>
    rw [List.map_cons, List.map_cons]
    refine .cons ?_ ih
    rw [hf r r' hr]
    split
    · exact h r r' hr
    · exact hr

variable [DecidableEq T]

/-- The database with other rows in one table. -/
def replaced (db : Db L) (t : T) (rs : List (Row t)) (h : L.Unique rs) : Db L where
  rows := Function.update db.rows t rs
  unique u := by
    by_cases hu : u = t
    · subst hu
      rw [Function.update_self]
      exact h
    · rw [Function.update_of_ne hu]
      exact db.unique u

omit [DecidableEq V] in
theorem Alike.replaced (h : K.Alike db db') {rs rs' : List (Row t)}
    (hrs : List.Forall₂ K.rel rs rs') (hu : L.Unique rs) (hu' : L.Unique rs') :
    K.Alike (replaced db t rs hu) (replaced db' t rs' hu') := by
  intro u
  show List.Forall₂ K.rel (Function.update db.rows t rs u) (Function.update db'.rows t rs' u)
  by_cases htu : u = t
  · subst htu
    rw [Function.update_self, Function.update_self]
    exact hrs
  · rw [Function.update_of_ne htu, Function.update_of_ne htu]
    exact h u

theorem Alike.written (h : K.Alike db db') {rs rs' : List (Row t)} {o o' : Option (Db L)}
    (hrs : List.Forall₂ K.rel rs rs')
    (ho : o = if hu : L.Unique rs then some (Likeness.replaced db t rs hu) else none)
    (ho' : o' = if hu : L.Unique rs' then some (Likeness.replaced db' t rs' hu) else none) :
    (o = none ∧ o' = none) ∨ ∃ d d', o = some d ∧ o' = some d' ∧ K.Alike d d' := by
  by_cases hu : L.Unique rs
  · have hu' : L.Unique rs' := (unique_iff hrs).mpr hu
    rw [dif_pos hu] at ho
    rw [dif_pos hu'] at ho'
    exact .inr ⟨_, _, ho, ho', h.replaced hrs hu hu'⟩
  · rw [dif_neg hu] at ho
    rw [dif_neg fun hu' => hu ((unique_iff hrs).mp hu')] at ho'
    exact .inl ⟨ho, ho'⟩

/-- **Related writes** are both refused, or both done. -/
theorem Alike.apply {w w' : Write Row V} (h : K.Alike db db') (hw : K.Writes w w') :
    (L.apply w db = none ∧ L.apply w' db' = none) ∨
      ∃ d d', L.apply w db = some d ∧ L.apply w' db' = some d' ∧ K.Alike d d' := by
  cases hw with
  | @insert t r r' hr => exact h.written (List.rel_append (h t) (.cons hr .nil)) rfl rfl
  | @update t f sets hf hsets => exact h.written (forall₂_map hf hsets (h t)) rfl rfl

/-- So are related transactions. -/
theorem Alike.applyAll {ws ws' : List (Write Row V)} (h : K.Alike db db')
    (hws : List.Forall₂ K.Writes ws ws') :
    (L.applyAll ws db = none ∧ L.applyAll ws' db' = none) ∨
      ∃ d d', L.applyAll ws db = some d ∧ L.applyAll ws' db' = some d' ∧ K.Alike d d' := by
  induction hws generalizing db db' with
  | nil => exact .inr ⟨db, db', rfl, rfl, h⟩
  | @cons w w' ws ws' hw _ ih =>
    unfold Layout.applyAll at ih ⊢
    rw [List.foldlM_cons, List.foldlM_cons]
    rcases h.apply hw with ⟨hn, hn'⟩ | ⟨d, d', hd, hd', hdd⟩
    · rw [hn, hn']
      exact .inl ⟨rfl, rfl⟩
    · rw [hd, hd']
      exact ih hdd

end Likeness

end Store
