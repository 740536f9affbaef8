import Mathlib.Data.List.Basic
import Mathlib.Data.List.Nodup
import Mathlib.Logic.Function.Basic

/-!
# Tables, filters and positional writes

A database over a type of tables `T` is a list of rows per table. A `Layout`
lists the columns of a row in order, as values of one type `V`; filters and
updates address columns by position, as an SQL driver does. A `Db` carries the
proof that its unique columns have no repeated value, and a write that would
break this is refused.
-/

namespace Store

/-- Which rows a statement is about: all of them, or those with one column equal to a value. -/
inductive Filter (V : Type) where
  | all
  | eq (col : Nat) (v : V)
  deriving DecidableEq, Repr

structure Layout {T : Type} (Row : T → Type) (V : Type) where
  cols : {t : T} → Row t → List V
  ofCols : {t : T} → List V → Option (Row t)
  ofCols_cols : ∀ {t : T} (r : Row t), ofCols (cols r) = some r
  cols_ofCols : ∀ {t : T} {vs : List V} {r : Row t}, ofCols vs = some r → cols r = vs
  /-- The columns that carry a unique index. -/
  unique : T → List Nat

inductive Write {T : Type} (Row : T → Type) (V : Type) where
  | insert (t : T) (r : Row t)
  | update (t : T) (f : Filter V) (sets : List (Nat × V))

/-- The table a write is about. -/
def Write.table {T V : Type} {Row : T → Type} : Write Row V → T
  | .insert t _ => t
  | .update t _ _ => t

/-- The columns a write changes in rows that exist. -/
def Write.sets {T V : Type} {Row : T → Type} : Write Row V → List Nat
  | .insert _ _ => []
  | .update _ _ sets => sets.map Prod.fst

namespace Layout

variable {T V : Type} {Row : T → Type} (L : Layout Row V) {t u : T}

/-! ## Columns -/

def col {t : T} (c : Nat) (r : Row t) : Option V := (L.cols r)[c]?

def setCols {t : T} (sets : List (Nat × V)) (r : Row t) : Row t :=
  (L.ofCols (sets.foldl (fun vs p => vs.set p.1 p.2) (L.cols r))).getD r

theorem getElem?_foldl_set {c : Nat} {sets : List (Nat × V)} (hc : ∀ p ∈ sets, p.1 ≠ c)
    (vs : List V) : (sets.foldl (fun vs p => vs.set p.1 p.2) vs)[c]? = vs[c]? := by
  induction sets generalizing vs with
  | nil => rfl
  | cons p sets ih =>
    rw [List.foldl_cons, ih fun q hq => hc q (List.mem_cons_of_mem _ hq),
      List.getElem?_set_ne (hc p List.mem_cons_self)]

variable {L}

/-- Columns that an update does not set keep their value. -/
theorem col_setCols {c : Nat} {sets : List (Nat × V)} (hc : ∀ p ∈ sets, p.1 ≠ c) (r : Row t) :
    L.col c (L.setCols sets r) = L.col c r := by
  unfold setCols
  cases h : L.ofCols (t := t) (sets.foldl (fun vs p => vs.set p.1 p.2) (L.cols r)) with
  | none => rfl
  | some r' =>
    unfold col
    rw [Option.getD_some, L.cols_ofCols h, getElem?_foldl_set hc]

variable (L) in
/-- No two rows agree on a unique column. -/
def Unique {t : T} (rs : List (Row t)) : Prop := ∀ c ∈ L.unique t, (rs.map (L.col c)).Nodup

instance [DecidableEq V] (rs : List (Row t)) : Decidable (L.Unique rs) :=
  inferInstanceAs (Decidable (∀ c ∈ L.unique t, (rs.map (L.col c)).Nodup))

theorem Unique.eq {c : Nat} {rs : List (Row t)} (h : L.Unique rs) (hc : c ∈ L.unique t)
    {r r' : Row t} (hr : r ∈ rs) (hr' : r' ∈ rs) (he : L.col c r = L.col c r') : r = r' :=
  List.inj_on_of_nodup_map (h c hc) hr hr' he

end Layout

structure Db {T V : Type} {Row : T → Type} (L : Layout Row V) where
  rows : (t : T) → List (Row t)
  unique : ∀ t, L.Unique (rows t)

/-- A database without rows. -/
def Db.empty {T V : Type} {Row : T → Type} (L : Layout Row V) : Db L where
  rows _ := []
  unique _ _ _ := List.nodup_nil

theorem Db.eq_of_rows {T V : Type} {Row : T → Type} {L : Layout Row V} {db db' : Db L}
    (h : ∀ t, db.rows t = db'.rows t) : db = db' := by
  obtain ⟨rows, _⟩ := db
  obtain ⟨rows', _⟩ := db'
  obtain rfl : rows = rows' := funext h
  rfl

namespace Layout

variable {T V : Type} [DecidableEq V] {Row : T → Type} (L : Layout Row V) {db db' : Db L}
  {t u : T}

/-! ## Statements -/

def holds {t : T} (f : Filter V) (r : Row t) : Bool :=
  match f with
  | .all => true
  | .eq c v => L.col c r == some v

def select (db : Db L) (t : T) (f : Filter V) : List (Row t) := (db.rows t).filter (L.holds f)

/-- The rows of the written table after the write. -/
def written : (w : Write Row V) → List (Row w.table) → List (Row w.table)
  | .insert t r, rs => show List (Row t) from List.append rs [r]
  | .update _ f sets, rs => rs.map fun r => if L.holds f r then L.setCols sets r else r

variable [DecidableEq T]

/-- `none` when a unique index refuses the write. -/
def apply (w : Write Row V) (db : Db L) : Option (Db L) :=
  if h : L.Unique (L.written w (db.rows w.table)) then
    some {
      rows := Function.update db.rows w.table (L.written w (db.rows w.table))
      unique := fun t => by
        by_cases ht : t = w.table
        · subst ht; rw [Function.update_self]; exact h
        · rw [Function.update_of_ne ht]; exact db.unique t }
  else none

/-- A transaction: all writes in order, or none. -/
def applyAll (ws : List (Write Row V)) (db : Db L) : Option (Db L) :=
  ws.foldlM (fun db w => L.apply w db) db

variable {L}

omit [DecidableEq T] in
theorem mem_select {f : Filter V} {r : Row t} :
    r ∈ L.select db t f ↔ r ∈ db.rows t ∧ L.holds f r = true := List.mem_filter

omit [DecidableEq T] in
theorem select_all : L.select db t .all = db.rows t := List.filter_eq_self.mpr fun _ _ => rfl

omit [DecidableEq T] in
theorem holds_eq {c : Nat} {v : V} {r : Row t} :
    L.holds (.eq c v) r = true ↔ L.col c r = some v := beq_iff_eq

omit [DecidableEq T] in
theorem mem_of_head?_select {f : Filter V} {r : Row t} (h : (L.select db t f).head? = some r) :
    r ∈ db.rows t ∧ L.holds f r = true := mem_select.mp (List.mem_of_head? h)

omit [DecidableEq T] in
/-- A filter on a unique column finds at most one row, so the first row is the row. -/
theorem head?_select {c : Nat} {v : V} (hc : c ∈ L.unique t) {r : Row t} (hr : r ∈ db.rows t)
    (hv : L.col c r = some v) : (L.select db t (.eq c v)).head? = some r := by
  cases hs : L.select db t (.eq c v) with
  | nil =>
    have := mem_select.mpr ⟨hr, holds_eq.mpr hv⟩
    rw [hs] at this; cases this
  | cons r' rs =>
    have hr' : r' ∈ L.select db t (.eq c v) := hs ▸ List.mem_cons_self
    obtain ⟨hm, hh⟩ := mem_select.mp hr'
    rw [List.head?_cons, (db.unique t).eq hc hm hr ((holds_eq.mp hh).trans hv.symm)]

theorem apply_table {w : Write Row V} (h : L.apply w db = some db') :
    db'.rows w.table = L.written w (db.rows w.table) := by
  unfold apply at h
  split at h
  · cases h; exact Function.update_self ..
  · cases h

/-- **Frame.** Other tables are unchanged. -/
theorem apply_frame {w : Write Row V} (h : L.apply w db = some db') (hu : u ≠ w.table) :
    db'.rows u = db.rows u := by
  unfold apply at h
  split at h
  · cases h; exact Function.update_of_ne hu _ _
  · cases h

theorem apply_insert {r : Row t} (h : L.apply (.insert t r) db = some db') :
    db'.rows t = db.rows t ++ [r] := apply_table h

theorem apply_update {f : Filter V} {sets : List (Nat × V)}
    (h : L.apply (.update t f sets) db = some db') :
    db'.rows t = (db.rows t).map fun r => if L.holds f r then L.setCols sets r else r :=
  apply_table h

/-- An update that sets no unique column is not refused. -/
theorem apply_update_isSome {f : Filter V} {sets : List (Nat × V)}
    (h : ∀ p ∈ sets, p.1 ∉ L.unique t) : ∃ db', L.apply (.update t f sets) db = some db' := by
  have hunique : L.Unique (L.written (.update t f sets) (db.rows t)) := by
    intro c hc
    have hcol : ∀ r : Row t, L.col c (if L.holds f r then L.setCols sets r else r) = L.col c r := by
      intro r
      split
      · exact col_setCols (fun p hp he => h p hp (he ▸ hc)) r
      · rfl
    show (((db.rows t).map fun r => if L.holds f r then L.setCols sets r else r).map
      (L.col c)).Nodup
    rw [List.map_map, show L.col c ∘ _ = L.col c from funext hcol]
    exact db.unique t c hc
  unfold apply
  exact ⟨_, dif_pos hunique⟩

theorem applyAll_nil : L.applyAll [] db = some db' ↔ db = db' := by
  simp [applyAll, pure]

theorem applyAll_cons {w : Write Row V} {ws : List (Write Row V)} :
    L.applyAll (w :: ws) db = some db' ↔ ∃ db₁, L.apply w db = some db₁ ∧
      L.applyAll ws db₁ = some db' := by
  simp [applyAll, List.foldlM_cons, Option.bind_eq_some_iff]

/-- A relation kept by every write of a transaction is kept by the transaction. -/
theorem applyAll_rel {R : Db L → Db L → Prop} (hrefl : ∀ d, R d d)
    (htrans : ∀ {d₁ d₂ d₃}, R d₁ d₂ → R d₂ d₃ → R d₁ d₃) {ws : List (Write Row V)}
    (h : L.applyAll ws db = some db')
    (hw : ∀ w ∈ ws, ∀ d d', L.apply w d = some d' → R d d') : R db db' := by
  induction ws generalizing db with
  | nil => rw [applyAll_nil.mp h]; exact hrefl _
  | cons w ws ih =>
    obtain ⟨db₁, h1, h2⟩ := applyAll_cons.mp h
    exact htrans (hw w List.mem_cons_self _ _ h1)
      (ih h2 fun w' hw' => hw w' (List.mem_cons_of_mem _ hw'))

theorem applyAll_frame {ws : List (Write Row V)} (h : L.applyAll ws db = some db')
    (hu : ∀ w ∈ ws, u ≠ w.table) : db'.rows u = db.rows u := by
  induction ws generalizing db with
  | nil => rw [applyAll_nil.mp h]
  | cons w ws ih =>
    obtain ⟨db₁, h1, h2⟩ := applyAll_cons.mp h
    rw [ih h2 fun w' hw' => hu w' (List.mem_cons_of_mem _ hw'), apply_frame h1 (hu w List.mem_cons_self)]

/-! ## Rows that stay -/

omit [DecidableEq V] [DecidableEq T] in
variable (L) in
/-- Every row of `db` is still there in `db'`, with the same values in the fixed columns. -/
def Keeps (fixed : T → List Nat) (db db' : Db L) : Prop :=
  ∀ t, ∀ r ∈ db.rows t, ∃ r' ∈ db'.rows t, ∀ c ∈ fixed t, L.col c r' = L.col c r

variable {fixed : T → List Nat}

omit [DecidableEq V] [DecidableEq T] in
theorem Keeps.refl (db : Db L) : L.Keeps fixed db db := fun _ r hr => ⟨r, hr, fun _ _ => rfl⟩

omit [DecidableEq V] [DecidableEq T] in
theorem Keeps.trans {db₁ db₂ db₃ : Db L} (h₁ : L.Keeps fixed db₁ db₂)
    (h₂ : L.Keeps fixed db₂ db₃) : L.Keeps fixed db₁ db₃ := by
  intro t r hr
  obtain ⟨r₂, hr₂, h12⟩ := h₁ t r hr
  obtain ⟨r₃, hr₃, h23⟩ := h₂ t r₂ hr₂
  exact ⟨r₃, hr₃, fun c hc => (h23 c hc).trans (h12 c hc)⟩

theorem apply_keeps {w : Write Row V} (h : L.apply w db = some db')
    (hw : ∀ c ∈ w.sets, c ∉ fixed w.table) : L.Keeps fixed db db' := by
  intro t r hr
  by_cases ht : t = w.table
  · subst ht
    rw [apply_table h]
    cases w with
    | insert t r₁ => exact ⟨r, List.mem_append_left _ hr, fun _ _ => rfl⟩
    | update t f sets =>
      refine ⟨_, List.mem_map_of_mem hr, fun c hc => ?_⟩
      split
      · exact col_setCols (fun p hp he => hw p.1 (List.mem_map_of_mem hp) (he ▸ hc)) r
      · rfl
  · rw [apply_frame h ht]
    exact ⟨r, hr, fun _ _ => rfl⟩

theorem applyAll_keeps {ws : List (Write Row V)} (h : L.applyAll ws db = some db')
    (hw : ∀ w ∈ ws, ∀ c ∈ w.sets, c ∉ fixed w.table) : L.Keeps fixed db db' :=
  applyAll_rel Keeps.refl Keeps.trans h fun w hm _ _ ha => apply_keeps ha (hw w hm)

/-- Where a row comes from: it was there, or is inserted; its fixed columns are as they were. -/
theorem apply_origin {w : Write Row V} (h : L.apply w db = some db')
    (hw : ∀ c ∈ w.sets, c ∉ fixed w.table) {r' : Row t} (hr : r' ∈ db'.rows t) :
    (∃ r ∈ db.rows t, ∀ c ∈ fixed t, L.col c r' = L.col c r) ∨
      ∃ r : Row t, .insert t r = w ∧ ∀ c ∈ fixed t, L.col c r' = L.col c r := by
  by_cases ht : t = w.table
  · subst ht
    rw [apply_table h] at hr
    cases w with
    | insert t r₁ =>
      rcases List.mem_append.mp hr with hr | hr
      · exact .inl ⟨r', hr, fun _ _ => rfl⟩
      · have he : r' = r₁ := List.mem_singleton.mp hr
        exact .inr ⟨r₁, rfl, fun _ _ => by rw [he]⟩
    | update t f sets =>
      obtain ⟨r, hm, he⟩ := List.mem_map.mp hr
      refine .inl ⟨r, hm, fun c hc => ?_⟩
      rw [← he]
      split
      · exact col_setCols (fun p hp he => hw p.1 (List.mem_map_of_mem hp) (he ▸ hc)) r
      · rfl
  · rw [apply_frame h ht] at hr
    exact .inl ⟨r', hr, fun _ _ => rfl⟩

theorem applyAll_origin {ws : List (Write Row V)} (h : L.applyAll ws db = some db')
    (hw : ∀ w ∈ ws, ∀ c ∈ w.sets, c ∉ fixed w.table) {r' : Row t} (hr : r' ∈ db'.rows t) :
    (∃ r ∈ db.rows t, ∀ c ∈ fixed t, L.col c r' = L.col c r) ∨
      ∃ r : Row t, .insert t r ∈ ws ∧ ∀ c ∈ fixed t, L.col c r' = L.col c r := by
  induction ws generalizing db with
  | nil => rw [applyAll_nil.mp h]; exact .inl ⟨r', hr, fun _ _ => rfl⟩
  | cons w ws ih =>
    obtain ⟨db₁, h1, h2⟩ := applyAll_cons.mp h
    rcases ih h2 fun w' hw' => hw w' (List.mem_cons_of_mem _ hw') with ⟨r₁, hr₁, hc₁⟩ | ⟨r, hm, hc⟩
    · rcases apply_origin h1 (hw w List.mem_cons_self) hr₁ with ⟨r, hr, hc⟩ | ⟨r, he, hc⟩
      · exact .inl ⟨r, hr, fun c hm => (hc₁ c hm).trans (hc c hm)⟩
      · exact .inr ⟨r, he ▸ List.mem_cons_self, fun c hm => (hc₁ c hm).trans (hc c hm)⟩
    · exact .inr ⟨r, List.mem_cons_of_mem _ hm, hc⟩

/-- A property of a row that no update of a row with it destroys stays with the row. -/
theorem apply_mem {P : Row t → Prop} {w : Write Row V} (h : L.apply w db = some db')
    (hw : ∀ f sets, w = .update t f sets → ∀ r, L.holds f r = true → P r → P (L.setCols sets r))
    {r : Row t} (hr : r ∈ db.rows t) (hP : P r) : ∃ r' ∈ db'.rows t, P r' := by
  by_cases ht : t = w.table
  · subst ht
    rw [apply_table h]
    cases w with
    | insert t r₁ => exact ⟨r, List.mem_append_left _ hr, hP⟩
    | update t f sets =>
      refine ⟨_, List.mem_map_of_mem hr, ?_⟩
      split
      · next hf => exact hw f sets rfl r hf hP
      · exact hP
  · rw [apply_frame h ht]
    exact ⟨r, hr, hP⟩

theorem applyAll_mem {P : Row t → Prop} {ws : List (Write Row V)}
    (h : L.applyAll ws db = some db')
    (hw : ∀ f sets, .update t f sets ∈ ws → ∀ r, L.holds f r = true → P r → P (L.setCols sets r))
    {r : Row t} (hr : r ∈ db.rows t) (hP : P r) : ∃ r' ∈ db'.rows t, P r' := by
  induction ws generalizing db r with
  | nil => rw [← applyAll_nil.mp h]; exact ⟨r, hr, hP⟩
  | cons w ws ih =>
    obtain ⟨db₁, h1, h2⟩ := applyAll_cons.mp h
    obtain ⟨r₁, hr₁, hP₁⟩ := apply_mem h1
      (fun f sets he => hw f sets (he ▸ List.mem_cons_self)) hr hP
    exact ih h2 (fun f sets hm => hw f sets (List.mem_cons_of_mem _ hm)) hr₁ hP₁

end Layout

end Store
