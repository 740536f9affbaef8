import Mathlib.Data.List.Forall2
import Wara.Store.Table

/-!
# Rows on record

Where rows stay and some of their columns are fixed, a row that was read is on
record from then on: a row that agrees with it in the fixed columns is stored. Of
its other columns one can only say that they were so when it was read, in one of
the databases of a time `D`. A report on a table, made in that time while others
write, tells of nothing but rows that were stored as they are told and are on
record at its end, and of all that were on record at its beginning.
-/

namespace Store.Layout

variable {T V : Type} {Row : T → Type} (L : Layout Row V) (fixed : T → List Nat)
  (D : Db L → Prop) {t : T} {α β : Type}

/-- The rows agree in the fixed columns. -/
def Same (r r' : Row t) : Prop := ∀ c ∈ fixed t, L.col c r = L.col c r'

/-- A row that agrees with this one is stored. -/
def OnRecord (db : Db L) (r : Row t) : Prop := ∃ r' ∈ db.rows t, L.Same fixed r' r

/-- The row was stored, with all its columns, at some moment of the time. -/
def Seen (r : Row t) : Prop := ∃ db, D db ∧ r ∈ db.rows t

/-- The row was stored at some moment of the time, and is on record. -/
structure Recorded (db : Db L) (r : Row t) : Prop where
  seen : L.Seen D r
  onRecord : L.OnRecord fixed db r

/-- Rows stay, and the time goes on. -/
structure Later (db db' : Db L) : Prop where
  keeps : L.Keeps fixed db db'
  within : D db → D db'

/-- What is in the report is related to a row with the property. -/
structure Reports (db₀ db : Db L) (p : Row t → Prop) (R : Row t → α → Prop) (as : List α) :
    Prop where
  sound : ∀ a ∈ as, ∃ r, L.Recorded fixed D db r ∧ p r ∧ R r a
  complete : ∀ r, L.OnRecord fixed db₀ r → p r →
    ∃ a ∈ as, ∃ r', L.Recorded fixed D db r' ∧ L.Same fixed r' r ∧ R r' a

variable {L fixed D} {db₀ db db₁ db₂ db' : Db L} {r r' r'' : Row t} {p q : Row t → Prop}
  {R : Row t → α → Prop} {R' : Row t → β → Prop} {as : List α} {bs : List β}

theorem Same.refl (r : Row t) : L.Same fixed r r := fun _ _ => rfl

theorem Same.trans (h : L.Same fixed r r') (h' : L.Same fixed r' r'') : L.Same fixed r r'' :=
  fun c hc => (h c hc).trans (h' c hc)

theorem OnRecord.of_mem (h : r ∈ db.rows t) : L.OnRecord fixed db r := ⟨r, h, .refl r⟩

theorem OnRecord.mono (h : L.OnRecord fixed db r) (hdb : L.Keeps fixed db db') :
    L.OnRecord fixed db' r := by
  obtain ⟨r₁, hr₁, h₁⟩ := h
  obtain ⟨r₂, hr₂, h₂⟩ := hdb t r₁ hr₁
  exact ⟨r₂, hr₂, Same.trans h₂ h₁⟩

/-- Rows on record that agree in a unique column agree in all fixed ones. -/
theorem OnRecord.same (h : L.OnRecord fixed db r) (h' : L.OnRecord fixed db r') {c : Nat}
    (hc : c ∈ fixed t) (hu : c ∈ L.unique t) (he : L.col c r = L.col c r') :
    L.Same fixed r r' := by
  obtain ⟨r₁, hr₁, h₁⟩ := h
  obtain ⟨r₂, hr₂, h₂⟩ := h'
  have hcol : L.col c r₁ = L.col c r₂ := (h₁ c hc).trans (he.trans (h₂ c hc).symm)
  have hrow : r₁ = r₂ := (db.unique t).eq hu hr₁ hr₂ hcol
  subst hrow
  exact fun c hc => (h₁ c hc).symm.trans (h₂ c hc)

theorem Later.refl (db : Db L) : L.Later fixed D db db := ⟨Keeps.refl db, id⟩

theorem Later.trans (h : L.Later fixed D db db₁) (h' : L.Later fixed D db₁ db₂) :
    L.Later fixed D db db₂ := ⟨h.keeps.trans h'.keeps, fun hdb => h'.within (h.within hdb)⟩

namespace Recorded

theorem of_mem (hdb : D db) (h : r ∈ db.rows t) : L.Recorded fixed D db r :=
  ⟨⟨db, hdb, h⟩, .of_mem h⟩

theorem mono (h : L.Recorded fixed D db r) (hdb : L.Later fixed D db db') :
    L.Recorded fixed D db' r := ⟨h.seen, h.onRecord.mono hdb.keeps⟩

/-- What a transaction inserts that does not update its table. -/
theorem inserted [DecidableEq T] [DecidableEq V] {ws : List (Write Row V)}
    (h : L.applyAll ws db = some db') (hws : ∀ f sets, .update t f sets ∉ ws)
    (hr : .insert t r ∈ ws) (hdb : D db') : L.Recorded fixed D db' r := by
  refine .of_mem hdb ?_
  induction ws generalizing db with
  | nil => cases hr
  | cons w ws ih =>
    obtain ⟨db₁, h1, h2⟩ := applyAll_cons.mp h
    have hrest : ∀ f sets, .update t f sets ∉ ws :=
      fun f sets hm => hws f sets (List.mem_cons_of_mem w hm)
    rcases List.mem_cons.mp hr with rfl | hr
    · have hmem : r ∈ db₁.rows t := by
        rw [apply_insert h1]
        exact List.mem_append_right _ (List.mem_singleton_self r)
      obtain ⟨r', hr', rfl⟩ := applyAll_mem (P := (· = r)) h2
        (fun f sets hm => (hrest f sets hm).elim) hmem rfl
      exact hr'
    · exact ih h2 hrest hr

end Recorded

namespace Reports

theorem mono (h : L.Reports fixed D db₀ db p R as) (hdb : L.Later fixed D db db') :
    L.Reports fixed D db₀ db' p R as where
  sound a ha := by
    obtain ⟨r, hr, hrest⟩ := h.sound a ha
    exact ⟨r, hr.mono hdb, hrest⟩
  complete r hr hp := by
    obtain ⟨a, ha, r', hr', hrest⟩ := h.complete r hr hp
    exact ⟨a, ha, r', hr'.mono hdb, hrest⟩

/-- A report that was begun earlier. -/
theorem since (h : L.Reports fixed D db₁ db p R as) (hdb : L.Later fixed D db₀ db₁) :
    L.Reports fixed D db₀ db p R as where
  sound := h.sound
  complete r hr := h.complete r (hr.mono hdb.keeps)

theorem congr (h : L.Reports fixed D db₀ db p R as) (hpq : ∀ r, p r ↔ q r) :
    L.Reports fixed D db₀ db q R as where
  sound a ha := by
    obtain ⟨r, hr, hp, hR⟩ := h.sound a ha
    exact ⟨r, hr, (hpq r).mp hp, hR⟩
  complete r hr hq := h.complete r hr ((hpq r).mpr hq)

theorem of_mem_iff {as' : List α} (h : L.Reports fixed D db₀ db p R as)
    (has : ∀ a, a ∈ as' ↔ a ∈ as) : L.Reports fixed D db₀ db p R as' where
  sound a ha := h.sound a ((has a).mp ha)
  complete r hr hp := by
    obtain ⟨a, ha, hrest⟩ := h.complete r hr hp
    exact ⟨a, (has a).mpr ha, hrest⟩

/-- What is made of a report, one by one. -/
theorem forall₂ {S : α → β → Prop} (h : L.Reports fixed D db₀ db p R as)
    (hS : List.Forall₂ S as bs) (hR : ∀ r a b, R r a → S a b → R' r b) :
    L.Reports fixed D db₀ db p R' bs where
  sound b hb := by
    obtain ⟨i, hi, rfl⟩ := List.mem_iff_getElem.mp hb
    have hi' : i < as.length := hS.length_eq ▸ hi
    obtain ⟨r, hr, hp, hra⟩ := h.sound as[i] (List.getElem_mem hi')
    exact ⟨r, hr, hp, hR r _ _ hra (hS.get hi' hi)⟩
  complete r hr hp := by
    obtain ⟨a, ha, r', hr', hsame, hra⟩ := h.complete r hr hp
    obtain ⟨i, hi, rfl⟩ := List.mem_iff_getElem.mp ha
    have hi' : i < bs.length := hS.length_eq ▸ hi
    exact ⟨bs[i], List.getElem_mem hi', r', hr', hsame, hR r' _ _ hra (hS.get hi hi')⟩

theorem map (f : α → β) (h : L.Reports fixed D db₀ db p R as) (hR : ∀ r a, R r a → R' r (f a)) :
    L.Reports fixed D db₀ db p R' (as.map f) :=
  h.forall₂ (S := fun a b => f a = b) (List.forall₂_map_right_iff.mpr (List.forall₂_same.mpr
    fun _ _ => rfl)) fun r a _ hra hab => hab ▸ hR r a hra

/-- A query, made at some time between. -/
theorem select [DecidableEq V] {f : Filter V}
    (hf : ∀ r r' : Row t, L.Same fixed r r' → (L.holds f r = true ↔ L.holds f r' = true))
    (h₀ : L.Later fixed D db₀ db₁) (hdb : D db₁) (h₁ : L.Later fixed D db₁ db) :
    L.Reports fixed D db₀ db (fun r : Row t => L.holds f r = true) Eq (L.select db₁ t f) where
  sound r hr := by
    obtain ⟨hmem, hholds⟩ := mem_select.mp hr
    exact ⟨r, (Recorded.of_mem hdb hmem).mono h₁, hholds, rfl⟩
  complete r hr hholds := by
    obtain ⟨r₁, hmem, hsame⟩ := hr.mono h₀.keeps
    have hselected : r₁ ∈ L.select db₁ t f := mem_select.mpr ⟨hmem, (hf r₁ r hsame).mpr hholds⟩
    exact ⟨r₁, hselected, r₁, (Recorded.of_mem hdb hmem).mono h₁, hsame, rfl⟩

end Reports

end Store.Layout
