import Wara.Store.Table

/-!
# What may be added, and what changed

One database comes of another by permitted changes when no row is gone, and each
row is as it was, or may be added, or comes of a row that may be changed so. A
statement does that when its row may be added, or the rows that it finds may be
changed as it sets them; a transaction that only inserts, when each of its rows
may be added.
-/

namespace Store.Layout

variable {T V : Type} {Row : T → Type} {L : Layout Row V} {db db' : Db L}
  {add : (t : T) → Row t → Prop} {change : (t : T) → Row t → Row t → Prop}

/-- No row is gone, and each is as it was, or added or changed as permitted. -/
structure Permits (add : (t : T) → Row t → Prop) (change : (t : T) → Row t → Row t → Prop)
    (db db' : Db L) : Prop where
  kept : ∀ t, ∀ r ∈ db.rows t, ∃ r' ∈ db'.rows t, r' = r ∨ change t r r'
  rows : ∀ t, ∀ r' ∈ db'.rows t, (∃ r ∈ db.rows t, r' = r ∨ change t r r') ∨ add t r'

theorem Permits.refl (db : Db L) : Permits add change db db where
  kept _ r hr := ⟨r, hr, .inl rfl⟩
  rows _ r hr := .inl ⟨r, hr, .inl rfl⟩

theorem Permits.mono {add' : (t : T) → Row t → Prop} {change' : (t : T) → Row t → Row t → Prop}
    (h : Permits add change db db') (hadd : ∀ t r, add t r → add' t r)
    (hchange : ∀ t r r', change t r r' → change' t r r') : Permits add' change' db db' where
  kept t r hr := by
    obtain ⟨r', hr', hc⟩ := h.kept t r hr
    exact ⟨r', hr', hc.imp_right (hchange t r r')⟩
  rows t r' hr' := by
    rcases h.rows t r' hr' with ⟨r, hr, hc⟩ | ha
    · exact .inl ⟨r, hr, hc.imp_right (hchange t r r')⟩
    · exact .inr (hadd t r' ha)

variable [DecidableEq V]

variable (L) in
/-- The statement does what is permitted in the database. -/
def Allows (add : (t : T) → Row t → Prop) (change : (t : T) → Row t → Row t → Prop) (db : Db L) :
    Write Row V → Prop
  | .insert t r => add t r
  | .update t f sets => ∀ r ∈ db.rows t, L.holds f r = true → change t r (L.setCols sets r)

variable [DecidableEq T]

theorem Allows.apply {w : Write Row V} (hw : L.Allows add change db w)
    (h : L.apply w db = some db') : Permits add change db db' := by
  cases w with
  | insert t r =>
    have hrows := apply_insert h
    constructor
    · intro u r₁ hr₁
      by_cases hu : u = t
      · subst hu
        exact ⟨r₁, hrows ▸ List.mem_append_left _ hr₁, .inl rfl⟩
      · exact ⟨r₁, (apply_frame h hu).symm ▸ hr₁, .inl rfl⟩
    · intro u r' hr'
      by_cases hu : u = t
      · subst hu
        rw [hrows] at hr'
        rcases List.mem_append.mp hr' with hr | hr
        · exact .inl ⟨r', hr, .inl rfl⟩
        · exact .inr (List.mem_singleton.mp hr ▸ hw)
      · exact .inl ⟨r', apply_frame h hu ▸ hr', .inl rfl⟩
  | update t f sets =>
    have hrows := apply_update h
    have hset : ∀ r ∈ db.rows t, (if L.holds f r then L.setCols sets r else r) = r ∨
        change t r (if L.holds f r then L.setCols sets r else r) := by
      intro r hr
      by_cases hholds : L.holds f r = true
      · rw [if_pos hholds]
        exact .inr (hw r hr hholds)
      · rw [if_neg hholds]
        exact .inl rfl
    constructor
    · intro u r hr
      by_cases hu : u = t
      · subst hu
        exact ⟨_, hrows ▸ List.mem_map_of_mem hr, hset r hr⟩
      · exact ⟨r, (apply_frame h hu).symm ▸ hr, .inl rfl⟩
    · intro u r' hr'
      by_cases hu : u = t
      · subst hu
        rw [hrows] at hr'
        obtain ⟨r, hr, rfl⟩ := List.mem_map.mp hr'
        exact .inl ⟨r, hr, hset r hr⟩
      · exact .inl ⟨r', apply_frame h hu ▸ hr', .inl rfl⟩

/-- A transaction that only inserts changes no row. -/
theorem permits_of_inserts {ws : List (Write Row V)} (h : L.applyAll ws db = some db')
    (hws : ∀ w ∈ ws, ∃ t r, w = .insert t r ∧ add t r) :
    Permits add (fun _ _ _ => False) db db' := by
  induction ws generalizing db with
  | nil => exact applyAll_nil.mp h ▸ Permits.refl db
  | cons w ws ih =>
    obtain ⟨db₁, h₁, h₂⟩ := applyAll_cons.mp h
    obtain ⟨t, r, rfl, hadd⟩ := hws w List.mem_cons_self
    have hallows : L.Allows add (fun _ _ _ => False) db (.insert t r) := hadd
    have hfirst := hallows.apply h₁
    have hrest := ih h₂ fun w' hw' => hws w' (List.mem_cons_of_mem _ hw')
    constructor
    · intro u r hr
      obtain ⟨r₁, hr₁, rfl | hno⟩ := hfirst.kept u r hr
      · exact hrest.kept u r₁ hr₁
      · exact hno.elim
    · intro u r' hr'
      rcases hrest.rows u r' hr' with ⟨r₁, hr₁, rfl | hno⟩ | hadd'
      · exact hfirst.rows u r' hr₁
      · exact hno.elim
      · exact .inr hadd'

end Store.Layout
