import Wara.Store.Table

/-!
# Rows that are added

An insert whose unique columns are new is not refused, nor is a transaction of
such inserts; the rows are appended in order.
-/

namespace Store.Layout

variable {T V : Type} [DecidableEq T] [DecidableEq V] {Row : T → Type} {L : Layout Row V}
  {db db' : Db L} {t : T}

/-- The row's unique columns agree with no row of the table. -/
def New (db : Db L) (r : Row t) : Prop := ∀ c ∈ L.unique t, ∀ r' ∈ db.rows t, L.col c r' ≠ L.col c r

theorem apply_insert_isSome {r : Row t} (h : New db r) :
    ∃ db', L.apply (.insert t r) db = some db' := by
  have hunique : L.Unique (L.written (.insert t r) (db.rows t)) := by
    intro c hc
    show ((db.rows t ++ [r]).map (L.col c)).Nodup
    rw [List.map_append, List.nodup_append]
    refine ⟨db.unique t c hc, List.nodup_singleton _, ?_⟩
    rintro a ha b hb rfl
    obtain ⟨r', hr', rfl⟩ := List.mem_map.mp ha
    exact h c hc r' hr' (List.mem_singleton.mp hb)
  unfold apply
  exact ⟨_, dif_pos hunique⟩

/-- The rows of an insert that was not refused. -/
theorem applyAll_inserts {rs : List (Row t)} (h : L.applyAll (rs.map (.insert t)) db = some db') :
    db'.rows t = db.rows t ++ rs := by
  induction rs generalizing db with
  | nil => rw [← applyAll_nil.mp h, List.append_nil]
  | cons r rs ih =>
    obtain ⟨db₁, h1, h2⟩ := applyAll_cons.mp h
    rw [ih h2, apply_insert h1, List.append_assoc, List.singleton_append]

theorem applyAll_inserts_isSome {rs : List (Row t)} (hnew : ∀ r ∈ rs, New db r)
    (hpair : rs.Pairwise fun r r' => ∀ c ∈ L.unique t, L.col c r ≠ L.col c r') :
    ∃ db', L.applyAll (rs.map (.insert t)) db = some db' := by
  induction rs generalizing db with
  | nil => exact ⟨db, applyAll_nil.mpr rfl⟩
  | cons r rs ih =>
    obtain ⟨db₁, h1⟩ := apply_insert_isSome (hnew r List.mem_cons_self)
    have hnew' : ∀ r' ∈ rs, New db₁ r' := by
      intro r' hr' c hc r₀ hr₀
      rw [apply_insert h1] at hr₀
      rcases List.mem_append.mp hr₀ with hr₀ | hr₀
      · exact hnew r' (List.mem_cons_of_mem _ hr') c hc r₀ hr₀
      · rw [List.mem_singleton.mp hr₀]
        exact List.rel_of_pairwise_cons hpair hr' c hc
    obtain ⟨db', h2⟩ := ih hnew' hpair.of_cons
    exact ⟨db', applyAll_cons.mpr ⟨db₁, h1, h2⟩⟩

end Store.Layout
