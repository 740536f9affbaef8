import Mathlib.Data.List.Basic

/-!
# Redaction by a marker

A text in which segments have been replaced by a marker (`Marked`), and pieces
that are joined by a separator afterwards. A secret that is clear of the marker
does not come about by a replacement (`Marked.inner`). In the joined text a
secret is in one of the pieces or straddles their borders (`infix_join_iff`).
-/

namespace Redaction

variable {α : Type*} {m s t r : List α}

/-! ## Segments of an append -/

theorem prefix_of_append {q x y : List α} (h : q <+: x ++ y) :
    q <+: x ∨ ∃ z, q = x ++ z ∧ z <+: y := by
  rcases List.prefix_or_prefix_of_prefix h (List.prefix_append x y) with hq | ⟨z, rfl⟩
  · exact .inl hq
  · exact .inr ⟨z, rfl, (List.prefix_append_right_inj x).mp h⟩

theorem suffix_of_append {p x y : List α} (h : p <:+ x ++ y) :
    p <:+ y ∨ ∃ z, p = z ++ y ∧ z <:+ x := by
  rcases List.suffix_or_suffix_of_suffix h (List.suffix_append x y) with hp | ⟨z, rfl⟩
  · exact .inl hp
  · exact .inr ⟨z, rfl, List.suffix_append_self_iff.mp h⟩

/-! ## Marked texts -/

/-- `r` is `t` with nonempty segments replaced by `m`. -/
inductive Marked (m : List α) : List α → List α → Prop
  | nil : Marked m [] []
  | keep {t r : List α} (a : α) : Marked m t r → Marked m (a :: t) (a :: r)
  | cut {t r x : List α} : x ≠ [] → Marked m t r → Marked m (x ++ t) (m ++ r)

theorem Marked.eq_nil_iff (hm : m ≠ []) (h : Marked m t r) : r = [] ↔ t = [] := by
  cases h with
  | nil => simp
  | keep a h => simp
  | cut hx h => simp [hm, hx]

/-- No part of the marker is the beginning, the end or the middle of `s`, nor the other way. -/
structure Clear (m s : List α) : Prop where
  outside : ¬ m <:+: s
  inside : ¬ s <:+: m
  front : ∀ p, p ≠ [] → p <:+ m → ¬ p <+: s
  back : ∀ p, p ≠ [] → p <+: m → ¬ p <:+ s

theorem Clear.ne_nil (h : Clear m s) : s ≠ [] := by
  rintro rfl
  exact h.inside (List.nil_infix)

theorem Clear.symm (h : Clear m s) : Clear s m where
  outside := h.inside
  inside := h.outside
  front p hp hs hm := h.back p hp hm hs
  back p hp hs hm := h.front p hp hm hs

/-- A long text that has neither the first nor the last character of the marker is clear of it. -/
theorem clear_of_ends {a b : α} (hlong : m.length < s.length) (hfirst : m.head? = some a)
    (hlast : m.getLast? = some b) (ha : a ∉ s) (hb : b ∉ s) : Clear m s where
  outside h := ha (h.subset (List.mem_of_head? hfirst))
  inside h := by have := h.length_le; omega
  front p hp hpm hps := by
    obtain ⟨z, rfl⟩ := hpm
    have hlast' : p.getLast? = some b := by rw [← hlast, List.getLast?_append_of_ne_nil _ hp]
    exact hb (hps.subset (List.mem_of_getLast? hlast'))
  back p hp hpm hps := by
    obtain ⟨z, rfl⟩ := hpm
    have hfirst' : p.head? = some a := by rw [← hfirst, List.head?_append_of_ne_nil _ hp]
    exact ha (hps.subset (List.mem_of_head? hfirst'))

/-- A text without the marker has nothing replaced. -/
theorem Marked.whole (h : Marked m t r) (hr : ¬ m <:+: r) : r = t := by
  induction h with
  | nil => rfl
  | keep a h ih => rw [ih fun hm => hr (List.infix_cons hm)]
  | cut hx h => exact absurd (List.infix_append_left) hr

theorem Marked.front {q : List α} (h : Marked m t r) (hs : Clear m s) (hq : q <:+ s)
    (hr : q <+: r) : q <+: t := by
  induction h generalizing q with
  | nil => exact hr
  | keep a h ih =>
    rcases List.prefix_cons_iff.mp hr with rfl | ⟨q', rfl, hq'⟩
    · exact List.nil_prefix
    · exact List.cons_prefix_cons.mpr ⟨rfl, ih ((List.suffix_cons a q').trans hq) hq'⟩
  | cut hx h ih =>
    by_cases hne : q = []
    · subst hne; exact List.nil_prefix
    rcases prefix_of_append hr with hm | ⟨z, rfl, -⟩
    · exact absurd hq (hs.back q hne hm)
    · exact absurd (List.infix_append_left.trans hq.isInfix) hs.outside

theorem Marked.back {p : List α} (h : Marked m t r) (hs : Clear m s) (hp : p <+: s)
    (hr : p <:+ r) : p <:+ t := by
  induction h generalizing p with
  | nil => exact hr
  | @keep t r a h ih =>
    rcases List.suffix_cons_iff.mp hr with rfl | hr
    · have hwhole := (h.keep a).whole fun hm => hs.outside (hm.trans hp.isInfix)
      exact hwhole ▸ List.suffix_rfl
    · exact (ih hp hr).trans (List.suffix_cons a t)
  | @cut t r x hx h ih =>
    rcases suffix_of_append hr with hr | ⟨z, rfl, hz⟩
    · exact (ih hp hr).trans (List.suffix_append x t)
    · by_cases hne : z = []
      · subst hne
        exact (ih hp List.suffix_rfl).trans (List.suffix_append x t)
      · exact absurd ((List.prefix_append z r).trans hp) (hs.front z hne hz)

/-- What is clear of the marker and is in the marked text is in the text. -/
theorem Marked.inner (h : Marked m t r) (hs : Clear m s) (hr : s <:+: r) : s <:+: t := by
  induction h with
  | nil => exact hr
  | @keep t r a h ih =>
    rcases List.infix_cons_iff.mp hr with hr | hr
    · exact ((h.keep a).front hs List.suffix_rfl hr).isInfix
    · exact List.infix_cons (ih hr)
  | @cut t r x hx h ih =>
    rcases List.infix_append_iff_ne_nil.mp hr with hr | hr | ⟨p, q, hp, hq, rfl, hpm, hqr⟩
    · exact absurd hr hs.inside
    · exact List.infix_append_of_infix_right (ih hr)
    · exact absurd (List.prefix_append p q) (hs.front p hp hpm)

/-! ## Joined pieces -/

/-- `s` begins in a piece and goes on over the separator into the next ones. -/
inductive Straddles (sep : α) (s : List α) : List (List α) → Prop
  | here {t r p q : List α} {ps : List (List α)} : t <:+ p → r <+: [sep].intercalate (q :: ps) →
      s = t ++ sep :: r → Straddles sep s (p :: q :: ps)
  | there {p : List α} {ps : List (List α)} : Straddles sep s ps → Straddles sep s (p :: ps)

theorem Straddles.mem {sep : α} {ps : List (List α)} (h : Straddles sep s ps) : sep ∈ s := by
  induction h with
  | here _ _ h => subst h; simp
  | there _ ih => exact ih

/-- A text is in the joined pieces if it is in one of them, or straddles a border. -/
theorem infix_join_iff {sep : α} (hs : s ≠ []) (ps : List (List α)) :
    s <:+: [sep].intercalate ps ↔ (∃ p ∈ ps, s <:+: p) ∨ Straddles sep s ps := by
  induction ps with
  | nil =>
    refine ⟨fun h => (hs (List.infix_nil.mp h)).elim, ?_⟩
    rintro (⟨p, hp, -⟩ | h)
    · exact (List.not_mem_nil hp).elim
    · cases h
  | cons p ps ih =>
    cases ps with
    | nil =>
      rw [List.intercalate_singleton]
      refine ⟨fun h => .inl ⟨p, List.mem_singleton_self p, h⟩, ?_⟩
      rintro (⟨q, hq, h⟩ | h)
      · rwa [← List.mem_singleton.mp hq]
      · cases h with
        | there h => cases h
    | cons q ps =>
      rw [List.intercalate_cons_cons, List.append_assoc]
      constructor
      · intro h
        rcases List.infix_append_iff_ne_nil.mp h with h | h | ⟨u, v, -, hv, rfl, hu, hvr⟩
        · exact .inl ⟨p, List.mem_cons_self, h⟩
        · rcases List.infix_cons_iff.mp h with h | h
          · rcases List.prefix_cons_iff.mp h with rfl | ⟨v, rfl, hv⟩
            · exact (hs rfl).elim
            · exact .inr (.here List.nil_suffix hv rfl)
          · rcases ih.mp h with ⟨o, ho, h⟩ | h
            · exact .inl ⟨o, List.mem_cons_of_mem p ho, h⟩
            · exact .inr (.there h)
        · rcases List.prefix_cons_iff.mp hvr with rfl | ⟨w, rfl, hw⟩
          · exact (hv rfl).elim
          · exact .inr (.here hu hw rfl)
      · have hright : ∀ {o : List α}, o <:+: [sep].intercalate (q :: ps) →
            o <:+: p ++ ([sep] ++ [sep].intercalate (q :: ps)) := fun h =>
          List.infix_append_of_infix_right (List.infix_append_of_infix_right h)
        rintro (⟨o, ho, h⟩ | h)
        · rcases List.mem_cons.mp ho with rfl | ho
          · exact List.infix_append_of_infix_left h
          · exact hright (ih.mpr (.inl ⟨o, ho, h⟩))
        · cases h with
          | here ht hr hst =>
            obtain ⟨u, rfl⟩ := ht
            obtain ⟨v, hv⟩ := hr
            exact ⟨u, v, by rw [hst, ← hv]; simp⟩
          | there h => exact hright (ih.mpr (.inr h))

end Redaction
