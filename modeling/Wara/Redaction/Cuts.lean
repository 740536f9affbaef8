import Mathlib.Data.List.Induction
import Wara.Rust.Replacements

/-!
# Cutting out and writing over

A redaction cuts the patterns out of a text and writes a marker into every gap.
The text with gaps (`cut`) knows nothing of the marker, so none of the patterns
is in it any more (`not_infix_cut`). The written text shows a pattern only where
it is read across a marker (`infix_written_iff`). Replacing one pattern after
another is cutting them out, as long as no pattern is read across a marker when
its turn comes (`replaceAll_eq`).
-/

open Rust

namespace Redaction

variable {α : Type} {m s : List α} {c d : List (Option α)}

/-! ## Texts with gaps -/

/-- The characters of a text with gaps, and which of them are of a marker. -/
def cells (m : List α) (c : List (Option α)) : List (α × Bool) :=
  c.flatMap fun o => o.elim (m.map (·, true)) fun a => [(a, false)]

/-- The text with a marker in every gap. -/
def written (m : List α) (c : List (Option α)) : List α := (cells m c).map Prod.fst

/-- `s` is read across a marker: it is in the written text, and part of it is of a marker. -/
def Crosses (m s : List α) (c : List (Option α)) : Prop :=
  ∃ w, w <:+: cells m c ∧ w.map Prod.fst = s ∧ ∃ a, (a, true) ∈ w

@[simp] theorem cells_nil : cells m [] = [] := rfl

@[simp] theorem cells_some (a : α) : cells m (some a :: c) = (a, false) :: cells m c := rfl

@[simp] theorem cells_none : cells m (none :: c) = m.map (·, true) ++ cells m c := rfl

@[simp] theorem cells_append : cells m (c ++ d) = cells m c ++ cells m d := by
  simp [cells]

@[simp] theorem cells_map_some (t : List α) : cells m (t.map some) = t.map (·, false) := by
  induction t with
  | nil => rfl
  | cons a t ih => rw [List.map_cons, cells_some, ih, List.map_cons]

@[simp] theorem written_nil : written m [] = [] := rfl

@[simp] theorem written_some (a : α) : written m (some a :: c) = a :: written m c := rfl

@[simp] theorem written_append : written m (c ++ d) = written m c ++ written m d := by
  simp [written]

@[simp] theorem written_map_some (t : List α) : written m (t.map some) = t := by
  simp [written, Function.comp_def]

theorem written_none : written m (none :: c) = m ++ written m c := by
  simp [written, Function.comp_def]

theorem written_intercalate (sep : α) (cs : List (List (Option α))) :
    written m ([some sep].intercalate cs) = [sep].intercalate (cs.map (written m)) := by
  induction cs with
  | nil => rfl
  | cons c cs ih =>
    cases cs with
    | nil => simp
    | cons d cs =>
      rw [List.intercalate_cons_cons, List.map_cons, List.map_cons, List.intercalate_cons_cons,
        written_append, written_append, ih]
      rfl

theorem Crosses.mono (h : Crosses m s c) (hc : c <:+: d) : Crosses m s d := by
  obtain ⟨w, hw, hs, ha⟩ := h
  obtain ⟨u, v, rfl⟩ := hc
  refine ⟨w, hw.trans ?_, hs, ha⟩
  rw [cells_append, cells_append]
  exact ⟨cells m u, cells m v, rfl⟩

theorem not_crosses_of_gapless (h : none ∉ c) : ¬ Crosses m s c := by
  rintro ⟨w, hw, -, a, ha⟩
  have hmem := hw.subset ha
  unfold cells at hmem
  obtain ⟨o, ho, hmem⟩ := List.mem_flatMap.mp hmem
  cases o with
  | none => exact h ho
  | some b => simp at hmem

/-- An end of what is clear of the marker does not begin a text and go into a marker. -/
theorem Clear.prefix_plain (hs : Clear m s) {w : List (α × Bool)} (hw : w <+: cells m c)
    (hend : w.map Prod.fst <:+ s) (a : α) : (a, true) ∉ w := by
  induction c generalizing w with
  | nil =>
    obtain rfl := List.prefix_nil.mp hw
    exact List.not_mem_nil
  | cons o c ih =>
    cases o with
    | some b =>
      rcases List.prefix_cons_iff.mp hw with rfl | ⟨w, rfl, hrest⟩
      · exact List.not_mem_nil
      · have hin := ih hrest ((List.suffix_cons b _).trans hend)
        simpa using hin
    | none =>
      intro ha
      rcases prefix_of_append hw with hwm | ⟨z, rfl, -⟩
      · refine hs.back _ (by simpa using List.ne_nil_of_mem ha) ?_ hend
        simpa [Function.comp_def] using hwm.map Prod.fst
      · refine hs.outside (List.IsInfix.trans ⟨[], z.map Prod.fst, ?_⟩ hend.isInfix)
        simp [Function.comp_def]

/-- What is clear of the marker is not read across one. -/
theorem Clear.not_crosses (hs : Clear m s) : ¬ Crosses m s c := by
  rintro ⟨w, hw, rfl, a, ha⟩
  induction c with
  | nil => exact absurd ha (List.infix_nil.mp hw ▸ List.not_mem_nil)
  | cons o c ih =>
    cases o with
    | some b =>
      rcases List.infix_cons_iff.mp hw with hw | hw
      · exact hs.prefix_plain (c := some b :: c) hw List.suffix_rfl a ha
      · exact ih hw
    | none =>
      rcases List.infix_append_iff_ne_nil.mp hw with hw | hw | ⟨u, v, hu, -, rfl, hum, -⟩
      · exact hs.inside (by simpa [Function.comp_def] using hw.map Prod.fst)
      · exact ih hw
      · refine hs.front (u.map Prod.fst) (by simpa using hu) ?_ (by simp)
        simpa [Function.comp_def] using hum.map Prod.fst

/-! ## What is not of a marker -/

theorem prefix_of_plain (hm : m ≠ []) {w : List (α × Bool)} (hplain : ∀ a, (a, true) ∉ w)
    (hw : w <+: cells m c) : (w.map Prod.fst).map some <+: c := by
  induction c generalizing w with
  | nil =>
    obtain rfl := List.prefix_nil.mp hw
    exact List.nil_prefix
  | cons o c ih =>
    cases w with
    | nil => exact List.nil_prefix
    | cons b w =>
      cases o with
      | some a =>
        obtain ⟨rfl, hrest⟩ := List.cons_prefix_cons.mp hw
        have hplain' : ∀ a, (a, true) ∉ w := fun a ha => hplain a (List.mem_cons_of_mem _ ha)
        exact List.cons_prefix_cons.mpr ⟨rfl, ih hplain' hrest⟩
      | none =>
        obtain ⟨a, m, rfl⟩ := List.exists_cons_of_ne_nil hm
        obtain ⟨rfl, -⟩ := List.cons_prefix_cons.mp hw
        exact absurd List.mem_cons_self (hplain a)

theorem infix_of_plain (hm : m ≠ []) {w : List (α × Bool)} (hplain : ∀ a, (a, true) ∉ w)
    (hw : w <:+: cells m c) : (w.map Prod.fst).map some <:+: c := by
  by_cases hne : w = []
  · subst hne
    exact List.nil_infix
  induction c with
  | nil => exact absurd (List.infix_nil.mp hw) hne
  | cons o c ih =>
    cases o with
    | some a =>
      rcases List.infix_cons_iff.mp hw with hw | hw
      · exact (prefix_of_plain (c := some a :: c) hm hplain hw).isInfix
      · exact List.infix_cons (ih hw)
    | none =>
      have hmarked : ∀ u, u <:+: m.map (·, true) → u ≠ [] → ∃ a, (a, true) ∈ u := by
        intro u hu hune
        obtain ⟨b, hb⟩ := List.exists_mem_of_ne_nil u hune
        obtain ⟨a, -, rfl⟩ := List.mem_map.mp (hu.subset hb)
        exact ⟨a, hb⟩
      rcases List.infix_append_iff_ne_nil.mp hw with hw | hw | ⟨u, v, hu, -, rfl, hum, -⟩
      · obtain ⟨a, ha⟩ := hmarked w hw hne
        exact absurd ha (hplain a)
      · exact List.infix_cons (ih hw)
      · obtain ⟨a, ha⟩ := hmarked u hum.isInfix hu
        exact absurd (List.mem_append_left v ha) (hplain a)

theorem infix_map_some_iff {t : List α} : s.map some <:+: t.map some ↔ s <:+: t := by
  refine ⟨fun h => ?_, fun h => h.map some⟩
  obtain ⟨u, hu, heq⟩ := List.infix_map_iff.mp h
  rwa [List.map_injective_iff.mpr (fun _ _ => Option.some.inj) heq]

/-- **What a written text shows** is read across a marker, or was in the text and is not cut. -/
theorem infix_written_iff (hm : m ≠ []) :
    s <:+: written m c ↔ Crosses m s c ∨ s.map some <:+: c := by
  constructor
  · intro h
    obtain ⟨w, hw, rfl⟩ := List.infix_map_iff.mp h
    by_cases hmarked : ∃ a, (a, true) ∈ w
    · exact .inl ⟨w, hw, rfl, hmarked⟩
    · exact .inr (infix_of_plain hm (not_exists.mp hmarked) hw)
  · rintro (⟨w, hw, rfl, -⟩ | ⟨u, v, rfl⟩)
    · exact hw.map Prod.fst
    · rw [written_append, written_append, written_map_some]
      exact ⟨written m u, written m v, rfl⟩

theorem prefix_of_written (hm : m ≠ []) (hs : ¬ Crosses m s c) (h : s <+: written m c) :
    s.map some <+: c := by
  obtain ⟨w, hw, rfl⟩ := List.prefix_map_iff.mp h
  exact prefix_of_plain hm (fun a ha => hs ⟨w, hw.isInfix, rfl, a, ha⟩) hw

/-! ## Cutting out -/

theorem clear_gap (hs : s ≠ []) : Clear [none] (s.map some) where
  outside h := by simpa using h.subset (List.mem_singleton_self none)
  inside h := by
    obtain ⟨a, s, rfl⟩ := List.exists_cons_of_ne_nil hs
    simpa using h.subset List.mem_cons_self
  front p hp hpm hps := by
    obtain ⟨o, p, rfl⟩ := List.exists_cons_of_ne_nil hp
    have hgap := List.mem_singleton.mp (hpm.subset List.mem_cons_self)
    rw [hgap] at hps
    simpa using hps.subset List.mem_cons_self
  back p hp hpm hps := by
    obtain ⟨o, p, rfl⟩ := List.exists_cons_of_ne_nil hp
    have hgap := List.mem_singleton.mp (hpm.subset List.mem_cons_self)
    rw [hgap] at hps
    simpa using hps.subset List.mem_cons_self

variable [BEq α] [LawfulBEq α] {p t : List α} {ps : List (List α)}

/-- **One replacement** cuts the pattern out, unless it is read across a marker. -/
theorem replaceFrom_written (hm : m ≠ []) (hp : p ≠ []) (h : ¬ Crosses m p c) :
    replaceFrom p m 0 (written m c) = written m (replaceFrom (p.map some) [none] 0 c) := by
  have hpmap : p.map some ≠ [] := by simpa using hp
  induction hn : c.length using Nat.strongRecOn generalizing c with
  | ind n ih =>
    by_cases hpre : p.map some <+: c
    · obtain ⟨d, rfl⟩ := hpre
      have hlen : d.length < n := by
        have := List.length_pos_of_ne_nil hpmap
        rw [List.length_append] at hn
        omega
      have hd : ¬ Crosses m p d := fun hd => h (hd.mono (List.suffix_append _ d).isInfix)
      rw [written_append, written_map_some, replaceFrom_match hp, replaceFrom_match hpmap,
        ih d.length hlen hd rfl]
      exact written_none.symm
    have hnot : ¬ p <+: written m c := fun hw => hpre (prefix_of_written hm h hw)
    cases c with
    | nil => rfl
    | cons o c =>
      have hc : ¬ Crosses m p c := fun hc => h (hc.mono (List.suffix_cons o c).isInfix)
      have hrest := ih c.length (by rw [← hn, List.length_cons]; exact Nat.lt_succ_self _) hc rfl
      have hstep : replaceFrom (p.map some) [none] 0 (o :: c) =
          o :: replaceFrom (p.map some) [none] 0 c := by
        rw [replaceFrom, if_neg fun hp => hpre (List.isPrefixOf_iff_prefix.mp hp)]
      rw [hstep]
      cases o with
      | some a =>
        rw [written_some] at hnot ⊢
        rw [replaceFrom, if_neg fun hp => hnot (List.isPrefixOf_iff_prefix.mp hp), hrest,
          written_some]
      | none =>
        rw [written_none, written_none, ← hrest]
        -- where the pattern would begin in the marker, it would be read across it
        refine replaceFrom_skip _ fun y hy hym hpy => h ?_
        have hcells : y.map (·, true) ++ cells m c <:+: cells m (none :: c) := by
          rw [cells_none]
          obtain ⟨u, rfl⟩ := hym
          exact ⟨u.map (·, true), [], by simp⟩
        have hread : p <+: (y.map (·, true) ++ cells m c).map Prod.fst := by
          simpa [Function.comp_def, written] using hpy
        obtain ⟨w, hw, rfl⟩ := List.prefix_map_iff.mp hread
        refine ⟨w, hw.isInfix.trans hcells, rfl, ?_⟩
        obtain ⟨b, w, rfl⟩ := List.exists_cons_of_ne_nil (by rintro rfl; exact hp rfl : w ≠ [])
        obtain ⟨a, y, rfl⟩ := List.exists_cons_of_ne_nil hy
        obtain ⟨rfl, -⟩ := List.cons_prefix_cons.mp hw
        exact ⟨a, List.mem_cons_self⟩

/-- The text with the patterns cut out, one after another. -/
def cut {α : Type} [BEq α] (ps : List (List α)) (t : List α) : List (Option α) :=
  replaceAll [none] (ps.map (List.map some)) (t.map some)

/-- When its turn comes, no pattern is read across a marker. -/
def InTurn {α : Type} [BEq α] (m : List α) (ps : List (List α)) (t : List α) : Prop :=
  ∀ done p rest, ps = done ++ p :: rest → ¬ Crosses m p (cut done t)

/-- **One replacement after another** cuts the patterns out. -/
theorem replaceAll_eq (hm : m ≠ []) (h : InTurn m ps t) :
    replaceAll m ps t = written m (cut ps t) := by
  induction ps using List.reverseRecOn with
  | nil => exact (written_map_some t).symm
  | append_singleton ps p ih =>
    have hps := ih fun done q rest he => h done q (rest ++ [p]) (by rw [he]; simp)
    have hp := h ps p [] rfl
    unfold cut replaceAll at hps hp ⊢
    rw [List.map_append, List.foldl_append, List.foldl_append, hps]
    simp only [List.map_cons, List.map_nil, List.foldl_cons, List.foldl_nil, Rust.pass,
      List.isEmpty_map]
    split
    · rfl
    · rename_i hne
      exact replaceFrom_written hm (by rwa [List.isEmpty_iff] at hne) hp

/-- None of the patterns is left. -/
theorem not_infix_cut (hp : p ∈ ps) (hne : p ≠ []) : ¬ p.map some <:+: cut ps t := by
  have hclear := clear_gap hne
  have hback : ∀ (qs : List (List (Option α))) (c : List (Option α)),
      p.map some <:+: replaceAll [none] qs c → p.map some <:+: c := by
    intro qs
    induction qs with
    | nil => exact fun c h => h
    | cons q qs ih =>
      intro c h
      have hpass : p.map some <:+: Rust.pass [none] q c := ih _ h
      unfold Rust.pass at hpass
      split at hpass
      · exact hpass
      · rename_i hq
        rw [List.isEmpty_iff] at hq
        exact (replaceFrom_marked hq 0 c).inner hclear hpass
  unfold cut
  generalize t.map some = c
  induction ps generalizing c with
  | nil => exact absurd hp List.not_mem_nil
  | cons q ps ih =>
    rw [List.map_cons, replaceAll_cons]
    rcases List.mem_cons.mp hp with rfl | hp
    · intro h
      have h := hback _ _ h
      unfold Rust.pass at h
      rw [if_neg (by rw [List.isEmpty_iff]; exact hclear.ne_nil)] at h
      exact not_infix_replaceFrom hclear 0 c h
    · exact ih hp _

end Redaction
