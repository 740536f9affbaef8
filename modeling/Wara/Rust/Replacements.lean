import Wara.Rust.Replace

/-!
# Several patterns, one after another

Every replacement searches the text that the last one has left. Patterns that
are clear of each other and of the replacement do not meet, so their order does
not matter (`replaceAll_perm`). Two that overlap can be laid over each other in
one text, and whichever comes first takes the overlap away from the other; the
shortest such text shows it (`orderless_of_perm`).
-/

open Redaction

namespace Rust

variable {α : Type} [BEq α] [LawfulBEq α] {r p q z : List α}

/-! ## A segment that the pattern is clear of -/

/-- Where the pattern does not begin, the text stays. -/
theorem replaceFrom_skip {a : List α} (u : List α)
    (h : ∀ y, y ≠ [] → y <:+ a → ¬ p <+: y ++ u) :
    replaceFrom p r 0 (a ++ u) = a ++ replaceFrom p r 0 u := by
  induction a with
  | nil => rfl
  | cons c a ih =>
    have hhead : ¬ p.isPrefixOf (c :: (a ++ u)) = true := fun hp =>
      h (c :: a) (List.cons_ne_nil c a) List.suffix_rfl (List.isPrefixOf_iff_prefix.mp hp)
    rw [List.cons_append, replaceFrom, if_neg hhead,
      ih fun y hy hya => h y hy (hya.trans (List.suffix_cons c a)), List.cons_append]

theorem replaceFrom_clear (h : Clear z p) (u : List α) :
    replaceFrom p r 0 (z ++ u) = z ++ replaceFrom p r 0 u := by
  refine replaceFrom_skip u fun y hy hyz hp => ?_
  rcases List.prefix_or_prefix_of_prefix hp (List.prefix_append y u) with hpy | hyp
  · exact h.inside (hpy.isInfix.trans hyz.isInfix)
  · exact h.front y hy hyz hyp

theorem replaceFrom_match (hp : p ≠ []) (u : List α) :
    replaceFrom p r 0 (p ++ u) = r ++ replaceFrom p r 0 u := by
  obtain ⟨c, p, rfl⟩ := List.exists_cons_of_ne_nil hp
  have hskip : ∀ a : List α, replaceFrom (c :: p) r a.length (a ++ u) =
      replaceFrom (c :: p) r 0 u := by
    intro a
    induction a with
    | nil => rfl
    | cons d a ih => exact ih
  have hmatch : (c :: p).isPrefixOf (c :: (p ++ u)) = true :=
    List.isPrefixOf_iff_prefix.mpr (List.prefix_append (c :: p) u)
  rw [List.cons_append, replaceFrom, if_pos hmatch, List.length_cons, Nat.add_sub_cancel, hskip]

/-- A segment that the pattern is clear of splits the text. -/
theorem replaceFrom_split (h : Clear z p) (a b : List α) :
    replaceFrom p r 0 (a ++ (z ++ b)) = replaceFrom p r 0 a ++ (z ++ replaceFrom p r 0 b) := by
  suffices hgen : ∀ k, k ≤ a.length → replaceFrom p r k (a ++ (z ++ b)) =
      replaceFrom p r k a ++ (z ++ replaceFrom p r 0 b) from hgen 0 (Nat.zero_le _)
  induction a with
  | nil =>
    intro k hk
    obtain rfl := Nat.le_zero.mp hk
    exact replaceFrom_clear h b
  | cons c a ih =>
    intro k hk
    cases k with
    | succ k => exact ih k (Nat.le_of_succ_le_succ hk)
    | zero =>
      have hhead : p.isPrefixOf (c :: (a ++ (z ++ b))) = p.isPrefixOf (c :: a) := by
        rw [Bool.eq_iff_iff, List.isPrefixOf_iff_prefix, List.isPrefixOf_iff_prefix]
        refine ⟨fun hp => ?_, fun hp => hp.trans (List.prefix_append (c :: a) (z ++ b))⟩
        -- an end of the pattern would begin the segment, or hold all of it
        rcases prefix_of_append (x := c :: a) hp with hp | ⟨x, rfl, hx⟩
        · exact hp
        by_cases hnil : x = []
        · subst hnil
          exact ⟨[], by simp⟩
        rcases prefix_of_append hx with hxz | ⟨y, rfl, -⟩
        · exact absurd (List.suffix_append (c :: a) x) (h.symm.front x hnil · hxz)
        · exact absurd ⟨c :: a, y, by simp⟩ h.outside
      rw [List.cons_append, replaceFrom, replaceFrom, hhead]
      split
      · rename_i hp
        have hlen := (List.isPrefixOf_iff_prefix.mp hp).length_le
        rw [List.length_cons] at hlen
        rw [ih (p.length - 1) (by omega), List.append_assoc]
      · rw [ih 0 (Nat.zero_le _), List.cons_append]

theorem replaceFrom_self (hp : p ≠ []) (cs : List α) : replaceFrom p p 0 cs = cs := by
  suffices hgen : ∀ k, replaceFrom p p k cs = cs.drop k from hgen 0
  induction cs with
  | nil => intro k; rw [List.drop_nil]; rfl
  | cons c cs ih =>
    intro k
    cases k with
    | succ k => exact ih k
    | zero =>
      rw [replaceFrom]
      split
      · rename_i hpre
        obtain ⟨rest, hrest⟩ := List.isPrefixOf_iff_prefix.mp hpre
        obtain ⟨d, p, rfl⟩ := List.exists_cons_of_ne_nil hp
        obtain ⟨rfl, rfl⟩ := List.cons.inj hrest
        rw [ih]
        simp
      · rw [ih 0]
        rfl

/-! ## Two patterns -/

/-- Patterns that are clear of each other and of the replacement. -/
theorem replaceFrom_comm (hpq : Clear p q) (hp : Clear r p) (hq : Clear r q) (cs : List α) :
    replaceFrom q r 0 (replaceFrom p r 0 cs) = replaceFrom p r 0 (replaceFrom q r 0 cs) := by
  induction hn : cs.length using Nat.strongRecOn generalizing cs with
  | ind n ih =>
    by_cases hpre : p <+: cs
    · obtain ⟨u, rfl⟩ := hpre
      have hlen : u.length < n := by
        have := List.length_pos_of_ne_nil hp.ne_nil
        rw [List.length_append] at hn
        omega
      rw [replaceFrom_match hp.ne_nil, replaceFrom_clear hq, replaceFrom_clear hpq,
        replaceFrom_match hp.ne_nil, ih u.length hlen u rfl]
    by_cases hqre : q <+: cs
    · obtain ⟨u, rfl⟩ := hqre
      have hlen : u.length < n := by
        have := List.length_pos_of_ne_nil hq.ne_nil
        rw [List.length_append] at hn
        omega
      rw [replaceFrom_match hq.ne_nil, replaceFrom_clear hp, replaceFrom_clear hpq.symm,
        replaceFrom_match hq.ne_nil, ih u.length hlen u rfl]
    -- neither begins here, and no replacement further on changes that
    have hstays : ∀ {s t : List α}, Clear r s → t ≠ [] → ¬ s <+: cs →
        ¬ s <+: replaceFrom t r 0 cs := fun hs ht hcs h =>
      hcs ((replaceFrom_marked ht 0 cs).front hs List.suffix_rfl h)
    cases cs with
    | nil => rfl
    | cons c cs =>
      have hstep : ∀ {s : List α} {u : List α}, ¬ s <+: c :: u →
          replaceFrom s r 0 (c :: u) = c :: replaceFrom s r 0 u := by
        intro s u hs
        rw [replaceFrom, if_neg fun h => hs (List.isPrefixOf_iff_prefix.mp h)]
      have hq' := hstays hq hp.ne_nil hqre
      have hp' := hstays hp hq.ne_nil hpre
      rw [hstep hpre] at hq' ⊢
      rw [hstep hqre] at hp' ⊢
      rw [List.length_cons] at hn
      rw [hstep hq', hstep hp', ih cs.length (by omega) cs rfl]

/-! ## Any number of patterns -/

/-- What a pass leaves as it is, whatever the text. -/
def Idle (r p : List α) : Prop := p = [] ∨ p = r

/-- One replacement; an empty pattern is left out. -/
def pass {α : Type} [BEq α] (r p cs : List α) : List α :=
  if p.isEmpty then cs else replaceFrom p r 0 cs

def replaceAll {α : Type} [BEq α] (r : List α) (ps : List (List α)) (cs : List α) : List α :=
  ps.foldl (fun cs p => pass r p cs) cs

/-- Different patterns are clear of each other, and then also of the replacement. -/
def Orderless (r : List α) (ps : List (List α)) : Prop :=
  ∀ p ∈ ps, ∀ q ∈ ps, ¬ Idle r p → ¬ Idle r q → p ≠ q → Clear p q ∧ Clear r p

theorem pass_idle (h : Idle r p) (cs : List α) : pass r p cs = cs := by
  unfold pass
  split
  · rfl
  · rename_i hp
    rw [List.isEmpty_iff] at hp
    obtain rfl := h.resolve_left hp
    exact replaceFrom_self hp cs

omit [LawfulBEq α] in
theorem pass_of_not_idle (h : ¬ Idle r p) (cs : List α) :
    pass r p cs = replaceFrom p r 0 cs := by
  have hp : p ≠ [] := fun hp => h (.inl hp)
  unfold pass
  rw [if_neg (by rwa [List.isEmpty_iff])]

/-- **Order does not matter** where no two patterns meet. -/
theorem replaceAll_perm {ps ps' : List (List α)} (h : Orderless r ps) (hperm : ps.Perm ps')
    (cs : List α) : replaceAll r ps cs = replaceAll r ps' cs := by
  refine List.Perm.foldl_eq' hperm (fun p hp q hq cs => ?_) cs
  by_cases hpq : p = q
  · rw [hpq]
  by_cases hip : Idle r p
  · rw [pass_idle hip, pass_idle hip]
  by_cases hiq : Idle r q
  · rw [pass_idle hiq, pass_idle hiq]
  obtain ⟨hclear, hrp⟩ := h p hp q hq hip hiq hpq
  have hrq := (h q hq p hp hiq hip (Ne.symm hpq)).2
  rw [pass_of_not_idle hip, pass_of_not_idle hiq, pass_of_not_idle hip, pass_of_not_idle hiq,
    replaceFrom_comm hclear hrp hrq]

/-! ## Patterns that meet -/

/-- No proper beginning is an end. -/
def Unbordered (r : List α) : Prop := ∀ x, x ≠ [] → x <+: r → x <:+ r → x = r

/-- The order of the patterns is not seen in any text. -/
def OrderIndependent (r : List α) (ps : List (List α)) : Prop :=
  ∀ cs ps', ps.Perm ps' → replaceAll r ps cs = replaceAll r ps' cs

section meeting

variable {ps : List (List α)} {a b : List α}

omit [LawfulBEq α] in
theorem replaceAll_cons (p : List α) (ps : List (List α)) (cs : List α) :
    replaceAll r (p :: ps) cs = replaceAll r ps (pass r p cs) := rfl

/-- Any pattern may go first. -/
theorem OrderIndependent.first (h : OrderIndependent r ps) (hp : p ∈ ps) (cs : List α) :
    replaceAll r ps cs = replaceAll r (ps.erase p) (pass r p cs) :=
  h cs _ (List.perm_cons_erase hp)

/-- A replacement with no pattern beside it stays. -/
theorem replaceAll_around (hclear : ∀ p ∈ ps, ¬ Idle r p → Clear r p)
    (ha : ∀ p ∈ ps, ¬ Idle r p → ¬ p <:+: a) (hb : ∀ p ∈ ps, ¬ Idle r p → ¬ p <:+: b) :
    replaceAll r ps (a ++ (r ++ b)) = a ++ (r ++ b) := by
  induction ps with
  | nil => rfl
  | cons p ps ih =>
    have hrest := ih (fun q hq => hclear q (List.mem_cons_of_mem p hq))
      (fun q hq => ha q (List.mem_cons_of_mem p hq)) fun q hq => hb q (List.mem_cons_of_mem p hq)
    rw [replaceAll_cons]
    by_cases hidle : Idle r p
    · rwa [pass_idle hidle]
    have hp := List.mem_cons_self (a := p) (l := ps)
    rwa [pass_of_not_idle hidle, replaceFrom_split (hclear p hp hidle),
      replaceFrom_absent (ha p hp hidle), replaceFrom_absent (hb p hp hidle)]

/-- A replacement with something beside it keeps something beside it. -/
theorem replaceAll_beside (hr : r ≠ []) (hclear : ∀ p ∈ ps, ¬ Idle r p → Clear r p)
    (hab : ¬ (a = [] ∧ b = [])) :
    ∃ a' b', replaceAll r ps (a ++ (r ++ b)) = a' ++ (r ++ b') ∧ ¬ (a' = [] ∧ b' = []) := by
  induction ps generalizing a b with
  | nil => exact ⟨a, b, rfl, hab⟩
  | cons p ps ih =>
    have hrest := fun q hq => hclear q (List.mem_cons_of_mem p hq)
    rw [replaceAll_cons]
    by_cases hidle : Idle r p
    · rw [pass_idle hidle]
      exact ih hrest hab
    have hp : p ≠ [] := fun hp => hidle (.inl hp)
    rw [pass_of_not_idle hidle, replaceFrom_split (hclear p List.mem_cons_self hidle)]
    refine ih hrest ?_
    rwa [(replaceFrom_marked hp 0 a).eq_nil_iff hr, (replaceFrom_marked hp 0 b).eq_nil_iff hr]

/-- A pattern inside a longer text leaves something beside the replacement. -/
theorem replaceFrom_beside (hr : r ≠ []) (hp : p ≠ []) {t : List α} (hin : p <:+: t)
    (hne : p ≠ t) :
    ∃ a b, replaceFrom p r 0 t = a ++ (r ++ b) ∧ ¬ (a = [] ∧ b = []) := by
  induction t with
  | nil => exact absurd (List.infix_nil.mp hin) hp
  | cons c t ih =>
    by_cases hpre : p <+: c :: t
    · obtain ⟨u, hu⟩ := hpre
      have hne' : u ≠ [] := by
        rintro rfl
        exact hne (by simpa using hu)
      rw [← hu, replaceFrom_match hp]
      refine ⟨[], _, rfl, fun h => hne' ?_⟩
      exact ((replaceFrom_marked hp 0 u).eq_nil_iff hr).mp h.2
    · have hin' : p <:+: t := (List.infix_cons_iff.mp hin).resolve_left hpre
      rw [replaceFrom, if_neg fun h => hpre (List.isPrefixOf_iff_prefix.mp h)]
      by_cases heq : p = t
      · refine ⟨[c], [], ?_, fun h => List.cons_ne_nil c [] h.1⟩
        have hmatch := replaceFrom_match (r := r) hp []
        rw [List.append_nil] at hmatch
        rw [← heq, hmatch]
        rfl
      · obtain ⟨a, b, hab, -⟩ := ih hin' heq
        exact ⟨c :: a, b, by rw [hab]; rfl, fun h => List.cons_ne_nil c a h.1⟩

variable (hclear : ∀ p ∈ ps, ¬ Idle r p → Clear r p) (h : OrderIndependent r ps)

include hclear h

/-- No pattern is inside another: the longer one would show whether it came first. -/
theorem not_inside (hp : p ∈ ps) (hq : q ∈ ps) (hip : ¬ Idle r p) (hiq : ¬ Idle r q)
    (hne : q ≠ p) : ¬ q <:+: p := by
  intro hin
  have hr : r ≠ [] := by
    rintro rfl
    exact (hclear p hp hip).outside List.nil_infix
  have hrest : ∀ s, ∀ z ∈ ps.erase s, ¬ Idle r z → Clear r z := fun s z hz =>
    hclear z (List.mem_of_mem_erase hz)
  -- the longer one first
  have hlong : replaceAll r ps p = r := by
    have hmatch := replaceFrom_match (r := r) (fun hp => hip (.inl hp)) ([] : List α)
    have halone := replaceAll_around (a := []) (b := []) (hrest p)
      (fun z hz hiz h => hiz (.inl (List.infix_nil.mp h)))
      fun z hz hiz h => hiz (.inl (List.infix_nil.mp h))
    rw [List.append_nil] at hmatch
    rw [h.first hp, pass_of_not_idle hip, hmatch]
    simpa [replaceFrom] using halone
  -- the shorter one first
  obtain ⟨a, b, hpass, hab⟩ := replaceFrom_beside hr (fun hq => hiq (.inl hq)) hin hne
  obtain ⟨a', b', hall, hab'⟩ := replaceAll_beside hr (hrest q) hab
  rw [h.first hq, pass_of_not_idle hiq, hpass, hall] at hlong
  have hlen := congrArg List.length hlong
  simp only [List.length_append] at hlen
  exact hab' ⟨List.eq_nil_of_length_eq_zero (by omega), List.eq_nil_of_length_eq_zero (by omega)⟩

/-- No pattern ends as another begins. In the two laid over each other, whichever comes first takes
the overlap; if the second had an earlier match, the overlay would be shorter. -/
theorem not_chained (hr : Unbordered r) (hp : p ∈ ps) (hq : q ∈ ps) (hip : ¬ Idle r p)
    (hiq : ¬ Idle r q) (hne : p ≠ q) {x : List α} (hx : x ≠ []) (hpx : p = a ++ x)
    (hqx : q = x ++ b) : False := by
  induction hn : b.length using Nat.strongRecOn generalizing a x b with
  | ind n ih =>
    have hpnil : p ≠ [] := fun hp => hip (.inl hp)
    have hqnil : q ≠ [] := fun hq => hiq (.inl hq)
    have hxlen := List.length_pos_of_ne_nil hx
    have hplen : p.length = a.length + x.length := by rw [hpx, List.length_append]
    have hqlen : q.length = x.length + b.length := by rw [hqx, List.length_append]
    have hin : ∀ s ∈ ps, ∀ z ∈ ps, ¬ Idle r s → ¬ Idle r z → s <:+: z → s = z :=
      fun s hs z hz his hiz hsz => by_contra fun hne =>
        not_inside hclear h hz hs hiz his hne hsz
    -- what is left of either beside the overlap holds no pattern
    have hleft : ∀ s ∈ ps, ¬ Idle r s → ¬ s <:+: a := by
      intro s hs his hsa
      have hsp := hin s hs p hp his hip (hsa.trans (hpx ▸ List.infix_append_left))
      have := hsa.length_le
      rw [hsp] at this
      omega
    have hright : ∀ s ∈ ps, ¬ Idle r s → ¬ s <:+: b := by
      intro s hs his hsb
      have hsq := hin s hs q hq his hiq (hsb.trans (hqx ▸ List.infix_append_right))
      have := hsb.length_le
      rw [hsq] at this
      omega
    have hrest : ∀ s, ∀ z ∈ ps.erase s, z ∈ ps := fun s z hz => List.mem_of_mem_erase hz
    have hnil : ∀ z, ¬ Idle r z → ¬ z <:+: ([] : List α) := fun z hz hin =>
      hz (.inl (List.infix_nil.mp hin))
    have hfirst : replaceAll r ps (p ++ b) = r ++ b := by
      rw [h.first hp, pass_of_not_idle hip, replaceFrom_match hpnil,
        replaceFrom_absent (hright p hp hip)]
      exact replaceAll_around (a := []) (fun z hz => hclear z (hrest p z hz))
        (fun z _ hz => hnil z hz) fun z hz => hright z (hrest p z hz)
    have hsecond : replaceAll r ps (a ++ q) = a ++ r := by
      have hskip : replaceFrom q r 0 (a ++ q) = a ++ replaceFrom q r 0 q := by
        refine replaceFrom_skip q fun y hy hya hqy => ?_
        obtain ⟨a', rfl⟩ := hya
        rw [hqx, ← List.append_assoc] at hqy
        rcases prefix_of_append hqy with hqy | ⟨v, hv, -⟩
        · have hqp : q <:+: p := by
            rw [hpx, hqx, List.append_assoc]
            exact hqy.isInfix.trans (List.suffix_append a' (y ++ x)).isInfix
          exact hne (hin q hq p hp hiq hip hqp).symm
        · have hvlen := congrArg List.length hv
          have hylen := List.length_pos_of_ne_nil hy
          simp only [List.length_append] at hvlen
          refine ih v.length (by omega) (a := a') (x := y ++ x) (b := v) (by simp [hy]) ?_ ?_ rfl
          · rw [hpx, List.append_assoc]
          · rw [hqx, hv]
      have hmatch := replaceFrom_match (r := r) hqnil []
      have haround := replaceAll_around (a := a) (b := []) (fun z hz => hclear z (hrest q z hz))
        (fun z hz => hleft z (hrest q z hz)) fun z _ hz => hnil z hz
      rw [List.append_nil] at hmatch haround
      rw [h.first hq, pass_of_not_idle hiq, hskip, hmatch]
      simpa [replaceFrom] using haround
    have htext : p ++ b = a ++ q := by rw [hpx, hqx, List.append_assoc]
    rw [htext, hsecond] at hfirst
    -- then the replacement overlaps itself, or is in one of the two
    rcases List.append_eq_append_iff.mp hfirst with ⟨z, hz, hz'⟩ | ⟨z, hz, hz'⟩
    · by_cases hznil : z = []
      · subst hznil
        rw [List.append_nil] at hz
        exact (hclear p hp hip).outside ⟨[], x, by rw [hz, hpx, List.nil_append]⟩
      · have hzr := hr z hznil ⟨b, hz'.symm⟩ ⟨a, hz.symm⟩
        have hlen := congrArg List.length hz
        rw [List.length_append, hzr] at hlen
        obtain rfl : a = [] := List.eq_nil_of_length_eq_zero (by omega)
        refine hne (hin p hp q hq hip hiq ?_)
        rw [hpx, hqx, List.nil_append]
        exact List.infix_append_left
    · refine (hclear p hp hip).outside ⟨[], z ++ x, ?_⟩
      rw [hpx, hz, List.nil_append, List.append_assoc]

/-- **Where order does not matter**, no two patterns meet. -/
theorem orderless_of_perm (hr : Unbordered r) : Orderless r ps := by
  intro p hp q hq hip hiq hne
  refine ⟨⟨?_, ?_, ?_, ?_⟩, hclear p hp hip⟩
  · exact not_inside hclear h hq hp hiq hip hne
  · exact not_inside hclear h hp hq hip hiq hne.symm
  · rintro x hx ⟨a, ha⟩ ⟨b, hb⟩
    exact not_chained hclear h hr hp hq hip hiq hne hx ha.symm hb.symm
  · rintro x hx ⟨b, hb⟩ ⟨a, ha⟩
    exact not_chained hclear h hr hq hp hiq hip hne.symm hx ha.symm hb.symm

end meeting

end Rust
