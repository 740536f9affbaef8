import Wara.Interleave.Prog

/-!
# Runs of one program, answer by answer

`Prog.Yields h t p Q s`: every run of `p` alone from `s` that uses the answers
`xs` and ends with `a` in `s'` has `Q xs a s'`. The answers say where an
injected failure strikes, so a statement about each failure point is one about
`xs`. `Prog.steps` is a run that may be cut off before the end.
-/

namespace Interleave

variable {Op : Type} {Res : Op → Type} {Ans σ α β ε : Type} {h : Handler Res Ans σ} {t : Nat}

namespace Prog

def Yields (h : Handler Res Ans σ) (t : Nat) (p : Prog Res α) (Q : List Ans → α → σ → Prop)
    (s : σ) : Prop := ∀ xs a s', run h t p xs s = some (a, s') → Q xs a s'

variable {p : Prog Res α} {Q Q' : List Ans → α → σ → Prop} {s s' : σ} {xs : List Ans}

theorem Yields.mono (hy : p.Yields h t Q s) (hQ : ∀ xs a s', Q xs a s' → Q' xs a s') :
    p.Yields h t Q' s := fun xs a s' hr => hQ xs a s' (hy xs a s' hr)

theorem yields_ret {a : α} (hQ : Q [] a s) : (ret a : Prog Res α).Yields h t Q s := by
  intro xs b s' hr
  obtain ⟨rfl, rfl, rfl⟩ := run_ret.mp hr
  exact hQ

theorem yields_op {o : Op} {k : Res o → Prog Res α}
    (hk : ∀ x r s₁, h t o x s = some (r, s₁) → (k r).Yields h t (fun ys => Q (x :: ys)) s₁) :
    (op o k).Yields h t Q s := by
  intro xs a s' hr
  obtain ⟨x, ys, r, s₁, rfl, hx, hrest⟩ := run_op.mp hr
  exact hk x r s₁ hx ys a s' hrest

theorem yields_bind {f : α → Prog Res β} {Q : List Ans → β → σ → Prop}
    (hy : p.Yields h t (fun xs a s' => (f a).Yields h t (fun ys => Q (xs ++ ys)) s') s) :
    (p.bind f).Yields h t Q s := by
  intro xs b s' hr
  obtain ⟨ys, zs, a, s₁, rfl, hp, hf⟩ := run_bind.mp hr
  exact hy ys a s₁ hp zs b s' hf

/-- A program none of whose operations leaves `R`. -/
theorem All.yields {φ : Op → Prop} {P : α → Prop} {R : σ → σ → Prop} (hp : p.All φ P)
    (hrefl : ∀ s, R s s) (htrans : ∀ {s₁ s₂ s₃}, R s₁ s₂ → R s₂ s₃ → R s₁ s₃)
    (hφ : ∀ o, φ o → ∀ x s r s', h t o x s = some (r, s') → R s s') :
    p.Yields h t (fun _ a s' => P a ∧ R s s') s := by
  induction p generalizing s with
  | ret a => exact yields_ret ⟨hp, hrefl s⟩
  | op o k ih =>
    refine yields_op fun x r s₁ hx => (ih r (hp.2 r)).mono fun _ a s' hR => ⟨hR.1, ?_⟩
    exact htrans (hφ o hp.1 x s r s₁ hx) hR.2

/-- A program whose operations can all be answered well has a run that gets only good answers. -/
theorem All.exists_run (good : Ans → Prop) {φ : Op → Prop} {P : α → Prop} (hp : p.All φ P)
    (hφ : ∀ o, φ o → ∀ s, ∃ x r s', good x ∧ h t o x s = some (r, s')) :
    ∃ xs a s', (∀ x ∈ xs, good x) ∧ run h t p xs s = some (a, s') := by
  induction p generalizing s with
  | ret a => exact ⟨[], a, s, nofun, rfl⟩
  | op o k ih =>
    obtain ⟨x, r, s₁, hx, hs₁⟩ := hφ o hp.1 s
    obtain ⟨xs, a, s', hxs, hrun⟩ := ih r (hp.2 r)
    refine ⟨x :: xs, a, s', fun y hy => ?_, run_op.mpr ⟨x, xs, r, s₁, rfl, hs₁, hrun⟩⟩
    rcases List.mem_cons.mp hy with rfl | hy
    · exact hx
    · exact hxs y hy

/-! ## Runs that are cut off -/

/-- What is left of `p`, and the state, after the given answers. -/
def steps (h : Handler Res Ans σ) (t : Nat) : Prog Res α → List Ans → σ → Option (Prog Res α × σ)
  | p, [], s => some (p, s)
  | .ret _, _ :: _, _ => none
  | .op o k, x :: xs, s =>
    match h t o x s with
    | some (r, s') => (k r).steps h t xs s'
    | none => none
termination_by structural _ xs => xs

/-- Every state of a run of `p` alone, after any answers `xs`, is in `V`. -/
def Visits (h : Handler Res Ans σ) (t : Nat) (p : Prog Res α) (V : List Ans → σ → Prop)
    (s : σ) : Prop := ∀ xs q s', steps h t p xs s = some (q, s') → V xs s'

variable {V : List Ans → σ → Prop}

theorem visits_ret {a : α} (hV : V [] s) : (ret a : Prog Res α).Visits h t V s := by
  intro xs q s' hr
  cases xs with
  | nil => cases hr; exact hV
  | cons x xs => cases hr

theorem visits_op {o : Op} {k : Res o → Prog Res α} (h0 : V [] s)
    (hk : ∀ x r s₁, h t o x s = some (r, s₁) → (k r).Visits h t (fun ys => V (x :: ys)) s₁) :
    (op o k).Visits h t V s := by
  intro xs q s' hr
  cases xs with
  | nil => cases hr; exact h0
  | cons x xs =>
    simp only [steps] at hr
    split at hr
    · next r s₁ hx => exact hk x r s₁ hx xs q s' hr
    · cases hr

theorem visits_now {P : σ → Prop} (hs : P s) : p.Visits h t (fun xs s' => xs = [] → P s') s := by
  rintro xs q s' hr rfl
  cases hr
  exact hs

theorem Visits.mono {V' : List Ans → σ → Prop} (hv : p.Visits h t V s)
    (hV : ∀ xs s', V xs s' → V' xs s') : p.Visits h t V' s :=
  fun xs q s' hr => hV xs s' (hv xs q s' hr)

/-- A prefix of a run is one. -/
theorem steps_prefix {xs ys : List Ans} {q : Prog Res α}
    (hr : steps h t p (xs ++ ys) s = some (q, s')) :
    ∃ q₁ s₁, steps h t p xs s = some (q₁, s₁) ∧ steps h t q₁ ys s₁ = some (q, s') := by
  induction xs generalizing p s with
  | nil => exact ⟨p, s, rfl, hr⟩
  | cons x xs ih =>
    cases p with
    | ret a => cases hr
    | op o k =>
      simp only [List.cons_append, steps] at hr ⊢
      split at hr
      · exact ih hr
      · cases hr

end Prog

namespace Flow

/-- How `x >>= f` goes on once `x` has ended. -/
def after (h : Handler Res Ans σ) (t : Nat) (f : α → Flow Res ε β)
    (Q : List Ans → Except ε β → σ → Prop) (xs : List Ans) : Except ε α → σ → Prop
  | .ok a, s' => Prog.Yields h t (f a) (fun ys => Q (xs ++ ys)) s'
  | .error e, s' => Q xs (.error e) s'

variable {x : Flow Res ε α} {f : α → Flow Res ε β} {Q : List Ans → Except ε β → σ → Prop} {s : σ}

theorem yields_bind (hx : Prog.Yields h t x (after h t f Q) s) :
    Prog.Yields h t (x >>= f : Flow Res ε β) Q s := by
  rw [bind_eq]
  refine Prog.yields_bind (hx.mono fun xs r s' hr => ?_)
  cases r with
  | ok a => exact hr
  | error e => exact Prog.yields_ret (by rw [List.append_nil]; exact hr)

/-- A run of `x` and one of the rest make a run of both. -/
theorem run_bind_ok {xs ys : List Ans} {a : α} {r : Except ε β} {s₁ s' : σ}
    (hx : Prog.run h t x xs s = some (.ok a, s₁)) (hf : Prog.run h t (f a) ys s₁ = some (r, s')) :
    Prog.run h t (x >>= f : Flow Res ε β) (xs ++ ys) s = some (r, s') := by
  rw [bind_eq]
  exact Prog.run_bind.mpr ⟨xs, ys, .ok a, s₁, rfl, hx, hf⟩

theorem run_bind_error {xs : List Ans} {e : ε} {s' : σ}
    (hx : Prog.run h t x xs s = some (.error e, s')) :
    Prog.run h t (x >>= f : Flow Res ε β) xs s = some (.error e, s') := by
  rw [bind_eq]
  exact Prog.run_bind.mpr ⟨xs, [], .error e, s', (List.append_nil xs).symm, hx, rfl⟩

end Flow

end Interleave
