import Wara.Interleave.Prog

/-!
# Rely and guarantee

`p.Safe c Q s`: started in `s`, with the other threads changing the state along
`c.rely` between any two operations, every operation of `p` that follows
`c.step` keeps the promise `c.guar`, and `p` ends only with a value and a state
in `Q`. `Safe` is an equation on each constructor, so it commutes with `bind`;
for a program that runs alone it is a Hoare triple (`Safe.run`).
-/

namespace Interleave

/-- What a thread assumes of the others and of its own steps, and what it promises. -/
structure Rules {Op : Type} (Res : Op → Type) (σ : Type) where
  rely : σ → σ → Prop
  rely_refl : ∀ s, rely s s
  rely_trans : ∀ {s₁ s₂ s₃}, rely s₁ s₂ → rely s₂ s₃ → rely s₁ s₃
  step : (o : Op) → σ → Res o → σ → Prop
  guar : (o : Op) → σ → Res o → σ → Prop

variable {Op : Type} {Res : Op → Type} {Ans σ α β ε : Type}

namespace Prog

def Safe (c : Rules Res σ) : Prog Res α → (α → σ → Prop) → σ → Prop
  | .ret a, Q, s => ∀ s₁, c.rely s s₁ → Q a s₁
  | .op o k, Q, s => ∀ s₁, c.rely s s₁ → ∀ r s₂, c.step o s₁ r s₂ →
      c.guar o s₁ r s₂ ∧ (k r).Safe c Q s₂

variable {c : Rules Res σ} {p : Prog Res α} {Q Q' : α → σ → Prop} {s s' : σ}

theorem Safe.stable (h : p.Safe c Q s) (hr : c.rely s s') : p.Safe c Q s' := by
  cases p with
  | ret a => exact fun s₁ h₁ => h s₁ (c.rely_trans hr h₁)
  | op o k => exact fun s₁ h₁ => h s₁ (c.rely_trans hr h₁)

theorem Safe.mono (h : p.Safe c Q s) (hQ : ∀ a s, Q a s → Q' a s) : p.Safe c Q' s := by
  induction p generalizing s with
  | ret a => exact fun s₁ h₁ => hQ a s₁ (h s₁ h₁)
  | op o k ih => exact fun s₁ h₁ r s₂ h₂ => ⟨(h s₁ h₁ r s₂ h₂).1, ih r (h s₁ h₁ r s₂ h₂).2⟩

theorem safe_bind {f : α → Prog Res β} {Q : β → σ → Prop} :
    (p.bind f).Safe c Q s ↔ p.Safe c (fun a s => (f a).Safe c Q s) s := by
  induction p generalizing s with
  | ret a => exact ⟨fun h s₁ h₁ => h.stable h₁, fun h => h s (c.rely_refl s)⟩
  | op o k ih => simp only [op_bind, Safe, ih]

/-- Operations that are harmless while `J` holds, which nobody takes away. -/
theorem All.safe_while {J : σ → Prop} {φ : Op → Prop} {Q : α → Prop} (h : p.All φ Q)
    (hJ : ∀ s s', c.rely s s' → J s → J s')
    (hφ : ∀ o, φ o → ∀ s r s', J s → c.step o s r s' → c.guar o s r s' ∧ c.rely s s') (hs : J s) :
    p.Safe c (fun a s' => Q a ∧ c.rely s s') s := by
  induction p generalizing s with
  | ret a => exact fun s₁ h₁ => ⟨h, h₁⟩
  | op o k ih =>
    intro s₁ h₁ r s₂ h₂
    have hs₁ : J s₁ := hJ s s₁ h₁ hs
    obtain ⟨hg, hr⟩ := hφ o h.1 s₁ r s₂ hs₁ h₂
    refine ⟨hg, (ih r (h.2 r) (hJ s₁ s₂ hr hs₁)).mono fun a s' hQ => ⟨hQ.1, ?_⟩⟩
    exact c.rely_trans h₁ (c.rely_trans hr hQ.2)

/-- Operations that are all harmless: the promise holds, and the state moves along the rely. -/
theorem All.safe {φ : Op → Prop} {Q : α → Prop} (h : p.All φ Q)
    (hφ : ∀ o, φ o → ∀ s r s', c.step o s r s' → c.guar o s r s' ∧ c.rely s s') :
    p.Safe c (fun a s' => Q a ∧ c.rely s s') s :=
  h.safe_while (J := fun _ => True) (fun _ _ _ h => h) (fun o ho s r s' _ => hφ o ho s r s') trivial

/-- Operations that all keep the promise. -/
theorem All.guards {φ : Op → Prop} {Q : α → Prop} (h : p.All φ Q)
    (hφ : ∀ o, φ o → ∀ s r s', c.step o s r s' → c.guar o s r s') :
    p.Safe c (fun a _ => Q a) s := by
  induction p generalizing s with
  | ret a => exact fun _ _ => h
  | op o k ih =>
    intro s₁ _ r s₂ h₂
    exact ⟨hφ o h.1 _ _ _ h₂, ih r (h.2 r)⟩

/-- If promised steps are within the rely, the program ends within it. -/
theorem Safe.within (hs : p.Safe c Q s)
    (hguar : ∀ {o s r s'}, c.step o s r s' → c.guar o s r s' → c.rely s s') :
    p.Safe c (fun a s' => Q a s' ∧ c.rely s s') s := by
  induction p generalizing s with
  | ret a => exact fun s₁ h₁ => ⟨hs s₁ h₁, h₁⟩
  | op o k ih =>
    intro s₁ h₁ r s₂ h₂
    obtain ⟨hg, hk⟩ := hs s₁ h₁ r s₂ h₂
    have hrely : c.rely s s₂ := c.rely_trans h₁ (hguar h₂ hg)
    exact ⟨hg, (ih r hk).mono fun a s' hQ => ⟨hQ.1, c.rely_trans hrely hQ.2⟩⟩

/-- What the program ends in stays true. -/
theorem Safe.later (h : p.Safe c Q s) : p.Safe c (fun a s => ∀ s', c.rely s s' → Q a s') s := by
  induction p generalizing s with
  | ret a => exact fun s₁ h₁ s₂ h₂ => h s₂ (c.rely_trans h₁ h₂)
  | op o k ih => exact fun s₁ h₁ r s₂ h₂ => ⟨(h s₁ h₁ r s₂ h₂).1, ih r (h s₁ h₁ r s₂ h₂).2⟩

/-- A run of the program alone: if the handler follows the rules and what is promised is within
the rely, the run ends in `Q`, and within the rely of where it started. -/
theorem Safe.run {h : Handler Res Ans σ} {t : Nat} {xs : List Ans} {a : α} (hs : p.Safe c Q s)
    (hstep : ∀ {o s x r s'}, h t o x s = some (r, s') → c.step o s r s')
    (hguar : ∀ {o s r s'}, c.guar o s r s' → c.rely s s')
    (hr : p.run h t xs s = some (a, s')) : c.rely s s' ∧ Q a s' := by
  induction p generalizing s xs with
  | ret b =>
    obtain ⟨-, rfl, rfl⟩ := run_ret.mp hr
    exact ⟨c.rely_refl _, hs _ (c.rely_refl _)⟩
  | op o k ih =>
    obtain ⟨x, ys, r, s₁, -, hx, hk⟩ := run_op.mp hr
    obtain ⟨hg, hsafe⟩ := hs s (c.rely_refl _) r s₁ (hstep hx)
    obtain ⟨hrely, hQ⟩ := ih r hsafe hk
    exact ⟨c.rely_trans (hguar hg) hrely, hQ⟩

/-- A run of the program alone ends in `Q`, whatever is promised. -/
theorem Safe.post {h : Handler Res Ans σ} {t : Nat} {xs : List Ans} {a : α} (hs : p.Safe c Q s)
    (hstep : ∀ {o s x r s'}, h t o x s = some (r, s') → c.step o s r s')
    (hr : p.run h t xs s = some (a, s')) : Q a s' := by
  induction p generalizing s xs with
  | ret b =>
    obtain ⟨-, rfl, rfl⟩ := run_ret.mp hr
    exact hs _ (c.rely_refl _)
  | op o k ih =>
    obtain ⟨x, ys, r, s₁, -, hx, hk⟩ := run_op.mp hr
    exact ih r (hs s (c.rely_refl _) r s₁ (hstep hx)).2 hk

/-- A run of the program alone keeps what every promised step keeps. -/
theorem Safe.keeps {I : σ → Prop} {h : Handler Res Ans σ} {t : Nat} {xs : List Ans} {a : α}
    (hs : p.Safe c Q s) (hstep : ∀ {o s x r s'}, h t o x s = some (r, s') → c.step o s r s')
    (hguar : ∀ {o s r s'}, c.guar o s r s' → I s → I s')
    (hr : p.run h t xs s = some (a, s')) (h0 : I s) : I s' := by
  induction p generalizing s xs with
  | ret b =>
    obtain ⟨-, -, rfl⟩ := run_ret.mp hr
    exact h0
  | op o k ih =>
    obtain ⟨x, ys, r, s₁, -, hx, hk⟩ := run_op.mp hr
    obtain ⟨hg, hsafe⟩ := hs s (c.rely_refl _) r s₁ (hstep hx)
    exact ih r hsafe hk (hguar hg h0)

end Prog

namespace Flow

/-- `Prog.Safe` with one postcondition for a value and one for an early exit. -/
def Safe (c : Rules Res σ) (x : Flow Res ε α) (ok : α → σ → Prop) (err : ε → σ → Prop)
    (s : σ) : Prop :=
  Prog.Safe c x (fun r s => match r with | .ok a => ok a s | .error e => err e s) s

variable {c : Rules Res σ} {x : Flow Res ε α} {ok ok' : α → σ → Prop}
  {err err' : ε → σ → Prop} {s s' : σ}

theorem Safe.stable (h : Safe c x ok err s) (hr : c.rely s s') : Safe c x ok err s' :=
  Prog.Safe.stable h hr

theorem Safe.mono (h : Safe c x ok err s) (hok : ∀ a s, ok a s → ok' a s)
    (herr : ∀ e s, err e s → err' e s) : Safe c x ok' err' s :=
  Prog.Safe.mono h fun
    | .ok a, s, hs => hok a s hs
    | .error e, s, hs => herr e s hs

theorem Safe.later (h : Safe c x ok err s) :
    Safe c x (fun a s => ∀ s', c.rely s s' → ok a s') err s :=
  Prog.Safe.mono (Prog.Safe.later h) fun
    | .ok _, _, hs => hs
    | .error _, s, hs => hs s (c.rely_refl s)

theorem safe_call {o : Op} {ok : Res o → σ → Prop} :
    Safe c (call o : Flow Res ε (Res o)) ok err s ↔ ∀ s₁, c.rely s s₁ → ∀ r s₂,
      c.step o s₁ r s₂ → c.guar o s₁ r s₂ ∧ ∀ s₃, c.rely s₂ s₃ → ok r s₃ := Iff.rfl

theorem safe_bind {f : α → Flow Res ε β} {ok : β → σ → Prop} :
    Safe c (x >>= f) ok err s ↔ Safe c x (fun a s => Safe c (f a) ok err s) err s := by
  unfold Safe
  rw [bind_eq, Prog.safe_bind]
  constructor
  · refine fun h => h.mono fun r s hr => ?_
    cases r with
    | ok a => exact hr
    | error e => exact hr s (c.rely_refl s)
  · -- the error exit has to survive one more interference, so look at `x` itself
    intro h
    induction (x : Prog Res (Except ε α)) generalizing s with
    | ret r =>
      intro s₁ h₁
      cases r with
      | ok a => exact h s₁ h₁
      | error e => exact fun s₂ h₂ => h s₂ (c.rely_trans h₁ h₂)
    | op o k ih => exact fun s₁ h₁ r s₂ h₂ => ⟨(h s₁ h₁ r s₂ h₂).1, ih r (h s₁ h₁ r s₂ h₂).2⟩

theorem Safe.bind {f : α → Flow Res ε β} {ok' : β → σ → Prop} (h : Safe c x ok err s)
    (hf : ∀ a s, ok a s → Safe c (f a) ok' err s) : Safe c (x >>= f) ok' err s :=
  safe_bind.mpr (h.mono hf fun _ _ he => he)

end Flow

end Interleave
