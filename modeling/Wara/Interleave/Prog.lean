import Mathlib.Tactic.Common

/-!
# Programs over atomic operations

`Prog Res α` is a program that computes an `α` by issuing operations `o : Op`
and reading their results `Res o`. What an operation does to the shared state
is a `Handler`: besides the state it gets the number of the thread that issues
it and an answer `Ans`, which is whatever the outside decides (a clock reading,
a fresh identifier, a failure). A handler is a function, so a run is determined
by the answers, and two runs can be compared under the same answers.

`Prog.run` executes one program alone, `Prog.runAll` does so when all answers are the same.
`Flow` adds early exit with an error.
-/

namespace Interleave

inductive Prog {Op : Type} (Res : Op → Type) (α : Type) where
  | ret (a : α)
  | op (o : Op) (k : Res o → Prog Res α)

/-- Thread number, operation, answer, state; `none` when the answer does not fit the operation. -/
abbrev Handler {Op : Type} (Res : Op → Type) (Ans σ : Type) :=
  Nat → (o : Op) → Ans → σ → Option (Res o × σ)

namespace Prog

variable {Op : Type} {Res : Op → Type} {α β γ : Type}

def bind : Prog Res α → (α → Prog Res β) → Prog Res β
  | .ret a, f => f a
  | .op o k, f => .op o fun r => (k r).bind f

instance : Monad (Prog Res) where
  pure := .ret
  bind := bind

/-- Issue one operation. -/
def call (o : Op) : Prog Res (Res o) := .op o .ret

theorem bind_def (p : Prog Res α) (f : α → Prog Res β) : p >>= f = p.bind f := rfl

@[simp] theorem ret_bind (a : α) (f : α → Prog Res β) : (ret a).bind f = f a := rfl

@[simp] theorem op_bind (o : Op) (k : Res o → Prog Res α) (f : α → Prog Res β) :
    (op o k).bind f = .op o fun r => (k r).bind f := rfl

theorem bind_ret (p : Prog Res α) : p.bind .ret = p := by
  induction p with
  | ret a => rfl
  | op o k ih => simp only [op_bind, ih]

theorem bind_assoc (p : Prog Res α) (f : α → Prog Res β) (g : β → Prog Res γ) :
    (p.bind f).bind g = p.bind fun a => (f a).bind g := by
  induction p with
  | ret a => rfl
  | op o k ih => simp only [op_bind, ih]

instance : LawfulMonad (Prog Res) :=
  LawfulMonad.mk' _ bind_ret (fun _ _ => rfl) bind_assoc

/-! ## What a program can issue -/

/-- Whatever the results, every operation satisfies `φ` and every value at the end satisfies `Q`. -/
def All (φ : Op → Prop) : Prog Res α → (α → Prop) → Prop
  | .ret a, Q => Q a
  | .op o k, Q => φ o ∧ ∀ r, (k r).All φ Q

variable {φ ψ : Op → Prop}

theorem all_bind {p : Prog Res α} {f : α → Prog Res β} {Q : β → Prop} :
    (p.bind f).All φ Q ↔ p.All φ fun a => (f a).All φ Q := by
  induction p with
  | ret a => exact Iff.rfl
  | op o k ih => simp only [op_bind, All, ih]

theorem all_trivial (p : Prog Res α) : p.All (fun _ => True) fun _ => True := by
  induction p with
  | ret a => trivial
  | op o k ih => exact ⟨trivial, ih⟩

theorem All.mono {p : Prog Res α} {Q Q' : α → Prop} (h : p.All φ Q) (hφ : ∀ o, φ o → ψ o)
    (hQ : ∀ a, Q a → Q' a) : p.All ψ Q' := by
  induction p with
  | ret a => exact hQ a h
  | op o k ih => exact ⟨hφ o h.1, fun r => ih r (h.2 r)⟩

/-! ## Running one program alone -/

variable {Ans σ : Type}

/-- Run to the end as thread `t`, consuming exactly the given answers. -/
def run (h : Handler Res Ans σ) (t : Nat) : Prog Res α → List Ans → σ → Option (α × σ)
  | .ret a, [], s => some (a, s)
  | .ret _, _ :: _, _ => none
  | .op _ _, [], _ => none
  | .op o k, x :: xs, s =>
    match h t o x s with
    | some (r, s') => (k r).run h t xs s'
    | none => none

variable {h : Handler Res Ans σ} {t : Nat}

theorem run_ret {a b : α} {xs : List Ans} {s s' : σ} :
    run h t (.ret a) xs s = some (b, s') ↔ xs = [] ∧ a = b ∧ s = s' := by
  cases xs <;> simp [run]

theorem run_op {o : Op} {k : Res o → Prog Res α} {xs : List Ans} {s s' : σ} {a : α} :
    run h t (.op o k) xs s = some (a, s') ↔
      ∃ x ys r s₁, xs = x :: ys ∧ h t o x s = some (r, s₁) ∧ run h t (k r) ys s₁ = some (a, s') := by
  cases xs with
  | nil => simp [run]
  | cons x ys =>
    simp only [run, List.cons.injEq]
    cases hx : h t o x s with
    | none =>
      simp only [reduceCtorEq, false_iff, not_exists]
      rintro x' ys' r s₁ ⟨⟨rfl, rfl⟩, hr, -⟩
      rw [hx] at hr; cases hr
    | some p =>
      obtain ⟨r, s₁⟩ := p
      constructor
      · intro hk; exact ⟨x, ys, r, s₁, ⟨rfl, rfl⟩, hx, hk⟩
      · rintro ⟨x', ys', r', s₁', ⟨rfl, rfl⟩, hr, hk⟩
        rw [hx] at hr; cases hr; exact hk

/-- A run of `p >>= f` is a run of `p` followed by one of `f`, which share out the answers. -/
theorem run_bind {p : Prog Res α} {f : α → Prog Res β} {xs : List Ans} {s s' : σ} {b : β} :
    run h t (p.bind f) xs s = some (b, s') ↔
      ∃ ys zs a s₁, xs = ys ++ zs ∧ run h t p ys s = some (a, s₁) ∧
        run h t (f a) zs s₁ = some (b, s') := by
  induction p generalizing xs s with
  | ret a =>
    simp only [ret_bind, run_ret]
    constructor
    · intro hf; exact ⟨[], xs, a, s, rfl, ⟨rfl, rfl, rfl⟩, hf⟩
    · rintro ⟨ys, zs, a', s₁, rfl, ⟨rfl, rfl, rfl⟩, hf⟩; exact hf
  | op o k ih =>
    simp only [op_bind, run_op, ih]
    constructor
    · rintro ⟨x, ws, r, s₁, rfl, hx, ys, zs, a, s₂, rfl, hk, hf⟩
      exact ⟨x :: ys, zs, a, s₂, rfl, ⟨x, ys, r, s₁, rfl, hx, hk⟩, hf⟩
    · rintro ⟨ys, zs, a, s₂, rfl, ⟨x, ws, r, s₁, rfl, hx, hk⟩, hf⟩
      exact ⟨x, ws ++ zs, r, s₁, rfl, hx, ws, zs, a, s₂, rfl, hk, hf⟩

/-- Run to the end as thread `t`, every operation with the same answer. -/
def runAll (h : Handler Res Ans σ) (t : Nat) (x : Ans) : Prog Res α → σ → Option (α × σ)
  | .ret a, s => some (a, s)
  | .op o k, s =>
    match h t o x s with
    | some (r, s') => (k r).runAll h t x s'
    | none => none

theorem runAll_bind {x : Ans} {p : Prog Res α} {f : α → Prog Res β} {s : σ} :
    runAll h t x (p.bind f) s =
      (runAll h t x p s).bind fun r => runAll h t x (f r.1) r.2 := by
  induction p generalizing s with
  | ret a => rfl
  | op o k ih =>
    simp only [op_bind, runAll]
    cases h t o x s with
    | none => rfl
    | some r => exact ih r.1

/-- It is one of the runs. -/
theorem run_of_runAll {x : Ans} {p : Prog Res α} {s s' : σ} {a : α}
    (hr : runAll h t x p s = some (a, s')) : ∃ n, run h t p (List.replicate n x) s = some (a, s') := by
  induction p generalizing s with
  | ret b =>
    cases hr
    exact ⟨0, rfl⟩
  | op o k ih =>
    simp only [runAll] at hr
    split at hr
    · next r s₁ hx =>
      obtain ⟨n, hn⟩ := ih r hr
      exact ⟨n + 1, run_op.mpr ⟨x, _, r, s₁, rfl, hx, hn⟩⟩
    · cases hr

end Prog

/-! ## Early exit -/

/-- A program that ends with a value or leaves early with an `ε`. -/
abbrev Flow {Op : Type} (Res : Op → Type) (ε : Type) := ExceptT ε (Prog Res)

namespace Flow

variable {Op : Type} {Res : Op → Type} {ε α β : Type}

/-- Issue one operation and go on with its result. -/
def call (o : Op) : Flow Res ε (Res o) := ExceptT.lift (Prog.call o)

/-- Go on after `x` according to how it ended. -/
def next (f : α → Prog Res (Except ε β)) : Except ε α → Prog Res (Except ε β)
  | .ok a => f a
  | .error e => .ret (.error e)

@[simp] theorem next_ok (f : α → Prog Res (Except ε β)) (a : α) : next f (.ok a) = f a := rfl

@[simp] theorem next_error (f : α → Prog Res (Except ε β)) (e : ε) :
    next f (.error e) = .ret (.error e) := rfl

theorem bind_eq (x : Flow Res ε α) (f : α → Flow Res ε β) :
    (x >>= f : Flow Res ε β) = Prog.bind x (next f) := by
  show ExceptT.bind x f = _
  unfold ExceptT.bind ExceptT.mk
  rw [Prog.bind_def]
  congr 1

theorem pure_eq (a : α) : (pure a : Flow Res ε α) = Prog.ret (.ok a) := rfl

theorem throw_eq (e : ε) : (throw e : Flow Res ε α) = Prog.ret (.error e) := rfl

theorem call_eq (o : Op) : (call o : Flow Res ε (Res o)) = Prog.op o fun r => .ret (.ok r) := rfl

/-! ## What a flow can issue -/

/-- `Prog.All` with nothing asked of an early exit. -/
def All (φ : Op → Prop) (x : Flow Res ε α) (Q : α → Prop) : Prop :=
  Prog.All φ x fun r => ∀ a, r = .ok a → Q a

variable {φ ψ : Op → Prop} {x : Flow Res ε α} {Q Q' : α → Prop}

@[simp] theorem all_pure {a : α} : All φ (pure a : Flow Res ε α) Q ↔ Q a := by
  simp [All, pure_eq, Prog.All]

@[simp] theorem all_throw {e : ε} : All φ (throw e : Flow Res ε α) Q ↔ True := by
  simp [All, throw_eq, Prog.All]

theorem all_call {o : Op} {Q : Res o → Prop} :
    All φ (call o : Flow Res ε (Res o)) Q ↔ φ o ∧ ∀ r, Q r := by
  simp [All, call_eq, Prog.All]

@[simp] theorem all_bind {f : α → Flow Res ε β} {Q : β → Prop} :
    All φ (x >>= f) Q ↔ All φ x fun a => All φ (f a) Q := by
  unfold All
  rw [bind_eq, Prog.all_bind]
  have hnext : ∀ r, Prog.All φ (next f r) (fun r => ∀ a, r = .ok a → Q a) ↔
      ∀ a, r = .ok a → Prog.All φ (f a) fun r => ∀ a, r = .ok a → Q a := by
    intro r
    cases r <;> simp [Prog.All]
  simp only [hnext]

@[simp] theorem all_map {f : α → β} {Q : β → Prop} :
    All φ (f <$> x) Q ↔ All φ x fun a => Q (f a) := by
  rw [← bind_pure_comp, all_bind]
  simp only [all_pure]

@[simp] theorem all_ite {b : Prop} [Decidable b] {y : Flow Res ε α} :
    All φ (if b then x else y) Q ↔ (b → All φ x Q) ∧ (¬ b → All φ y Q) := by
  split <;> simp [*]

theorem All.mono (h : All φ x Q) (hφ : ∀ o, φ o → ψ o) (hQ : ∀ a, Q a → Q' a) : All ψ x Q' :=
  Prog.All.mono h hφ fun _ hr a ha => hQ a (hr a ha)

end Flow

end Interleave
