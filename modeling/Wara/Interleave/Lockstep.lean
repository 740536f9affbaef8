import Wara.Interleave.Pool

/-!
# Two runs in lockstep

`p.Lockstep h ok T q R`: from states that `T` relates, `p` and `q` issue their
operations one for one, and on the same answers the states stay related and the
results end up related by `R`. Operations of `p` that are not `ok` are not
compared. Nothing is said of one state alone, so what others do in between does
not matter: pools of such programs stay related under the same schedule.
-/

namespace Interleave

variable {Op : Type} {Res : Op → Type} {Ans σ α β γ δ ε : Type}

namespace Prog

def Lockstep (h : Handler Res Ans σ) (ok : Op → Prop) (T : σ → σ → Prop) :
    Prog Res α → Prog Res β → (α → β → Prop) → Prop
  | .ret a, .ret b, R => R a b
  | .op o k, .op o' k', R => ok o → ∀ t x s s' r s₁, T s s' → h t o x s = some (r, s₁) →
      ∃ r' s₁', h t o' x s' = some (r', s₁') ∧ T s₁ s₁' ∧ Lockstep h ok T (k r) (k' r') R
  | _, _, _ => False

/-- An operation that has the same result in related states, and leaves them related. -/
def Blind (h : Handler Res Ans σ) (T : σ → σ → Prop) (o : Op) : Prop :=
  ∀ t x s s' r s₁, T s s' → h t o x s = some (r, s₁) → ∃ s₁', h t o x s' = some (r, s₁') ∧ T s₁ s₁'

variable {h : Handler Res Ans σ} {ok : Op → Prop} {T : σ → σ → Prop} {p : Prog Res α}
  {q : Prog Res β} {R : α → β → Prop}

theorem Lockstep.mono {R' : α → β → Prop} (hp : p.Lockstep h ok T q R)
    (hR : ∀ a b, R a b → R' a b) : p.Lockstep h ok T q R' := by
  induction p generalizing q with
  | ret a =>
    cases q with
    | ret b => exact hR a b hp
    | op o' k' => exact hp
  | op o k ih =>
    cases q with
    | ret b => exact hp
    | op o' k' =>
      intro ho t x s s' r s₁ hT hx
      obtain ⟨r', s₁', hx', hT', hk⟩ := hp ho t x s s' r s₁ hT hx
      exact ⟨r', s₁', hx', hT', ih r hk⟩

theorem Lockstep.bind {f : α → Prog Res γ} {g : β → Prog Res δ} {R' : γ → δ → Prop}
    (hp : p.Lockstep h ok T q R) (hf : ∀ a b, R a b → (f a).Lockstep h ok T (g b) R') :
    (p.bind f).Lockstep h ok T (q.bind g) R' := by
  induction p generalizing q with
  | ret a =>
    cases q with
    | ret b => exact hf a b hp
    | op o' k' => exact hp.elim
  | op o k ih =>
    cases q with
    | ret b => exact hp.elim
    | op o' k' =>
      intro ho t x s s' r s₁ hT hx
      obtain ⟨r', s₁', hx', hT', hk⟩ := hp ho t x s s' r s₁ hT hx
      exact ⟨r', s₁', hx', hT', ih r hk⟩

/-- Two operations, related whatever the answer is. -/
theorem lockstep_call {o o' : Op} {R : Res o → Res o' → Prop}
    (ho : ok o → ∀ t x s s' r s₁, T s s' → h t o x s = some (r, s₁) →
      ∃ r' s₁', h t o' x s' = some (r', s₁') ∧ T s₁ s₁' ∧ R r r') :
    (call o).Lockstep h ok T (call o') R := ho

/-- A program of blind operations does not tell the states apart. -/
theorem All.lockstep {φ : Op → Prop} {Q : α → Prop} (hp : p.All φ Q)
    (hφ : ∀ o, φ o → Blind h T o) : p.Lockstep h ok T p fun a b => b = a ∧ Q a := by
  induction p with
  | ret a => exact ⟨rfl, hp⟩
  | op o k ih =>
    intro _ t x s s' r s₁ hT hx
    obtain ⟨s₁', hx', hT₁⟩ := hφ o hp.1 t x s s' r s₁ hT hx
    exact ⟨r, s₁', hx', hT₁, ih r (hp.2 r)⟩

end Prog

/-! ## Pools -/

namespace Pool

variable {h : Handler Res Ans σ} {ok : Op → Prop} {T : σ → σ → Prop} {R : α → α → Prop}

/-- Thread by thread in lockstep, in related states. -/
structure Lockstep (h : Handler Res Ans σ) (ok : Op → Prop) (T : σ → σ → Prop) (R : α → α → Prop)
    (P P' : Pool Res σ α) : Prop where
  threads : ∀ i : Nat, Option.Rel (Prog.Lockstep h ok T · · R) P.threads[i]? P'.threads[i]?
  state : T P.state P'.state

variable {P P' : Pool Res σ α}

theorem lockstep_of_forall₂ {ps ps' : List (Prog Res α)} {s s' : σ}
    (hps : List.Forall₂ (Prog.Lockstep h ok T · · R) ps ps') (hs : T s s') :
    Pool.Lockstep h ok T R ⟨ps, s⟩ ⟨ps', s'⟩ := by
  refine ⟨fun i => ?_, hs⟩
  show Option.Rel _ ps[i]? ps'[i]?
  induction hps generalizing i with
  | nil => exact .none
  | cons hp _ ih =>
    cases i with
    | zero => exact .some hp
    | succ i =>
      rw [List.getElem?_cons_succ, List.getElem?_cons_succ]
      exact ih i

/-- A thread with an operation to issue has a partner with one. -/
theorem Lockstep.next (hP : P.Lockstep h ok T R P') {i : Nat} {o : Op} {k : Res o → Prog Res α}
    (ho : P.threads[i]? = some (.op o k)) : ∃ o' k', P'.threads[i]? = some (.op o' k') ∧
      Prog.Lockstep h ok T (.op o k) (.op o' k') R := by
  have hi := hP.threads i
  rw [ho] at hi
  cases hp : P'.threads[i]? with
  | none => rw [hp] at hi; cases hi
  | some p =>
    rw [hp] at hi
    cases hi with
    | some hi =>
      cases p with
      | ret b => exact hi.elim
      | op o' k' => exact ⟨o', k', rfl, hi⟩

/-- The same threads have ended, with the same results. -/
theorem Lockstep.ret_iff (hP : P.Lockstep h ok T (fun a b => b = a) P') {i : Nat} {a : α} :
    P'.threads[i]? = some (.ret a) ↔ P.threads[i]? = some (.ret a) := by
  have hi := hP.threads i
  generalize P.threads[i]? = o at hi ⊢
  generalize P'.threads[i]? = o' at hi ⊢
  cases hi with
  | none => exact ⟨nofun, nofun⟩
  | @some p p' hp =>
    cases p <;> cases p'
    case ret.ret b b' =>
      obtain rfl : b' = b := hp
      exact Iff.rfl
    case op.op => exact ⟨nofun, nofun⟩
    all_goals exact hp.elim

theorem Lockstep.set (hP : P.Lockstep h ok T R P') {p p' : Prog Res α} {s s' : σ} (i : Nat)
    (hp : p.Lockstep h ok T p' R) (hs : T s s') :
    Pool.Lockstep h ok T R ⟨P.threads.set i p, s⟩ ⟨P'.threads.set i p', s'⟩ := by
  refine ⟨fun j => ?_, hs⟩
  have hj := hP.threads j
  show Option.Rel _ (P.threads.set i p)[j]? (P'.threads.set i p')[j]?
  by_cases hij : i = j
  · subst hij
    rw [List.getElem?_set_self', List.getElem?_set_self']
    generalize P.threads[i]? = o at hj ⊢
    generalize P'.threads[i]? = o' at hj ⊢
    cases hj with
    | none => exact .none
    | some _ => exact .some hp
  · rw [List.getElem?_set_ne hij, List.getElem?_set_ne hij]
    exact hj

/-- **One schedule.** The second pool can follow the first one, and they stay in lockstep. -/
theorem Lockstep.run {P₁ : Pool Res σ α} {ls : List (Nat × Ans)} (hP : P.Lockstep h ok T R P')
    (hr : P.run h ls = some P₁) (hok : ∀ e ∈ P.trace h ls, ok e.op) :
    ∃ P₁', P'.run h ls = some P₁' ∧ P₁.Lockstep h ok T R P₁' := by
  induction ls generalizing P P' with
  | nil =>
    cases hr
    exact ⟨P', rfl, hP⟩
  | cons l ls ih =>
    obtain ⟨i, x⟩ := l
    simp only [Pool.run] at hr
    simp only [trace] at hok
    split at hr
    · next o k hk =>
      split at hr
      · next r s hx =>
        simp only [hk, hx] at hok
        obtain ⟨o', k', hk', hlock⟩ := hP.next hk
        obtain ⟨r', s', hx', hT, hnext⟩ := hlock (hok _ List.mem_cons_self) i x _ _ r s hP.state hx
        obtain ⟨P₁', hr', hP₁⟩ :=
          ih (hP.set i hnext hT) hr fun e he => hok e (List.mem_cons_of_mem _ he)
        refine ⟨P₁', ?_, hP₁⟩
        simp only [Pool.run, hk', hx']
        exact hr'
      · cases hr
    · cases hr

end Pool

namespace Flow

/-- Both end with a value, and the values are related, or both leave early with the same error. -/
def SameExit (R : α → β → Prop) : Except ε α → Except ε β → Prop
  | .ok a, .ok b => R a b
  | .error e, .error e' => e' = e
  | _, _ => False

theorem sameExit_refl {R : α → α → Prop} (hR : ∀ a, R a a) {r : Except ε α} : SameExit R r r := by
  cases r with
  | ok a => exact hR a
  | error e => rfl

theorem SameExit.bind {R : α → β → Prop} {R' : γ → δ → Prop} {r : Except ε α} {r' : Except ε β}
    {f : α → Except ε γ} {f' : β → Except ε δ} (h : SameExit R r r')
    (hf : ∀ a b, R a b → SameExit R' (f a) (f' b)) : SameExit R' (r >>= f) (r' >>= f') := by
  cases r <;> cases r'
  case ok.ok a b => exact hf a b h
  case error.error => exact h
  all_goals exact h.elim

theorem SameExit.mapError {ε' : Type} {R : α → β → Prop} {r : Except ε α} {r' : Except ε β}
    {f : ε → ε'} (h : SameExit R r r') : SameExit R (r.mapError f) (r'.mapError f) := by
  cases r <;> cases r'
  case ok.ok => exact h
  case error.error => exact congrArg f h
  all_goals exact h.elim

def Lockstep (h : Handler Res Ans σ) (ok : Op → Prop) (T : σ → σ → Prop) (x : Flow Res ε α)
    (y : Flow Res ε β) (R : α → β → Prop) : Prop :=
  Prog.Lockstep h ok T x y (SameExit R)

variable {h : Handler Res Ans σ} {ok : Op → Prop} {T : σ → σ → Prop} {x : Flow Res ε α}
  {y : Flow Res ε β} {R : α → β → Prop}

theorem lockstep_pure {a : α} {b : β} (hR : R a b) :
    Lockstep h ok T (pure a : Flow Res ε α) (pure b) R := hR

theorem lockstep_throw (e : ε) : Lockstep h ok T (throw e : Flow Res ε α) (throw e) R := rfl

theorem Lockstep.mono {R' : α → β → Prop} (hx : Lockstep h ok T x y R)
    (hR : ∀ a b, R a b → R' a b) : Lockstep h ok T x y R' := by
  refine Prog.Lockstep.mono hx fun r r' hr => ?_
  cases r <;> cases r'
  case ok.ok a b => exact hR a b hr
  all_goals exact hr

theorem Lockstep.bind {f : α → Flow Res ε γ} {g : β → Flow Res ε δ} {R' : γ → δ → Prop}
    (hx : Lockstep h ok T x y R) (hf : ∀ a b, R a b → Lockstep h ok T (f a) (g b) R') :
    Lockstep h ok T (x >>= f) (y >>= g) R' := by
  unfold Lockstep
  rw [bind_eq, bind_eq]
  refine Prog.Lockstep.bind hx fun r r' hr => ?_
  cases r <;> cases r'
  case ok.ok a b => exact hf a b hr
  case error.error e e' => exact hr
  all_goals exact hr.elim

theorem lockstep_call {o o' : Op} {R : Res o → Res o' → Prop}
    (ho : ok o → ∀ t x s s' r s₁, T s s' → h t o x s = some (r, s₁) →
      ∃ r' s₁', h t o' x s' = some (r', s₁') ∧ T s₁ s₁' ∧ R r r') :
    Lockstep h ok T (call o : Flow Res ε (Res o)) (call o') R :=
  Prog.Lockstep.bind (Prog.lockstep_call ho) fun _ _ hr => hr

theorem All.lockstep {φ : Op → Prop} {Q : α → Prop} (hx : All φ x Q)
    (hφ : ∀ o, φ o → Prog.Blind h T o) : Lockstep h ok T x x fun a b => b = a ∧ Q a := by
  refine Prog.Lockstep.mono (Prog.All.lockstep hx hφ) fun r r' hr => ?_
  obtain ⟨rfl, hQ⟩ := hr
  cases r' with
  | ok a => exact ⟨rfl, hQ a rfl⟩
  | error e => rfl

end Flow

-- Proofs go by the rules above; unfolding would run the programs.
attribute [irreducible] Prog.Lockstep

end Interleave
