import Wara.Interleave.Pool

/-!
# Programs with control points

A `Control` names the points that the programs of a pool can be at, and what one
operation does from each of them. A run of the pool is then a run over lists of
points (`Control.runs_of_pool`), and an invariant is about points and the state:

* `Control.Runs.keeps`: what every step keeps holds at the end.
* `Control.Runs.owed`: what a step takes away, its thread still owes.
* `Control.Runs.stays`: a thread that is at an end stays there.
* `Control.Runs.restored`: what some events spoil and later ones reset is there.
-/

namespace Interleave

variable {Op : Type} {Res : Op → Type} {Ans σ α Pc : Type}

structure Control {Op : Type} (Res : Op → Type) (α Pc : Type) where
  prog : Pc → Prog Res α
  moves : Pc → (o : Op) → Res o → Pc → Prop
  step : ∀ pc, (∃ a, prog pc = .ret a) ∨ ∃ o k, prog pc = .op o k ∧
    ∀ r, ∃ pc', moves pc o r pc' ∧ k r = prog pc'

namespace Control

variable (C : Control Res α Pc) (h : Handler Res Ans σ)

/-- The event `e` takes its thread from one point to the next. -/
inductive Step (e : Event Res σ) : Pc → Pc → Prop
  | mk {pc pc' : Pc} {x : Ans} : C.moves pc e.op e.res pc' →
      h e.tid e.op x e.pre = some (e.res, e.post) → Step e pc pc'

inductive Runs : List Pc → σ → List (Event Res σ) → List Pc → σ → Prop
  | nil (pcs : List Pc) (s : σ) : Runs pcs s [] pcs s
  | cons {pcs pcs' : List Pc} {s : σ} {pc pc' : Pc} {e : Event Res σ}
      {es : List (Event Res σ)} : pcs[e.tid]? = some pc → C.Step h e pc pc' →
      Runs (pcs.set e.tid pc') e.post es pcs' s → Runs pcs e.pre (e :: es) pcs' s

variable {C h} {pcs pcs' : List Pc} {s s' : σ} {es : List (Event Res σ)}

theorem runs_of_pool {P P' : Pool Res σ α} (hr : Interleave.Runs h P es P')
    (hP : P.threads = pcs.map C.prog) :
    ∃ pcs', P'.threads = pcs'.map C.prog ∧ C.Runs h pcs P.state es pcs' P'.state := by
  induction hr generalizing pcs with
  | nil P => exact ⟨pcs, hP, .nil pcs _⟩
  | @cons P P' i o k x r s es hk hx _ ih =>
    rw [hP, List.getElem?_map, Option.map_eq_some_iff] at hk
    obtain ⟨pc, hpc, hprog⟩ := hk
    rcases C.step pc with ⟨a, ha⟩ | ⟨o', k', hop, hstep⟩
    · rw [ha] at hprog
      cases hprog
    · rw [hop] at hprog
      cases hprog
      obtain ⟨pc', hmoves, hnext⟩ := hstep r
      have hthreads : P.threads.set i (k r) = (pcs.set i pc').map C.prog := by
        rw [hP, List.map_set, hnext]
      obtain ⟨pcs', hend, hruns⟩ := ih hthreads
      exact ⟨pcs', hend, .cons (e := ⟨i, o, r, P.state, s⟩) hpc (.mk hmoves hx) hruns⟩

namespace Runs

/-- Every event is a step from some point. -/
theorem step_of_mem (hr : C.Runs h pcs s es pcs' s') {e : Event Res σ} (he : e ∈ es) :
    ∃ pc pc', C.Step h e pc pc' := by
  induction hr with
  | nil => cases he
  | cons hpc hstep _ ih =>
    rcases List.mem_cons.mp he with rfl | he
    · exact ⟨_, _, hstep⟩
    · exact ih he

theorem keeps {I : List Pc → σ → Prop} (hr : C.Runs h pcs s es pcs' s') (h0 : I pcs s)
    (hI : ∀ e ∈ es, ∀ pcs pc pc', pcs[e.tid]? = some pc → C.Step h e pc pc' → I pcs e.pre →
      I (pcs.set e.tid pc') e.post) : I pcs' s' := by
  induction hr with
  | nil => exact h0
  | cons hpc hstep _ ih =>
    exact ih (hI _ List.mem_cons_self _ _ _ hpc hstep h0) fun e he =>
      hI e (List.mem_cons_of_mem _ he)

/-- What is there, or some thread still owes it, in a run that keeps `I`. -/
theorem owed {I : List Pc → σ → Prop} {O : Pc → Prop} {A : σ → Prop}
    (hr : C.Runs h pcs s es pcs' s') (hI0 : I pcs s)
    (hI : ∀ e ∈ es, ∀ pcs pc pc', pcs[e.tid]? = some pc → C.Step h e pc pc' → I pcs e.pre →
      I (pcs.set e.tid pc') e.post)
    (h0 : A s ∨ ∃ pc ∈ pcs, O pc)
    (hpay : ∀ e ∈ es, ∀ pcs pc pc', pcs[e.tid]? = some pc → C.Step h e pc pc' → I pcs e.pre →
      O pc → O pc' ∨ A e.post)
    (htake : ∀ e ∈ es, ∀ pc pc', C.Step h e pc pc' → A e.pre → O pc' ∨ A e.post) :
    A s' ∨ ∃ pc ∈ pcs', O pc := by
  refine (hr.keeps (I := fun pcs s => I pcs s ∧ (A s ∨ ∃ pc ∈ pcs, O pc)) ⟨hI0, h0⟩
    fun e he pcs pc pc' hpc hstep hpre => ⟨hI e he pcs pc pc' hpc hstep hpre.1, ?_⟩).2
  have hset : pc' ∈ pcs.set e.tid pc' := by
    obtain ⟨hlt, -⟩ := List.getElem?_eq_some_iff.mp hpc
    exact List.mem_set hlt pc'
  have hmoved : O pc' ∨ A e.post → A e.post ∨ ∃ pc ∈ pcs.set e.tid pc', O pc := by
    rintro (howes | hA)
    · exact .inr ⟨pc', hset, howes⟩
    · exact .inl hA
  rcases hpre.2 with hA | ⟨pc₀, hmem, howes⟩
  · exact hmoved (htake e he pc pc' hstep hA)
  · obtain ⟨j, hj⟩ := List.getElem?_of_mem hmem
    by_cases hji : e.tid = j
    · subst hji
      rw [hpc] at hj
      cases hj
      exact hmoved (hpay e he pcs pc pc' hpc hstep hpre.1 howes)
    · refine .inr ⟨pc₀, List.mem_of_getElem? (i := j) ?_, howes⟩
      rw [List.getElem?_set_ne hji, hj]

/-- A thread at an end stays there. -/
theorem stays {pc : Pc} (hr : C.Runs h pcs s es pcs' s') (hpc : pc ∈ pcs)
    (hend : ∀ o r pc', ¬ C.moves pc o r pc') : pc ∈ pcs' := by
  obtain ⟨i, hi⟩ := List.getElem?_of_mem hpc
  refine List.mem_of_getElem? (i := i) (hr.keeps (I := fun pcs _ => pcs[i]? = some pc) hi
    fun e _ pcs pc₀ pc' hpc₀ hstep hpre => ?_)
  by_cases hie : e.tid = i
  · subst hie
    rw [hpre] at hpc₀
    cases hpc₀
    cases hstep with
    | mk hmoves _ => exact absurd hmoves (hend _ _ _)
  · rw [List.getElem?_set_ne hie, hpre]

/-- An event of the run, with what comes before and after it. -/
theorem split {es₁ es₂ : List (Event Res σ)} {e : Event Res σ}
    (hr : C.Runs h pcs s (es₁ ++ e :: es₂) pcs' s') : ∃ pcs₁ pc pc', pcs₁[e.tid]? = some pc ∧
      C.Runs h pcs s es₁ pcs₁ e.pre ∧ C.Step h e pc pc' ∧
        C.Runs h (pcs₁.set e.tid pc') e.post es₂ pcs' s' := by
  induction es₁ generalizing pcs s with
  | nil =>
    cases hr with
    | cons hpc hstep hrest => exact ⟨pcs, _, _, hpc, .nil pcs _, hstep, hrest⟩
  | cons e₁ es₁ ih =>
    cases hr with
    | cons hpc hstep hrest =>
      obtain ⟨pcs₁, pc, pc', hpc₁, hfirst, hstep₁, hlast⟩ := ih hrest
      exact ⟨pcs₁, pc, pc', hpc₁, .cons hpc hstep hfirst, hstep₁, hlast⟩

/-- A predicate that the events keep, apart from some after each of which another one resets it. -/
theorem restored {A : σ → Prop} {R S : Event Res σ → Prop}
    (hr : C.Runs h pcs s es pcs' s') (hs : A s ∨ ∃ e ∈ es, R e)
    (hreset : ∀ e ∈ es, R e → A e.post) (hkeep : ∀ e ∈ es, ¬ S e → A e.pre → A e.post)
    (hlater : ∀ es₁ e es₂, es = es₁ ++ e :: es₂ → S e → ∃ e' ∈ es₂, R e') : A s' := by
  induction hr with
  | nil =>
    rcases hs with hs | ⟨e, he, -⟩
    · exact hs
    · cases he
  | @cons pcs pcs' s pc pc' e es hpc hstep hrest ih =>
    have hnow : A e.post ∨ ∃ e' ∈ es, R e' := by
      by_cases hre : R e
      · exact .inl (hreset e List.mem_cons_self hre)
      by_cases hsp : S e
      · exact .inr (hlater [] e es rfl hsp)
      rcases hs with hs | ⟨e', he', hre'⟩
      · exact .inl (hkeep e List.mem_cons_self hsp hs)
      · rcases List.mem_cons.mp he' with rfl | he'
        · exact absurd hre' hre
        · exact .inr ⟨e', he', hre'⟩
    refine ih hnow (fun e' he' => hreset e' (List.mem_cons_of_mem e he'))
      (fun e' he' => hkeep e' (List.mem_cons_of_mem e he')) fun es₁ e' es₂ hes => ?_
    exact hlater (e :: es₁) e' es₂ (by rw [hes]; rfl)

end Runs

end Control

end Interleave
