import Wara.Interleave.Safe

/-!
# Interleaved threads

A `Pool` is a list of programs over one shared state. A step executes one
operation of one thread; `Runs h P es P'` says that `P` reaches `P'` by the
events `es`, in any order of the threads. `Pool.run` executes a schedule.

* `Runs.safe`: threads whose promises meet each other's assumptions stay safe.
* `Runs.all`: what the programs can issue and end with, the events and the threads do.
* `Runs.fired`: a thread whose result needs a certain event has executed it.
* `Runs.fires_once`: an event that uses up a state predicate happens once.
-/

namespace Interleave

variable {Op : Type} {Res : Op → Type} {Ans σ α : Type}

structure Pool {Op : Type} (Res : Op → Type) (σ α : Type) where
  threads : List (Prog Res α)
  state : σ

/-- One executed operation: its thread, its result and the states around it. -/
structure Event {Op : Type} (Res : Op → Type) (σ : Type) where
  tid : Nat
  op : Op
  res : Res op
  pre : σ
  post : σ

inductive Runs (h : Handler Res Ans σ) : Pool Res σ α → List (Event Res σ) → Pool Res σ α → Prop
  | nil (P : Pool Res σ α) : Runs h P [] P
  | cons {P P' : Pool Res σ α} {i : Nat} {o : Op} {k : Res o → Prog Res α} {x : Ans} {r : Res o}
      {s : σ} {es : List (Event Res σ)} :
      P.threads[i]? = some (.op o k) → h i o x P.state = some (r, s) →
      Runs h ⟨P.threads.set i (k r), s⟩ es P' → Runs h P (⟨i, o, r, P.state, s⟩ :: es) P'

namespace Pool

/-- Execute a schedule: which thread moves next, and the answer its operation gets. -/
def run (h : Handler Res Ans σ) : Pool Res σ α → List (Nat × Ans) → Option (Pool Res σ α)
  | P, [] => some P
  | P, (i, x) :: ls =>
    match P.threads[i]? with
    | some (.op o k) =>
      match h i o x P.state with
      | some (r, s) => run h ⟨P.threads.set i (k r), s⟩ ls
      | none => none
    | _ => none

/-- The events of a schedule, up to the first one that cannot be executed. -/
def trace (h : Handler Res Ans σ) : Pool Res σ α → List (Nat × Ans) → List (Event Res σ)
  | _, [] => []
  | P, (i, x) :: ls =>
    match P.threads[i]? with
    | some (.op o k) =>
      match h i o x P.state with
      | some (r, s) => ⟨i, o, r, P.state, s⟩ :: trace h ⟨P.threads.set i (k r), s⟩ ls
      | none => []
    | _ => []

theorem run_runs {h : Handler Res Ans σ} {P P' : Pool Res σ α} {ls : List (Nat × Ans)}
    (hr : P.run h ls = some P') : Runs h P (P.trace h ls) P' := by
  induction ls generalizing P with
  | nil => cases hr; exact .nil _
  | cons l ls ih =>
    obtain ⟨i, x⟩ := l
    simp only [run] at hr
    simp only [trace]
    split at hr
    · rename_i o k hk
      split at hr
      · rename_i r s hx
        exact .cons hk hx (ih hr)
      · cases hr
    · cases hr

/-- Every thread is safe under its own rules and postcondition. -/
def AllSafe (c : Nat → Rules Res σ) (Q : Nat → α → σ → Prop) (P : Pool Res σ α) : Prop :=
  ∀ i p, P.threads[i]? = some p → Prog.Safe (c i) p (Q i) P.state

end Pool

namespace Runs

variable {h : Handler Res Ans σ} {P P' : Pool Res σ α} {es : List (Event Res σ)}

theorem length_eq (hr : Runs h P es P') : P'.threads.length = P.threads.length := by
  induction hr with
  | nil P => rfl
  | cons _ _ _ ih => rw [ih, List.length_set]

/-- Events follow the handler. -/
theorem handled (hr : Runs h P es P') :
    ∀ e ∈ es, ∃ x, h e.tid e.op x e.pre = some (e.res, e.post) := by
  induction hr with
  | nil P => intro e he; cases he
  | cons hk hx _ ih =>
    intro e he
    rcases List.mem_cons.mp he with rfl | he
    · exact ⟨_, hx⟩
    · exact ih e he

theorem append {P₁ P₂ : Pool Res σ α} {es₁ es₂ : List (Event Res σ)} (h₁ : Runs h P es₁ P₁)
    (h₂ : Runs h P₁ es₂ P₂) : Runs h P (es₁ ++ es₂) P₂ := by
  induction h₁ with
  | nil P => exact h₂
  | cons hk hx _ ih => exact .cons hk hx (ih h₂)

/-- A thread that has ended does nothing more. -/
theorem idle_of_ret (hr : Runs h P es P') {i : Nat} {a : α}
    (hi : P.threads[i]? = some (.ret a)) : ∀ e ∈ es, e.tid ≠ i := by
  induction hr with
  | nil P =>
    intro e he
    cases he
  | @cons P P' j o k x r s es hk hx _ ih =>
    have hji : j ≠ i := by
      rintro rfl
      rw [hi] at hk
      cases hk
    intro e he
    rcases List.mem_cons.mp he with rfl | he
    · exact hji
    · exact ih (by rw [List.getElem?_set_ne hji, hi]) e he

/-- A thread without events is where it was. -/
theorem thread_eq (hr : Runs h P es P') {i : Nat} (hi : ∀ e ∈ es, e.tid ≠ i) :
    P'.threads[i]? = P.threads[i]? := by
  induction hr with
  | nil P => rfl
  | cons _ _ _ ih =>
    rw [ih fun e he => hi e (List.mem_cons_of_mem _ he)]
    exact List.getElem?_set_ne (hi _ List.mem_cons_self)

/-- What the programs can issue is all that the events issue, and what they can end with is all
that the threads end with. -/
theorem all {φ : Nat → Op → Prop} {Q : Nat → α → Prop} (hr : Runs h P es P')
    (hφ : ∀ i (p : Prog Res α), P.threads[i]? = some p → p.All (φ i) (Q i)) :
    (∀ e ∈ es, φ e.tid e.op) ∧
      ∀ i (p : Prog Res α), P'.threads[i]? = some p → p.All (φ i) (Q i) := by
  induction hr with
  | nil P => exact ⟨fun e he => (List.not_mem_nil he).elim, hφ⟩
  | @cons P P' i o k x r s es hk hx _ ih =>
    obtain ⟨ho, hk'⟩ := hφ i _ hk
    have hnext : ∀ j (p : Prog Res α), (P.threads.set i (k r))[j]? = some p →
      p.All (φ j) (Q j) := by
      intro j p hp
      by_cases hj : i = j
      · subst hj
        simp only [List.getElem?_set, if_true] at hp
        split at hp
        · cases hp; exact hk' r
        · cases hp
      · rw [List.getElem?_set_ne hj] at hp
        exact hφ j p hp
    obtain ⟨hall, hend⟩ := ih hnext
    refine ⟨fun e he => ?_, hend⟩
    rcases List.mem_cons.mp he with rfl | he
    · exact ho
    · exact hall e he

/-- A state predicate kept by every event holds before and after each of them, and at the end. -/
theorem keeps {I : σ → Prop} (hr : Runs h P es P') (h0 : I P.state)
    (hI : ∀ e ∈ es, I e.pre → I e.post) : (∀ e ∈ es, I e.pre ∧ I e.post) ∧ I P'.state := by
  induction hr with
  | nil P => exact ⟨fun e he => (List.not_mem_nil he).elim, h0⟩
  | cons hk hx _ ih =>
    have h1 := hI _ List.mem_cons_self h0
    obtain ⟨hall, hend⟩ := ih h1 fun e he => hI e (List.mem_cons_of_mem _ he)
    refine ⟨fun e he => ?_, hend⟩
    rcases List.mem_cons.mp he with rfl | he
    · exact ⟨h0, h1⟩
    · exact hall e he

/-- What holds at the end held at the start, or an event has brought it about. -/
theorem established {A : σ → Prop} (hr : Runs h P es P') (hA : A P'.state) :
    A P.state ∨ ∃ e ∈ es, ¬ A e.pre ∧ A e.post := by
  induction hr with
  | nil P => exact .inl hA
  | @cons P P' i o k x r s es hk hx _ ih =>
    rcases ih hA with hs | ⟨e, he, hh⟩
    · by_cases hP : A P.state
      · exact .inl hP
      · exact .inr ⟨_, List.mem_cons_self, hP, hs⟩
    · exact .inr ⟨e, List.mem_cons_of_mem _ he, hh⟩

/-- **Parallel composition.** `I` is a global invariant; an event that follows the handler from
an `I`-state is a step of its thread's rules, and a promised step keeps `I` and is what the
other threads rely on. -/
theorem safe {I : σ → Prop} {c : Nat → Rules Res σ} {Q : Nat → α → σ → Prop}
    (hr : Runs h P es P') (h0 : I P.state) (hsafe : P.AllSafe c Q)
    (hstep : ∀ e ∈ es, I e.pre → (c e.tid).step e.op e.pre e.res e.post)
    (hkeep : ∀ i o s r s', I s → (c i).step o s r s' → (c i).guar o s r s' →
      I s' ∧ ∀ j, j ≠ i → (c j).rely s s') :
    (∀ e ∈ es, I e.pre ∧ (c e.tid).guar e.op e.pre e.res e.post) ∧ I P'.state ∧
      P'.AllSafe c Q := by
  induction hr with
  | nil P => exact ⟨fun e he => (List.not_mem_nil he).elim, h0, hsafe⟩
  | @cons P P' i o k x r s es hk hx _ ih =>
    have hs := hstep _ List.mem_cons_self h0
    obtain ⟨hg, hk'⟩ := hsafe i _ hk P.state ((c i).rely_refl _) r s hs
    obtain ⟨h1, hrely⟩ := hkeep i o P.state r s h0 hs hg
    have hnext : Pool.AllSafe c Q ⟨P.threads.set i (k r), s⟩ := by
      intro j p hp
      by_cases hj : i = j
      · subst hj
        simp only [List.getElem?_set, if_true] at hp
        split at hp
        · cases hp; exact hk'
        · cases hp
      · simp only [List.getElem?_set, hj, if_false] at hp
        exact (hsafe j p hp).stable (hrely j fun e => hj e.symm)
    obtain ⟨hall, hend⟩ := ih h1 hnext fun e he => hstep e (List.mem_cons_of_mem _ he)
    refine ⟨fun e he => ?_, hend⟩
    rcases List.mem_cons.mp he with rfl | he
    · exact ⟨h0, hg⟩
    · exact hall e he

/-- If a thread cannot end in `good` on steps other than `fires`, and did, one of its events fired. -/
theorem fired {c : Rules Res σ} {fires : Event Res σ → Prop} {good : α → Prop} {i : Nat}
    {p : Prog Res α} {a : α} (hr : Runs h P es P') (hp : P.threads[i]? = some p)
    (hrely : ∀ e ∈ es, c.rely e.pre e.post)
    (hstep : ∀ e ∈ es, e.tid = i → ¬ fires e → c.step e.op e.pre e.res e.post)
    (hneed : p.Safe c (fun a _ => ¬ good a) P.state)
    (hend : P'.threads[i]? = some (.ret a)) (ha : good a) : ∃ e ∈ es, e.tid = i ∧ fires e := by
  induction hr generalizing p with
  | nil P =>
    rw [hp] at hend; cases hend
    exact absurd ha (hneed P.state (c.rely_refl _))
  | @cons P P' j o k x r s es hk hx _ ih =>
    have hrely' := fun e he => hrely e (List.mem_cons_of_mem _ he)
    have hstep' := fun e he => hstep e (List.mem_cons_of_mem _ he)
    by_cases hj : j = i
    · subst hj
      rw [hp] at hk; cases hk
      by_cases hf : fires ⟨j, o, r, P.state, s⟩
      · exact ⟨_, List.mem_cons_self, rfl, hf⟩
      · have hs := hstep _ List.mem_cons_self rfl hf
        obtain ⟨-, hk'⟩ := hneed P.state (c.rely_refl _) r s hs
        have hi : (P.threads.set j (k r))[j]? = some (k r) := by
          obtain ⟨hlt, -⟩ := List.getElem?_eq_some_iff.mp hp
          rw [List.getElem?_set_self hlt]
        obtain ⟨e, he, hh⟩ := ih hi hrely' hstep' hk' hend
        exact ⟨e, List.mem_cons_of_mem _ he, hh⟩
    · have hi : (P.threads.set j (k r))[i]? = some p := by
        rw [List.getElem?_set_ne hj, hp]
      have hn := hneed.stable (hrely _ List.mem_cons_self)
      obtain ⟨e, he, hh⟩ := ih hi hrely' hstep' hn hend
      exact ⟨e, List.mem_cons_of_mem _ he, hh⟩

/-- A thread that has ended stays so. -/
theorem ret_stays (hr : Runs h P es P') {i : Nat} {a : α} (hi : P.threads[i]? = some (.ret a)) :
    P'.threads[i]? = some (.ret a) := by
  have hall := hr.all (φ := fun j _ => j ≠ i) (Q := fun _ _ => True) fun j p hj => ?_
  · rw [hr.thread_eq hall.1, hi]
  · by_cases hji : j = i
    · subst hji
      rw [hi] at hj
      cases hj
      trivial
    · exact (Prog.all_trivial p).mono (fun _ _ => hji) fun _ h => h

/-- How one thread ends, when the others keep to what it relies on. -/
theorem ended_in {c : Rules Res σ} {Q : α → σ → Prop} {i : Nat} {p : Prog Res α} {a : α}
    (hr : Runs h P es P') (hp : P.threads[i]? = some p) (hsafe : p.Safe c Q P.state)
    (hrely : ∀ e ∈ es, e.tid ≠ i → c.rely e.pre e.post)
    (hstep : ∀ e ∈ es, e.tid = i → c.step e.op e.pre e.res e.post)
    (hend : P'.threads[i]? = some (.ret a)) : Q a P'.state := by
  induction hr generalizing p with
  | nil P =>
    rw [hp] at hend
    cases hend
    exact hsafe P.state (c.rely_refl _)
  | @cons P P' j o k x r s es hk hx _ ih =>
    have hrely' := fun e he => hrely e (List.mem_cons_of_mem _ he)
    have hstep' := fun e he => hstep e (List.mem_cons_of_mem _ he)
    by_cases hj : j = i
    · subst hj
      rw [hp] at hk
      cases hk
      have hs := hstep _ List.mem_cons_self rfl
      obtain ⟨hlt, -⟩ := List.getElem?_eq_some_iff.mp hp
      exact ih (List.getElem?_set_self hlt) (hsafe P.state (c.rely_refl _) r s hs).2 hrely' hstep'
        hend
    · have hi : (P.threads.set j (k r))[i]? = some p := by
        rw [List.getElem?_set_ne hj, hp]
      exact ih hi (hsafe.stable (hrely _ List.mem_cons_self hj)) hrely' hstep' hend

/-- What one thread promises, when the others keep to what it relies on. -/
theorem guards {c : Rules Res σ} {Q : α → σ → Prop} {i : Nat} {p : Prog Res α}
    (hr : Runs h P es P') (hp : P.threads[i]? = some p) (hsafe : p.Safe c Q P.state)
    (hrely : ∀ e ∈ es, e.tid ≠ i → c.rely e.pre e.post)
    (hstep : ∀ e ∈ es, e.tid = i → c.step e.op e.pre e.res e.post) :
    ∀ e ∈ es, e.tid = i → c.guar e.op e.pre e.res e.post := by
  induction hr generalizing p with
  | nil P => exact fun e he => (List.not_mem_nil he).elim
  | @cons P P' j o k x r s es hk hx _ ih =>
    have hrely' := fun e he => hrely e (List.mem_cons_of_mem _ he)
    have hstep' := fun e he => hstep e (List.mem_cons_of_mem _ he)
    by_cases hj : j = i
    · subst hj
      rw [hp] at hk
      cases hk
      obtain ⟨hlt, -⟩ := List.getElem?_eq_some_iff.mp hp
      obtain ⟨hg, hk'⟩ := hsafe P.state (c.rely_refl _) r s (hstep _ List.mem_cons_self rfl)
      intro e he htid
      rcases List.mem_cons.mp he with rfl | he
      · exact hg
      · exact ih (List.getElem?_set_self hlt) hk' hrely' hstep' e he htid
    · have hi : (P.threads.set j (k r))[i]? = some p := by
        rw [List.getElem?_set_ne hj, hp]
      intro e he htid
      rcases List.mem_cons.mp he with rfl | he
      · exact absurd htid hj
      · exact ih hi (hsafe.stable (hrely _ List.mem_cons_self hj)) hrely' hstep' e he htid

/-- **One shot.** An event that needs `spent` to be false and makes it true, in a run that never
resets it, fires at most once. -/
theorem fires_once {fires : Event Res σ → Prop} {spent : σ → Prop} (hr : Runs h P es P')
    (hkeep : ∀ e ∈ es, spent e.pre → spent e.post)
    (hfire : ∀ e ∈ es, fires e → ¬ spent e.pre ∧ spent e.post) :
    es.Pairwise fun e e' => ¬ (fires e ∧ fires e') := by
  induction hr with
  | nil P => exact .nil
  | @cons P P' i o k x r s es hk hx hrest ih =>
    have hkeep' := fun e he => hkeep e (List.mem_cons_of_mem _ he)
    refine .cons (fun e' he' => ?_) (ih hkeep' fun e he => hfire e (List.mem_cons_of_mem _ he))
    rintro ⟨h1, h2⟩
    have hs : spent s := (hfire _ List.mem_cons_self h1).2
    exact (hfire e' (List.mem_cons_of_mem _ he') h2).1 ((hrest.keeps hs hkeep').1 e' he').1

end Runs

/-- Events of one kind that fire at most once belong to one thread. -/
theorem tid_eq_of_once {fires : Event Res σ → Prop} {es : List (Event Res σ)}
    (h : es.Pairwise fun e e' => ¬ (fires e ∧ fires e')) {e e' : Event Res σ} (he : e ∈ es)
    (he' : e' ∈ es) (hf : fires e) (hf' : fires e') : e.tid = e'.tid := by
  by_contra hne
  -- two different threads fired, at different places of the trace
  have hpw := h.imp fun {a b} (hh : ¬ (fires a ∧ fires b)) =>
    show a.tid ≠ b.tid → ¬ (fires a ∧ fires b) from fun _ => hh
  have := hpw.forall_of_forall_of_flip (fun _ _ hn => (hn rfl).elim)
    (hpw.imp fun {a b} hh (hn : b.tid ≠ a.tid) hab => hh hn.symm hab.symm)
  exact this he he' hne ⟨hf, hf'⟩

end Interleave
