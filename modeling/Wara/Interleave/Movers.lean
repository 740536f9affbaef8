import Wara.Interleave.Pool
import Wara.Interleave.Solo

/-!
# Movers

A program interleaved with others takes effect at once when all its operations
can be moved next to one of them: those before it can be put off past what the
others do, and those after it neither see nor change what there is to see.

`start b` is the state a program run alone starts from when there is `b` to see.
A `Mover` says what the others may do between two operations, and which states
of such a run stand for the interleaved one: `stands s s₁ m` reads "`m` is
reached alone, at `s₁`, by what the program had done at `s`".

* `Runs.atOnce`: an atomic program ends as it does when run alone at one of its events.
* `Runs.serial`: a pool of atomic programs ends as they do when run one after another.
-/

namespace Interleave

variable {Op : Type} {Res : Op → Type} {Ans σ β α : Type}

structure Mover {σ β : Type} (view : σ → β) (start : β → σ) where
  rely : σ → σ → Prop
  rely_refl : ∀ s, rely s s
  rely_trans : ∀ {s₁ s₂ s₃}, rely s₁ s₂ → rely s₂ s₃ → rely s₁ s₃
  stands : σ → σ → σ → Prop
  stands_start : ∀ s s₁, stands s s₁ (start (view s₁))
  stands_mono : ∀ {s s' s₁ m}, rely s s' → stands s s₁ m → stands s' s₁ m
  view_eq : ∀ {s s₁ m}, stands s s₁ m → view m = view s₁

namespace Prog

section steps

variable {h : Handler Res Ans σ} {t : Nat} {p q : Prog Res α} {xs ys : List Ans} {s s₁ s' : σ}

/-- One more operation at the end of a run. -/
theorem steps_snoc {o : Op} {k : Res o → Prog Res α} {x : Ans} {r : Res o}
    (hp : steps h t p xs s = some (.op o k, s₁)) (hx : h t o x s₁ = some (r, s')) :
    steps h t p (xs ++ [x]) s = some (k r, s') := by
  induction xs generalizing p s with
  | nil =>
    cases hp
    simp only [List.nil_append, steps, hx]
  | cons y ys ih =>
    cases p with
    | ret a => cases hp
    | op o' k' =>
      simp only [List.cons_append, steps] at hp ⊢
      split at hp
      · exact ih hp
      · cases hp

theorem run_of_steps {a : α} (hp : steps h t p xs s = some (.ret a, s')) :
    run h t p xs s = some (a, s') := by
  induction xs generalizing p s with
  | nil =>
    cases hp
    rfl
  | cons x xs ih =>
    cases p with
    | ret b => cases hp
    | op o k =>
      simp only [steps] at hp
      split at hp
      · next r s₁ hx => exact run_op.mpr ⟨x, xs, r, s₁, rfl, hx, ih hp⟩
      · cases hp

end steps

variable {view : σ → β} {start : β → σ} (c : Mover view start) (h : Handler Res Ans σ) (t : Nat)

/-- `o`, which took `s` to `s'` with the result `r`, can be put off: later on it has a result with
which the program goes on in the same way. -/
structure PutOff {o : Op} (k : Res o → Prog Res α) (s : σ) (r : Res o) (s' : σ) : Prop where
  within : c.rely s s'
  quiet : view s' = view s
  later : ∀ {s₁ m}, c.rely s' s₁ → c.stands s s₁ m →
    ∃ x r' m', h t o x m = some (r', m') ∧ k r' = k r ∧ c.stands s' s₁ m'

/-- `o`, which took `s` to `s'` with the result `r`, does so in a run alone. -/
def Lands (o : Op) (s : σ) (r : Res o) (s' : σ) : Prop :=
  ∀ {m}, c.stands s s m → ∃ x m', h t o x m = some (r, m') ∧ view m' = view s'

/-- An operation that neither sees nor changes what there is to see. -/
def Apart (view : σ → β) (h : Handler Res Ans σ) (t : Nat) (o : Op) : Prop :=
  ∀ x s r s', h t o x s = some (r, s') →
    view s' = view s ∧ ∀ m, ∃ m', h t o x m = some (r, m') ∧ view m' = view m

/-- Operations that can be put off, one that lands, and then only such as are apart. -/
def Atomic : Prog Res α → σ → Prop
  | .ret _, _ => True
  | .op o k, s => ∀ s₁, c.rely s s₁ → ∀ x r s₂, h t o x s₁ = some (r, s₂) →
      (PutOff c h t k s₁ r s₂ ∧ (k r).Atomic s₂) ∨
        (Lands c h t o s₁ r s₂ ∧ (k r).All (Apart view h t) fun _ => True)

/-- Whatever the others do from here on, `p` alone gets as far as `q`. -/
def Postponed (p q : Prog Res α) (s : σ) : Prop :=
  ∀ s₁, c.rely s s₁ → ∃ xs m, steps h t p xs (start (view s₁)) = some (q, m) ∧ c.stands s s₁ m

variable {c h t} {p q : Prog Res α} {s s' : σ}

theorem Atomic.stable (ha : p.Atomic c h t s) (hr : c.rely s s') : p.Atomic c h t s' := by
  cases p with
  | ret a => trivial
  | op o k => exact fun s₁ h₁ => ha s₁ (c.rely_trans hr h₁)

theorem postponed_self (p : Prog Res α) (s : σ) : Postponed c h t p p s :=
  fun s₁ _ => ⟨[], _, rfl, c.stands_start s s₁⟩

theorem Postponed.stable (hp : Postponed c h t p q s) (hr : c.rely s s') :
    Postponed c h t p q s' := by
  intro s₁ h₁
  obtain ⟨xs, m, hxs, hm⟩ := hp s₁ (c.rely_trans hr h₁)
  exact ⟨xs, m, hxs, c.stands_mono hr hm⟩

/-- An operation that can be put off is put off. -/
theorem Postponed.putOff {o : Op} {k : Res o → Prog Res α} {r : Res o}
    (hp : Postponed c h t p (.op o k) s) (ho : PutOff c h t k s r s') :
    Postponed c h t p (k r) s' := by
  intro s₁ h₁
  obtain ⟨xs, m, hxs, hm⟩ := hp s₁ (c.rely_trans ho.within h₁)
  obtain ⟨x, r', m', hx, hk, hm'⟩ := ho.later h₁ hm
  exact ⟨xs ++ [x], m', hk ▸ steps_snoc hxs hx, hm'⟩

/-- Run alone at `s`, `p` ends with `a` and leaves `b` to be seen. -/
def EndsAlone (start : β → σ) (view : σ → β) (h : Handler Res Ans σ) (t : Nat) (p : Prog Res α)
    (b : β) (a : α) (b' : β) : Prop :=
  ∃ xs m, run h t p xs (start b) = some (a, m) ∧ view m = b'

end Prog

open Prog

/-! ## One atomic program among others -/

section atOnce

variable {view : σ → β} {start : β → σ} {c : Mover view start} {h : Handler Res Ans σ} {t : Nat}
  {P P' : Pool Res σ α} {es : List (Event Res σ)} {p q : Prog Res α} {a : α}

/-- No event of the thread changes what there is to see. -/
def QuietIn (view : σ → β) (t : Nat) (es : List (Event Res σ)) : Prop :=
  ∀ e ∈ es, e.tid = t → view e.post = view e.pre

theorem quietIn_cons {e : Event Res σ} (he : e.tid = t → view e.post = view e.pre)
    (hes : QuietIn view t es) : QuietIn view t (e :: es) := by
  intro e' he'
  rcases List.mem_cons.mp he' with rfl | he'
  · exact he
  · exact hes e' he'

/-- The thread's events are quiet but for one, at which its program ends as it does alone. -/
def AtOnce (view : σ → β) (start : β → σ) (h : Handler Res Ans σ) (t : Nat) (p : Prog Res α)
    (es : List (Event Res σ)) (a : α) : Prop :=
  ∃ es₁ e es₂, es = es₁ ++ e :: es₂ ∧ e.tid = t ∧ QuietIn view t es₁ ∧ QuietIn view t es₂ ∧
    EndsAlone start view h t p (view e.pre) a (view e.post)

theorem AtOnce.cons {e : Event Res σ} (he : e.tid = t → view e.post = view e.pre)
    (ha : AtOnce view start h t p es a) : AtOnce view start h t p (e :: es) a := by
  obtain ⟨es₁, e', es₂, rfl, ht, h₁, h₂, hend⟩ := ha
  exact ⟨e :: es₁, e', es₂, rfl, ht, quietIn_cons he h₁, h₂, hend⟩

/-- What is left after the operation that landed is apart. -/
theorem Runs.apart (hr : Runs h P es P') {b b' : β} {xs : List Ans} {m : σ}
    (hq : P.threads[t]? = some q) (hapart : q.All (Apart view h t) fun _ => True)
    (hp : steps h t p xs (start b) = some (q, m)) (hm : view m = b')
    (hend : P'.threads[t]? = some (.ret a)) :
    QuietIn view t es ∧ EndsAlone start view h t p b a b' := by
  induction hr generalizing q xs m with
  | nil P =>
    rw [hq] at hend
    cases hend
    exact ⟨fun e he => (List.not_mem_nil he).elim, xs, m, run_of_steps hp, hm⟩
  | @cons P P' i o k x r s es hk hx _ ih =>
    by_cases hi : i = t
    · subst hi
      rw [hq] at hk
      cases hk
      obtain ⟨hview, hrest⟩ := hapart.1 x P.state r s hx
      obtain ⟨m', hm', hmview⟩ := hrest m
      have hnext : (P.threads.set i (k r))[i]? = some (k r) := by
        obtain ⟨hlt, -⟩ := List.getElem?_eq_some_iff.mp hq
        rw [List.getElem?_set_self hlt]
      obtain ⟨hquiet, halone⟩ := ih hnext (hapart.2 r) (steps_snoc hp hm') (hmview.trans hm) hend
      exact ⟨quietIn_cons (fun _ => hview) hquiet, halone⟩
    · have hnext : (P.threads.set i (k r))[t]? = some q := by
        rw [List.getElem?_set_ne hi, hq]
      obtain ⟨hquiet, halone⟩ := ih hnext hapart hp hm hend
      exact ⟨quietIn_cons (fun ht => absurd ht hi) hquiet, halone⟩

/-- A program all of whose operations are put off takes effect at its last one. -/
theorem Runs.atOnce_or_quiet (hr : Runs h P es P') (hq : P.threads[t]? = some q)
    (hatomic : q.Atomic c h t P.state) (hp : Postponed c h t p q P.state)
    (hrely : ∀ e ∈ es, e.tid ≠ t → c.rely e.pre e.post)
    (hend : P'.threads[t]? = some (.ret a)) :
    AtOnce view start h t p es a ∨ q = .ret a ∧ ∀ e ∈ es, e.tid ≠ t := by
  induction hr generalizing q with
  | nil P =>
    rw [hq] at hend
    cases hend
    exact .inr ⟨rfl, fun e he => (List.not_mem_nil he).elim⟩
  | @cons P P' i o k x r s es hk hx hrest ih =>
    have hrely' := fun e he => hrely e (List.mem_cons_of_mem _ he)
    by_cases hi : i = t
    · subst hi
      rw [hq] at hk
      cases hk
      have hnext : (P.threads.set i (k r))[i]? = some (k r) := by
        obtain ⟨hlt, -⟩ := List.getElem?_eq_some_iff.mp hq
        rw [List.getElem?_set_self hlt]
      left
      rcases hatomic P.state (c.rely_refl _) x r s hx with ⟨hoff, hk⟩ | ⟨hlands, hapart⟩
      · rcases ih hnext hk (hp.putOff hoff) hrely' hend with honce | ⟨hret, hnone⟩
        · exact honce.cons fun _ => hoff.quiet
        · -- it was the last one
          obtain ⟨xs, m, hxs, hm⟩ := hp.putOff hoff s (c.rely_refl s)
          rw [hret, hoff.quiet] at hxs
          refine ⟨[], _, es, rfl, rfl, fun e he => (List.not_mem_nil he).elim,
            fun e he ht => absurd ht (hnone e he), xs, m, run_of_steps hxs, c.view_eq hm⟩
      · obtain ⟨xs, m, hxs, hm⟩ := hp P.state (c.rely_refl _)
        obtain ⟨x', m', hx', hview⟩ := hlands hm
        obtain ⟨hquiet, halone⟩ :=
          hrest.apart hnext hapart (steps_snoc hxs hx') hview hend
        exact ⟨[], _, es, rfl, rfl, fun e he => (List.not_mem_nil he).elim, hquiet, halone⟩
    · have hnext : (P.threads.set i (k r))[t]? = some q := by
        rw [List.getElem?_set_ne hi, hq]
      have hs := hrely _ List.mem_cons_self hi
      rcases ih hnext (hatomic.stable hs) (hp.stable hs) hrely' hend with honce | ⟨hret, hnone⟩
      · exact .inl (honce.cons fun ht => absurd ht hi)
      · refine .inr ⟨hret, fun e he => ?_⟩
        rcases List.mem_cons.mp he with rfl | he
        · exact hi
        · exact hnone e he

/-- **Reduction.** An atomic program that has ended, among others that do what they may, either
had nothing to do or has ended as it does when run alone at one of its events, and none of its
other events is to be seen. -/
theorem Runs.atOnce (hr : Runs h P es P') (hp : P.threads[t]? = some p)
    (hatomic : p.Atomic c h t P.state) (hrely : ∀ e ∈ es, e.tid ≠ t → c.rely e.pre e.post)
    (hend : P'.threads[t]? = some (.ret a)) :
    AtOnce view start h t p es a ∨ p = .ret a ∧ ∀ e ∈ es, e.tid ≠ t :=
  hr.atOnce_or_quiet hp hatomic (postponed_self p P.state) hrely hend

end atOnce

/-! ## A program in two parts -/

section follows

variable {h : Handler Res Ans σ} {i : Nat} {P P' : Pool Res σ α} {es : List (Event Res σ)}
  {γ : Type}

/-- The events of thread `i` are those of the program, which ends with `a`. -/
inductive Follows (i : Nat) : Prog Res γ → List (Event Res σ) → γ → Prop
  | ret (a : γ) : Follows i (.ret a) [] a
  | other {p : Prog Res γ} {e : Event Res σ} {es : List (Event Res σ)} {a : γ} :
      e.tid ≠ i → Follows i p es a → Follows i p (e :: es) a
  | own {o : Op} {k : Res o → Prog Res γ} {r : Res o} {s s' : σ} {es : List (Event Res σ)} {a : γ} :
      Follows i (k r) es a → Follows i (.op o k) (⟨i, o, r, s, s'⟩ :: es) a

/-- A thread that has ended has gone through the first part of its program. -/
theorem Runs.split_bind {p : Prog Res γ} {f : γ → Prog Res α} {a : α} (hr : Runs h P es P')
    (hp : P.threads[i]? = some (p.bind f)) (hend : P'.threads[i]? = some (.ret a)) :
    ∃ es₁ es₂ P₁ b, es = es₁ ++ es₂ ∧ Follows i p es₁ b ∧ P₁.threads[i]? = some (f b) ∧
      Runs h P es₁ P₁ ∧ Runs h P₁ es₂ P' := by
  induction hr generalizing p with
  | nil P =>
    rw [hp] at hend
    cases p with
    | ret b => exact ⟨[], [], P, b, rfl, .ret b, hp, .nil P, .nil P⟩
    | op o k => cases hend
  | @cons P P' j o k x r s es hk hx hrest ih =>
    cases p with
    | ret b => exact ⟨[], _, P, b, rfl, .ret b, hp, .nil P, .cons hk hx hrest⟩
    | op o' k' =>
      by_cases hj : j = i
      · subst hj
        rw [hp] at hk
        cases hk
        have hnext : (P.threads.set j ((k' r).bind f))[j]? = some ((k' r).bind f) := by
          obtain ⟨hlt, -⟩ := List.getElem?_eq_some_iff.mp hp
          rw [List.getElem?_set_self hlt]
        obtain ⟨es₁, es₂, P₁, b, rfl, hfollows, hb, hr₁, hr₂⟩ := ih hnext hend
        exact ⟨_ :: es₁, es₂, P₁, b, rfl, .own hfollows, hb, .cons hp hx hr₁, hr₂⟩
      · have hnext : (P.threads.set j (k r))[i]? = some ((Prog.op o' k').bind f) := by
          rw [List.getElem?_set_ne hj, hp]
        obtain ⟨es₁, es₂, P₁, b, rfl, hfollows, hb, hr₁, hr₂⟩ := ih hnext hend
        exact ⟨_ :: es₁, es₂, P₁, b, rfl, .other hj hfollows, hb, .cons hk hx hr₁, hr₂⟩

/-- The others may go on. -/
theorem Follows.append {p : Prog Res γ} {es₁ es₂ : List (Event Res σ)} {a : γ}
    (hf : Follows i p es₁ a) (hes₂ : ∀ e ∈ es₂, e.tid ≠ i) : Follows i p (es₁ ++ es₂) a := by
  induction hf with
  | ret a =>
    induction es₂ with
    | nil => exact .ret a
    | cons e es₂ ih =>
      refine .other (hes₂ e List.mem_cons_self) (ih fun e' he' => hes₂ e' ?_)
      exact List.mem_cons_of_mem e he'
  | other hne _ ih => exact .other hne ih
  | own _ ih => exact .own ih

/-- The events of a program in two parts. -/
theorem Follows.of_bind {δ : Type} {p : Prog Res δ} {f : δ → Prog Res γ} {a : γ}
    (hf : Follows i (p.bind f) es a) :
    ∃ es₁ es₂ b, es = es₁ ++ es₂ ∧ Follows i p es₁ b ∧ Follows i (f b) es₂ a := by
  generalize hq : p.bind f = q at hf
  induction hf generalizing p with
  | ret a =>
    cases p with
    | ret b => exact ⟨[], [], b, rfl, .ret b, by rw [← Prog.ret_bind b f, hq]; exact .ret a⟩
    | op o k => cases hq
  | other hne hrest ih =>
    obtain ⟨es₁, es₂, b, rfl, h₁, h₂⟩ := ih hq
    exact ⟨_ :: es₁, es₂, b, rfl, .other hne h₁, h₂⟩
  | own hrest ih =>
    cases p with
    | ret b => exact ⟨[], _, b, rfl, .ret b, by rw [← Prog.ret_bind b f, hq]; exact .own hrest⟩
    | op o k' =>
      cases hq
      obtain ⟨es₁, es₂, b, rfl, h₁, h₂⟩ := ih rfl
      exact ⟨_ :: es₁, es₂, b, rfl, .own h₁, h₂⟩

theorem Follows.ret_eq {a b : γ} (hf : Follows i (.ret a : Prog Res γ) es b) : a = b := by
  generalize hq : (Prog.ret a : Prog Res γ) = q at hf
  induction hf with
  | ret c =>
    cases hq
    rfl
  | other _ _ ih => exact ih hq
  | own => cases hq

theorem Follows.of_op {o : Op} {k : Res o → Prog Res γ} {a : γ} (hf : Follows i (.op o k) es a) :
    (∃ e ∈ es, e.tid = i ∧ e.op = o) ∧
      ∃ (r : Res o) (es' : List (Event Res σ)), Follows i (k r) es' a := by
  generalize hq : (Prog.op o k : Prog Res γ) = q at hf
  induction hf with
  | ret c => cases hq
  | other _ _ ih =>
    obtain ⟨⟨e, he, hh⟩, hrest⟩ := ih hq
    exact ⟨⟨e, List.mem_cons_of_mem _ he, hh⟩, hrest⟩
  | own hrest =>
    cases hq
    exact ⟨⟨_, List.mem_cons_self, rfl, rfl⟩, _, _, hrest⟩

end follows

/-! ## A pool of atomic programs -/

/-- The threads of the events that stand at the place of their thread, counted from `n`. -/
def landings (place : Nat → Nat) : Nat → List (Event Res σ) → List Nat
  | _, [] => []
  | n, e :: es =>
    if place e.tid = n then e.tid :: landings place (n + 1) es else landings place (n + 1) es

section landings

variable {place : Nat → Nat} {n t : Nat} {es es' : List (Event Res σ)}

theorem landings_append :
    landings place n (es ++ es') = landings place n es ++ landings place (n + es.length) es' := by
  induction es generalizing n with
  | nil => rfl
  | cons e es ih =>
    have hlen : n + (e :: es).length = n + 1 + es.length := by simp only [List.length_cons]; omega
    simp only [List.cons_append, landings, ih, hlen]
    split <;> rfl

theorem mem_landings :
    t ∈ landings place n es ↔ ∃ j e, es[j]? = some e ∧ e.tid = t ∧ place t = n + j := by
  induction es generalizing n with
  | nil => simp [landings]
  | cons e es ih =>
    have hcons : (∃ j e', (e :: es)[j]? = some e' ∧ e'.tid = t ∧ place t = n + j) ↔
        (e.tid = t ∧ place t = n) ∨ t ∈ landings place (n + 1) es := by
      rw [ih]
      constructor
      · rintro ⟨j, e', hj, ht, hplace⟩
        cases j with
        | zero => cases hj; exact .inl ⟨ht, hplace⟩
        | succ j => exact .inr ⟨j, e', hj, ht, by omega⟩
      · rintro (⟨ht, hplace⟩ | ⟨j, e', hj, ht, hplace⟩)
        · exact ⟨0, e, rfl, ht, hplace⟩
        · exact ⟨j + 1, e', hj, ht, by omega⟩
    rw [hcons]
    simp only [landings]
    split
    · next hplace =>
      rw [List.mem_cons]
      refine or_congr_left ⟨?_, fun h => h.1.symm⟩
      rintro rfl
      exact ⟨rfl, hplace⟩
    · next hplace => exact ⟨.inr, fun h => h.resolve_left fun hh => hplace (hh.1 ▸ hh.2)⟩

theorem le_of_mem_landings (ht : t ∈ landings place n es) : n ≤ place t := by
  obtain ⟨j, -, -, -, hplace⟩ := mem_landings.mp ht
  omega

theorem nodup_landings : (landings place n es).Nodup := by
  induction es generalizing n with
  | nil => exact List.nodup_nil
  | cons e es ih =>
    simp only [landings]
    split
    · next hplace =>
      refine List.nodup_cons.mpr ⟨fun hmem => ?_, ih⟩
      have := le_of_mem_landings hmem
      omega
    · exact ih

end landings

/-- Thread `t` has executed its last event before thread `t'` executes its first. -/
def Before (es : List (Event Res σ)) (t t' : Nat) : Prop :=
  ∃ es₁ es₂, es = es₁ ++ es₂ ∧ (∃ e ∈ es₁, e.tid = t) ∧ (∃ e ∈ es₂, e.tid = t') ∧
    (∀ e ∈ es₂, e.tid ≠ t) ∧ ∀ e ∈ es₁, e.tid ≠ t'

section serial

variable {view : σ → β} {start : β → σ} {h : Handler Res Ans σ} {P P' : Pool Res σ α}
  {es : List (Event Res σ)} {ps : List (Prog Res α)}

/-- The programs of these threads one after another, each alone on what the one before it left. -/
inductive Serially (view : σ → β) (start : β → σ) (h : Handler Res Ans σ)
    (ps : List (Prog Res α)) : β → List (Nat × α) → β → Prop
  | nil (b : β) : Serially view start h ps b [] b
  | cons {b b' b'' : β} {t : Nat} {p : Prog Res α} {a : α} {as : List (Nat × α)} :
      ps[t]? = some p → EndsAlone start view h t p b a b' → Serially view start h ps b' as b'' →
        Serially view start h ps b ((t, a) :: as) b''

theorem Serially.append {b b' b'' : β} {as as' : List (Nat × α)}
    (h₁ : Serially view start h ps b as b') (h₂ : Serially view start h ps b' as' b'') :
    Serially view start h ps b (as ++ as') b'' := by
  induction h₁ with
  | nil b => exact h₂
  | cons hp hend _ ih => exact .cons hp hend (ih h₂)

/-- Programs that have nothing to do, in any order. -/
theorem serially_idle {b : β} (hb : view (start b) = b) {as : List (Nat × α)}
    (has : ∀ p ∈ as, ps[p.1]? = some (.ret p.2)) : Serially view start h ps b as b := by
  induction as with
  | nil => exact .nil b
  | cons p as ih =>
    refine .cons (has p List.mem_cons_self) ⟨[], _, rfl, hb⟩ ?_
    exact ih fun q hq => has q (List.mem_cons_of_mem _ hq)

/-- Where an event stands, its thread takes effect or nothing is to be seen. -/
def Effective (view : σ → β) (start : β → σ) (h : Handler Res Ans σ) (ps : List (Prog Res α))
    (out : Nat → α) (place : Nat → Nat) (n : Nat) (e : Event Res σ) : Prop :=
  (place e.tid ≠ n → view e.post = view e.pre) ∧
    (place e.tid = n → ∃ p, ps[e.tid]? = some p ∧
      EndsAlone start view h e.tid p (view e.pre) (out e.tid) (view e.post))

/-- The landings of a run, in their order, are a serial run of their threads. -/
theorem Runs.serially_landings {out : Nat → α} {place : Nat → Nat} {n : Nat}
    (hr : Runs h P es P')
    (heff : ∀ j e, es[j]? = some e → Effective view start h ps out place (n + j) e) :
    Serially view start h ps (view P.state) ((landings place n es).map fun t => (t, out t))
      (view P'.state) := by
  induction hr generalizing n with
  | nil P => exact .nil _
  | @cons P P' i o k x r s es hk hx hrest ih =>
    have hhead := heff 0 _ rfl
    have htail := ih fun j e he => by
      have := heff (j + 1) e he
      rwa [← Nat.add_assoc, Nat.add_right_comm] at this
    simp only [landings]
    split
    · next hplace =>
      obtain ⟨p, hp, halone⟩ := hhead.2 hplace
      exact .cons hp halone htail
    · next hplace =>
      have hview : view s = view P.state := hhead.1 hplace
      rw [← hview]
      exact htail

/-- The program of thread `t` takes effect at event `n`, and nothing of it is to be seen at its
other events. -/
structure EffectAt (view : σ → β) (start : β → σ) (h : Handler Res Ans σ) (es : List (Event Res σ))
    (t : Nat) (p : Prog Res α) (a : α) (n : Nat) : Prop where
  own : ∃ e, es[n]? = some e ∧ e.tid = t
  quiet : ∀ {j} {e : Event Res σ}, es[j]? = some e → e.tid = t → n ≠ j → view e.post = view e.pre
  ends : ∀ {e : Event Res σ}, es[n]? = some e →
    EndsAlone start view h t p (view e.pre) a (view e.post)

theorem AtOnce.effectAt {t : Nat} {p : Prog Res α} {a : α} (ha : AtOnce view start h t p es a) :
    ∃ n, EffectAt view start h es t p a n := by
  obtain ⟨es₁, e₀, es₂, rfl, ht, h₁, h₂, halone⟩ := ha
  have hat : (es₁ ++ e₀ :: es₂)[es₁.length]? = some e₀ := by simp
  refine ⟨es₁.length, ⟨e₀, hat, ht⟩, fun {j e} hj hte hne => ?_, fun {e} hn => ?_⟩
  · rcases Nat.lt_or_gt_of_ne hne with hlt | hlt
    · obtain ⟨k, rfl⟩ : ∃ k, j = es₁.length + (k + 1) := ⟨j - es₁.length - 1, by omega⟩
      rw [List.getElem?_append_right (by omega), Nat.add_sub_cancel_left,
        List.getElem?_cons_succ] at hj
      exact h₂ e (List.mem_of_getElem? hj) hte
    · rw [List.getElem?_append_left hlt] at hj
      exact h₁ e (List.mem_of_getElem? hj) hte
  · rw [hat] at hn
    cases hn
    exact halone

theorem Runs.tid_lt (hr : Runs h P es P') {e : Event Res σ} (he : e ∈ es) :
    e.tid < P.threads.length := by
  induction hr with
  | nil P => cases he
  | cons hk hx _ ih =>
    rcases List.mem_cons.mp he with rfl | he
    · exact (List.getElem?_eq_some_iff.mp hk).1
    · simpa only [List.length_set] using ih he

/-- The program of thread `t` ends with `a`: it had nothing to do, or it takes effect at `n`. -/
structure Settled (view : σ → β) (start : β → σ) (h : Handler Res Ans σ) (P P' : Pool Res σ α)
    (es : List (Event Res σ)) (t : Nat) (a : α) (n : Nat) : Prop where
  ended : P'.threads[t]? = some (.ret a)
  effect : (P.threads[t]? = some (.ret a) ∧ ∀ e ∈ es, e.tid ≠ t) ∨
    ∃ p, P.threads[t]? = some p ∧ EffectAt view start h es t p a n

/-- The order of the places is a serial order. -/
theorem Runs.serial_of_settled {out : Nat → α} {place : Nat → Nat} (hr : Runs h P es P')
    (hstart : view (start (view P.state)) = view P.state)
    (hset : ∀ t, t < P.threads.length → Settled view start h P P' es t (out t) (place t)) :
    ∃ order : List (Nat × α),
      Serially view start h P.threads (view P.state) order (view P'.state) ∧
      (order.map Prod.fst).Perm (List.range P.threads.length) ∧
      (∀ p ∈ order, P'.threads[p.1]? = some (.ret p.2)) ∧
      ∀ t t', Before es t t' → [t, t'].Sublist (order.map Prod.fst) := by
  classical
  let idle := (List.range P.threads.length).filter fun t => ∀ e ∈ es, e.tid ≠ t
  let active := landings place 0 es
  have hidle : ∀ t, t ∈ idle ↔ t < P.threads.length ∧ ∀ e ∈ es, e.tid ≠ t := by
    intro t
    simp only [idle, List.mem_filter, List.mem_range, decide_eq_true_eq]
  have hactive : ∀ t, t ∈ active ↔ t < P.threads.length ∧ ∃ e ∈ es, e.tid = t := by
    intro t
    constructor
    · intro ht
      obtain ⟨j, e, hj, rfl, -⟩ := mem_landings.mp ht
      have he := List.mem_of_getElem? hj
      exact ⟨hr.tid_lt he, e, he, rfl⟩
    · rintro ⟨hlt, e, he, hte⟩
      rcases (hset t hlt).effect with ⟨-, hnone⟩ | ⟨p, -, heff⟩
      · exact absurd hte (hnone e he)
      · obtain ⟨e', he', hte'⟩ := heff.own
        exact mem_landings.mpr ⟨place t, e', he', hte', by omega⟩
  have hthreads : ((idle ++ active).map fun t => (t, out t)).map Prod.fst = idle ++ active := by
    rw [List.map_map]
    exact List.map_id _
  have hmem : ∀ t, t ∈ idle ++ active ↔ t < P.threads.length := by
    intro t
    rw [List.mem_append, hidle, hactive, ← and_or_left, and_iff_left_iff_imp]
    intro _
    by_cases hex : ∃ e ∈ es, e.tid = t
    · exact .inr hex
    · exact .inl fun e he hte => hex ⟨e, he, hte⟩
  refine ⟨(idle ++ active).map fun t => (t, out t), ?_, ?_, ?_, ?_⟩
  · rw [List.map_append]
    refine .append (serially_idle hstart fun p hp => ?_) (hr.serially_landings fun j e hj => ?_)
    · obtain ⟨t, ht, rfl⟩ := List.mem_map.mp hp
      obtain ⟨hlt, hnone⟩ := (hidle t).mp ht
      rcases (hset t hlt).effect with ⟨hret, -⟩ | ⟨p, -, heff⟩
      · exact hret
      · obtain ⟨e, he, hte⟩ := heff.own
        exact absurd hte (hnone e (List.mem_of_getElem? he))
    · have he := List.mem_of_getElem? hj
      rcases (hset e.tid (hr.tid_lt he)).effect with ⟨-, hnone⟩ | ⟨p, hp, heff⟩
      · exact absurd rfl (hnone e he)
      · rw [Nat.zero_add]
        exact ⟨heff.quiet hj rfl, fun hplace => ⟨p, hp, heff.ends (hplace.symm ▸ hj)⟩⟩
  · rw [hthreads]
    have hdisjoint : ∀ t ∈ idle, ∀ t' ∈ active, t ≠ t' := by
      rintro t ht t' ht' rfl
      obtain ⟨e, he, hte⟩ := ((hactive t).mp ht').2
      exact ((hidle t).mp ht).2 e he hte
    have hnodup : (idle ++ active).Nodup :=
      List.nodup_append.mpr ⟨List.nodup_range.filter _, nodup_landings, hdisjoint⟩
    refine (List.perm_ext_iff_of_nodup hnodup List.nodup_range).mpr fun t => ?_
    rw [hmem, List.mem_range]
  · intro p hp
    obtain ⟨t, ht, rfl⟩ := List.mem_map.mp hp
    exact (hset t ((hmem t).mp ht)).ended
  · rintro t t' ⟨es₁, es₂, rfl, ⟨e, he, rfl⟩, ⟨e', he', rfl⟩, hafter, hbefore⟩
    rw [hthreads]
    -- each takes effect at one of its own events, and these are on different sides
    have hsides : active = landings place 0 es₁ ++ landings place (0 + es₁.length) es₂ :=
      landings_append
    have hmem₁ : e.tid ∈ landings place 0 es₁ := by
      have ht : e.tid ∈ active := (hactive _).mpr
        ⟨hr.tid_lt (List.mem_append_left _ he), e, List.mem_append_left _ he, rfl⟩
      rw [hsides] at ht
      refine (List.mem_append.mp ht).resolve_right fun hright => ?_
      obtain ⟨j, e₀, hj, hte, -⟩ := mem_landings.mp hright
      exact hafter e₀ (List.mem_of_getElem? hj) hte
    have hmem₂ : e'.tid ∈ landings place (0 + es₁.length) es₂ := by
      have ht : e'.tid ∈ active := (hactive _).mpr
        ⟨hr.tid_lt (List.mem_append_right _ he'), e', List.mem_append_right _ he', rfl⟩
      rw [hsides] at ht
      refine (List.mem_append.mp ht).resolve_left fun hleft => ?_
      obtain ⟨j, e₀, hj, hte, -⟩ := mem_landings.mp hleft
      exact hbefore e₀ (List.mem_of_getElem? hj) hte
    rw [hsides]
    exact ((List.singleton_sublist.mpr hmem₁).append (List.singleton_sublist.mpr hmem₂)).trans
      (List.sublist_append_right _ _)

/-- **Serial order.** When all programs of a pool are atomic and have ended, they have ended as
they do when each is run alone in some order, which keeps every pair that did not overlap. -/
theorem Runs.serial {c : Nat → Mover view start} (hr : Runs h P es P')
    (hatomic : ∀ t (p : Prog Res α), P.threads[t]? = some p → p.Atomic (c t) h t P.state)
    (hrely : ∀ e ∈ es, ∀ t, e.tid ≠ t → (c t).rely e.pre e.post)
    (hended : ∀ t, t < P.threads.length → ∃ a, P'.threads[t]? = some (.ret a)) :
    ∃ order : List (Nat × α),
      Serially view start h P.threads (view P.state) order (view P'.state) ∧
      (order.map Prod.fst).Perm (List.range P.threads.length) ∧
      (∀ p ∈ order, P'.threads[p.1]? = some (.ret p.2)) ∧
      ∀ t t', Before es t t' → [t, t'].Sublist (order.map Prod.fst) := by
  have hset : ∀ t, t < P.threads.length → ∃ a n, Settled view start h P P' es t a n := by
    intro t hlt
    obtain ⟨a, ha⟩ := hended t hlt
    have hp : P.threads[t]? = some P.threads[t] := List.getElem?_eq_getElem hlt
    rcases hr.atOnce hp (hatomic t _ hp) (fun e he => hrely e he t) ha with honce | ⟨hret, hnone⟩
    · obtain ⟨n, hn⟩ := honce.effectAt
      exact ⟨a, n, ha, .inr ⟨_, hp, hn⟩⟩
    · exact ⟨a, 0, ha, .inl ⟨hret ▸ hp, hnone⟩⟩
  have hstart : view (start (view P.state)) = view P.state :=
    (c 0).view_eq ((c 0).stands_start P.state P.state)
  cases hlen : P.threads with
  | nil =>
    have hes : es = [] := by
      refine List.eq_nil_iff_forall_not_mem.mpr fun e he => ?_
      have := hr.tid_lt he
      rw [hlen] at this
      exact Nat.not_lt_zero _ this
    subst hes
    cases hr
    refine ⟨[], .nil _, .refl _, fun p hp => (List.not_mem_nil hp).elim, ?_⟩
    rintro t t' ⟨es₁, es₂, hes, ⟨e, he, -⟩, -⟩
    rw [(List.append_eq_nil_iff.mp hes.symm).1] at he
    cases he
  | cons p ps =>
    obtain ⟨a, n, -⟩ := hset 0 (by rw [hlen]; exact Nat.succ_pos _)
    have : Nonempty α := ⟨a⟩
    choose! out place hout using hset
    rw [← hlen]
    exact hr.serial_of_settled hstart hout

end serial

end Interleave
