import Wara.Interleave.Pool

/-!
# Programs that commit last

A program `Prog.Lastly` may do one thing of a kind, and when it has, it does no
other and ends well. So a thread that has ended badly has done nothing of the
kind, whatever the other threads did.
-/

namespace Interleave

variable {Op : Type} {Res : Op → Type} {Ans σ α β : Type}

namespace Prog

variable {commits : (o : Op) → Res o → Prop} {good : α → Prop}

/-- No result of the operation is of the kind. -/
def Never (commits : (o : Op) → Res o → Prop) (o : Op) : Prop := ∀ r, ¬ commits o r

/-- Whatever is left after an operation of the kind is not, and ends well. -/
def Lastly (commits : (o : Op) → Res o → Prop) (good : α → Prop) : Prog Res α → Prop
  | .ret _ => True
  | .op o k => ∀ r, (commits o r → (k r).All (Never commits) good) ∧
    (¬ commits o r → (k r).Lastly commits good)

theorem All.lastly {p : Prog Res α} {Q : α → Prop} (h : p.All (Never commits) Q) :
    p.Lastly commits good := by
  induction p with
  | ret a => trivial
  | op o k ih => exact fun r => ⟨fun hr => (h.1 r hr).elim, fun _ => ih r (h.2 r)⟩

/-- A first part that does nothing of the kind. -/
theorem Lastly.after {p : Prog Res α} {f : α → Prog Res β} {good : β → Prop} {Q : α → Prop}
    (h : p.All (Never commits) Q) (hf : ∀ a, Q a → (f a).Lastly commits good) :
    (p.bind f).Lastly commits good := by
  induction p with
  | ret a => exact hf a h
  | op o k ih => exact fun r => ⟨fun hr => (h.1 r hr).elim, fun _ => ih r (h.2 r)⟩

/-- A second part that does nothing of the kind, and ends well when the first part does. -/
theorem Lastly.followed {p : Prog Res α} {f : α → Prog Res β} {good' : β → Prop}
    (h : p.Lastly commits good) (hf : ∀ a, (f a).Lastly commits good')
    (hgood : ∀ a, good a → (f a).All (Never commits) good') :
    (p.bind f).Lastly commits good' := by
  induction p with
  | ret a => exact hf a
  | op o k ih =>
    refine fun r => ⟨fun hr => ?_, fun hr => ih r ((h r).2 hr)⟩
    exact all_bind.mpr (((h r).1 hr).mono (fun _ h => h) hgood)

end Prog

section runs

variable {h : Handler Res Ans σ} {P P' : Pool Res σ α} {es : List (Event Res σ)}
  {commits : (o : Op) → Res o → Prop} {good : α → Prop} {i : Nat} {a : α}

/-- A thread that does nothing of the kind, and how it ends. -/
theorem Runs.never (hr : Runs h P es P') {p : Prog Res α} (hp : P.threads[i]? = some p)
    (hall : p.All (Prog.Never commits) good) :
    (∀ e ∈ es, e.tid = i → Prog.Never commits e.op) ∧
      ∀ a, P'.threads[i]? = some (.ret a) → good a := by
  have hruns := hr.all (φ := fun j o => j = i → Prog.Never commits o)
    (Q := fun j a => j = i → good a) fun j q hq => ?_
  · exact ⟨hruns.1, fun a ha => hruns.2 i _ ha rfl⟩
  · by_cases hj : j = i
    · subst hj
      rw [hp] at hq
      cases hq
      exact hall.mono (fun _ h _ => h) fun _ h _ => h
    · exact (Prog.all_trivial q).mono (fun _ _ he => (hj he).elim) fun _ _ he => (hj he).elim

/-- **At most once.** A thread that commits last does so once. -/
theorem Runs.committed_once (hr : Runs h P es P') {p : Prog Res α}
    (hp : P.threads[i]? = some p) (hl : p.Lastly commits good) :
    es.Pairwise fun e e' => e.tid = i → e'.tid = i → commits e.op e.res →
      ¬ commits e'.op e'.res := by
  induction hr generalizing p with
  | nil P => exact .nil
  | @cons P P' j o k x r s es hk hx hr ih =>
    obtain ⟨hlt, -⟩ := List.getElem?_eq_some_iff.mp hk
    by_cases hj : j = i
    · subst hj
      rw [hp] at hk
      cases hk
      have hnext : (P.threads.set j (k r))[j]? = some (k r) := List.getElem?_set_self hlt
      by_cases hc : commits o r
      · have hnever := (hr.never hnext ((hl r).1 hc)).1
        refine .cons (fun e' he' _ htid _ => hnever e' he' htid e'.res) ?_
        exact List.Pairwise.imp_of_mem (fun _ he' _ _ htid _ => hnever _ he' htid _)
          (List.pairwise_of_forall fun _ _ => trivial)
      · exact .cons (fun e' _ _ _ hc' => (hc hc').elim) (ih hnext ((hl r).2 hc))
    · have hnext : (P.threads.set j (k r))[i]? = some p := by
        rw [List.getElem?_set_ne hj]
        exact hp
      exact .cons (fun e' _ htid => (hj htid).elim) (ih hnext hl)

/-- **All or nothing.** A thread that commits last and has ended badly has not committed. -/
theorem Runs.nothing_committed (hr : Runs h P es P') {p : Prog Res α}
    (hp : P.threads[i]? = some p) (hl : p.Lastly commits good)
    (hend : P'.threads[i]? = some (.ret a)) (ha : ¬ good a) :
    ∀ e ∈ es, e.tid = i → ¬ commits e.op e.res := by
  induction hr generalizing p with
  | nil P => exact fun e he => (List.not_mem_nil he).elim
  | @cons P P' j o k x r s es hk hx hr ih =>
    obtain ⟨hlt, -⟩ := List.getElem?_eq_some_iff.mp hk
    by_cases hj : j = i
    · subst hj
      rw [hp] at hk
      cases hk
      have hnext : (P.threads.set j (k r))[j]? = some (k r) := List.getElem?_set_self hlt
      have hno : ¬ commits o r := fun hc => ha ((hr.never hnext ((hl r).1 hc)).2 a hend)
      intro e he htid
      rcases List.mem_cons.mp he with rfl | he
      · exact hno
      · exact ih hnext ((hl r).2 hno) hend e he htid
    · have hnext : (P.threads.set j (k r))[i]? = some p := by
        rw [List.getElem?_set_ne hj]
        exact hp
      intro e he htid
      rcases List.mem_cons.mp he with rfl | he
      · exact (hj htid).elim
      · exact ih hnext hl hend e he htid

end runs

end Interleave
