import Mathlib.Data.Set.Basic
import Wara.Interleave.Pool

/-!
# What a program knows

An operation may depend on the results before it. `learn o r` is what the result
`r` of `o` tells; a program is `Informed` when each of its operations satisfies `φ`
of what is known by then: what was known at the start, and what the results of the
program have told since.

* `Runs.informed`: the operations of a run satisfy `φ` of what the run has told.
-/

namespace Interleave

variable {Op : Type} {Res : Op → Type} {Ans σ α β κ : Type}

/-- More knowledge allows more. -/
def Grows (φ : Set κ → Op → Prop) : Prop := ∀ K K' o, K ⊆ K' → φ K o → φ K' o

namespace Prog

def Informed (learn : (o : Op) → Res o → Set κ) (φ : Set κ → Op → Prop) :
    Set κ → Prog Res α → Prop
  | _, .ret _ => True
  | K, .op o k => φ K o ∧ ∀ r, (k r).Informed learn φ (K ∪ learn o r)

variable {learn : (o : Op) → Res o → Set κ} {φ : Set κ → Op → Prop} {K K' : Set κ}

theorem Informed.mono (hφ : Grows φ) {p : Prog Res α} (h : p.Informed learn φ K) (hK : K ⊆ K') :
    p.Informed learn φ K' := by
  induction p generalizing K K' with
  | ret a => trivial
  | op o k ih =>
    exact ⟨hφ K K' o hK h.1, fun r => ih r (h.2 r) (Set.union_subset_union_left _ hK)⟩

/-- A part that needs nothing that it learns itself, and the rest. -/
theorem informed_bind (hφ : Grows φ) {p : Prog Res α} {f : α → Prog Res β} {Q : α → Prop}
    (hp : p.All (φ K) Q) (hf : ∀ a, Q a → (f a).Informed learn φ K) :
    (p.bind f).Informed learn φ K := by
  induction p generalizing K with
  | ret a => exact hf a hp
  | op o k ih =>
    refine ⟨hp.1, fun r => ?_⟩
    have hgrown : (k r).All (φ (K ∪ learn o r)) Q :=
      (hp.2 r).mono (fun o' => hφ K _ o' Set.subset_union_left) fun _ h => h
    exact ih r hgrown fun a ha => (hf a ha).mono hφ Set.subset_union_left

/-- Two parts, where the second can do with any knowledge. -/
theorem Informed.bind {p : Prog Res α} {f : α → Prog Res β} (hp : p.Informed learn φ K)
    (hf : ∀ a K, (f a).Informed learn φ K) : (p.bind f).Informed learn φ K := by
  induction p generalizing K with
  | ret a => exact hf a K
  | op o k ih => exact ⟨hp.1, fun r => ih r (hp.2 r)⟩

theorem All.informed (hφ : Grows φ) {p : Prog Res α} {Q : α → Prop} (hp : p.All (φ K) Q) :
    p.Informed learn φ K := by
  rw [← bind_ret p]
  exact informed_bind hφ hp fun _ _ => trivial

end Prog

namespace Flow

variable {ε : Type} {learn : (o : Op) → Res o → Set κ} {φ : Set κ → Op → Prop} {K : Set κ}

abbrev Informed (learn : (o : Op) → Res o → Set κ) (φ : Set κ → Op → Prop) (K : Set κ)
    (x : Flow Res ε α) : Prop :=
  Prog.Informed learn φ K x

theorem informed_bind (hφ : Grows φ) {x : Flow Res ε α} {f : α → Flow Res ε β} {Q : α → Prop}
    (hx : All (φ K) x Q) (hf : ∀ a, Q a → Informed learn φ K (f a)) :
    Informed learn φ K (x >>= f) := by
  show Prog.Informed learn φ K (x >>= f : Flow Res ε β)
  rw [bind_eq]
  refine Prog.informed_bind hφ hx fun r hr => ?_
  cases r with
  | ok a => exact hf a (hr a rfl)
  | error e => trivial

/-- What follows an operation may use what its result tells. -/
theorem informed_call {o : Op} {f : Res o → Flow Res ε β} (ho : φ K o)
    (hf : ∀ r, Informed learn φ (K ∪ learn o r) (f r)) :
    Informed learn φ K (call o >>= f) := by
  show Prog.Informed learn φ K (call o >>= f : Flow Res ε β)
  rw [bind_eq]
  exact ⟨ho, hf⟩

theorem All.informed (hφ : Grows φ) {x : Flow Res ε α} {Q : α → Prop} (hx : All (φ K) x Q) :
    Informed learn φ K x :=
  Prog.All.informed hφ hx

theorem Informed.map {x : Flow Res ε α} (hx : Informed learn φ K x) (g : α → β) :
    Informed learn φ K (g <$> x) := by
  have hmap : (g <$> x : Flow Res ε β) = Prog.bind x (next fun a => .ret (.ok (g a))) := by
    rw [← bind_pure_comp, bind_eq]
    rfl
  rw [hmap]
  refine Prog.Informed.bind hx fun r K' => ?_
  cases r <;> trivial

end Flow

/-! ## Runs -/

/-- What the results of the events tell. -/
def told (learn : (o : Op) → Res o → Set κ) (es : List (Event Res σ)) : Set κ :=
  {a | ∃ e ∈ es, a ∈ learn e.op e.res}

namespace Runs

variable {h : Handler Res Ans σ} {P P' : Pool Res σ α} {es : List (Event Res σ)}
  {learn : (o : Op) → Res o → Set κ} {φ : Set κ → Op → Prop}

/-- **Informed runs.** Every operation of the run satisfies `φ` of what the run has told. -/
theorem informed (hr : Runs h P es P') (hφ : Grows φ) {K : Set κ}
    (hP : ∀ p ∈ P.threads, p.Informed learn φ K) :
    ∀ e ∈ es, φ (K ∪ told learn es) e.op := by
  induction hr generalizing K with
  | nil P =>
    intro e he
    cases he
  | @cons P P' i o k x r s es hk hx _ ih =>
    have hthread : (Prog.op o k).Informed learn φ K := hP _ (List.mem_of_getElem? hk)
    have htold : K ∪ learn o r ∪ told learn es ⊆ K ∪ told learn (⟨i, o, r, P.state, s⟩ :: es) := by
      rintro a ((ha | ha) | ⟨e, he, ha⟩)
      · exact .inl ha
      · exact .inr ⟨_, List.mem_cons_self, ha⟩
      · exact .inr ⟨e, List.mem_cons_of_mem _ he, ha⟩
    have hrest : ∀ p ∈ P.threads.set i (k r), p.Informed learn φ (K ∪ learn o r) := by
      intro p hp
      rcases List.mem_or_eq_of_mem_set hp with hp | rfl
      · exact (hP p hp).mono hφ Set.subset_union_left
      · exact hthread.2 r
    intro e he
    rcases List.mem_cons.mp he with rfl | he
    · exact hφ K _ o Set.subset_union_left hthread.1
    · exact hφ _ _ e.op htold (ih hrest e he)

end Runs

end Interleave
