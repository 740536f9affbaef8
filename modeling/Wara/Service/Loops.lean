import Wara.Service.Rules

/-!
# Calls made of parts

Rules that prove a part of a call once, for a call that goes on after it, and for
loops over a list. They need that a promised step stays within what the others
may do, so that what one part has found is still there after the next one.
-/

namespace Wara

open Interleave Store

/-- Tame rules under which a promised step is one that the others may see. -/
structure Close (c : Rules Res World) : Prop extends Tame c where
  within : ∀ {o s r s'}, c.step o s r s' → c.guar o s r s' → c.rely s s'

namespace Service

variable {c : Rules Res World} {α β : Type} {ok : β → World → Prop} {s : World}

theorem Ends.within (hc : Close c) {y : Service β} (h : Ends c y ok s) :
    Ends c y (fun b s' => ok b s' ∧ c.rely s s') s := by
  refine Prog.Safe.mono (Prog.Safe.within h hc.within) fun r s' hr => ?_
  cases r with
  | ok b => exact hr
  | error e => trivial

theorem Ends.mono {y : Service β} {ok' : β → World → Prop} (h : Ends c y ok s)
    (hok : ∀ b s', ok b s' → ok' b s') : Ends c y ok' s :=
  Flow.Safe.mono h hok fun _ _ h => h

/-- A part of the call, and the rest of it. -/
theorem Ends.bind (hc : Close c) {y : Service α} {f : α → Service β} {mid : α → World → Prop}
    (h : Ends c y mid s) (hf : ∀ a s', c.rely s s' → mid a s' → Ends c (f a) ok s') :
    Ends c (y >>= f) ok s :=
  Flow.Safe.bind (Ends.within hc h) fun a s' hm => hf a s' hm.2 hm.1

theorem ends_attempt {y : Service α} {ok : Except ApiError α → World → Prop}
    (h : Ends c y (fun a s' => ∀ s'', c.rely s' s'' → ok (.ok a) s'') s)
    (herr : ∀ e s', ok (.error e) s') : Ends c (attempt y) ok s := by
  unfold Ends Flow.Safe attempt ExceptT.mk
  rw [Prog.safe_bind]
  refine Prog.Safe.mono h fun r s' hr => ?_
  rcases r with (e | m) | a
  · exact fun s'' _ => herr e s''
  · exact fun _ _ => trivial
  · exact hr

variable {g : α → Service β} {as : List α}

/-- What each round finds, stated so that it stays true, holds of all rounds at the end. -/
theorem ends_mapM (hc : Close c) {P : α → β → World → Prop}
    (hP : ∀ a b s s', c.rely s s' → P a b s → P a b s')
    (h : ∀ a ∈ as, ∀ s', c.rely s s' → Ends c (g a) (P a) s') :
    Ends c (as.mapM g) (fun bs s' => List.Forall₂ (P · · s') as bs) s := by
  induction as generalizing s with
  | nil =>
    rw [List.mapM_nil]
    exact ends_pure fun _ _ => .nil
  | cons a as ih =>
    rw [List.mapM_cons]
    refine Ends.bind hc (h a List.mem_cons_self s (c.rely_refl s)) fun b s₁ h₁ hb => ?_
    have hrest := fun a' (ha' : a' ∈ as) s' (hs' : c.rely s₁ s') =>
      h a' (List.mem_cons_of_mem _ ha') s' (c.rely_trans h₁ hs')
    refine Ends.bind hc (ih hrest) fun bs s₂ h₂ hbs => ends_pure fun s₃ h₃ => ?_
    exact .cons (hP a b s₁ s₃ (c.rely_trans h₂ h₃) hb)
      (hbs.imp fun a' b' h' => hP a' b' s₂ s₃ h₃ h')

theorem ends_forM (hc : Close c) {g : α → Service Unit} {P : α → World → Prop}
    (hP : ∀ a s s', c.rely s s' → P a s → P a s')
    (h : ∀ a ∈ as, ∀ s', c.rely s s' → Ends c (g a) (fun _ => P a) s') :
    Ends c (as.forM g) (fun _ s' => ∀ a ∈ as, P a s') s := by
  induction as generalizing s with
  | nil => exact ends_pure fun _ _ => nofun
  | cons a as ih =>
    show Ends c (g a >>= fun _ => as.forM g) _ s
    refine Ends.bind hc (h a List.mem_cons_self s (c.rely_refl s)) fun _ s₁ h₁ ha => ?_
    have hrest := fun a' (ha' : a' ∈ as) s' (hs' : c.rely s₁ s') =>
      h a' (List.mem_cons_of_mem _ ha') s' (c.rely_trans h₁ hs')
    refine Ends.mono (Ends.within hc (ih hrest)) fun _ s₂ hs a' ha' => ?_
    rcases List.mem_cons.mp ha' with rfl | ha'
    · exact hP _ s₁ s₂ hs.2 ha
    · exact hs.1 a' ha'

/-- A result of a loop comes from one of its rounds. -/
theorem exists_of_forall₂ {P : α → β → Prop} {bs : List β} (h : List.Forall₂ P as bs) {b : β}
    (hb : b ∈ bs) : ∃ a ∈ as, P a b := by
  induction h with
  | nil => cases hb
  | cons ha _ ih =>
    rcases List.mem_cons.mp hb with rfl | hb
    · exact ⟨_, List.mem_cons_self, ha⟩
    · obtain ⟨a, hmem, hP⟩ := ih hb
      exact ⟨a, List.mem_cons_of_mem _ hmem, hP⟩

/-- What each round issues and returns, without regard to the state. -/
theorem all_mapM {φ : Op → Prop} {P : α → β → Prop} (h : ∀ a ∈ as, Flow.All φ (g a) (P a)) :
    Flow.All φ (as.mapM g) fun bs => List.Forall₂ P as bs := by
  induction as with
  | nil =>
    rw [List.mapM_nil]
    exact Flow.all_pure.mpr .nil
  | cons a as ih =>
    rw [List.mapM_cons, Flow.all_bind]
    refine Flow.All.mono (h a List.mem_cons_self) (fun _ h => h) fun b hb => ?_
    rw [Flow.all_bind]
    have hrest := ih fun a' ha' => h a' (List.mem_cons_of_mem _ ha')
    exact hrest.mono (fun _ h => h) fun bs hbs => Flow.all_pure.mpr (.cons hb hbs)

theorem all_forM {φ : Op → Prop} {g : α → Service Unit}
    (h : ∀ a ∈ as, Flow.All φ (g a) fun _ => True) : Flow.All φ (as.forM g) fun _ => True := by
  induction as with
  | nil => exact Flow.all_pure.mpr trivial
  | cons a as ih =>
    show Flow.All φ (g a >>= fun _ => as.forM g) _
    rw [Flow.all_bind]
    refine Flow.All.mono (h a List.mem_cons_self) (fun _ h => h) fun _ _ => ?_
    exact ih fun a' ha' => h a' (List.mem_cons_of_mem _ ha')

end Service

end Wara
