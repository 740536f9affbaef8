import Wara.Interleave.Lockstep
import Wara.Service.Loops
import Wara.Store.Alike

/-!
# Two runs of a call

Two states are `Twins` when their databases are alike and the same identifiers
have been generated. On the same answers, twins stay twins as long as the two
calls issue the same reads and related writes; here is one rule for each idiom
of a service, and one for a call that only issues operations which are `Blind`.
What counts as alike is a `Comparison`.
-/

namespace Wara

open Interleave Store

structure Comparison where
  likeness : Likeness layout
  /-- What else is known of the first database. -/
  known : Db → Prop
  /-- Who makes the requests. -/
  caller : User → Prop

/-- The operations of the first run are those of the callers to be compared. -/
def Comparison.Covers (K : Comparison) (o : Op) : Prop := ∀ user, o = .caller user → K.caller user

structure Twins (K : Comparison) (s s' : World) : Prop where
  db : K.likeness.Alike s.db s'.db
  issued : s'.issued = s.issued
  callers : s'.callers = s.callers
  known : K.known s.db

/-- Statements that take twins to twins. -/
structure Parallel (K : Comparison) (ws ws' : List Write) : Prop where
  writes : List.Forall₂ K.likeness.Writes ws ws'
  keeps : ∀ db d, layout.applyAll ws db = some d → K.known db → K.known d

/-- An operation that does not tell twins apart. -/
def Op.Blind (K : Comparison) : Op → Prop
  | .select t f => K.likeness.Sees t f
  | .write w => Parallel K [w] [w]
  | .txWrite w => K.likeness.Writes w w
  | .commit ws => Parallel K ws ws
  | _ => True

section exec

variable {K : Comparison} {s s' : World} {i : Nat} {a : Ans}

theorem Twins.fresh_eq (h : Twins K s s') (u : Uuid) : s'.fresh u = s.fresh u := by
  have hrows : ∀ t : Table, ((s'.db.rows t).all fun r => layout.col 0 r != some (.uuid u)) =
      (s.db.rows t).all fun r => layout.col 0 r != some (.uuid u) := by
    intro t
    have hcols := Likeness.map_col_eq (L := layout) (c := 0) (by cases t <;> decide) (h.db t)
    have hall := congrArg (List.all · fun c => c != some (.uuid u)) hcols
    simpa [List.all_map, Function.comp_def] using hall
  unfold World.fresh
  rw [h.issued]
  simp only [hrows]

theorem Twins.commit {ws ws' : List Write} (h : Twins K s s') (hp : Parallel K ws ws') :
    (s'.commit ws').1 = (s.commit ws).1 ∧ Twins K (s.commit ws).2 (s'.commit ws').2 := by
  unfold World.commit
  rcases h.db.applyAll hp.writes with ⟨hn, hn'⟩ | ⟨d, d', hd, hd', hdd⟩
  · rw [hn, hn']
    exact ⟨rfl, h⟩
  · rw [hd, hd']
    exact ⟨rfl, hdd, h.issued, h.callers, hp.keeps _ _ hd h.known⟩

theorem exec_twins_select {t : Table} {f : Filter} {r : Except DbError (List (Row t))} {s₁ : World}
    (h : Twins K s s') (hf : K.likeness.Respects t f) (hx : exec i (.select t f) a s = some (r, s₁)) :
    ∃ r' s₁', exec i (.select t f) a s' = some (r', s₁') ∧ Twins K s₁ s₁' ∧
      Flow.SameExit (fun rows rows' => List.Forall₂ K.likeness.rel rows rows' ∧
        ∃ db, K.known db ∧ rows = layout.select db t f) r r' := by
  cases a <;> cases hx
  · exact ⟨_, s', rfl, h, h.db.select hf, s.db, h.known, rfl⟩
  · exact ⟨_, s', rfl, h, rfl⟩

theorem exec_twins_write {w w' : Write} {r : Except DbError Unit} {s₁ : World}
    (h : Twins K s s') (hp : Parallel K [w] [w']) (hx : exec i (.write w) a s = some (r, s₁)) :
    ∃ s₁', exec i (.write w') a s' = some (r, s₁') ∧ Twins K s₁ s₁' := by
  cases a <;> simp only [exec, reduceCtorEq, Option.some.injEq] at hx
  · obtain ⟨hr, ht⟩ := h.commit hp
    rw [hx] at hr ht
    refine ⟨(s'.commit [w']).2, ?_, ht⟩
    show some ((s'.commit [w']).1, (s'.commit [w']).2) = _
    rw [hr]
  · cases hx
    exact ⟨s', rfl, h⟩

theorem exec_twins_commit {ws ws' : List Write} {r : Except DbError Unit} {s₁ : World}
    (h : Twins K s s') (hp : Parallel K ws ws') (hx : exec i (.commit ws) a s = some (r, s₁)) :
    ∃ s₁', exec i (.commit ws') a s' = some (r, s₁') ∧ Twins K s₁ s₁' := by
  cases a <;> simp only [exec, reduceCtorEq, Option.some.injEq] at hx
  · obtain ⟨hr, ht⟩ := h.commit hp
    rw [hx] at hr ht
    refine ⟨(s'.commit ws').2, ?_, ht⟩
    show some ((s'.commit ws').1, (s'.commit ws').2) = _
    rw [hr]
  · cases hx
    exact ⟨s', rfl, h⟩

/-- Whether a statement in a transaction is refused is the same for twins. -/
theorem exec_twins_txWrite {w w' : Write} {r : Except DbError Unit} {s₁ : World}
    (h : Twins K s s') (hw : K.likeness.Writes w w') (hx : exec i (.txWrite w) a s = some (r, s₁)) :
    ∃ s₁', exec i (.txWrite w') a s' = some (r, s₁') ∧ Twins K s₁ s₁' := by
  cases a <;> simp only [exec, reduceCtorEq, Option.some.injEq] at hx
  · cases hx
    refine ⟨s', ?_, h⟩
    have hr : (s'.commit [w']).1 = (s.commit [w]).1 := by
      unfold World.commit
      rcases h.db.applyAll (.cons hw .nil) with ⟨hn, hn'⟩ | ⟨d, d', hd, hd', -⟩
      · rw [hn, hn']
      · rw [hd, hd']
    show some ((s'.commit [w']).1, s') = _
    rw [hr]
  · cases hx
    exact ⟨s', rfl, h⟩

theorem exec_twins_newUuid {u : Uuid} {s₁ : World} (h : Twins K s s')
    (hx : exec i .newUuid a s = some (u, s₁)) :
    ∃ s₁', exec i .newUuid a s' = some (u, s₁') ∧ Twins K s₁ s₁' := by
  cases a <;> simp only [exec, reduceCtorEq] at hx
  split at hx
  · next hu =>
    cases hx
    have hu' : s'.fresh u = true := (h.fresh_eq u).trans hu
    refine ⟨s'.issue i u hu', ?_, h.db, ?_, h.callers, h.known⟩
    · simp only [exec, hu', dif_pos]
    · show (i, u) :: s'.issued = (i, u) :: s.issued
      rw [h.issued]
  · cases hx

theorem Op.Blind.lockstep {o : Op} (ho : o.Blind K) : Prog.Blind exec (Twins K) o := by
  intro i a s s' r s₁ h hx
  cases o with
  | select t f =>
    cases a <;> cases hx
    · refine ⟨s', ?_, h⟩
      show some (Except.ok (layout.select s'.db t f), s') = _
      rw [h.db.select_eq ho]
    · exact ⟨s', rfl, h⟩
  | write w => exact exec_twins_write h ho hx
  | commit ws => exact exec_twins_commit h ho hx
  | txWrite w => exact exec_twins_txWrite h ho hx
  | newUuid => exact exec_twins_newUuid h hx
  | caller user =>
    cases a <;> cases hx
    refine ⟨_, rfl, h.db, h.issued, ?_, h.known⟩
    show (i, user) :: s'.callers = (i, user) :: s.callers
    rw [h.callers]
  | randomBytes n =>
    cases a <;> simp only [exec, reduceCtorEq] at hx
    split at hx
    · next hlen =>
      cases hx
      refine ⟨s', ?_, h⟩
      simp only [exec, hlen, dif_pos]
    · cases hx
  | begin => cases a <;> cases hx <;> exact ⟨s', rfl, h⟩
  | now => cases a <;> cases hx; exact ⟨s', rfl, h⟩

end exec

/-! ## Two calls -/

/-- On the same answers twins stay twins, and the calls end with related values or with the same
error. -/
def Agree (K : Comparison) {α β : Type} (y : Service α) (y' : Service β) (R : α → β → Prop) : Prop :=
  Flow.Lockstep exec K.Covers (Twins K) y y' R

namespace Service

variable {K : Comparison} {α α' β β' : Type} {R : α → α' → Prop}
  {R' : β → β' → Prop} {t : Table}

theorem agree_pure {a : α} {a' : α'} (h : R a a') :
    Agree K (pure a) (pure a') R := Flow.lockstep_pure h

theorem agree_throwApi (e : ApiError) :
    Agree K (throwApi e : Service α) (throwApi e : Service α') R := Flow.lockstep_throw _

theorem Agree.mono {y : Service α} {y' : Service α'} {S : α → α' → Prop} (h : Agree K y y' R)
    (hRS : ∀ a a', R a a' → S a a') : Agree K y y' S := Flow.Lockstep.mono h hRS

theorem Agree.bind {y : Service α} {y' : Service α'} {f : α → Service β} {f' : α' → Service β'}
    (h : Agree K y y' R) (hf : ∀ a a', R a a' → Agree K (f a) (f' a') R') :
    Agree K (y >>= f) (y' >>= f') R' := Flow.Lockstep.bind h hf

theorem agree_blind {Q : α → Prop} {y : Service α} (h : Flow.All (Op.Blind K) y Q) :
    Agree K y y fun a a' => a' = a ∧ Q a :=
  Flow.All.lockstep h fun _ ho => ho.lockstep

theorem agree_ite {c c' : Prop} [Decidable c] [Decidable c'] {y z : Service α} {y' z' : Service α'}
    (hc : c' ↔ c) (h : c → Agree K y y' R) (h' : ¬ c → Agree K z z' R) :
    Agree K (if c then y else z) (if c' then y' else z') R := by
  by_cases hb : c
  · rw [if_pos hb, if_pos (hc.mpr hb)]
    exact h hb
  · rw [if_neg hb, if_neg fun hb' => hb (hc.mp hb')]
    exact h' hb

theorem agree_throwIf {c c' : Prop} [Decidable c] [Decidable c'] {e : ApiError} (hc : c' ↔ c) :
    Agree K (throwIf c e) (throwIf c' e) fun _ _ => ¬ c := by
  unfold throwIf
  exact agree_ite hc (fun _ => agree_throwApi e) fun h => agree_pure h

theorem agree_okOr {e : ApiError} {o : Option α} {o' : Option α'} (h : Option.Rel R o o') :
    Agree K (okOr e o) (okOr e o') R := by
  cases h with
  | none => exact agree_throwApi e
  | some h => exact agree_pure h

theorem agree_orThrow {r : Except ApiError α} {r' : Except ApiError α'}
    (h : Flow.SameExit R r r') : Agree K (orThrow r) (orThrow r') R := by
  cases r <;> cases r'
  case ok.ok => exact agree_pure h
  case error.error e e' =>
    obtain rfl : e' = e := h
    exact agree_throwApi _
  all_goals exact h.elim

theorem agree_mapErr {f : String → ApiError} {r : Except String α} {r' : Except String α'}
    (h : Flow.SameExit R r r') : Agree K (mapErr f r) (mapErr f r') R := by
  cases r <;> cases r'
  case ok.ok => exact agree_pure h
  case error.error e e' =>
    obtain rfl : e' = e := h
    exact agree_throwApi _
  all_goals exact h.elim

theorem agree_query {f : Filter} (hf : K.likeness.Respects t f) :
    Agree K (query t f) (query t f) fun rows rows' => List.Forall₂ K.likeness.rel rows rows' ∧
      ∃ db, K.known db ∧ rows = layout.select db t f := by
  have hcall : Agree K (Flow.call (.select t f)) (Flow.call (.select t f))
      (Flow.SameExit fun rows rows' => List.Forall₂ K.likeness.rel rows rows' ∧
        ∃ db, K.known db ∧ rows = layout.select db t f) :=
    Flow.lockstep_call fun _ _ _ _ _ _ _ h hx => exec_twins_select h hf hx
  exact hcall.bind fun _ _ h => agree_mapErr h

theorem agree_first {f : Filter} (hf : K.likeness.Respects t f) :
    Agree K (first t f) (first t f) fun o o' => Option.Rel K.likeness.rel o o' ∧
      ∃ db, K.known db ∧ o = (layout.select db t f).head? := by
  unfold first
  refine (agree_query hf).bind fun rows rows' h => agree_pure ?_
  obtain ⟨hrows, db, hdb, hselect⟩ := h
  refine ⟨?_, db, hdb, congrArg List.head? hselect⟩
  cases hrows with
  | nil => exact .none
  | cons h _ => exact .some h

/-- A statement, its result checked with `?`. -/
theorem agree_result {y y' : Service (Except DbError Unit)}
    (h : Agree K y y' fun r r' => r' = r) :
    Agree K (y >>= fun r => mapErr mapToastyError r) (y' >>= fun r => mapErr mapToastyError r)
      fun _ _ => True := by
  refine h.bind ?_
  rintro _ r rfl
  exact agree_mapErr (by cases r <;> trivial)

/-- On the handle or in a transaction. -/
theorem agree_execute {w w' : Write} (e : Executor) (h : Parallel K [w] [w']) :
    Agree K (execute w e) (execute w' e) fun _ _ => True := by
  cases e with
  | handle =>
    refine agree_result (Flow.lockstep_call fun _ i a s s' r s₁ ht hx => ?_)
    obtain ⟨s₁', hx', ht'⟩ := exec_twins_write ht h hx
    exact ⟨r, s₁', hx', ht', rfl⟩
  | transaction =>
    have hw : K.likeness.Writes w w' := (List.forall₂_cons.mp h.writes).1
    refine agree_result (Flow.lockstep_call fun _ i a s s' r s₁ ht hx => ?_)
    obtain ⟨s₁', hx', ht'⟩ := exec_twins_txWrite ht hw hx
    exact ⟨r, s₁', hx', ht', rfl⟩

theorem agree_create {r r' : Row t} (e : Executor)
    (h : Parallel K [.insert t r] [.insert t r']) (hr : K.likeness.rel r r') :
    Agree K (create e r) (create e r') K.likeness.rel := by
  unfold create
  exact (agree_execute e h).bind fun _ _ _ => agree_pure hr

theorem agree_commit {ws ws' : List Write} (h : Parallel K ws ws') :
    Agree K (commit ws) (commit ws') fun _ _ => True := by
  refine agree_result (Flow.lockstep_call fun _ i a s s' r s₁ ht hx => ?_)
  obtain ⟨s₁', hx', ht'⟩ := exec_twins_commit ht h hx
  exact ⟨r, s₁', hx', ht', rfl⟩

theorem agree_mapM {P : α → α' → Prop} {g : α → Service β} {g' : α' → Service β'} {as : List α}
    {as' : List α'} (has : List.Forall₂ P as as')
    (h : ∀ a a', P a a' → Agree K (g a) (g' a') R') :
    Agree K (as.mapM g) (as'.mapM g') (List.Forall₂ R') := by
  induction has with
  | nil =>
    rw [List.mapM_nil, List.mapM_nil]
    exact agree_pure .nil
  | cons ha _ ih =>
    rw [List.mapM_cons, List.mapM_cons]
    refine (h _ _ ha).bind fun b b' hb => ih.bind fun bs bs' hbs => ?_
    exact agree_pure (.cons hb hbs)

theorem agree_forM {P : α → α' → Prop} {g : α → Service Unit} {g' : α' → Service Unit}
    {as : List α} {as' : List α'} (has : List.Forall₂ P as as')
    (h : ∀ a a', P a a' → Agree K (g a) (g' a') fun _ _ => True) :
    Agree K (as.forM g) (as'.forM g') fun _ _ => True := by
  induction has with
  | nil => exact agree_pure trivial
  | @cons a a' as as' ha _ ih =>
    show Agree K (g a >>= fun _ => as.forM g) (g' a' >>= fun _ => as'.forM g') _
    exact (h a a' ha).bind fun _ _ _ => ih

end Service

end Wara
