import Wara.Service.Rules
import Wara.Interleave.Solo

/-!
# How a call that runs alone ends

`Yields i y Q s` for service calls, with one rule for each idiom followed by the
rest of the call. A statement's answer is `.done`, or `.fail e` when it fails, so
that `xs` shows which statement failed.
-/

namespace Wara

open Interleave Store

theorem World.commit_single (s : World) (w : Write) :
    s.commit [w] = match layout.apply w s.db with
      | some db => (.ok (), { s with db := db })
      | none => (.error duplicateKey, s) := by
  unfold World.commit
  cases hw : layout.apply w s.db with
  | none => simp [Layout.applyAll, hw]
  | some db => rw [Layout.applyAll_cons.mpr ⟨db, hw, Layout.applyAll_nil.mpr rfl⟩]

/-- Every run of the call alone, as thread `i`, ends in `Q`. -/
def Yields {α : Type} (i : Nat) (y : Service α) (Q : List Ans → Except Abort α → World → Prop)
    (s : World) : Prop := Prog.Yields exec i y Q s

namespace Service

variable {i : Nat} {α β : Type} {s : World} {t : Table}
  {Q : List Ans → Except Abort β → World → Prop}

theorem Yields.mono {y : Service β} {Q' : List Ans → Except Abort β → World → Prop}
    (h : Yields i y Q s) (hQ : ∀ xs r s', Q xs r s' → Q' xs r s') : Yields i y Q' s :=
  Prog.Yields.mono h hQ

theorem yields_bind {y : Service α} {f : α → Service β}
    (h : Yields i y (fun xs r s' => match r with
      | .ok a => Yields i (f a) (fun ys => Q (xs ++ ys)) s'
      | .error e => Q xs (.error e) s') s) : Yields i (y >>= f) Q s := by
  refine Flow.yields_bind (Yields.mono h fun xs r s' hr => ?_)
  cases r <;> exact hr

theorem yields_pure {b : β} (h : Q [] (.ok b) s) : Yields i (pure b) Q s := Prog.yields_ret h

theorem yields_throw {e : Abort} (h : Q [] (.error e) s) : Yields i (throw e) Q s :=
  Prog.yields_ret h

theorem yields_throwApi {e : ApiError} (h : Q [] (.error (.api e)) s) :
    Yields i (throwApi e) Q s := Prog.yields_ret h

/-- A call that ends by making something of what a part returned. -/
theorem yields_bind_pure {y : Service α} {f : α → β}
    (h : Yields i y (fun xs r s' => Q xs (r.map f) s') s) :
    Yields i (y >>= fun a => pure (f a)) Q s := by
  refine yields_bind (Yields.mono h fun xs r s' hr => ?_)
  cases r with
  | ok a => exact yields_pure (by rw [List.append_nil]; exact hr)
  | error e => exact hr

theorem yields_okOr {e : ApiError} {o : Option α} {f : α → Service β}
    (hnone : o = none → Q [] (.error (.api e)) s) (hsome : ∀ a, o = some a → Yields i (f a) Q s) :
    Yields i (okOr e o >>= f) Q s := by
  cases o with
  | none => exact yields_bind (yields_throwApi (hnone rfl))
  | some a => exact yields_bind (yields_pure (hsome a rfl))

theorem yields_throwIf {b : Prop} [Decidable b] {e : ApiError} {f : Unit → Service β}
    (herr : b → Q [] (.error (.api e)) s) (h : ¬ b → Yields i (f ()) Q s) :
    Yields i (throwIf b e >>= f) Q s := by
  unfold throwIf
  split
  · next hb => exact yields_bind (yields_throwApi (herr hb))
  · next hb => exact yields_bind (yields_pure (h hb))

theorem yields_mapErr {g : String → ApiError} {r : Except String α} {f : α → Service β}
    (herr : ∀ e, r = .error e → Q [] (.error (.api (g e))) s)
    (hok : ∀ a, r = .ok a → Yields i (f a) Q s) : Yields i (mapErr g r >>= f) Q s := by
  cases r with
  | error e => exact yields_bind (yields_throwApi (herr e rfl))
  | ok a => exact yields_bind (yields_pure (hok a rfl))

theorem yields_orThrow {r : Except ApiError α} {f : α → Service β}
    (herr : ∀ e, r = .error e → Q [] (.error (.api e)) s)
    (hok : ∀ a, r = .ok a → Yields i (f a) Q s) : Yields i (orThrow r >>= f) Q s := by
  cases r with
  | error e => exact yields_bind (yields_throwApi (herr e rfl))
  | ok a => exact yields_bind (yields_pure (hok a rfl))

theorem yields_orPanic {r : Except String α} {f : α → Service β}
    (herr : ∀ e, r = .error e → Q [] (.error (.panic e)) s)
    (hok : ∀ a, r = .ok a → Yields i (f a) Q s) : Yields i (orPanic r >>= f) Q s := by
  cases r with
  | error e => exact yields_bind (yields_throw (herr e rfl))
  | ok a => exact yields_bind (yields_pure (hok a rfl))

/-- A part of the call whose error is looked at; a panic goes on. -/
theorem yields_attempt {y : Service α} {f : Except ApiError α → Service β}
    (h : Yields i y (fun xs r s' => match r with
      | .ok a => Yields i (f (.ok a)) (fun ys => Q (xs ++ ys)) s'
      | .error (.api e) => Yields i (f (.error e)) (fun ys => Q (xs ++ ys)) s'
      | .error (.panic m) => Q xs (.error (.panic m)) s') s) :
    Yields i (attempt y >>= f) Q s := by
  refine yields_bind (Prog.yields_bind (Yields.mono h fun xs r s' hr => ?_))
  rcases r with (e | m) | a
  · refine Prog.yields_ret ?_
    rw [List.append_nil]
    exact hr
  · refine Prog.yields_ret ?_
    rw [List.append_nil]
    exact hr
  · refine Prog.yields_ret ?_
    rw [List.append_nil]
    exact hr

/-- How a failed statement ends the call. -/
abbrev failed {β : Type} (e : DbError) : Except Abort β := .error (.api (mapToastyError e))

theorem yields_query {flt : Filter} {f : List (Row t) → Service β}
    (hfail : ∀ e, Q [.fail e] (failed e) s)
    (h : Yields i (f (layout.select s.db t flt)) (fun ys => Q (.done :: ys)) s) :
    Yields i (query t flt >>= f) Q s := by
  refine yields_bind (Prog.yields_op fun x r s₁ hx => ?_)
  cases x <;> cases hx
  · exact Prog.yields_ret h
  · next e => exact Prog.yields_ret (hfail e)

theorem yields_first {flt : Filter} {f : Option (Row t) → Service β}
    (hfail : ∀ e, Q [.fail e] (failed e) s)
    (h : Yields i (f (layout.select s.db t flt).head?) (fun ys => Q (.done :: ys)) s) :
    Yields i (first t flt >>= f) Q s := by
  unfold first
  rw [bind_assoc]
  refine yields_query hfail ?_
  rw [pure_bind]
  exact h

/-- A write statement: it fails, a unique index refuses it, or it takes effect. -/
theorem yields_write {w : Write} {f : Unit → Service β} (hfail : ∀ e, Q [.fail e] (failed e) s)
    (hdup : layout.apply w s.db = none → Q [.done] (failed duplicateKey) s)
    (h : ∀ db, layout.apply w s.db = some db →
      Yields i (f ()) (fun ys => Q (.done :: ys)) { s with db := db }) :
    Yields i (execute w .handle >>= f) Q s := by
  refine yields_bind (Prog.yields_op fun x r s₁ hx => ?_)
  cases x <;> simp only [exec, reduceCtorEq, Option.some.injEq] at hx
  · rw [World.commit_single] at hx
    split at hx
    · next db hw => cases hx; exact Prog.yields_ret (h db hw)
    · next hw => cases hx; exact Prog.yields_ret (hdup hw)
  · cases hx
    exact Prog.yields_ret (hfail _)

theorem yields_update {flt : Filter} {sets : List (Nat × Value)} {f : Unit → Service β}
    (hfail : ∀ e, Q [.fail e] (failed e) s)
    (hdup : layout.apply (.update t flt sets) s.db = none → Q [.done] (failed duplicateKey) s)
    (h : ∀ db, layout.apply (.update t flt sets) s.db = some db →
      Yields i (f ()) (fun ys => Q (.done :: ys)) { s with db := db }) :
    Yields i (update t flt sets >>= f) Q s := yields_write hfail hdup h

theorem yields_create {r : Row t} {f : Row t → Service β} (hfail : ∀ e, Q [.fail e] (failed e) s)
    (hdup : layout.apply (.insert t r) s.db = none → Q [.done] (failed duplicateKey) s)
    (h : ∀ db, layout.apply (.insert t r) s.db = some db →
      Yields i (f r) (fun ys => Q (.done :: ys)) { s with db := db }) :
    Yields i (create .handle r >>= f) Q s := by
  unfold create
  rw [bind_assoc]
  refine yields_write hfail hdup fun db hdb => ?_
  rw [pure_bind]
  exact h db hdb

theorem yields_transaction {f : Unit → Service β} (hfail : ∀ e, Q [.fail e] (failed e) s)
    (h : Yields i (f ()) (fun ys => Q (.done :: ys)) s) : Yields i (transaction >>= f) Q s := by
  refine yields_bind (Prog.yields_op fun x r s₁ hx => ?_)
  cases x <;> cases hx
  · exact Prog.yields_ret h
  · exact Prog.yields_ret (hfail _)

/-- A statement inside a transaction changes nothing yet. -/
theorem yields_txWrite {w : Write} {f : Unit → Service β} (hfail : ∀ e, Q [.fail e] (failed e) s)
    (hdup : layout.apply w s.db = none → Q [.done] (failed duplicateKey) s)
    (h : Yields i (f ()) (fun ys => Q (.done :: ys)) s) :
    Yields i (execute w .transaction >>= f) Q s := by
  refine yields_bind (Prog.yields_op fun x r s₁ hx => ?_)
  cases x <;> simp only [exec, reduceCtorEq, Option.some.injEq, Prod.mk.injEq] at hx
  · obtain ⟨rfl, rfl⟩ := hx
    rw [World.commit_single]
    cases hw : layout.apply w s.db with
    | none => exact Prog.yields_ret (hdup hw)
    | some db => exact Prog.yields_ret h
  · obtain ⟨rfl, rfl⟩ := hx
    exact Prog.yields_ret (hfail _)

theorem yields_txCreate {r : Row t} {f : Row t → Service β} (hfail : ∀ e, Q [.fail e] (failed e) s)
    (hdup : layout.apply (.insert t r) s.db = none → Q [.done] (failed duplicateKey) s)
    (h : Yields i (f r) (fun ys => Q (.done :: ys)) s) :
    Yields i (create .transaction r >>= f) Q s := by
  unfold create
  rw [bind_assoc]
  refine yields_txWrite hfail hdup ?_
  rw [pure_bind]
  exact h

theorem yields_commit {ws : List Write} {f : Unit → Service β}
    (hfail : ∀ e, Q [.fail e] (failed e) s)
    (hdup : layout.applyAll ws s.db = none → Q [.done] (failed duplicateKey) s)
    (h : ∀ db, layout.applyAll ws s.db = some db →
      Yields i (f ()) (fun ys => Q (.done :: ys)) { s with db := db }) :
    Yields i (commit ws >>= f) Q s := by
  refine yields_bind (Prog.yields_op fun x r s₁ hx => ?_)
  cases x <;> simp only [exec, reduceCtorEq, Option.some.injEq] at hx
  · unfold World.commit at hx
    split at hx
    · next db hdb => cases hx; exact Prog.yields_ret (h db hdb)
    · next hdb => cases hx; exact Prog.yields_ret (hdup hdb)
  · cases hx
    exact Prog.yields_ret (hfail _)

theorem yields_now {f : DateTime → Service β}
    (h : ∀ time, Yields i (f time) (fun ys => Q (.time time :: ys)) s) :
    Yields i (now >>= f) Q s := by
  refine yields_bind (Prog.yields_op fun x r s₁ hx => ?_)
  cases x <;> cases hx
  exact Prog.yields_ret (h r)

theorem yields_nowV7 {f : Uuid → Service β}
    (h : ∀ u (hu : s.fresh u = true),
      Yields i (f u) (fun ys => Q (.uuid u :: ys)) (s.issue i u hu)) :
    Yields i (nowV7 >>= f) Q s := by
  refine yields_bind (Prog.yields_op fun x u s₁ hx => ?_)
  cases x <;> simp only [exec, reduceCtorEq] at hx
  split at hx
  · next hu => cases hx; exact Prog.yields_ret (h _ hu)
  · cases hx

theorem yields_randomBytes {n : Nat} {f : Bytes n → Service β}
    (h : ∀ bs : Bytes n, Yields i (f bs) (fun ys => Q (.bytes bs.val :: ys)) s) :
    Yields i (randomBytes n >>= f) Q s := by
  refine yields_bind (Prog.yields_op fun x bs s₁ hx => ?_)
  cases x <;> simp only [exec, reduceCtorEq] at hx
  split at hx
  · cases hx; exact Prog.yields_ret (h _)
  · cases hx

/-! ## Runs of the idioms -/

theorem run_pure (a : α) : Prog.run exec i (pure a : Service α) [] s = some (.ok a, s) := rfl

theorem run_nowV7 {u : Uuid} (hu : s.fresh u = true) :
    Prog.run exec i nowV7 [.uuid u] s = some (.ok u, s.issue i u hu) := by
  show Prog.run exec i (.op .newUuid fun r => .ret (Except.ok r)) [.uuid u] s = _
  exact Prog.run_op.mpr ⟨.uuid u, [], u, s.issue i u hu, rfl, dif_pos hu, rfl⟩

theorem run_create {r : Row t} {db : Db} (h : layout.apply (.insert t r) s.db = some db) :
    Prog.run exec i (create .handle r) [.done] s = some (.ok r, { s with db := db }) := by
  have hcommit : s.commit [.insert t r] = (.ok (), { s with db := db }) := by
    rw [World.commit_single, h]
  show Prog.run exec i (.op (.write (.insert t r)) _) [.done] s = _
  exact Prog.run_op.mpr ⟨.done, [], .ok (), _, rfl, congrArg some hcommit, rfl⟩

/-- No statement of the run fails. -/
def NoFailure (xs : List Ans) : Prop := ∀ e, Ans.fail e ∉ xs

theorem noFailure_append {xs ys : List Ans} :
    NoFailure (xs ++ ys) ↔ NoFailure xs ∧ NoFailure ys := by
  simp only [NoFailure, List.mem_append, not_or, forall_and]

theorem noFailure_cons {a : Ans} {xs : List Ans} (ha : ∀ e, a ≠ .fail e) :
    NoFailure (a :: xs) ↔ NoFailure xs := by
  simp only [NoFailure, List.mem_cons, not_or, (fun e => (ha e).symm : ∀ e, .fail e ≠ a),
    not_false_eq_true, true_and]

/-- The clock readings of a run, in order. -/
def readings (xs : List Ans) : List DateTime :=
  xs.filterMap fun
    | .time t => some t
    | _ => none

theorem readings_append (xs ys : List Ans) : readings (xs ++ ys) = readings xs ++ readings ys :=
  List.filterMap_append

@[simp] theorem readings_nil : readings [] = [] := rfl

@[simp] theorem readings_time (t : DateTime) (xs : List Ans) :
    readings (.time t :: xs) = t :: readings xs := rfl

@[simp] theorem readings_done (xs : List Ans) : readings (.done :: xs) = readings xs := rfl

@[simp] theorem readings_fail (e : DbError) (xs : List Ans) :
    readings (.fail e :: xs) = readings xs := rfl

@[simp] theorem readings_uuid (u : Uuid) (xs : List Ans) :
    readings (.uuid u :: xs) = readings xs := rfl

@[simp] theorem readings_bytes (bs : List UInt8) (xs : List Ans) :
    readings (.bytes bs :: xs) = readings xs := rfl

/-! ## A call that is cut off -/

/-- Every state of a run of the call alone, up to any point, is in `V`. -/
def Visits (i : Nat) (y : Service α) (V : List Ans → World → Prop) (s : World) : Prop :=
  Prog.Visits exec i y V s

variable {V : List Ans → World → Prop}

theorem visits_orThrow {r : Except ApiError α} {f : α → Service β}
    (herr : ∀ e, r = .error e → V [] s) (hok : ∀ a, r = .ok a → Visits i (f a) V s) :
    Visits i (orThrow r >>= f) V s := by
  cases r with
  | error e => exact Prog.visits_ret (herr e rfl)
  | ok a => exact hok a rfl

theorem visits_query {flt : Filter} {f : List (Row t) → Service β} (h0 : V [] s)
    (hfail : ∀ e, V [.fail e] s)
    (h : Visits i (f (layout.select s.db t flt)) (fun ys => V (.done :: ys)) s) :
    Visits i (query t flt >>= f) V s := by
  refine Prog.visits_op h0 fun x r s₁ hx => ?_
  cases x <;> cases hx
  · exact h
  · exact Prog.visits_ret (hfail _)

theorem visits_nowV7 {f : Uuid → Service β} (h0 : V [] s)
    (h : ∀ u (hu : s.fresh u = true),
      Visits i (f u) (fun ys => V (.uuid u :: ys)) (s.issue i u hu)) :
    Visits i (nowV7 >>= f) V s := by
  refine Prog.visits_op h0 fun x u s₁ hx => ?_
  cases x <;> simp only [exec, reduceCtorEq] at hx
  split at hx
  · next hu => cases hx; exact h _ hu
  · cases hx

theorem visits_update {flt : Filter} {sets : List (Nat × Value)} {f : Unit → Service β}
    (h0 : V [] s) (hfail : ∀ e, V [.fail e] s)
    (hdup : layout.apply (.update t flt sets) s.db = none → V [.done] s)
    (h : ∀ db, layout.apply (.update t flt sets) s.db = some db →
      Visits i (f ()) (fun ys => V (.done :: ys)) { s with db := db }) :
    Visits i (update t flt sets >>= f) V s := by
  refine Prog.visits_op h0 fun x r s₁ hx => ?_
  cases x <;> simp only [exec, reduceCtorEq, Option.some.injEq] at hx
  · rw [World.commit_single] at hx
    split at hx
    · next db hw => cases hx; exact h db hw
    · next hw => cases hx; exact Prog.visits_ret (hdup hw)
  · cases hx
    exact Prog.visits_ret (hfail _)

end Service

end Wara
