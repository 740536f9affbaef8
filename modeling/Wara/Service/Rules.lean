import Wara.Service.Monad
import Wara.Interleave.Pool

/-!
# Rules for service calls

What one operation does to the database (`exec_db`), said once; what a service
call can issue (`Flow.Issues`, whose lemmas are simp lemmas); and how a call
ends (`Ends`), with one rule for each idiom followed by the rest of the call.
-/

namespace Wara

open Interleave Store

/-! ## One operation -/

/-- The writes that take effect when the operation succeeds. -/
def Op.writes : Op → List Write
  | .write w => [w]
  | .commit ws => ws
  | _ => []

def Op.succeeded : (o : Op) → Res o → Bool
  | .select _ _, r => r.isOk
  | .write _, r => r.isOk
  | .begin, r => r.isOk
  | .txWrite _, r => r.isOk
  | .commit _, r => r.isOk
  | _, _ => true

theorem World.commit_eq {w w' : World} {ws : List Write} {r : Except DbError Unit}
    (h : w.commit ws = (r, w')) : (∃ e, r = .error e ∧ w' = w) ∨
      r = .ok () ∧ ∃ db, layout.applyAll ws w.db = some db ∧ w' = { w with db := db } := by
  unfold World.commit at h
  split at h
  · next db hdb => cases h; exact .inr ⟨rfl, db, hdb, rfl⟩
  · cases h; exact .inl ⟨_, rfl, rfl⟩

section exec

variable {i : Nat} {x : Ans} {w w' : World}

theorem exec_select {t : Table} {f : Filter} {r : Res (.select t f)}
    (h : exec i (.select t f) x w = some (r, w')) :
    w' = w ∧ ((∃ e, r = .error e) ∨ r = .ok (layout.select w.db t f)) := by
  cases x <;> cases h
  · exact ⟨rfl, .inr rfl⟩
  · exact ⟨rfl, .inl ⟨_, rfl⟩⟩

theorem exec_write {s : Write} {r : Res (.write s)} (h : exec i (.write s) x w = some (r, w')) :
    (∃ e, r = .error e ∧ w' = w) ∨
      r = .ok () ∧ ∃ db, layout.apply s w.db = some db ∧ w' = { w with db := db } := by
  cases x with
  | done =>
    have h : some (w.commit [s]) = some (r, w') := h
    rcases World.commit_eq (Option.some.inj h) with he | ⟨rfl, db, hdb, rfl⟩
    · exact .inl he
    · obtain ⟨db₁, h1, h2⟩ := Layout.applyAll_cons.mp hdb
      cases Layout.applyAll_nil.mp h2
      exact .inr ⟨rfl, _, h1, rfl⟩
  | fail e =>
    cases h
    exact .inl ⟨_, rfl, rfl⟩
  | _ => cases h

theorem exec_commit {ws : List Write} {r : Res (.commit ws)}
    (h : exec i (.commit ws) x w = some (r, w')) : (∃ e, r = .error e ∧ w' = w) ∨
      r = .ok () ∧ ∃ db, layout.applyAll ws w.db = some db ∧ w' = { w with db := db } := by
  cases x with
  | done =>
    have h : some (w.commit ws) = some (r, w') := h
    exact World.commit_eq (Option.some.inj h)
  | fail e =>
    cases h
    exact .inl ⟨_, rfl, rfl⟩
  | _ => cases h

theorem exec_newUuid {u : Uuid} (h : exec i .newUuid x w = some (u, w')) :
    ∃ hu : w.fresh u = true, w' = w.issue i u hu := by
  cases x with
  | uuid v =>
    have h : (if hv : w.fresh v = true then some (v, w.issue i v hv) else none) = some (u, w') := h
    split at h
    · next hu =>
      cases h
      exact ⟨hu, rfl⟩
    · cases h
  | _ => cases h

theorem exec_caller {user : User} {u : Unit} (h : exec i (.caller user) x w = some (u, w')) :
    w' = { w with callers := (i, user) :: w.callers } := by
  cases x <;> cases h
  rfl

theorem exec_randomBytes {n : Nat} {bs : Bytes n}
    (h : exec i (.randomBytes n) x w = some (bs, w')) : w' = w := by
  cases x with
  | bytes cs =>
    have h : (if hl : cs.length = n then some (⟨cs, hl⟩, w) else none) = some (bs, w') := h
    split at h
    · cases h
      rfl
    · cases h
  | _ => cases h

/-- The operations that leave the whole state alone. -/
def Op.idle : Op → Bool
  | .select _ _ | .begin | .txWrite _ | .now | .randomBytes _ => true
  | _ => false

theorem exec_idle {o : Op} {r : Res o} (ho : o.idle = true) (h : exec i o x w = some (r, w')) :
    w' = w := by
  cases o <;> simp only [Op.idle, reduceCtorEq] at ho
  case randomBytes n => exact exec_randomBytes h
  all_goals cases x <;> cases h <;> rfl

/-- **A step.** Either nothing changes in the database, or the operation succeeded and its writes
are done, all of them. -/
theorem exec_db {o : Op} {r : Res o} (h : exec i o x w = some (r, w')) :
    w'.db = w.db ∨ o.succeeded r = true ∧ layout.applyAll o.writes w.db = some w'.db := by
  cases o
  case write s =>
    rcases exec_write h with ⟨e, -, rfl⟩ | ⟨rfl, db, hdb, rfl⟩
    · exact .inl rfl
    · exact .inr ⟨rfl, Layout.applyAll_cons.mpr ⟨db, hdb, Layout.applyAll_nil.mpr rfl⟩⟩
  case commit ws =>
    rcases exec_commit h with ⟨e, -, rfl⟩ | ⟨rfl, db, hdb, rfl⟩
    · exact .inl rfl
    · exact .inr ⟨rfl, hdb⟩
  case newUuid => obtain ⟨hu, rfl⟩ := exec_newUuid h; exact .inl rfl
  case caller user => rw [exec_caller h]; exact .inl rfl
  all_goals exact .inl (by rw [exec_idle rfl h])

/-- A successful operation does its writes. -/
theorem exec_succeeded {o : Op} {r : Res o} (h : exec i o x w = some (r, w'))
    (hs : o.succeeded r = true) : layout.applyAll o.writes w.db = some w'.db := by
  cases o
  case write s =>
    rcases exec_write h with ⟨e, rfl, -⟩ | ⟨rfl, db, hdb, rfl⟩
    · cases hs
    · exact Layout.applyAll_cons.mpr ⟨db, hdb, Layout.applyAll_nil.mpr rfl⟩
  case commit ws =>
    rcases exec_commit h with ⟨e, rfl, -⟩ | ⟨rfl, db, hdb, rfl⟩
    · cases hs
    · exact hdb
  case newUuid => obtain ⟨hu, rfl⟩ := exec_newUuid h; rfl
  case caller user => rw [exec_caller h]; rfl
  all_goals rw [exec_idle rfl h]; rfl

end exec

/-! ## What a call can issue -/

namespace Service

variable {φ : Op → Prop} {α β : Type} {Q : α → Prop} {t : Table}

@[simp] theorem all_throwApi (e : ApiError) :
    Flow.All φ (throwApi e : Service α) Q ↔ True := Flow.all_throw

@[simp] theorem all_throwIf (c : Prop) [Decidable c] (e : ApiError) {Q : Unit → Prop} :
    Flow.All φ (throwIf c e) Q ↔ (¬ c → Q ()) := by
  unfold throwIf; simp

@[simp] theorem all_unwrapOrElse (other : Service α) (o : Option α) :
    Flow.All φ (unwrapOrElse other o) Q ↔
      (∀ a, o = some a → Q a) ∧ (o = none → Flow.All φ other Q) := by
  cases o <;> simp [unwrapOrElse]

@[simp] theorem all_orThrow (r : Except ApiError α) :
    Flow.All φ (orThrow r) Q ↔ ∀ a, r = .ok a → Q a := by
  cases r <;> simp [orThrow]

@[simp] theorem all_orPanic (r : Except String α) :
    Flow.All φ (orPanic r) Q ↔ ∀ a, r = .ok a → Q a := by
  cases r <;> simp [orPanic]

@[simp] theorem all_okOr (e : ApiError) (o : Option α) :
    Flow.All φ (okOr e o) Q ↔ ∀ a, o = some a → Q a := by
  cases o <;> simp [okOr]

@[simp] theorem all_mapErr (f : String → ApiError) (r : Except String α) :
    Flow.All φ (mapErr f r) Q ↔ ∀ a, r = .ok a → Q a := by
  cases r <;> simp [mapErr]

-- The types below mention `Row t`, which reduces at a concrete table: kept out of the simp index.

@[simp] theorem all_query {f : Filter} {Q : List (Row t) → Prop} :
    @Flow.All _ _ _ (no_index _) φ (query t f) Q ↔ φ (.select t f) ∧ ∀ rows, Q rows := by
  unfold query
  simp only [Flow.all_bind, Flow.all_call, all_mapErr]
  exact and_congr_right fun _ => ⟨fun h rows => h _ rows rfl, fun h _ rows _ => h rows⟩

@[simp] theorem all_first {f : Filter} {Q : Option (Row t) → Prop} :
    @Flow.All _ _ _ (no_index _) φ (first t f) Q ↔ φ (.select t f) ∧ ∀ r, Q r := by
  unfold first
  simp only [Flow.all_bind, Flow.all_pure, all_query]
  refine and_congr_right fun _ => ⟨fun h r => ?_, fun h rows => h _⟩
  cases r with
  | none => exact h []
  | some r => exact h [r]

@[simp] theorem all_update {f : Filter} {sets : List (Nat × Value)} {Q : Unit → Prop} :
    Flow.All φ (update t f sets) Q ↔ φ (.write (.update t f sets)) ∧ Q () := by
  unfold update
  simp only [Flow.all_bind, Flow.all_call, all_mapErr]
  exact and_congr_right fun _ => ⟨fun h => h _ () rfl, fun h _ _ _ => h⟩

@[simp] theorem all_execute {w : Write} {e : Executor} {Q : Unit → Prop} :
    Flow.All φ (execute w e) Q ↔ φ (e.op w) ∧ Q () := by
  cases e <;>
  · unfold execute
    simp only [Flow.all_bind, Flow.all_call, all_mapErr]
    exact and_congr_right fun _ => ⟨fun h => h _ () rfl, fun h _ _ _ => h⟩

@[simp] theorem all_create {e : Executor} {r : Row t} {Q : Row t → Prop} :
    @Flow.All _ _ _ (no_index _) φ (create e r) Q ↔ φ (e.op (.insert t r)) ∧ Q r := by
  unfold create
  simp only [Flow.all_bind, Flow.all_pure, all_execute]

@[simp] theorem all_transaction {Q : Unit → Prop} :
    Flow.All φ transaction Q ↔ φ .begin ∧ Q () := by
  unfold transaction
  simp only [Flow.all_bind, Flow.all_call, all_mapErr]
  exact and_congr_right fun _ => ⟨fun h => h _ () rfl, fun h _ _ _ => h⟩

@[simp] theorem all_commit {ws : List Write} {Q : Unit → Prop} :
    Flow.All φ (commit ws) Q ↔ φ (.commit ws) ∧ Q () := by
  unfold commit
  simp only [Flow.all_bind, Flow.all_call, all_mapErr]
  exact and_congr_right fun _ => ⟨fun h => h _ () rfl, fun h _ _ _ => h⟩

@[simp] theorem all_now {Q : DateTime → Prop} : Flow.All φ now Q ↔ φ .now ∧ ∀ t, Q t :=
  Flow.all_call

@[simp] theorem all_nowV7 {Q : Uuid → Prop} : Flow.All φ nowV7 Q ↔ φ .newUuid ∧ ∀ u, Q u :=
  Flow.all_call

@[simp] theorem all_randomBytes {n : Nat} {Q : Bytes n → Prop} :
    Flow.All φ (randomBytes n) Q ↔ φ (.randomBytes n) ∧ ∀ bs, Q bs := Flow.all_call

/-- `φ` is about what an operation writes: it holds of the operations that write nothing. -/
class AboutWrites (φ : Op → Prop) : Prop where
  reads : ∀ o, o.writes = [] → φ o

section writes

variable [hφ : AboutWrites φ]

@[simp high] theorem all_query_of_writes {f : Filter} {Q : List (Row t) → Prop} :
    @Flow.All _ _ _ (no_index _) φ (query t f) Q ↔ ∀ rows, Q rows :=
  all_query.trans (and_iff_right (hφ.reads _ rfl))

@[simp high] theorem all_first_of_writes {f : Filter} {Q : Option (Row t) → Prop} :
    @Flow.All _ _ _ (no_index _) φ (first t f) Q ↔ ∀ r, Q r :=
  all_first.trans (and_iff_right (hφ.reads _ rfl))

@[simp high] theorem all_execute_of_writes {w : Write} {Q : Unit → Prop} :
    Flow.All φ (execute w .transaction) Q ↔ Q () :=
  all_execute.trans (and_iff_right (hφ.reads _ rfl))

@[simp high] theorem all_create_of_writes {r : Row t} {Q : Row t → Prop} :
    @Flow.All _ _ _ (no_index _) φ (create .transaction r) Q ↔ Q r :=
  all_create.trans (and_iff_right (hφ.reads _ rfl))

@[simp high] theorem all_transaction_of_writes {Q : Unit → Prop} :
    Flow.All φ transaction Q ↔ Q () :=
  all_transaction.trans (and_iff_right (hφ.reads _ rfl))

@[simp high] theorem all_now_of_writes {Q : DateTime → Prop} : Flow.All φ now Q ↔ ∀ t, Q t :=
  all_now.trans (and_iff_right (hφ.reads _ rfl))

@[simp high] theorem all_nowV7_of_writes {Q : Uuid → Prop} : Flow.All φ nowV7 Q ↔ ∀ u, Q u :=
  all_nowV7.trans (and_iff_right (hφ.reads _ rfl))

@[simp high] theorem all_randomBytes_of_writes {n : Nat} {Q : Bytes n → Prop} :
    Flow.All φ (randomBytes n) Q ↔ ∀ bs, Q bs :=
  all_randomBytes.trans (and_iff_right (hφ.reads _ rfl))

end writes

theorem all_attempt {x : Service α} {Q : Except ApiError α → Prop}
    (h : ∀ e, Q (.error e)) : Flow.All φ (attempt x) Q ↔ Flow.All φ x fun a => Q (.ok a) := by
  unfold attempt Flow.All ExceptT.mk
  rw [Prog.all_bind]
  have hr : ∀ r : Except Abort α,
      (Prog.All φ (attempted r) fun r => ∀ a, r = .ok a → Q a) ↔ ∀ a, r = .ok a → Q (.ok a) := by
    intro r
    rcases r with (e | m) | a <;> simp [attempted, Prog.All, h]
  simp only [hr]

end Service

/-! ## How a call ends -/

/-- If the call ends with a value, then in `ok`. -/
def Ends {α : Type} (c : Rules Res World) (y : Service α) (ok : α → World → Prop) (s : World) :
    Prop := Flow.Safe c y ok (fun _ _ => True) s

/-- Rules whose steps are those of `exec`, and under which an operation that writes nothing keeps
the promise and stays within what the others may do. -/
structure Tame (c : Rules Res World) : Prop where
  exec : ∀ {o s r s'}, c.step o s r s' → ∃ i a, exec i o a s = some (r, s')
  reads : ∀ {o s r s'}, o.writes = [] → c.step o s r s' → c.guar o s r s' ∧ c.rely s s'

/-- Tame rules under which every operation does. -/
structure Calm (c : Rules Res World) : Prop extends Tame c where
  guar : ∀ {o s r s'}, c.step o s r s' → c.guar o s r s' ∧ c.rely s s'

namespace Service

variable {c : Rules Res World} {α β : Type} {ok : β → World → Prop} {s : World} {t : Table}

theorem Ends.stable {y : Service β} {s' : World} (h : Ends c y ok s) (hr : c.rely s s') :
    Ends c y ok s' := Flow.Safe.stable h hr

theorem ends_pure {b : β} (h : ∀ s', c.rely s s' → ok b s') : Ends c (pure b) ok s := h

theorem ends_throwApi (e : ApiError) : Ends c (throwApi e) ok s := fun _ _ => trivial

theorem ends_okOr {e : ApiError} {o : Option α} {f : α → Service β}
    (h : ∀ a, o = some a → Ends c (f a) ok s) : Ends c (okOr e o >>= f) ok s := by
  cases o with
  | none => exact fun _ _ => trivial
  | some a => exact h a rfl

theorem ends_throwIf {b : Prop} [Decidable b] {e : ApiError} {f : Unit → Service β}
    (h : ¬ b → Ends c (f ()) ok s) : Ends c (throwIf b e >>= f) ok s := by
  unfold throwIf
  split
  · exact fun _ _ => trivial
  · next hb => exact h hb

theorem ends_mapErr {g : String → ApiError} {r : Except String α} {f : α → Service β}
    (h : ∀ a, r = .ok a → Ends c (f a) ok s) : Ends c (mapErr g r >>= f) ok s := by
  cases r with
  | error e => exact fun _ _ => trivial
  | ok a => exact h a rfl

theorem ends_orThrow {r : Except ApiError α} {f : α → Service β}
    (h : ∀ a, r = .ok a → Ends c (f a) ok s) : Ends c (orThrow r >>= f) ok s := by
  cases r with
  | error e => exact fun _ _ => trivial
  | ok a => exact h a rfl

/-- A part of the call that keeps its promise whatever happens, with what is known of its value. -/
theorem ends_all {φ : Op → Prop} {Q : α → Prop} {y : Service α} {f : α → Service β}
    (hy : Flow.All φ y Q)
    (hφ : ∀ o, φ o → ∀ s r s', c.step o s r s' → c.guar o s r s' ∧ c.rely s s')
    (h : ∀ a s', Q a → c.rely s s' → Ends c (f a) ok s') : Ends c (y >>= f) ok s := by
  refine Flow.safe_bind.mpr ?_
  have hsafe := Prog.All.safe (c := c) (s := s) hy hφ
  refine Prog.Safe.mono hsafe fun r s' hr => ?_
  cases r with
  | ok a => exact h a s' (hr.1 a rfl) hr.2
  | error e => trivial

/-- A part of the call that only reads. -/
theorem ends_reads (hc : Tame c) {Q : α → Prop} {y : Service α} {f : α → Service β}
    (hy : Flow.All (fun o => o.writes = []) y Q)
    (h : ∀ a s', Q a → c.rely s s' → Ends c (f a) ok s') : Ends c (y >>= f) ok s :=
  ends_all hy (fun _ ho _ _ _ hs => hc.reads ho hs) h

/-- Any part of the call, when there is no promise to keep, with what is known of its value. -/
theorem ends_calm (hc : Calm c) {Q : α → Prop} {y : Service α} {f : α → Service β}
    (hy : Flow.All (fun _ => True) y Q) (h : ∀ a s', Q a → c.rely s s' → Ends c (f a) ok s') :
    Ends c (y >>= f) ok s :=
  ends_all hy (fun _ _ _ _ _ hs => hc.guar hs) h

theorem ends_any (hc : Calm c) {y : Service α} {f : α → Service β}
    (h : ∀ a s', c.rely s s' → Ends c (f a) ok s') : Ends c (y >>= f) ok s := by
  have hy : Flow.All (fun _ => True) y fun _ => True :=
    (Prog.all_trivial y).mono (fun _ h => h) fun _ _ _ _ => trivial
  exact ends_calm hc hy fun a s' _ hs => h a s' hs

theorem ends_map {y : Service α} {g : α → β}
    (h : Ends c y (fun a s' => ∀ s'', c.rely s' s'' → ok (g a) s'') s) : Ends c (g <$> y) ok s := by
  rw [← bind_pure_comp]
  exact Flow.safe_bind.mpr h

theorem ends_call {o : Op} {f : Res o → Service β}
    (h : ∀ s₁, c.rely s s₁ → ∀ r s₂, c.step o s₁ r s₂ → c.guar o s₁ r s₂ ∧ Ends c (f r) ok s₂) :
    Ends c (Flow.call o >>= f) ok s := by
  refine Flow.safe_bind.mpr (Flow.safe_call.mpr fun s₁ h₁ r s₂ hs => ?_)
  obtain ⟨hg, hf⟩ := h s₁ h₁ r s₂ hs
  exact ⟨hg, fun s₃ h₃ => hf.stable h₃⟩

theorem ends_query (hc : Tame c) {flt : Filter} {f : List (Row t) → Service β}
    (h : ∀ s', c.rely s s' → c.step (.select t flt) s' (.ok (layout.select s'.db t flt)) s' →
      Ends c (f (layout.select s'.db t flt)) ok s') :
    Ends c (query t flt >>= f) ok s := by
  unfold query
  rw [bind_assoc]
  refine ends_call fun s₁ h₁ r s₂ hs => ⟨(hc.reads rfl hs).1, ?_⟩
  obtain ⟨i, a, ha⟩ := hc.exec hs
  obtain ⟨rfl, ⟨e, rfl⟩ | rfl⟩ := exec_select ha
  · exact ends_mapErr fun _ he => by cases he
  · exact ends_mapErr fun _ he => by cases he; exact h s₂ h₁ hs

theorem ends_first (hc : Tame c) {flt : Filter} {f : Option (Row t) → Service β}
    (h : ∀ s', c.rely s s' → Ends c (f (layout.select s'.db t flt).head?) ok s') :
    Ends c (first t flt >>= f) ok s := by
  unfold first
  rw [bind_assoc]
  refine ends_query hc fun s' hs' _ => ?_
  rw [pure_bind]
  exact h s' hs'

/-- A write, its result checked with `?`. -/
theorem ends_update {flt : Filter} {sets : List (Nat × Value)} {f : Unit → Service β}
    (hg : ∀ s₁ r s₂, c.rely s s₁ → c.step (.write (.update t flt sets)) s₁ r s₂ →
      c.guar (.write (.update t flt sets)) s₁ r s₂)
    (h : ∀ s₁ s₂, c.rely s s₁ → c.step (.write (.update t flt sets)) s₁ (.ok ()) s₂ →
      Ends c (f ()) ok s₂) : Ends c (update t flt sets >>= f) ok s := by
  unfold update
  rw [bind_assoc]
  refine ends_call fun s₁ h₁ r s₂ hs => ⟨hg s₁ r s₂ h₁ hs, ?_⟩
  cases r with
  | error e => exact ends_mapErr fun _ he => by cases he
  | ok u => exact ends_mapErr fun _ he => by cases he; exact h s₁ s₂ h₁ hs

theorem ends_create {r : Row t} {f : Row t → Service β}
    (hg : ∀ s₁ r' s₂, c.rely s s₁ → c.step (.write (.insert t r)) s₁ r' s₂ →
      c.guar (.write (.insert t r)) s₁ r' s₂)
    (h : ∀ s₁ s₂, c.rely s s₁ → c.step (.write (.insert t r)) s₁ (.ok ()) s₂ →
      Ends c (f r) ok s₂) : Ends c (create .handle r >>= f) ok s := by
  unfold create execute
  rw [bind_assoc, bind_assoc]
  refine ends_call fun s₁ h₁ r s₂ hs => ⟨hg s₁ r s₂ h₁ hs, ?_⟩
  cases r with
  | error e => exact ends_mapErr fun _ he => by cases he
  | ok u => exact ends_mapErr fun _ he => by cases he; exact h s₁ s₂ h₁ hs

theorem ends_commit {ws : List Write} {f : Unit → Service β}
    (hg : ∀ s₁ r s₂, c.rely s s₁ → c.step (.commit ws) s₁ r s₂ → c.guar (.commit ws) s₁ r s₂)
    (h : ∀ s₁ s₂, c.rely s s₁ → c.step (.commit ws) s₁ (.ok ()) s₂ → Ends c (f ()) ok s₂) :
    Ends c (commit ws >>= f) ok s := by
  unfold commit
  rw [bind_assoc]
  refine ends_call fun s₁ h₁ r s₂ hs => ⟨hg s₁ r s₂ h₁ hs, ?_⟩
  cases r with
  | error e => exact ends_mapErr fun _ he => by cases he
  | ok u => exact ends_mapErr fun _ he => by cases he; exact h s₁ s₂ h₁ hs

/-! ## A call that runs alone -/

/-- Nobody else changes the database. -/
def alone : Rules Res World where
  rely s s' := s'.db = s.db
  rely_refl _ := rfl
  rely_trans h h' := h'.trans h
  step o s r s' := ∃ i a, exec i o a s = some (r, s')
  guar _ _ _ _ := True

theorem tame_alone : Tame alone where
  exec h := h
  reads {o s r s'} ho h := by
    obtain ⟨i, a, ha⟩ := h
    refine ⟨trivial, ?_⟩
    rcases exec_db ha with hdb | ⟨-, hdb⟩
    · exact hdb
    · rw [ho] at hdb
      exact (Layout.applyAll_nil.mp hdb).symm

/-- A call that runs alone and returns a value has ended in `ok`. -/
theorem ok_of_run {y : Service β} (h : Ends alone y ok s) {i : Nat} {xs : List Ans} {b : β}
    {s' : World} (hr : Prog.run exec i y xs s = some (.ok b, s')) : ok b s' := by
  unfold Ends Flow.Safe at h
  exact h.post (fun {o s a r s'} ha => ⟨i, a, ha⟩) hr

end Service

end Wara
