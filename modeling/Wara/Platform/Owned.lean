import Wara.Platform.Movers

/-!
# Rows under known identifiers

A call inserts rows only under identifiers that it got, or that it has read as
keys of rows. `Owns known y Q`, with one simp lemma for each idiom, follows the
identifiers that a call has come to know; what threads that own what they insert
do is what any other thread can rely on (`beside_of_owned`).
-/

namespace Wara

open Interleave Store

def rowKey : {t : Table} → Row t → Uuid
  | .workspaces, r => r.id
  | .environments, r => r.id
  | .servers, r => r.id
  | .appServices, r => r.id
  | .dockerCredentials, r => r.id
  | .envVars, r => r.id
  | .domains, r => r.id
  | .deployments, r => r.id
  | .workspaceTemplates, r => r.id
  | .users, r => r.id
  | .userInvites, r => r.id
  | .userApiTokens, r => r.id
  | .workspaceUserRoles, r => r.id
  | .userRefreshTokens, r => r.id
  | .jwtPublicKeys, r => r.id

theorem col_zero {t : Table} (r : Row t) : layout.col 0 r = some (.uuid (rowKey r)) := by
  cases t <;> rfl

/-- The identifiers that a call comes to know by an operation. -/
def Op.learns : (o : Op) → Res o → List Uuid
  | .newUuid, u => [u]
  | .select _ _, .ok rows => rows.map rowKey
  | _, _ => []

/-- An insert under a known identifier, or an update of columns that may change. -/
def OwnWrite (known : List Uuid) : Write → Prop
  | .insert _ r => rowKey r ∈ known
  | .update t _ sets => ∀ p ∈ sets, p.1 ∉ fixedCols t

def Op.Own (known : List Uuid) (o : Op) : Prop := ∀ w ∈ o.writes, OwnWrite known w

theorem Op.Own.tidy {known : List Uuid} {o : Op} (h : o.Own known) : o.Tidy := by
  intro w hw c hc
  have hown := h w hw
  cases w with
  | insert t r => cases hc
  | update t f sets =>
    obtain ⟨p, hp, rfl⟩ := List.mem_map.mp hc
    exact hown p hp

/-- Whatever the results, every operation writes under what is known by then. -/
def Owning {α : Type} (known : List Uuid) : Prog Res α → (List Uuid → α → Prop) → Prop
  | .ret a, Q => Q known a
  | .op o k, Q => o.Own known ∧ ∀ r, Owning (o.learns r ++ known) (k r) Q

section owning

variable {α β : Type} {known : List Uuid}

theorem owning_bind {p : Prog Res α} {f : α → Prog Res β} {Q : List Uuid → β → Prop} :
    Owning known (p.bind f) Q ↔ Owning known p fun known a => Owning known (f a) Q := by
  induction p generalizing known with
  | ret a => exact Iff.rfl
  | op o k ih => simp only [Prog.op_bind, Owning, ih]

theorem Owning.mono {p : Prog Res α} {Q Q' : List Uuid → α → Prop} (h : Owning known p Q)
    (hQ : ∀ known' a, known ⊆ known' → Q known' a → Q' known' a) : Owning known p Q' := by
  induction p generalizing known with
  | ret a => exact hQ known a (fun _ h => h) h
  | op o k ih =>
    refine ⟨h.1, fun r => ih r (h.2 r) fun known' a hsub => hQ known' a fun u hu => ?_⟩
    exact hsub (List.mem_append_right _ hu)

/-- A program that inserts nothing. -/
theorem owning_of_all {φ : Op → Prop} {p : Prog Res α} {P : α → Prop} (h : p.All φ P)
    (hφ : ∀ o, φ o → ∀ known, o.Own known) :
    Owning known p fun known' a => known ⊆ known' ∧ P a := by
  induction p generalizing known with
  | ret a => exact ⟨fun _ h => h, h⟩
  | op o k ih =>
    refine ⟨hφ o h.1 known, fun r => (ih r (h.2 r)).mono fun known' a _ hP =>
      ⟨fun u hu => ?_, hP.2⟩⟩
    exact hP.1 (List.mem_append_right _ hu)

end owning

/-- Operations that insert nothing, and update only columns that may change. -/
def Op.Inert (o : Op) : Prop := ∀ known, o.Own known

namespace Service

variable {α β : Type} {known : List Uuid} {t : Table}

def Owns (known : List Uuid) (y : Service α) (Q : List Uuid → α → Prop) : Prop :=
  Owning known y fun known' r => ∀ a, r = .ok a → Q known' a

theorem Owns.mono {y : Service α} {Q Q' : List Uuid → α → Prop} (h : Owns known y Q)
    (hQ : ∀ known' a, known ⊆ known' → Q known' a → Q' known' a) : Owns known y Q' :=
  Owning.mono h fun known' _ hsub hr a ha => hQ known' a hsub (hr a ha)

/-- A part of a call that inserts nothing. -/
theorem owns_of_inert {y : Service α} {P : α → Prop} {Q : List Uuid → α → Prop}
    (h : Flow.All Op.Inert y P) (hQ : ∀ known' a, known ⊆ known' → P a → Q known' a) :
    Owns known y Q :=
  Owning.mono (owning_of_all h fun _ ho => ho)
    fun known' _ _ hr a ha => hQ known' a hr.1 (hr.2 a ha)

theorem inert_of_reads {o : Op} (h : o.writes = []) : Op.Inert o := by
  intro known w hw
  rw [h] at hw
  cases hw

@[simp] theorem owns_pure {a : α} {Q : List Uuid → α → Prop} :
    Owns known (pure a : Service α) Q ↔ Q known a := by
  simp [Owns, Flow.pure_eq, Owning]

@[simp] theorem owns_throw {e : Abort} {Q : List Uuid → α → Prop} :
    Owns known (throw e : Service α) Q ↔ True := by
  simp [Owns, Flow.throw_eq, Owning]

@[simp] theorem owns_ite {c : Prop} [Decidable c] {y z : Service α} {Q : List Uuid → α → Prop} :
    Owns known (if c then y else z) Q ↔ (c → Owns known y Q) ∧ (¬ c → Owns known z Q) := by
  split <;> simp [*]

@[simp] theorem owns_throwApi {e : ApiError} {Q : List Uuid → α → Prop} :
    Owns known (throwApi e : Service α) Q ↔ True := by
  simp [Owns, throwApi, Flow.throw_eq, Owning]

@[simp] theorem owns_bind {y : Service α} {f : α → Service β} {Q : List Uuid → β → Prop} :
    Owns known (y >>= f) Q ↔ Owns known y fun known' a => Owns known' (f a) Q := by
  unfold Owns
  rw [Flow.bind_eq, owning_bind]
  have hnext : ∀ known' r,
      Owning known' (Flow.next f r) (fun known' r => ∀ a, r = .ok a → Q known' a) ↔
      ∀ a, r = .ok a → Owning known' (f a) fun known' r => ∀ a, r = .ok a → Q known' a := by
    intro known' r
    cases r <;> simp [Owning]
  simp only [hnext]

@[simp] theorem owns_map {y : Service α} {f : α → β} {Q : List Uuid → β → Prop} :
    Owns known (f <$> y) Q ↔ Owns known y fun known' a => Q known' (f a) := by
  rw [← bind_pure_comp, owns_bind]
  simp only [owns_pure]

theorem owns_call {o : Op} {Q : List Uuid → Res o → Prop} :
    Owns known (Flow.call o) Q ↔ o.Own known ∧ ∀ r, Q (o.learns r ++ known) r := by
  simp [Owns, Flow.call_eq, Owning]

@[simp] theorem owns_throwIf {c : Prop} [Decidable c] {e : ApiError} {Q : List Uuid → Unit → Prop} :
    Owns known (throwIf c e) Q ↔ (¬ c → Q known ()) := by
  unfold throwIf
  split <;> simp [*]

@[simp] theorem owns_orThrow {r : Except ApiError α} {Q : List Uuid → α → Prop} :
    Owns known (orThrow r) Q ↔ ∀ a, r = .ok a → Q known a := by
  cases r <;> simp [orThrow]

@[simp] theorem owns_orPanic {r : Except String α} {Q : List Uuid → α → Prop} :
    Owns known (orPanic r) Q ↔ ∀ a, r = .ok a → Q known a := by
  cases r <;> simp [orPanic]

@[simp] theorem owns_okOr {e : ApiError} {o : Option α} {Q : List Uuid → α → Prop} :
    Owns known (okOr e o) Q ↔ ∀ a, o = some a → Q known a := by
  cases o <;> simp [okOr]

@[simp] theorem owns_mapErr {g : String → ApiError} {r : Except String α}
    {Q : List Uuid → α → Prop} : Owns known (mapErr g r) Q ↔ ∀ a, r = .ok a → Q known a := by
  cases r <;> simp [mapErr]

@[simp] theorem owns_nowV7 {Q : List Uuid → Uuid → Prop} :
    Owns known nowV7 Q ↔ ∀ u, Q (u :: known) u := by
  refine owns_call.trans (and_iff_right ?_)
  exact inert_of_reads rfl known

@[simp] theorem owns_now {Q : List Uuid → DateTime → Prop} :
    Owns known now Q ↔ ∀ time, Q known time := by
  refine owns_call.trans (and_iff_right ?_)
  exact inert_of_reads rfl known

@[simp] theorem owns_randomBytes {n : Nat} {Q : List Uuid → Bytes n → Prop} :
    Owns known (randomBytes n) Q ↔ ∀ bs, Q known bs := by
  refine owns_call.trans (and_iff_right ?_)
  exact inert_of_reads rfl known

@[simp] theorem owns_unwrapOrElse {other : Service α} {o : Option α}
    {Q : List Uuid → α → Prop} : Owns known (unwrapOrElse other o) Q ↔
      (∀ a, o = some a → Q known a) ∧ (o = none → Owns known other Q) := by
  cases o <;> simp [unwrapOrElse]

@[simp] theorem owns_query {f : Filter} {Q : List Uuid → List (Row t) → Prop} :
    @Owns (no_index _) known (query t f) Q ↔ ∀ rows, Q (rows.map rowKey ++ known) rows := by
  unfold query
  rw [owns_bind]
  refine owns_call.trans ⟨fun h rows => ?_, fun h => ⟨inert_of_reads rfl known, fun r => ?_⟩⟩
  · exact owns_mapErr.mp (h.2 (.ok rows)) rows rfl
  · refine owns_mapErr.mpr fun rows hr => ?_
    subst hr
    exact h rows

@[simp] theorem owns_first {f : Filter} {Q : List Uuid → Option (Row t) → Prop} :
    @Owns (no_index _) known (first t f) Q ↔
      ∀ rows : List (Row t), Q (rows.map rowKey ++ known) rows.head? := by
  unfold first
  rw [owns_bind, owns_query]
  simp only [owns_pure]

@[simp] theorem ownWrite_insert {r : Row t} : OwnWrite known (.insert t r) ↔ rowKey r ∈ known :=
  Iff.rfl

@[simp] theorem ownWrite_update {f : Filter} {sets : List (Nat × Value)} :
    OwnWrite known (.update t f sets) ↔ ∀ p ∈ sets, p.1 ∉ fixedCols t := Iff.rfl

@[simp] theorem owns_executeHandle {w : Write} {Q : List Uuid → Unit → Prop} :
    Owns known (execute w .handle) Q ↔ OwnWrite known w ∧ Q known () := by
  unfold execute
  rw [owns_bind]
  refine owns_call.trans (and_congr List.forall_mem_singleton ?_)
  simp only [owns_mapErr]
  exact ⟨fun h => h (.ok ()) () rfl, fun h _ _ _ => h⟩

@[simp] theorem owns_executeTransaction {w : Write} {Q : List Uuid → Unit → Prop} :
    Owns known (execute w .transaction) Q ↔ Q known () := by
  unfold execute
  rw [owns_bind]
  refine owns_call.trans ((and_iff_right (inert_of_reads rfl known)).trans ?_)
  simp only [owns_mapErr]
  exact ⟨fun h => h (.ok ()) () rfl, fun h _ _ _ => h⟩

@[simp] theorem owns_update {f : Filter} {sets : List (Nat × Value)} {Q : List Uuid → Unit → Prop} :
    Owns known (update t f sets) Q ↔ (∀ p ∈ sets, p.1 ∉ fixedCols t) ∧ Q known () :=
  owns_executeHandle (w := .update t f sets)

@[simp] theorem owns_create {r : Row t} {Q : List Uuid → Row t → Prop} :
    @Owns (no_index _) known (create .handle r) Q ↔ rowKey r ∈ known ∧ Q known r := by
  unfold create
  simp only [owns_bind, owns_pure, owns_executeHandle, ownWrite_insert]

@[simp] theorem owns_txCreate {r : Row t} {Q : List Uuid → Row t → Prop} :
    @Owns (no_index _) known (create .transaction r) Q ↔ Q known r := by
  unfold create
  simp only [owns_bind, owns_pure, owns_executeTransaction]

@[simp] theorem owns_transaction {Q : List Uuid → Unit → Prop} :
    Owns known transaction Q ↔ Q known () := by
  unfold transaction
  rw [owns_bind]
  refine owns_call.trans ((and_iff_right (inert_of_reads rfl known)).trans ?_)
  simp only [owns_mapErr]
  exact ⟨fun h => h (.ok ()) () rfl, fun h _ _ _ => h⟩

@[simp] theorem owns_commit {ws : List Write} {Q : List Uuid → Unit → Prop} :
    Owns known (commit ws) Q ↔ (∀ w ∈ ws, OwnWrite known w) ∧ Q known () := by
  unfold commit
  rw [owns_bind]
  refine owns_call.trans (and_congr Iff.rfl ?_)
  simp only [owns_mapErr]
  exact ⟨fun h => h (.ok ()) () rfl, fun h _ _ _ => h⟩

theorem owns_attempt {y : Service α} {Q : List Uuid → Except ApiError α → Prop}
    (h : Owns known y fun _ _ => True) (hQ : ∀ known' r, known ⊆ known' → Q known' r) :
    Owns known (attempt y) Q := by
  unfold attempt Owns ExceptT.mk
  refine owning_bind.mpr (Owning.mono h fun known' r hsub _ => ?_)
  rcases r with (e | m) | a
  · exact fun a _ => hQ known' a hsub
  · exact fun a ha => by cases ha
  · exact fun a _ => hQ known' a hsub

/-- What each round leaves known stays known. -/
theorem owns_mapM {g : α → Service β} {P : List Uuid → β → Prop} (as : List α)
    (hP : ∀ known known' b, known ⊆ known' → P known b → P known' b)
    (h : ∀ a ∈ as, ∀ known', known ⊆ known' → Owns known' (g a) P) :
    Owns known (as.mapM g) fun known' bs => ∀ b ∈ bs, P known' b := by
  induction as generalizing known with
  | nil => simp
  | cons a as ih =>
    rw [List.mapM_cons, owns_bind]
    refine (h a List.mem_cons_self known fun _ h => h).mono fun known₁ b h₁ hb => ?_
    rw [owns_bind]
    have hrest := ih fun a' ha' known' hsub => h a' (List.mem_cons_of_mem _ ha') known'
      fun u hu => hsub (h₁ hu)
    refine hrest.mono fun known₂ bs h₂ hbs => owns_pure.mpr fun b' hb' => ?_
    rcases List.mem_cons.mp hb' with rfl | hb'
    · exact hP _ _ _ h₂ hb
    · exact hbs b' hb'

end Service

/-! ## What the threads do -/

/-- The thread has got the identifier, or it is the key of a row. -/
def World.Knows (s : World) (j : Nat) (u : Uuid) : Prop := (j, u) ∈ s.issued ∨ ¬ s.Unkeyed u

section runs

variable {x : Ans} {i j : Nat} {o : Op} {r : Res o} {s s' : World} {known : List Uuid}

theorem World.Keeps.keyed {u : Uuid} (h : s.Keeps s') (hu : ¬ s.Unkeyed u) : ¬ s'.Unkeyed u := by
  intro hk
  refine hu fun t r hr he => ?_
  obtain ⟨r', hr', hcols⟩ := h t r hr
  exact hk t r' hr' ((hcols 0 (by cases t <;> decide)).trans he)

theorem issued_of_exec (h : exec j o x s = some (r, s')) : ∀ p ∈ s.issued, p ∈ s'.issued := by
  intro p hp
  by_cases ho : o = .newUuid
  · subst ho
    obtain ⟨hu, rfl⟩ := exec_newUuid h
    exact List.mem_cons_of_mem _ hp
  · obtain ⟨m', hx, -, hissued⟩ := exec_of_db ho h rfl
    rw [h] at hx
    cases hx
    rw [hissued]
    exact hp

theorem knows_of_exec (ho : o.Own known) (h : exec j o x s = some (r, s'))
    (hknown : ∀ u ∈ known, s.Knows j u) : ∀ u ∈ o.learns r ++ known, s'.Knows j u := by
  have hkeeps : s.Keeps s' := exec_keeps ho.tidy h
  intro u hu
  rcases List.mem_append.mp hu with hu | hu
  · cases o with
    | newUuid =>
      obtain ⟨hf, rfl⟩ := exec_newUuid h
      rw [List.mem_singleton.mp hu]
      exact .inl List.mem_cons_self
    | select t f =>
      obtain ⟨rfl, ⟨e, rfl⟩ | rfl⟩ := exec_select h
      · cases hu
      · obtain ⟨row, hrow, rfl⟩ := List.mem_map.mp hu
        exact .inr fun hk => hk t row (Layout.mem_select.mp hrow).1 (col_zero row)
    | _ => cases hu
  · exact (hknown u hu).imp (issued_of_exec h _) hkeeps.keyed

/-- **A step** of thread `j` is one that any other thread can rely on. -/
theorem beside_of_exec (hij : j ≠ i) (ho : o.Own known) (hknown : ∀ u ∈ known, s.Knows j u)
    (h : exec j o x s = some (r, s')) : Beside i s s' := by
  refine ⟨exec_keeps ho.tidy h, issued_of_exec h, fun {u} hissued hk t row hrow he => ?_⟩
  rcases exec_db h with hdb | ⟨-, hdb⟩
  · rw [hdb] at hrow
    exact hk t row hrow he
  · rcases Layout.applyAll_origin hdb ho.tidy hrow with ⟨row', hrow', hcols⟩ | ⟨row', hins, hcols⟩
    · exact hk t row' hrow' ((hcols 0 (by cases t <;> decide)).symm.trans he)
    · -- an inserted row has a known key, and `u` is neither known to `j` nor a key
      have hkey : rowKey row' = u := by
        have := (hcols 0 (by cases t <;> decide)).symm.trans he
        rw [col_zero] at this
        cases this
        rfl
      rcases hknown _ (ho _ hins) with hj | hkeyed
      · rw [hkey] at hj
        have heq := List.inj_on_of_nodup_map s.distinct hj hissued rfl
        cases heq
        exact hij rfl
      · rw [hkey] at hkeyed
        exact hkeyed hk

end runs

/-- Threads that own what they insert do beside each other what they may. -/
theorem beside_of_owned {α : Type} {P P' : Pool Res World α} {es : List (Event Res World)}
    (hr : Runs exec P es P') (hown : ∀ (j : Nat) (p : Prog Res α), P.threads[j]? = some p →
      ∃ known, (∀ u ∈ known, P.state.Knows j u) ∧ Owning known p fun _ _ => True) :
    ∀ e ∈ es, ∀ i, e.tid ≠ i → Beside i e.pre e.post := by
  induction hr with
  | nil P => exact fun e he => (List.not_mem_nil he).elim
  | @cons P P' j o k x r s es hk hx _ ih =>
    obtain ⟨known, hknown, ho, hrest⟩ := hown j _ hk
    have hkeeps : P.state.Keeps s := exec_keeps ho.tidy hx
    intro e he i hi
    rcases List.mem_cons.mp he with rfl | he
    · exact beside_of_exec hi ho hknown hx
    · refine ih (fun j' p hp => ?_) e he i hi
      by_cases hj : j = j'
      · subst hj
        simp only [List.getElem?_set, if_true] at hp
        split at hp
        · cases hp
          exact ⟨_, knows_of_exec ho hx hknown, hrest r⟩
        · cases hp
      · rw [List.getElem?_set_ne hj] at hp
        obtain ⟨known', hknown', howns⟩ := hown j' p hp
        exact ⟨known', fun u hu => (hknown' u hu).imp (issued_of_exec hx _) hkeeps.keyed, howns⟩

end Wara
