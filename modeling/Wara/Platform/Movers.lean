import Wara.Interleave.Movers
import Wara.Platform.Coherent
import Wara.Service.Solo
import Wara.Store.Insert

/-!
# Calls that take effect at once

A service call as a program of movers: what it has read of rows that never
change is still there when it writes, and an identifier that it got is used by
nobody else. One rule for each idiom followed by the rest of the call.
-/

namespace Wara

open Interleave Store

/-- The identifier is the key of no row. -/
def World.Unkeyed (u : Uuid) (s : World) : Prop :=
  ∀ t, ∀ r ∈ s.db.rows t, layout.col 0 r ≠ some (.uuid u)

/-- What the others do beside thread `i`: rows stay, and the identifiers of `i` are its own. -/
structure Beside (i : Nat) (s s' : World) : Prop where
  keeps : s.Keeps s'
  issued : ∀ p ∈ s.issued, p ∈ s'.issued
  unkeyed : ∀ {u}, (i, u) ∈ s.issued → s.Unkeyed u → s'.Unkeyed u

/-- `m` has the database of `s₁`, and identifiers that `i` had got at `s` and has not used. -/
structure StandsFor (i : Nat) (s s₁ m : World) : Prop where
  db : m.db = s₁.db
  issued : ∀ p ∈ m.issued, p.1 = i ∧ p ∈ s.issued ∧ s₁.Unkeyed p.2

section beside

variable {i : Nat} {s s' s'' m : World}

theorem Beside.refl (i : Nat) (s : World) : Beside i s s :=
  ⟨World.Keeps.refl s, fun _ h => h, fun _ h => h⟩

theorem Beside.trans (h : Beside i s s') (h' : Beside i s' s'') : Beside i s s'' :=
  ⟨h.keeps.trans h'.keeps, fun p hp => h'.issued p (h.issued p hp),
    fun hu hk => h'.unkeyed (h.issued _ hu) (h.unkeyed hu hk)⟩

/-- Where nothing ever changes, rows stay as they are. -/
theorem Beside.mem {t : Table} (h : Beside i s s') (ht : fixedCols t = List.range 14) {r : Row t}
    (hr : r ∈ s.db.rows t) : r ∈ s'.db.rows t := by
  obtain ⟨r', hr', hcols⟩ := h.keeps t r hr
  rw [← eq_of_fixed ht hcols]
  exact hr'

/-- Identifiers that are new to the others leave the thread's own as they are. -/
theorem Beside.of_db (hdb : s'.db = s.db) (hissued : ∀ p ∈ s.issued, p ∈ s'.issued) :
    Beside i s s' := by
  refine ⟨?_, hissued, fun {u} _ hk => ?_⟩
  · rw [World.Keeps, hdb]
    exact Layout.Keeps.refl _
  · unfold World.Unkeyed
    rw [hdb]
    exact hk

theorem World.fresh_of_unkeyed {u : Uuid} (hk : s.Unkeyed u) (hu : u ∉ s.issued.map Prod.snd) :
    s.fresh u = true := by
  simp only [World.fresh, Bool.and_eq_true, List.all_eq_true, bne_iff_ne]
  refine ⟨fun p hp he => hu (he ▸ List.mem_map_of_mem hp), fun t _ r hr => hk t r hr⟩

end beside

theorem StandsFor.start (i : Nat) (s s₁ : World) : StandsFor i s s₁ (World.start s₁.db) :=
  ⟨rfl, fun _ hp => (List.not_mem_nil hp).elim⟩

theorem StandsFor.mono {i : Nat} {s s' s₁ m : World} (h : Beside i s s')
    (hm : StandsFor i s s₁ m) : StandsFor i s' s₁ m :=
  ⟨hm.db, fun p hp => ⟨(hm.issued p hp).1, h.issued p (hm.issued p hp).2.1, (hm.issued p hp).2.2⟩⟩

/-- Thread `i` among others that keep rows and do not use its identifiers. -/
def mover (i : Nat) : Mover World.db World.start where
  rely := Beside i
  rely_refl := Beside.refl i
  rely_trans := Beside.trans
  stands := StandsFor i
  stands_start := StandsFor.start i
  stands_mono := StandsFor.mono
  view_eq := StandsFor.db

/-! ## Operations -/

/-- Writes do the same in states with the same database. -/
theorem World.commit_of_db {s s' m : World} {ws : List Write} {r : Except DbError Unit}
    (h : s.commit ws = (r, s')) (hm : m.db = s.db) :
    ∃ m', m.commit ws = (r, m') ∧ m'.db = s'.db ∧ m'.issued = m.issued := by
  unfold World.commit at h ⊢
  rw [hm]
  split at h
  · cases h
    exact ⟨_, rfl, rfl, rfl⟩
  · cases h
    exact ⟨m, rfl, hm, rfl⟩

/-- All that an operation depends on is the database, unless it gets an identifier. -/
theorem exec_of_db {i : Nat} {o : Op} (ho : o ≠ .newUuid) {x : Ans} {r : Res o} {s s' m : World}
    (h : exec i o x s = some (r, s')) (hm : m.db = s.db) :
    ∃ m', exec i o x m = some (r, m') ∧ m'.db = s'.db ∧ m'.issued = m.issued := by
  cases o with
  | select t f =>
    cases x <;> cases h
    · exact ⟨m, by simp only [exec, hm], hm, rfl⟩
    · exact ⟨m, rfl, hm, rfl⟩
  | write w =>
    cases x with
    | done =>
      obtain ⟨m', hc, hdb, hissued⟩ := World.commit_of_db (Option.some.inj h) hm
      exact ⟨m', congrArg some hc, hdb, hissued⟩
    | fail e => cases h; exact ⟨m, rfl, hm, rfl⟩
    | _ => cases h
  | begin => cases x <;> cases h <;> exact ⟨m, rfl, hm, rfl⟩
  | txWrite w =>
    cases x with
    | done =>
      cases h
      obtain ⟨m', hc, -, -⟩ := @World.commit_of_db s (s.commit [w]).2 m [w] (s.commit [w]).1 rfl hm
      refine ⟨m, ?_, hm, rfl⟩
      show some ((m.commit [w]).1, m) = _
      rw [hc]
    | fail e => cases h; exact ⟨m, rfl, hm, rfl⟩
    | _ => cases h
  | commit ws =>
    cases x with
    | done =>
      obtain ⟨m', hc, hdb, hissued⟩ := World.commit_of_db (Option.some.inj h) hm
      exact ⟨m', congrArg some hc, hdb, hissued⟩
    | fail e => cases h; exact ⟨m, rfl, hm, rfl⟩
    | _ => cases h
  | now => cases x <;> cases h; exact ⟨m, rfl, hm, rfl⟩
  | newUuid => exact absurd rfl ho
  | randomBytes n =>
    obtain rfl := exec_randomBytes h
    cases x with
    | bytes bs =>
      simp only [exec] at h
      split at h
      · next hn =>
        cases h
        exact ⟨m, dif_pos hn, hm, rfl⟩
      · cases h
    | _ => cases h
  | caller user =>
    obtain rfl := exec_caller h
    cases x <;> cases h
    exact ⟨_, rfl, hm, rfl⟩

/-- Operations that neither see nor change the database. -/
def Op.Aside : Op → Prop
  | .begin | .now | .randomBytes _ => True
  | _ => False

namespace Service

variable {i : Nat} {α β : Type} {s s' : World} {t : Table}

theorem exec_aside {o : Op} (ho : o.Aside) {x : Ans} {r : Res o} (h : exec i o x s = some (r, s')) :
    s' = s ∧ ∀ m, exec i o x m = some (r, m) := by
  cases o with
  | begin => cases x <;> cases h <;> exact ⟨rfl, fun _ => rfl⟩
  | now => cases x <;> cases h; exact ⟨rfl, fun _ => rfl⟩
  | randomBytes n =>
    obtain rfl := exec_randomBytes h
    cases x with
    | bytes bs =>
      simp only [exec] at h
      split at h
      · next hn =>
        cases h
        exact ⟨rfl, fun _ => dif_pos hn⟩
      · cases h
    | _ => cases h
  | _ => exact ho.elim

theorem apart_of_aside {o : Op} (ho : o.Aside) : Prog.Apart World.db exec i o := by
  intro x s r s' h
  obtain ⟨rfl, hm⟩ := exec_aside ho h
  exact ⟨rfl, fun m => ⟨m, hm m, rfl⟩⟩

theorem lands {o : Op} (ho : o ≠ .newUuid) {x : Ans} {r : Res o}
    (h : exec i o x s = some (r, s')) : Prog.Lands (mover i) exec i o s r s' := by
  intro m hm
  obtain ⟨m', hx, hdb, -⟩ := exec_of_db ho h hm.db
  exact ⟨x, m', hx, hdb⟩

/-- The call, from this state on, takes effect at once. A structure, so that the call is not
unfolded where this is used. -/
structure Atomic (i : Nat) (y : Service α) (s : World) : Prop where
  prog : Prog.Atomic (mover i) exec i y s

/-- The call neither sees nor changes the database. -/
def Detached (y : Service α) : Prop := Flow.All Op.Aside y fun _ => True

theorem detached_pure (a : α) : Detached (pure a : Service α) := Flow.all_pure.mpr trivial

theorem detached_throwApi {f : α → Service β} (e : ApiError) : Detached (throwApi e >>= f) :=
  Flow.all_bind.mpr ((all_throwApi e).mpr trivial)

theorem Detached.bind {y : Service α} {f : α → Service β} (hy : Detached y)
    (hf : ∀ a, Detached (f a)) : Detached (y >>= f) := Flow.all_bind.mpr (Flow.All.mono hy (fun _ h => h) fun a _ => hf a)

theorem detached_mapM {g : α → Service β} (h : ∀ a, Detached (g a)) (as : List α) :
    Detached (as.mapM g) :=
  Flow.All.mono (all_mapM (P := fun _ _ => True) fun a _ => h a) (fun _ h => h) fun _ _ => trivial

theorem Detached.all {y : Service α} (h : Detached y) :
    Prog.All (Prog.Apart World.db exec i) y fun _ => True :=
  Prog.All.mono h (fun _ ho => apart_of_aside ho) fun _ _ => trivial

/-! ## Calls without database operations -/

theorem Atomic.stable {y : Service α} (h : Atomic i y s) (hs : Beside i s s') : Atomic i y s' :=
  ⟨Prog.Atomic.stable h.prog hs⟩

theorem atomic_throwApi (e : ApiError) {f : α → Service β} : Atomic i (throwApi e >>= f) s :=
  ⟨trivial⟩

theorem atomic_throwIf {b : Prop} [Decidable b] {e : ApiError} {f : Unit → Service β}
    (h : ¬ b → Atomic i (f ()) s) : Atomic i (throwIf b e >>= f) s := by
  unfold throwIf
  split
  · exact atomic_throwApi e
  · next hb => exact h hb

theorem atomic_orThrow {r : Except ApiError α} {f : α → Service β}
    (h : ∀ a, r = .ok a → Atomic i (f a) s) : Atomic i (orThrow r >>= f) s := by
  cases r with
  | error e => exact atomic_throwApi e
  | ok a => exact h a rfl

/-! ## One operation and the rest of the call -/

theorem call_bind (o : Op) (f : Res o → Service β) :
    (Flow.call o >>= f : Service β) = Prog.op o fun r => f r := rfl

/-- An operation that can be put off, or lands and leaves the rest of the call aside. -/
theorem atomic_call {o : Op} {f : Res o → Service β} (h : ∀ s₁, Beside i s s₁ → ∀ x r s₂,
    exec i o x s₁ = some (r, s₂) →
      (Prog.PutOff (mover i) exec i (fun r => (f r : Prog Res (Except Abort β))) s₁ r s₂ ∧
        Atomic i (f r) s₂) ∨ (Prog.Lands (mover i) exec i o s₁ r s₂ ∧ Detached (f r))) :
    Atomic i (Flow.call o >>= f) s := by
  rw [call_bind]
  refine ⟨fun s₁ h₁ x r s₂ hx => ?_⟩
  exact (h s₁ h₁ x r s₂ hx).imp (fun ho => ⟨ho.1, ho.2.prog⟩) fun hl => ⟨hl.1, hl.2.all⟩

/-- An operation beside the database can be done at any time. -/
theorem atomic_aside {o : Op} (ho : o.Aside) {f : Res o → Service β}
    (h : ∀ r s', Beside i s s' → Atomic i (f r) s') : Atomic i (Flow.call o >>= f) s := by
  refine atomic_call fun s₁ h₁ x r s₂ hx => ?_
  obtain ⟨rfl, hm⟩ := exec_aside ho hx
  exact .inl ⟨⟨Beside.refl i s₂, rfl, fun {s₃ m} _ hs => ⟨x, r, m, hm m, rfl, hs⟩⟩, h r s₂ h₁⟩

theorem atomic_now {f : DateTime → Service β}
    (h : ∀ t s', Beside i s s' → Atomic i (f t) s') : Atomic i (now >>= f) s :=
  atomic_aside (o := .now) trivial h

theorem atomic_randomBytes {n : Nat} {f : Bytes n → Service β}
    (h : ∀ bs s', Beside i s s' → Atomic i (f bs) s') : Atomic i (randomBytes n >>= f) s :=
  atomic_aside (o := .randomBytes n) trivial h

theorem detached_mapErr_error {g : String → ApiError} {e : String} {f : α → Service β} :
    Detached (mapErr g (.error e) >>= f) := Flow.all_bind.mpr ((all_mapErr _ _).mpr nofun)

theorem atomic_transaction {f : Unit → Service β} (h : ∀ s', Beside i s s' → Atomic i (f ()) s') :
    Atomic i (transaction >>= f) s := by
  unfold transaction
  rw [bind_assoc]
  refine atomic_aside (o := .begin) trivial fun r s' hs => ?_
  cases r with
  | error e => exact atomic_throwApi _
  | ok u => exact h s' hs

/-- An identifier is the call's own, and nobody will have used it. -/
theorem atomic_nowV7 {f : Uuid → Service β}
    (h : ∀ u s', Beside i s s' → (i, u) ∈ s'.issued → s'.Unkeyed u → Atomic i (f u) s') :
    Atomic i (nowV7 >>= f) s := by
  refine atomic_call fun s₁ h₁ x u s₂ hx => ?_
  obtain ⟨hu, rfl⟩ := exec_newUuid hx
  have hown : (i, u) ∈ (s₁.issue i u hu).issued := List.mem_cons_self
  have hissued : ∀ p ∈ s₁.issued, p ∈ (s₁.issue i u hu).issued :=
    fun p hp => List.mem_cons_of_mem _ hp
  have hs : Beside i s₁ (s₁.issue i u hu) := .of_db rfl hissued
  have hkey : (s₁.issue i u hu).Unkeyed u := fun t r hr => World.key_of_fresh hu hr
  refine .inl ⟨⟨hs, rfl, fun {s₃ m} h₃ hm => ?_⟩, h u _ (h₁.trans hs) hown hkey⟩
  -- alone the identifier is fresh as well: it was new at `s₁`, and is still no key
  have hmkey : m.Unkeyed u := by
    unfold World.Unkeyed
    rw [hm.db]
    exact h₃.unkeyed hown hkey
  have hnew : u ∉ m.issued.map Prod.snd := by
    intro hmem
    obtain ⟨p, hp, rfl⟩ := List.mem_map.mp hmem
    exact World.notMem_of_fresh hu (List.mem_map_of_mem (hm.issued p hp).2.1)
  have hfresh : m.fresh u = true := World.fresh_of_unkeyed hmkey hnew
  refine ⟨.uuid u, u, m.issue i u hfresh, dif_pos hfresh, rfl, hm.db, fun p hp => ?_⟩
  rcases List.mem_cons.mp hp with rfl | hp
  · exact ⟨rfl, hown, h₃.unkeyed hown hkey⟩
  · obtain ⟨hi, hmem, hk⟩ := hm.issued p hp
    exact ⟨hi, hissued p hmem, hk⟩

/-- A row under an own identifier is not refused, whatever the others have inserted. -/
theorem atomic_txCreate {r : Row t} {u : Uuid} {f : Row t → Service β} (ht : uniqueCols t = [0])
    (hr : layout.col 0 r = some (.uuid u)) (hown : (i, u) ∈ s.issued) (hkey : s.Unkeyed u)
    (h : ∀ s', Beside i s s' → Atomic i (f r) s') : Atomic i (create .transaction r >>= f) s := by
  have hdone : ∀ s', Beside i s s' → ∀ m : World, m.db = s'.db →
      exec i (.txWrite (.insert t r)) .done m = some (.ok (), m) := by
    intro s' hs m hm
    have hnew : Layout.New m.db r := by
      intro c hc r' hr' he
      obtain rfl : c = 0 := by
        have hc : c ∈ uniqueCols t := hc
        rw [ht] at hc
        exact List.mem_singleton.mp hc
      rw [hm] at hr'
      exact hs.unkeyed hown hkey t r' hr' (he.trans hr)
    obtain ⟨db, hdb⟩ := Layout.apply_insert_isSome hnew
    show some ((m.commit [.insert t r]).1, m) = _
    rw [World.commit_single, hdb]
  unfold create execute
  rw [bind_assoc, bind_assoc]
  refine atomic_call fun s₁ h₁ x r' s₂ hx => .inl ?_
  have hidle : s₂ = s₁ := exec_idle rfl hx
  subst hidle
  cases r' with
  | error e =>
    refine ⟨⟨Beside.refl i s₂, rfl, fun {s₃ m} _ hm => ?_⟩, atomic_throwApi _⟩
    exact ⟨.fail e, .error e, m, rfl, rfl, hm⟩
  | ok _ =>
    refine ⟨⟨Beside.refl i s₂, rfl, fun {s₃ m} h₃ hm => ?_⟩, h s₂ h₁⟩
    exact ⟨.done, .ok (), m, hdone s₃ (h₁.trans h₃) m hm.db, rfl, hm⟩

/-- A call that does nothing with the database. -/
theorem atomic_of_detached {y : Service α} (h : Detached y) : Atomic i y s := by
  unfold Detached Flow.All at h
  constructor
  cases (y : Prog Res (Except Abort α)) with
  | ret r => trivial
  | op o k =>
    intro s₁ _ x r s₂ hx
    have haside : o.Aside := h.1
    have hrest := Prog.All.mono (h.2 r) (fun _ ho => apart_of_aside (i := i) ho) fun _ _ => trivial
    exact .inr ⟨lands (fun ho => by rw [ho] at haside; exact haside) hx, hrest⟩

/-! ## Statements -/

/-- A query whose result decides the rest of the call as any later one would, or whose result is
all that the call still needs. -/
theorem atomic_query {flt : Filter} {f : List (Row t) → Service β}
    (h : ∀ s₁, Beside i s s₁ →
      ((∀ s₂, Beside i s₁ s₂ → f (layout.select s₂.db t flt) = f (layout.select s₁.db t flt)) ∧
        Atomic i (f (layout.select s₁.db t flt)) s₁) ∨ Detached (f (layout.select s₁.db t flt))) :
    Atomic i (query t flt >>= f) s := by
  unfold query
  rw [bind_assoc]
  refine atomic_call fun s₁ h₁ x r s₂ hx => ?_
  obtain ⟨rfl, ⟨e, rfl⟩ | rfl⟩ := exec_select hx
  · exact .inr ⟨lands (fun ho => by cases ho) hx, detached_mapErr_error⟩
  · rcases h s₂ h₁ with ⟨hlater, hf⟩ | haside
    · refine .inl ⟨⟨Beside.refl i s₂, rfl, fun {s₃ m} h₃ hm => ?_⟩, hf⟩
      refine ⟨.done, .ok (layout.select s₃.db t flt), m, ?_, hlater s₃ h₃, hm⟩
      show some (Except.ok (layout.select m.db t flt), m) = _
      rw [hm.db]
    · exact .inr ⟨lands (fun ho => by cases ho) hx, haside⟩

theorem atomic_queryLast {flt : Filter} {f : List (Row t) → Service β}
    (h : ∀ rows, Detached (f rows)) :
    Atomic i (query t flt >>= f) s := atomic_query fun _ _ => .inr (h _)

/-- A row of a table that never changes, looked up by its key: if it is there it stays. -/
theorem atomic_first {id : Uuid} {f : Option (Row t) → Service β}
    (ht : fixedCols t = List.range 14) (hkey : 0 ∈ uniqueCols t) (hnone : Detached (f none))
    (hsome : ∀ r s', Beside i s s' → r ∈ s'.db.rows t → layout.col 0 r = some (.uuid id) →
      Atomic i (f (some r)) s') : Atomic i (first t (byId id) >>= f) s := by
  unfold first
  rw [bind_assoc]
  refine atomic_query fun s₁ h₁ => ?_
  simp only [pure_bind]
  cases hfound : (layout.select s₁.db t (byId id)).head? with
  | none => exact .inr hnone
  | some r =>
    obtain ⟨hr, hid⟩ := Layout.mem_of_head?_select hfound
    have hid : layout.col 0 r = some (.uuid id) := Layout.holds_eq.mp hid
    refine .inl ⟨fun s₂ h₂ => ?_, hsome r s₁ h₁ hr hid⟩
    rw [byId, Layout.head?_select hkey (h₂.mem ht hr) hid]

theorem atomic_firstLast {flt : Filter} {f : Option (Row t) → Service β}
    (h : ∀ r, Detached (f r)) : Atomic i (first t flt >>= f) s := by
  unfold first
  rw [bind_assoc]
  exact atomic_queryLast fun rows => by rw [pure_bind]; exact h _

/-- A statement after which the call is done with the database. -/
theorem atomic_executeLast {w : Write} {f : Unit → Service β} (h : Detached (f ())) :
    Atomic i (execute w .handle >>= f) s := by
  unfold execute
  rw [bind_assoc]
  refine atomic_call fun s₁ h₁ x r s₂ hx => .inr ⟨lands (fun ho => by cases ho) hx, ?_⟩
  cases r with
  | error e => exact detached_mapErr_error
  | ok u => exact h

theorem atomic_createLast {r : Row t} {f : Row t → Service β} (h : Detached (f r)) :
    Atomic i (create .handle r >>= f) s := by
  unfold create
  rw [bind_assoc]
  exact atomic_executeLast (by rw [pure_bind]; exact h)

theorem atomic_updateLast {flt : Filter} {sets : List (Nat × Value)} {f : Unit → Service β}
    (h : Detached (f ())) : Atomic i (update t flt sets >>= f) s := atomic_executeLast h

theorem atomic_commitLast {ws : List Write} {f : Unit → Service β} (h : Detached (f ())) :
    Atomic i (commit ws >>= f) s := by
  unfold commit
  rw [bind_assoc]
  refine atomic_call fun s₁ h₁ x r s₂ hx => .inr ⟨lands (fun ho => by cases ho) hx, ?_⟩
  cases r with
  | error e => exact detached_mapErr_error
  | ok u => exact h

end Service

end Wara
