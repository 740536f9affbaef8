import Wara.Auth.Steps
import Wara.External.Symbolic

/-!
# The last platform admin

`disable_user` and `change_user_role` count the active admins in one statement
and update a user in a later one. A run keeps an active admin exactly when none
of these updates hits the only active admin left at that moment; nothing in the
code makes sure of that, and two admins who disable each other lock everyone out.
-/

namespace Wara

open Interleave Store

def UserRecord.isActiveSuperAdmin (r : UserRecord) : Bool :=
  r.role = Role.superAdmin.asStr && r.status = UserStatus.active.asStr

def HasActiveSuperAdmin (db : Db) : Prop :=
  ∃ r : UserRecord, r ∈ db.rows .users ∧ r.isActiveSuperAdmin = true

/-- The user `id` is an active admin and nobody else is. -/
def OnlyActiveSuperAdmin (db : Db) (id : Uuid) : Prop :=
  (∃ r : UserRecord, r ∈ db.rows .users ∧ r.isActiveSuperAdmin = true ∧ r.id = id) ∧
    ∀ r : UserRecord, r ∈ db.rows .users → r.isActiveSuperAdmin = true → r.id = id

instance (db : Db) : Decidable (HasActiveSuperAdmin db) :=
  inferInstanceAs (Decidable (∃ r ∈ (db.rows .users : List UserRecord),
    r.isActiveSuperAdmin = true))

/-- The update of `disable_user`, or of `change_user_role` to a lesser role, for the user `id`. -/
inductive Demotes : Op → Uuid → Prop
  | disable (id : Uuid) : Demotes (.write (disableWrite id)) id
  | changeRole (id : Uuid) (role : Role) (h : role ≠ .superAdmin) :
      Demotes (.write (changeRoleWrite id role)) id

variable {x : Ext} {q : AuthRequest} {o : Op} {db db' : Db}

/-- Somebody else is an active admin. -/
theorem HasActiveSuperAdmin.other {id : Uuid} (h : HasActiveSuperAdmin db)
    (hid : ¬ OnlyActiveSuperAdmin db id) :
    ∃ r : UserRecord, r ∈ db.rows .users ∧ r.isActiveSuperAdmin = true ∧ r.id ≠ id := by
  obtain ⟨r, hr, ha⟩ := h
  by_contra hno
  have hall : ∀ r : UserRecord, r ∈ db.rows .users → r.isActiveSuperAdmin = true → r.id = id := by
    intro r hr ha
    by_contra hne
    exact hno ⟨r, hr, ha, hne⟩
  exact hid ⟨⟨r, hr, ha, hall r hr ha⟩, hall⟩

/-- **One step** keeps an active admin unless it demotes the only one. -/
theorem HasActiveSuperAdmin.step (h : HasActiveSuperAdmin db)
    (hs : UsersStep x q o (db.rows .users) (db'.rows .users))
    (hd : ∀ id, Demotes o id → ¬ OnlyActiveSuperAdmin db id) : HasActiveSuperAdmin db' := by
  unfold HasActiveSuperAdmin
  generalize db'.rows .users = rs at hs
  cases hs with
  | same => exact h
  | add _ =>
    obtain ⟨r, hr, ha⟩ := h
    exact ⟨r, List.mem_append_left _ hr, ha⟩
  | @edit id f he =>
    by_cases hk : ∀ r : UserRecord, r.isActiveSuperAdmin = true → (f r).isActiveSuperAdmin = true
    · obtain ⟨r, hr, ha⟩ := h
      refine ⟨_, List.mem_map_of_mem hr, ?_⟩
      split
      · exact hk r ha
      · exact ha
    · have hdem : Demotes o id := by
        cases he with
        | disable => exact .disable id
        | changeRole input =>
          refine .changeRole _ _ fun hrole => hk fun r ha => ?_
          simp only [UserRecord.isActiveSuperAdmin, Bool.and_eq_true, decide_eq_true_eq] at ha ⊢
          exact ⟨by rw [hrole], ha.2⟩
        | reactivate =>
          refine absurd (fun r ha => ?_) hk
          simp only [UserRecord.isActiveSuperAdmin, Bool.and_eq_true, decide_eq_true_eq] at ha ⊢
          exact ⟨ha.1, trivial⟩
        | accept =>
          refine absurd (fun r ha => ?_) hk
          simp only [UserRecord.isActiveSuperAdmin, Bool.and_eq_true, decide_eq_true_eq] at ha ⊢
          exact ⟨ha.1, trivial⟩
      obtain ⟨r, hr, ha, hne⟩ := h.other (hd id hdem)
      refine ⟨r, List.mem_map.mpr ⟨r, hr, if_neg hne⟩, ha⟩

/-- Demoting the only active admin leaves none. -/
theorem OnlyActiveSuperAdmin.demoted {id : Uuid} (h : OnlyActiveSuperAdmin db id)
    (hd : Demotes o id) (ha : layout.applyAll o.writes db = some db') :
    ¬ HasActiveSuperAdmin db' := by
  have hgone : ∀ f : UserRecord → UserRecord, (∀ r, (f r).isActiveSuperAdmin = false) →
      db'.rows .users = List.map (fun r : UserRecord => if r.id = id then f r else r)
        (db.rows .users) → ¬ HasActiveSuperAdmin db' := by
    rintro f hf hrows ⟨r', hr', ha'⟩
    rw [hrows] at hr'
    obtain ⟨r, hr, rfl⟩ := List.mem_map.mp hr'
    split at ha'
    · rw [hf] at ha'; cases ha'
    · next hne => exact hne (h.2 r hr ha')
  cases hd with
  | disable =>
    refine hgone (fun r => { r with status := UserStatus.disabled.asStr }) (fun r => ?_)
      (apply_updateUser (fun _ => rfl) (applyAll_single ha))
    exact Bool.and_eq_false_imp.mpr fun _ => decide_eq_false
      (show UserStatus.disabled.asStr ≠ UserStatus.active.asStr by decide)
  | changeRole id role hrole =>
    refine hgone (fun r => { r with role := role.asStr }) (fun r => ?_)
      (apply_updateUser (fun _ => rfl) (applyAll_single ha))
    exact Bool.and_eq_false_imp.mpr fun hr => absurd (Role.asStr_inj (of_decide_eq_true hr)) hrole

section runs

variable {calls : List Call} {w : World} {P' : AuthPool} {es : List (Event Res World)}

/-- **Exactly when an active admin remains.** Whatever requests run and however their statements
interleave: every state reached has an active admin if and only if no update of a `disable_user`,
or of a `change_user_role` to a lesser role, is done on the only active admin of that moment. -/
theorem activeSuperAdmin_remains_iff (h0 : HasActiveSuperAdmin w.db)
    (hr : Runs exec (AuthPool.of x calls w) es P') :
    (∀ e ∈ es, HasActiveSuperAdmin e.post.db) ↔
      ∀ e ∈ es, ∀ id, Demotes e.op id → e.op.succeeded e.res = true →
        ¬ OnlyActiveSuperAdmin e.pre.db id := by
  constructor
  · intro hall e he id hd hs honly
    obtain ⟨a, ha⟩ := hr.handled e he
    exact honly.demoted hd (exec_succeeded ha hs) (hall e he)
  · intro hcond
    have hkeep : ∀ e ∈ es, HasActiveSuperAdmin e.pre.db → HasActiveSuperAdmin e.post.db := by
      intro e he hpre
      rcases AuthPool.step hr he with hsame | ⟨c, -, hch, hs, ha⟩
      · rw [hsame]; exact hpre
      · exact hpre.step (hch.usersStep ha) fun id hd => hcond e he id hd hs
    have hrun := hr.keeps (I := fun w => HasActiveSuperAdmin w.db) h0 hkeep
    exact fun e he => (hrun.1 e he).2

end runs

/-! ## Two admins disable each other -/

namespace Symbolic

def adminRow (id : Uuid) (email : String) : UserRecord :=
  newAdmin id email "Admin" "$argon2id$secret"

/-- Two active platform admins, and nothing else. -/
def twoAdmins : World := .start {
  rows := fun
    | .users => [adminRow 1 "ada@wara.local", adminRow 2 "bob@wara.local"]
    | _ => []
  unique := fun t => by cases t <;> decide }

/-- Each request reads its user, counts two admins, and only then do both update. -/
def writeSkew : List (Nat × Ans) :=
  [(0, .done), (1, .done), (0, .done), (1, .done), (0, .done), (1, .done), (0, .done), (1, .done)]

theorem activeSuperAdmin_lost : ¬ ∀ (x : Ext) (calls : List Call) (w : World) (P' : AuthPool)
    (es : List (Event Res World)), HasActiveSuperAdmin w.db →
    Runs exec (AuthPool.of x calls w) es P' → HasActiveSuperAdmin P'.state.db := by
  intro hclaim
  let P := AuthPool.of ext [⟨config "A", .disableUser 1⟩, ⟨config "A", .disableUser 2⟩] twoAdmins
  have hlost : (P.run exec writeSkew).map (fun P' => decide (HasActiveSuperAdmin P'.state.db)) =
      some false := by decide
  obtain ⟨P', hrun, hP'⟩ := Option.map_eq_some_iff.mp hlost
  exact of_decide_eq_false hP' (hclaim _ _ _ _ _ (by decide) (Pool.run_runs hrun))

/-- Both requests read their users, and the second counts after the first has updated. -/
def countedLate : List (Nat × Ans) :=
  [(0, .done), (1, .done), (0, .done), (0, .done), (1, .done), (0, .done)]

/-- So it is refused, and the only active admin is not hit. -/
theorem activeSuperAdmin_remains_counted :
    let P := AuthPool.of ext [⟨config "A", .disableUser 1⟩, ⟨config "A", .disableUser 2⟩] twoAdmins
    ∀ e ∈ P.trace exec countedLate, ∀ id,
      Demotes e.op id → e.op.succeeded e.res = true → ¬ OnlyActiveSuperAdmin e.pre.db id := by
  intro P
  have hsome : (P.run exec countedLate).isSome = true := by decide
  obtain ⟨P', hrun⟩ := Option.isSome_iff_exists.mp hsome
  exact (activeSuperAdmin_remains_iff (by decide) (Pool.run_runs hrun)).mp (by decide)

end Symbolic

end Wara
