import Wara.Auth.Credentials

/-!
# Who a token stands for

`authenticate_bearer` takes from a token the identifier of a user and nothing
else. What it returns is read from the database: the stored user, and the stored
workspace roles unless the user is a platform admin, who needs none.
-/

namespace Wara

open Interleave Store Service AuthService

/-- The user that `user_from_record` makes of a record. -/
def storedIdentity (db : Db) (u : UserRecord) : User :=
  if Role.from u.role = .superAdmin then User.from u
  else { User.from u with
    workspaceRoles :=
      (layout.select db .workspaceUserRoles (.eq 1 (.uuid u.id))).map WorkspaceRole.from }

/-- The token stands for the user `id`. -/
def SubjectOf (x : Ext) (s : World) (token : String) (id : Uuid) : Prop :=
  (∃ claims, ReadsAsAccess x token claims ∧ x.uuidParseStr claims.sub = some id) ∨
    Rust.startsWith token "wara_" = true ∧ ∃ r : UserApiTokenRecord,
      r ∈ s.db.rows .userApiTokens ∧ r.tokenHash = hashApiToken x token ∧ r.revokedAt = none ∧
        r.userId = id

/-- The user is the identity that is stored for the subject of the token, who is active. -/
def Identified (x : Ext) (s : World) (token : String) (user : User) : Prop :=
  ∃ u : UserRecord, u ∈ s.db.rows .users ∧ u.status = UserStatus.active.asStr ∧
    SubjectOf x s token u.id ∧ user = storedIdentity s.db u

/-- A token made for the user `id`: an access token, whatever else it claims and whoever signed
it, or an API token. -/
inductive CredentialOf (x : Ext) (s : World) (id : Uuid) : String → Prop
  | accessToken {token : String} (h : IsAccessToken x token id) : CredentialOf x s id token
  | apiToken {token : String} {r : UserApiTokenRecord} (hshape : HasShape x .apiToken token)
      (hr : r ∈ s.db.rows .userApiTokens) (hhash : r.tokenHash = hashApiToken x token)
      (huser : r.userId = id) : CredentialOf x s id token

section identity

variable {x : Ext} {config : Config} {s s' : World} {id : Uuid} {token : String} {user : User}

theorem CredentialOf.subject (hx : x.Lawful) (h : CredentialOf x s id token) {id' : Uuid}
    (hsub : SubjectOf x s token id') : id' = id := by
  cases h with
  | accessToken h =>
    rcases hsub with ⟨claims, hreads, hparse⟩ | ⟨hstarts, -⟩
    · rw [h.sub_eq hx hreads, hx.parse_uuid] at hparse
      exact (Option.some.inj hparse).symm
    · obtain ⟨_, _, _, -, hencode⟩ := h
      exact absurd hstarts (not_apiToken_of_eyJ (hx.encode_eyJ hencode))
  | apiToken hshape hr hhash huser =>
    rcases hsub with ⟨claims, hreads, -⟩ | ⟨-, r', hr', hhash', -, huser'⟩
    · cases hshape with
      | apiToken raw => exact absurd hreads (not_readsAsAccess hx (dot_notMem_apiToken hx raw))
    · rw [← huser', ← huser, Db.apiToken_eq hr' hr (hhash'.trans hhash.symm)]

theorem Identified.eq (hx : x.Lawful) {token' : String} {user' : User}
    (hc : CredentialOf x s id token) (hc' : CredentialOf x s id token')
    (h : Identified x s token user) (h' : Identified x s token' user') : user = user' := by
  obtain ⟨u, hu, -, hsub, rfl⟩ := h
  obtain ⟨u', hu', -, hsub', rfl⟩ := h'
  rw [Db.user_eq hu hu' ((hc.subject hx hsub).trans (hc'.subject hx hsub').symm)]

/-! ## Authenticating alone -/

theorem ends_userFromRecord {u : UserRecord} :
    Ends alone (userFromRecord u) (fun user _ => user = storedIdentity s.db u) s := by
  have hrole : (User.from u).role = Role.from u.role := rfl
  unfold userFromRecord storedIdentity
  by_cases h : Role.from u.role = .superAdmin
  · simp only [hrole, h, if_true]
    exact ends_pure fun _ _ => rfl
  · simp only [hrole, h, if_false]
    refine ends_query tame_alone fun s₁ h₁ _ => ends_pure fun _ _ => ?_
    rw [show s₁.db = s.db from h₁]

theorem ends_identified :
    Ends alone (authenticateBearer x config token) (fun user _ => Identified x s token user) s := by
  refine ends_authenticateBearer tame_alone ?_ ?_
  · intro s₁ claims id h₁ hreads hparse s₂ u h₂ hu hid hactive
    have hdb : s₂.db = s.db := h₂.trans h₁
    rw [hdb] at hu
    have hsub : SubjectOf x s token u.id := .inl ⟨claims, hreads, hid ▸ hparse⟩
    refine Flow.Safe.mono ends_userFromRecord (fun user _ huser => ?_) fun _ _ h => h
    exact ⟨u, hu, hactive, hsub, by rw [huser, hdb]⟩
  · intro s₁ r h₁ hstarts hr hhash hlive s₂ u h₂ hu hid hactive
    have hdb : s₂.db = s.db := h₂.trans h₁
    rw [hdb] at hu
    rw [show s₁.db = s.db from h₁] at hr
    have hsub : SubjectOf x s token u.id := .inr ⟨hstarts, r, hr, hhash, hlive, hid.symm⟩
    refine ends_reads tame_alone (Q := fun _ => True) (by simp [Op.writes]) fun now s₃ _ h₃ => ?_
    refine ends_update (fun _ _ _ _ _ => trivial) fun s₄ s₅ h₄ hstep => ?_
    refine Flow.Safe.mono ends_userFromRecord (fun user _ huser => ?_) fun _ _ h => h
    refine ⟨u, hu, hactive, hsub, ?_⟩
    -- the update of `last_used_at` leaves the roles alone
    obtain ⟨i, a, ha⟩ := hstep
    have happ := applyAll_single (exec_succeeded ha rfl)
    have hroles : s₅.db.rows .workspaceUserRoles = s.db.rows .workspaceUserRoles := by
      rw [Layout.apply_frame happ (fun he => by cases he), h₄, h₃, hdb]
    rw [huser]
    unfold storedIdentity Layout.select
    rw [hroles]

theorem identified_of_run {i : Nat} {xs : List Ans}
    (h : Prog.run exec i (authenticateBearer x config token) xs s = some (.ok user, s')) :
    Identified x s token user := ok_of_run ends_identified h

theorem run_of_currentUser {i : Nat} {xs : List Ans}
    (h : Prog.run exec i (currentUser x config (some ("Bearer " ++ token))) xs s =
      some (.ok user, s')) :
    Prog.run exec i (authenticateBearer x config token) xs s = some (.ok user, s') := by
  unfold currentUser at h
  rw [Option.bind_some, Rust.stripPrefix_append] at h
  exact h

/-! ## After a demotion -/

/-- The user `id` is stored, and is no platform admin. -/
def LesserRole (id : Uuid) (s : World) : Prop :=
  ∃ u : UserRecord, u ∈ s.db.rows .users ∧ u.id = id ∧ u.role ≠ Role.superAdmin.asStr

/-- **One step** makes a platform admin only by a `change_user_role` to that role. -/
theorem LesserRole.step {q : AuthRequest} {o : Op} (h : LesserRole id s)
    (hs : UsersStep x q o (s.db.rows .users) (s'.db.rows .users))
    (hno : o ≠ .write (changeRoleWrite id .superAdmin)) : LesserRole id s' := by
  obtain ⟨u, hu, hid, hrole⟩ := h
  unfold LesserRole
  generalize s'.db.rows .users = rs at hs
  cases hs with
  | same => exact ⟨u, hu, hid, hrole⟩
  | add _ => exact ⟨u, List.mem_append_left _ hu, hid, hrole⟩
  | @edit uid f hf =>
    refine ⟨_, List.mem_map_of_mem hu, ?_⟩
    split
    · next huid =>
      refine ⟨(hf.id_eq u).trans hid, ?_⟩
      cases hf with
      | changeRole input =>
        rw [← huid, hid] at hno
        exact fun hsame => hno (by rw [Role.asStr_inj hsame])
      | _ => exact hrole
    · exact ⟨hid, hrole⟩

theorem LesserRole.of_runs {calls : List Call} {P' : AuthPool} {es : List (Event Res World)}
    (h : LesserRole id s) (hr : Runs exec (AuthPool.of x calls s) es P')
    (hno : ∀ e ∈ es, e.op ≠ .write (changeRoleWrite id .superAdmin)) : LesserRole id P'.state := by
  refine (hr.keeps (I := LesserRole id) h fun e he hpre => ?_).2
  rcases AuthPool.step hr he with hsame | ⟨c, -, hch, -, ha⟩
  · rw [LesserRole, hsame]
    exact hpre
  · exact hpre.step (hch.usersStep ha) (hno e he)

/-- Alone, taking the role away from a user leaves it taken. -/
theorem ends_changeUserRole (x : Ext) {role : Role} (hrole : role ≠ .superAdmin) :
    Ends alone (changeUserRole ⟨id, role⟩) (fun _ s' => LesserRole id s' ∧ s.Keeps s') s := by
  unfold changeUserRole
  refine ends_getUserRecord tame_alone fun s₁ u h₁ hu hid => ?_
  refine ends_reads tame_alone (Q := fun _ => True) (by
    simp [atMostOneActive, activeSuperAdminCount, Op.writes]) fun last s₂ _ h₂ => ?_
  refine ends_throwIf fun _ => ends_update (fun _ _ _ _ _ => trivial) fun s₃ s₄ h₃ hstep => ?_
  obtain ⟨i, a, ha⟩ := hstep
  have happ := exec_succeeded ha rfl
  have hdb : s₃.db = s₁.db := h₃.trans h₂
  have husers : s₄.db.rows .users = List.map (fun r : UserRecord =>
      if r.id = id then { r with role := role.asStr } else r) (s₃.db.rows .users) :=
    apply_updateUser (fun _ => rfl) (applyAll_single happ)
  have hlesser : LesserRole id s₄ := by
    refine ⟨{ u with role := role.asStr }, ?_, hid, fun hsame => hrole (Role.asStr_inj hsame)⟩
    rw [husers, hdb]
    exact List.mem_map.mpr ⟨u, hu, if_pos hid⟩
  have hkeeps : s.Keeps s₄ := by
    rw [World.Keeps, ← show s₃.db = s.db from hdb.trans h₁]
    exact Layout.applyAll_keeps happ
      (Changes.changeRole (x := x) ⟨id, role⟩).sets_notMem_fixedCols
  rw [← bind_pure (getUser id)]
  refine ends_reads tame_alone (Q := fun _ => True) (by
    simp [getUser, getUserRecord, userFromRecord, Op.writes]) fun user s₅ _ h₅ =>
      ends_pure fun s₆ h₆ => ?_
  rw [LesserRole, World.Keeps, show s₆.db = s₄.db from h₆.trans h₅]
  exact ⟨hlesser, hkeeps⟩

/-- A credential of a user who is no platform admin does not identify one. -/
theorem LesserRole.identified (hx : x.Lawful) (h : LesserRole id s)
    (hc : CredentialOf x s id token) (hi : Identified x s token user) : user.role ≠ .superAdmin := by
  obtain ⟨u, hu, -, hsub, rfl⟩ := hi
  obtain ⟨u', hu', hid, hrole⟩ := h
  rw [Db.user_eq hu hu' ((hc.subject hx hsub).trans hid.symm)]
  have hfrom : (storedIdentity s.db u').role = Role.from u'.role := by
    unfold storedIdentity
    split <;> rfl
  rw [hfrom, ne_eq, Role.from_eq_superAdmin]
  exact hrole

theorem CredentialOf.mono (hk : s.Keeps s') (h : CredentialOf x s id token) :
    CredentialOf x s' id token := by
  cases h with
  | accessToken h => exact .accessToken h
  | apiToken hshape hr hhash huser =>
    obtain ⟨r', hr', hc⟩ := hk .userApiTokens _ hr
    exact .apiToken hshape hr' ((text_of_col (hc 3 (by decide))).trans hhash)
      ((uuid_of_col (hc 1 (by decide))).trans huser)

/-- From `s`, a `change_user_role` has run alone and taken the role of a platform admin away from
the user `id`; after it have come any requests, in any order, that did not give it back. -/
def Demoted (x : Ext) (s : World) (id : Uuid) (s' : World) : Prop :=
  ∃ (i : Nat) (role : Role) (xs : List Ans) (changed : User) (s₁ : World) (calls : List Call)
    (es : List (Event Res World)) (P' : AuthPool), role ≠ .superAdmin ∧
    Prog.run exec i (changeUserRole ⟨id, role⟩) xs s = some (.ok changed, s₁) ∧
    Runs exec (AuthPool.of x calls s₁) es P' ∧
    (∀ e ∈ es, e.op ≠ .write (changeRoleWrite id .superAdmin)) ∧ P'.state = s'

theorem Demoted.lesserRole (h : Demoted x s id s') : LesserRole id s' ∧ s.Keeps s' := by
  obtain ⟨i, role, xs, changed, s₁, calls, es, P', hrole, hrun, hr, hno, rfl⟩ := h
  obtain ⟨hlesser, hkeeps⟩ := ok_of_run (ends_changeUserRole x hrole) hrun
  refine ⟨hlesser.of_runs hr hno, ?_⟩
  exact (hr.keeps (I := s.Keeps) hkeeps fun e he hpre => hpre.trans (AuthPool.keeps hr he)).2

/-- **Authorization is read from the database.** Whoever `authenticate_bearer` accepts, in any
state, it returns as the identity stored there; two credentials of one user that it accepts give
the same user; and after a `change_user_role` has taken the role of a platform admin away, no
credential from before passes as one. -/
theorem authorization_from_database (hx : x.Lawful) (s : World) :
    (∀ i config token xs user s',
      Prog.run exec i (authenticateBearer x config token) xs s = some (.ok user, s') →
        Identified x s token user) ∧
    (∀ id token token', CredentialOf x s id token → CredentialOf x s id token' →
      ∀ i config xs user s₁ i' config' xs' user' s₂,
        Prog.run exec i (authenticateBearer x config token) xs s = some (.ok user, s₁) →
        Prog.run exec i' (authenticateBearer x config' token') xs' s = some (.ok user', s₂) →
          user = user') ∧
    ∀ id s', Demoted x s id s' → ∀ token, CredentialOf x s id token → ∀ i config xs,
      (∀ r s₁, Prog.run exec i (adminUser x config (some ("Bearer " ++ token))) xs s' =
        some (r, s₁) → ∃ e, r = .error e) ∧
      ∀ user s₁, Prog.run exec i (authenticateBearer x config token) xs s' = some (.ok user, s₁) →
        ensureSuperAdmin user = throwApi .forbidden := by
  refine ⟨fun i config token xs user s' h => identified_of_run h, ?_, ?_⟩
  · intro id token token' hc hc' i config xs user s₁ i' config' xs' user' s₂ h h'
    exact (identified_of_run h).eq hx hc hc' (identified_of_run h')
  · intro id s' hd token hc i config xs
    obtain ⟨hlesser, hkeeps⟩ := hd.lesserRole
    have hc' := hc.mono hkeeps
    constructor
    · intro r s₁ h
      cases r with
      | error e => exact ⟨e, rfl⟩
      | ok user =>
        unfold adminUser at h
        rw [Flow.bind_eq, Prog.run_bind] at h
        obtain ⟨ys, zs, r, s₂, -, hauth, hrest⟩ := h
        cases r with
        | error e =>
          obtain ⟨-, he, -⟩ := Prog.run_ret.mp hrest
          cases he
        | ok user' =>
          have hrole := hlesser.identified hx hc' (identified_of_run (run_of_currentUser hauth))
          rw [Flow.next_ok, throwIf, if_pos hrole] at hrest
          obtain ⟨-, he, -⟩ := Prog.run_ret.mp hrest
          cases he
    · intro user s₁ h
      exact if_neg (hlesser.identified hx hc' (identified_of_run h))

end identity

namespace Symbolic

/-- Bob is an operator of a workspace, and has an API token. -/
def operator : World := .start {
  rows := fun
    | .users => [⟨2, "bob@wara.local", "Bob", "viewer", "active", "$argon2id$password"⟩]
    | .workspaces => [⟨9, "Shop", none⟩]
    | .workspaceUserRoles => [⟨4, 2, 9, "operator"⟩]
    | .userApiTokens =>
      [⟨6, 2, "ci", hashApiToken ext "wara_t", "wara_t", seconds 0, none, none⟩]
    | _ => []
  unique := fun t => by cases t <;> decide }

/-- `authenticate_bearer` with an API token, up to the roles. -/
def bearerSteps : List Ans := [.done, .done, .time ⟨10000000000⟩, .done]

def promoted : AuthPool := AuthPool.of ext [⟨config "A", .changeUserRole ⟨2, .superAdmin⟩⟩] operator

def promotion : List (Nat × Ans) := [(0, .done), (0, .done), (0, .done)]

def bobAsAdmin : User := ⟨2, "bob@wara.local", "Bob", .superAdmin, .active, []⟩

theorem promoted_bearer : ((promoted.run exec promotion).bind fun P' : AuthPool =>
    (Prog.run exec 1 (authenticateBearer ext (config "A") "wara_t") bearerSteps P'.state).map
      fun p => (p.1, (P'.state.db.rows .workspaceUserRoles : List WorkspaceUserRoleRecord))) =
        some (.ok bobAsAdmin, [⟨4, 2, 9, "operator"⟩]) := by decide +kernel

/-- A platform admin who was invited to a workspace before is returned without its role. -/
theorem workspaceRoles_not_returned : ¬ ∀ (x : Ext) (calls : List Call) (w : World)
    (P' : AuthPool) (es : List (Event Res World)), x.Lawful →
    Runs exec (AuthPool.of x calls w) es P' → ∀ i config token xs user s',
      Prog.run exec i (authenticateBearer x config token) xs P'.state = some (.ok user, s') →
        ∃ u : UserRecord, u ∈ P'.state.db.rows .users ∧ u.status = UserStatus.active.asStr ∧
          user = { User.from u with
            workspaceRoles := (layout.select P'.state.db .workspaceUserRoles
              (.eq 1 (.uuid u.id))).map WorkspaceRole.from } := by
  intro hclaim
  obtain ⟨P', hrun, hbearer⟩ := Option.bind_eq_some_iff.mp promoted_bearer
  obtain ⟨⟨r, s'⟩, hauth, hpair⟩ := Option.map_eq_some_iff.mp hbearer
  obtain ⟨rfl, hroles⟩ := Prod.mk.inj hpair
  obtain ⟨u, -, -, huser⟩ := hclaim ext _ operator P' _ ext_lawful (Pool.run_runs hrun) 1
    (config "A") "wara_t" bearerSteps bobAsAdmin s' hauth
  have hid : u.id = 2 := (congrArg User.id huser).symm
  have hempty := congrArg User.workspaceRoles huser
  have hsel : layout.select P'.state.db .workspaceUserRoles (.eq 1 (.uuid u.id)) =
      [(⟨4, 2, 9, "operator"⟩ : WorkspaceUserRoleRecord)] := by
    unfold Layout.select
    rw [hid, hroles]
    decide
  rw [hsel] at hempty
  cases hempty

def bobAsOperator : User :=
  ⟨2, "bob@wara.local", "Bob", .viewer, .active, [⟨9, .operator⟩]⟩

theorem operator_bearer : ((Prog.run exec 1 (authenticateBearer ext (config "A") "wara_t")
    (bearerSteps ++ [.done]) operator).map Prod.fst) = some (.ok bobAsOperator) := by
  decide +kernel

/-- An operator is returned with the role that is stored. -/
theorem authorization_from_database_operator : Identified ext operator "wara_t" bobAsOperator := by
  obtain ⟨⟨r, s'⟩, hauth, hfst⟩ := Option.map_eq_some_iff.mp operator_bearer
  obtain rfl : r = .ok bobAsOperator := hfst
  exact (authorization_from_database ext_lawful operator).1 1 (config "A") "wara_t" _ _ s' hauth

end Symbolic

end Wara
