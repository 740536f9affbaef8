import Wara.Api.Grants
import Wara.Api.Writes
import Wara.External.Symbolic

/-!
# No privilege escalation

Every job keeps the promises about roles. A request that gives a role in a
workspace is an invitation, and its caller is an admin there when the invitation
is committed; changing a global role takes a platform admin.
-/

namespace Wara

open Interleave Store Service AuthService WorkspaceService AppServiceService DomainService
  DeploymentService WorkspaceTemplateService CredentialService ServerService

/-- The workspace roles of the user are stored, unless a platform admin has none. -/
def RolesStored (user : User) (s : World) : Prop :=
  user.role ≠ .superAdmin → ∀ role ∈ user.workspaceRoles,
    ∃ r ∈ (s.db.rows .workspaceUserRoles : List WorkspaceUserRoleRecord),
      r.userId = user.id ∧ WorkspaceRole.from r = role

theorem RolesStored.mono {user : User} {s s' : World} (h : RolesStored user s)
    (hk : layout.Keeps grantCols s.db s'.db) : RolesStored user s' := by
  intro hrole role hmem
  obtain ⟨r, hr, hrest⟩ := h hrole role hmem
  exact ⟨r, mem_workspaceUserRoles hk hr, hrest⟩

/-- What the extractor has found of the caller of thread `i`. -/
structure Authorised (i : Nat) (user : User) (s : World) : Prop where
  caller : (i, user) ∈ s.callers
  role : user.role ≠ .superAdmin
  roles : RolesStored user s

section authorised

variable {i : Nat} {user : User} {s s' : World}

theorem Authorised.mono (h : Authorised i user s) (hs : (granting i).rely s s') :
    Authorised i user s' where
  caller := hs.2 _ h.caller
  role := h.role
  roles := h.roles.mono hs.1

/-- Who may administer a workspace, and is no platform admin, is an admin there. -/
theorem Authorised.holdsAdmin (h : Authorised i user s) {workspaceId : Uuid}
    (hcan : canAdministerWorkspace user workspaceId = true) :
    HoldsAdmin s.db user.id workspaceId := by
  unfold canAdministerWorkspace at hcan
  rcases Bool.or_eq_true_iff.mp hcan with hrole | hany
  · exact absurd (of_decide_eq_true hrole) h.role
  · obtain ⟨role, hmem, hadmin⟩ := List.any_eq_true.mp hany
    obtain ⟨r, hr, huser, rfl⟩ := h.roles h.role role hmem
    obtain ⟨hws, hrole⟩ := Bool.and_eq_true_iff.mp hadmin
    exact ⟨r, hr, huser, of_decide_eq_true hws, of_decide_eq_true hrole⟩

end authorised

/-! ## Operations -/

section operations

variable {x : Ext} {config : Config} {secretKey : String} {i : Nat} {user : User} {s : World}
  {J : World → Prop} {q : AuthRequest} {α : Type} {y : Service α}

theorem keepsFrom_plain (h : Flow.All Op.Plain y fun _ => True) : KeepsFrom (granting i) J α y :=
  keepsFrom_all close_granting h fun _ ho s _ _ _ => ho.grants i s

/-- The requests of the authentication service that add a user or change a role. -/
def AuthRequest.Grants : AuthRequest → Prop
  | .bootstrapAdmin | .inviteUser _ | .changeUserRole _ => True
  | _ => False

theorem plain_of_canIssue (hq : ¬ q.Grants) {o : Op} (h : q.CanIssue x o) : o.Plain := by
  rcases h with h | h
  · exact Op.plain_of_reads h
  · cases h with
    | login | acceptLogin | createApiToken => exact plain_insert (by decide)
    | refresh => exact plain_commit (by simp [Write.table])
    | deactivateKeys | activateKey | createKey | createAdmin | invite | changeRole =>
      exact absurd trivial hq
    | _ => exact plain_update (by simp [grantCols])

theorem keepsFrom_covers (hq : ¬ q.Grants) (h : q.Covers x y) : KeepsFrom (granting i) J α y :=
  keepsFrom_plain (Flow.All.mono h (fun _ ho => plain_of_canIssue hq ho) fun _ h => h)

/-- The services that write elsewhere. -/
theorem keepsFrom_into {ts : List Table} (hts : ∀ t ∈ ts, t ≠ .users ∧ t ≠ .workspaceUserRoles)
    (h : WritesInto ts α y) : KeepsFrom (granting i) J α y :=
  keepsFrom_plain (Flow.All.mono h.all (fun _ ho => Op.plain_of_tables fun w hw => hts _ (ho w hw))
    fun _ h => h)

theorem ends_inviteUser_granting {input : InviteUserInput} (hinviter : input.inviter = user)
    (h : Authorised i user s) :
    Ends (granting i) (inviteUser x config input) (fun _ _ => True) s := by
  have hcovers : (AuthRequest.inviteUser input).Covers x (inviteUser x config input) :=
    covers_inviteUser input
  have hsafe := Prog.All.safe_while hcovers (c := granting i) (J := Authorised i user)
    (fun s s' hs h => h.mono hs) (fun o ho s₁ r s₂ h₁ hs => ?_) h
  · exact Prog.Safe.mono hsafe fun r s' _ => by cases r <;> trivial
  suffices hg : Grants i o s₁ from ⟨hg, close_granting.within hs hg⟩
  rcases ho with ho | ho
  · exact .of_reads ho
  cases ho with
  | invite _ _ hadmin userId inviteId roleId raw expiresAt createdAt =>
    refine ⟨by simp [Op.SparesRoles, Op.writes, Write.sets], fun u hu => ?_, fun r hr => ?_⟩
    · -- the invited user is a viewer
      rcases List.mem_cons.mp hu with hu | hu
      · cases hu
        exact (show Role.viewer.asStr ≠ Role.superAdmin.asStr by decide)
      · rcases List.mem_cons.mp hu with hu | hu
        · cases hu
        · cases List.mem_singleton.mp hu
    · rcases List.mem_cons.mp hr with hr | hr
      · cases hr
      · rcases List.mem_cons.mp hr with hr | hr
        · cases hr
        · cases List.mem_singleton.mp hr
          rw [hinviter] at hadmin
          exact ⟨user, h₁.caller, h₁.holdsAdmin hadmin⟩

/-- The first start makes the platform admin, when there is nobody yet. -/
theorem ends_bootstrapAdmin_granting (h : s.db.rows .users ≠ []) :
    Ends (granting i) (bootstrapAdmin x config) (fun _ _ => True) s := by
  have hsync : Flow.All Op.Plain (syncActiveJwtPublicKey x config) fun _ => True := by
    have hupdate : ∀ f sets, Op.Plain (.write (.update .jwtPublicKeys f sets)) :=
      fun f sets => plain_update (by simp [grantCols])
    have hinsert : ∀ r, Op.Plain (.write (.insert .jwtPublicKeys r)) :=
      fun r => plain_insert (by decide)
    simp [syncActiveJwtPublicKey, Executor.op, hupdate, hinsert]
  unfold bootstrapAdmin
  refine Ends.bind close_granting (keepsFrom_plain hsync (J := fun _ => True) s trivial)
    fun _ s₁ h₁ _ => ends_query close_granting.toTame fun s₂ h₂ _ => ?_
  obtain ⟨u, hu⟩ := List.exists_mem_of_ne_nil _ h
  obtain ⟨u', hu', -⟩ := mem_users (h₁.1.trans h₂.1) hu
  have hsome : layout.select s₂.db .users .all ≠ [] :=
    List.ne_nil_of_mem (Layout.mem_select.mpr ⟨hu', rfl⟩)
  rw [if_pos hsome]
  exact ends_pure fun _ _ => trivial

/-- What the extractor hands over has been read, and is recorded. -/
theorem ends_extractUser_granting (authorization : Option String) {β : Type} {f : User → Service β}
    {ok : β → World → Prop}
    (h : ∀ user s', Authorised i user s' → Ends (granting i) (f user) ok s') :
    Ends (granting i) (extractUser x config authorization >>= f) ok s := by
  have hread : ∀ (s : World) (u : UserRecord), Ends (granting i) (userFromRecord u) RolesStored s := by
    intro s u
    unfold userFromRecord
    by_cases hrole : (User.from u).role = .superAdmin
    · simp only [hrole, if_true]
      exact ends_pure fun _ _ hlesser => absurd hrole hlesser
    · simp only [hrole, if_false]
      refine ends_query close_granting.toTame fun s₁ _ _ => ends_pure fun s₂ h₂ _ role hmem => ?_
      obtain ⟨r, hr, rfl⟩ := List.mem_map.mp hmem
      obtain ⟨hr, huser⟩ := Layout.mem_select.mp hr
      exact ⟨r, mem_workspaceUserRoles h₂.1 hr, uuid_of_col (Layout.holds_eq.mp huser), rfl⟩
  have hauth : ∀ token, Ends (granting i) (authenticateBearer x config token)
      RolesStored s := by
    intro token
    refine ends_authenticateBearer close_granting.toTame
      (fun s₁ _ _ _ _ _ s₂ u _ _ _ _ => hread s₂ u) fun s₁ r _ _ _ _ _ s₂ u _ _ _ _ => ?_
    refine ends_reads close_granting.toTame (Q := fun _ => True) (by simp [Op.writes])
      fun now s₃ _ _ => ?_
    have huse : Op.Plain (.write (.update .userApiTokens (byId r.id)
      [(7, .optText (some (x.toRfc3339 now)))])) := plain_update (by simp [grantCols])
    exact ends_update (fun s₄ _ _ _ _ => huse.grants i s₄) fun s₄ s₅ _ _ => hread s₅ u
  unfold extractUser currentUser
  simp only [bind_assoc]
  refine ends_okOr fun token _ => Ends.bind close_granting (hauth token) fun user s₁ _ hroles => ?_
  refine ends_call fun s₂ h₂ r s₃ hs => ⟨.of_reads rfl, ?_⟩
  obtain ⟨⟨a, ha⟩, hlesser⟩ := hs
  have hrole : user.role ≠ .superAdmin := hlesser user rfl
  rw [pure_bind]
  refine h user s₃ ⟨?_, hrole, ?_⟩
  · rw [exec_caller ha]
    exact List.mem_cons_self
  · rw [exec_caller ha]
    exact hroles.mono h₂.1

/-! ## Jobs -/

theorem accounts_granting (user : User) :
    AccountWritersSatisfy (KeepsFrom (granting i) (Authorised i user)) x config user where
  createApiToken name := keepsFrom_covers (q := .createApiToken ⟨user, name⟩) nofun
    (covers_createApiToken _)
  revokeApiToken id := keepsFrom_covers (q := .revokeApiToken user id) nofun
    (covers_revokeApiToken user id)
  inviteUser _ hinviter _ hs := ends_inviteUser_granting hinviter hs
  disableUser _ h _ hs := absurd h hs.role
  reactivateUser _ h _ hs := absurd h hs.role
  changeUserRole _ h _ hs := absurd h hs.role

theorem writers_granting (user : User) (route : UserRoute) :
    WritersSatisfy (KeepsFrom (granting i) (Authorised i user)) x config user route where
  toOrdinaryWritersSatisfy := .of_into (keepsFrom_into (by decide)) (accounts_granting user)
  createWorkspace name description _ :=
    keepsFrom_into (by decide) (into_createWorkspace name description)
  createTemplate input _ := keepsFrom_into (by decide) (into_createTemplate input)
  createWorkspacesFromTemplate _ h _ hs := absurd h hs.role

theorem public_granting :
    PublicWritersSatisfy (KeepsFrom (granting i) fun _ => True) x config where
  login input := keepsFrom_covers (x := x) (q := .login input) nofun (covers_login input)
  refreshSession input :=
    keepsFrom_covers (x := x) (q := .refreshSession input) nofun (covers_refreshSession input)
  logout input := keepsFrom_covers (x := x) (q := .logout input) nofun (covers_logout input)
  acceptInvite input :=
    keepsFrom_covers (x := x) (q := .acceptInvite input) nofun (covers_acceptInvite input)

/-- Every job keeps the promises, once there is a user. -/
theorem ends_job_granting (job : Job) (h : s.db.rows .users ≠ []) :
    Ends (granting i) (job.serve x config) (fun _ _ => True) s := by
  have hmap : ∀ {α β : Type} {y : Service α} {g : α → β},
      Ends (granting i) y (fun _ _ => True) s → Ends (granting i) (g <$> y) (fun _ _ => True) s :=
    fun hy => ends_map (Ends.mono hy fun _ _ _ _ _ => trivial)
  cases job with
  | start => exact hmap (ends_bootstrapAdmin_granting h)
  | request request =>
    refine hmap ?_
    cases request with
    | anyone route =>
      exact (composes_keepsFrom close_granting fun _ _ _ h => h).publicRoute public_granting route s
        trivial
    | user authorization route =>
      refine ends_extractUser_granting authorization fun user s' huser => ?_
      exact (composes_keepsFrom close_granting fun _ _ hs hu => Authorised.mono hu hs).handle
        (writers_granting user route) s' huser
  | checkServers =>
    exact hmap (keepsFrom_into (by decide) into_checkAllServers (J := fun _ => True) s trivial)

end operations

/-! ## Runs -/

/-- What a run among callers who are no platform admins leaves of the roles in `db`. -/
structure Unescalated (db : Db) (es : List (Event Res World)) (db' : Db) : Prop where
  superAdmins : ∀ id, IsSuperAdmin db' id ↔ IsSuperAdmin db id
  globalRoles : ∀ u ∈ (db.rows .users : List UserRecord),
    ∃ u' ∈ (db'.rows .users : List UserRecord), u'.id = u.id ∧ u'.role = u.role
  workspaceRoles : ∀ r ∈ (db.rows .workspaceUserRoles : List WorkspaceUserRoleRecord),
    r ∈ db'.rows .workspaceUserRoles
  /-- A new role is committed by a thread whose caller is an admin of the workspace then. -/
  granted : ∀ r ∈ (db'.rows .workspaceUserRoles : List WorkspaceUserRoleRecord),
    r ∉ db.rows .workspaceUserRoles → ∃ e ∈ es, ∃ caller,
      .insert .workspaceUserRoles r ∈ e.op.writes ∧ e.op.succeeded e.res = true ∧
        (e.tid, caller) ∈ e.pre.callers ∧ HoldsAdmin e.pre.db caller.id r.workspaceId
  closed : ∀ workspaceId, (∀ userId, ¬ HoldsAdmin db userId workspaceId) →
    ∀ r ∈ (db'.rows .workspaceUserRoles : List WorkspaceUserRoleRecord),
      r.workspaceId = workspaceId → r ∈ db.rows .workspaceUserRoles

section runs

variable {x : Ext} {jobs : List (Config × Job)} {db : Db} {P' : JobPool}
  {es : List (Event Res World)} {e : Event Res World}

/-- A role that an event brings about is one that it inserts. -/
theorem inserted_of_established {i : Nat} {o : Op} {s s' : World} {a : Ans} {r : Res o}
    (hg : Grants i o s) (h : exec i o a s = some (r, s')) {role : WorkspaceUserRoleRecord}
    (hno : role ∉ s.db.rows .workspaceUserRoles) (hrole : role ∈ s'.db.rows .workspaceUserRoles) :
    .insert .workspaceUserRoles role ∈ o.writes ∧ o.succeeded r = true := by
  rcases exec_db h with hdb | ⟨hok, hdb⟩
  · rw [hdb] at hrole
    exact absurd hrole hno
  · rcases Layout.applyAll_origin hdb hg.spares hrole with ⟨r₀, hr₀, hc⟩ | ⟨r₀, hr₀, hc⟩
    · rw [workspaceUserRole_eq hc] at hno
      exact absurd hr₀ hno
    · rw [workspaceUserRole_eq hc]
      exact ⟨hr₀, hok⟩

/-- **One step** makes nobody a platform admin. -/
theorem isSuperAdmin_step {i : Nat} {o : Op} {s s' : World} {a : Ans} {r : Res o}
    (hg : Grants i o s) (h : exec i o a s = some (r, s')) {id : Uuid}
    (hid : IsSuperAdmin s'.db id) : IsSuperAdmin s.db id := by
  rcases exec_db h with hdb | ⟨-, hdb⟩
  · rw [hdb] at hid
    exact hid
  · obtain ⟨u', hu', huid, hrole⟩ := hid
    rcases Layout.applyAll_origin hdb hg.spares hu' with ⟨u, hu, hc⟩ | ⟨u, hu, hc⟩
    · exact ⟨u, hu, (uuid_of_col (hc 0 (by decide))).symm.trans huid,
        (text_of_col (hc 3 (by decide))).symm.trans hrole⟩
    · exact absurd ((text_of_col (hc 3 (by decide))).symm.trans hrole) (hg.users u hu)

/-- **No privilege escalation.** Jobs run in any order of their statements, from a database with a
user, and nobody who is authenticated on the way is a platform admin. Then the platform admins
are who they were, no role changes, and every new role in a workspace is given by a caller who is
an admin there at that moment; so a workspace without an admin gains no member. -/
theorem no_escalation (husers : db.rows .users ≠ [])
    (hr : Runs exec (JobPool.of x jobs (.start db)) es P')
    (hno : ∀ e ∈ es, ∀ user, e.op = .caller user → user.role ≠ .superAdmin) :
    Unescalated db es P'.state.db := by
  have hsafe : (JobPool.of x jobs (.start db)).AllSafe granting fun _ _ _ => True := by
    intro i p hp
    simp only [JobPool.of, List.getElem?_map, Option.map_eq_some_iff] at hp
    obtain ⟨j, -, rfl⟩ := hp
    exact Prog.Safe.mono (ends_job_granting j.2 husers) fun _ _ _ => trivial
  have hstep : ∀ e ∈ es, (granting e.tid).step e.op e.pre e.res e.post :=
    fun e he => ⟨hr.handled e he, hno e he⟩
  obtain ⟨hall, -, -⟩ := hr.safe (I := fun _ => True) trivial hsafe (fun e he _ => hstep e he)
    fun i o s r s' _ hs hg => ⟨trivial, fun j _ => (close_granting (i := i)).within hs hg⟩
  have hg : ∀ e ∈ es, Grants e.tid e.op e.pre := fun e he => (hall e he).2
  have hkeeps : ∀ e ∈ es, layout.Keeps grantCols e.pre.db e.post.db :=
    fun e he => (close_granting.within (hstep e he) (hg e he)).1
  have hend : layout.Keeps grantCols db P'.state.db :=
    (hr.keeps (I := fun s => layout.Keeps grantCols db s.db) (Layout.Keeps.refl db)
      fun e he h => h.trans (hkeeps e he)).2
  have hnew : ∀ e ∈ es, ∀ r : WorkspaceUserRoleRecord, r ∉ e.pre.db.rows .workspaceUserRoles →
      r ∈ e.post.db.rows .workspaceUserRoles →
        .insert .workspaceUserRoles r ∈ e.op.writes ∧ e.op.succeeded e.res = true := by
    intro e he r hpre hpost
    obtain ⟨a, ha⟩ := hr.handled e he
    exact inserted_of_established (hg e he) ha hpre hpost
  constructor
  case superAdmins =>
    intro id
    constructor
    · intro hid
      by_contra hnot
      refine (hr.keeps (I := fun s => ¬ IsSuperAdmin s.db id) hnot fun e he h hpost => ?_).2 hid
      obtain ⟨a, ha⟩ := hr.handled e he
      exact h (isSuperAdmin_step (hg e he) ha hpost)
    · rintro ⟨u, hu, huid, hrole⟩
      obtain ⟨u', hu', hid', hrole'⟩ := mem_users hend hu
      exact ⟨u', hu', hid'.trans huid, hrole'.trans hrole⟩
  case globalRoles => exact fun u hu => mem_users hend hu
  case workspaceRoles => exact fun r hr => mem_workspaceUserRoles hend hr
  case granted =>
    intro r hmem hnot
    rcases hr.established (A := fun s => r ∈ s.db.rows .workspaceUserRoles) hmem with h | h
    · exact absurd h hnot
    · obtain ⟨e, he, hpre, hpost⟩ := h
      obtain ⟨hins, hok⟩ := hnew e he r hpre hpost
      obtain ⟨caller, hcaller, hadmin⟩ := (hg e he).roles r hins
      exact ⟨e, he, caller, hins, hok, hcaller, hadmin⟩
  case closed =>
    intro workspaceId hclosed r hmem hws
    -- no step makes the first admin of the workspace
    have hkept : ∀ e ∈ es, (∀ userId, ¬ HoldsAdmin e.pre.db userId workspaceId) →
        ∀ userId, ¬ HoldsAdmin e.post.db userId workspaceId := by
      rintro e he hpre userId ⟨r', hr', huser, hws', hrole⟩
      by_cases hold : r' ∈ e.pre.db.rows .workspaceUserRoles
      · exact hpre userId ⟨r', hold, huser, hws', hrole⟩
      · obtain ⟨caller, -, hadmin⟩ := (hg e he).roles r' (hnew e he r' hold hr').1
        exact hpre caller.id (hws' ▸ hadmin)
    have hpres := (hr.keeps (I := fun s => ∀ userId, ¬ HoldsAdmin s.db userId workspaceId) hclosed
      hkept).1
    rcases hr.established (A := fun s => r ∈ s.db.rows .workspaceUserRoles) hmem with h | h
    · exact h
    · obtain ⟨e, he, hpre, hpost⟩ := h
      obtain ⟨caller, -, hadmin⟩ := (hg e he).roles r (hnew e he r hpre hpost).1
      exact absurd (hws ▸ hadmin) ((hpres e he).1 caller.id)

end runs

namespace Symbolic

/-- Bob is an admin of a workspace, and has an API token. -/
def manager : Db where
  rows := fun
    | .users => [⟨2, "bob@wara.local", "Bob", "viewer", "active", "$argon2id$password"⟩]
    | .workspaces => [⟨9, "Shop", none⟩]
    | .workspaceUserRoles => [⟨4, 2, 9, "admin"⟩]
    | .userApiTokens =>
      [⟨6, 2, "ci", hashApiToken ext "wara_t", "wara_t", seconds 0, none, none⟩]
    | _ => []
  unique := fun t => by cases t <;> decide

/-- Bob invites Carol to it, as an admin. -/
def inviteCarol : JobPool := JobPool.of ext
  [({ config "A" with inviteTokenTtlSeconds := 50 }, .request (.user (some "Bearer wara_t")
    (.inviteUser ⟨9, "carol@wara.local", "Carol", .admin⟩)))] (.start manager)

def inviteCarolSteps : List (Nat × Ans) :=
  [.done, .done, .time ⟨10000000000⟩, .done, .done, .done, .done, .done, .time ⟨10000000000⟩,
    .bytes (List.replicate 32 0), .done, .uuid 11, .done, .uuid 12, .done, .uuid 13, .done,
    .done].map fun a => (0, a)

def callerRole : (e : Event Res World) → Option Role
  | ⟨_, .caller user, _, _, _⟩ => some user.role
  | _ => none

theorem callerRole_eq {e : Event Res World} {user : User} (h : e.op = .caller user) :
    callerRole e = some user.role := by
  obtain ⟨i, o, r, s, s'⟩ := e
  obtain rfl : o = .caller user := h
  rfl

theorem inviteCarol_roles : (inviteCarol.run exec inviteCarolSteps).map (fun P' : JobPool =>
    (P'.state.db.rows .workspaceUserRoles : List WorkspaceUserRoleRecord)) =
      some [⟨4, 2, 9, "admin"⟩, ⟨13, 11, 9, "admin"⟩] ∧
    ∀ e ∈ inviteCarol.trace exec inviteCarolSteps, callerRole e ≠ some .superAdmin := by
  decide +kernel

/-- Carol's role comes from an admin of the workspace, and nobody has become a platform admin. -/
theorem no_escalation_inviteCarol : ∃ (P' : JobPool) (es : List (Event Res World)),
    (P'.state.db.rows .workspaceUserRoles : List WorkspaceUserRoleRecord) =
      [⟨4, 2, 9, "admin"⟩, ⟨13, 11, 9, "admin"⟩] ∧ Unescalated manager es P'.state.db := by
  obtain ⟨hroles, hcallers⟩ := inviteCarol_roles
  obtain ⟨P', hrun, hrows⟩ := Option.map_eq_some_iff.mp hroles
  refine ⟨P', _, hrows, no_escalation (by decide) (Pool.run_runs hrun) fun e he user hop hrole => ?_⟩
  exact hcallers e he (by rw [callerRole_eq hop, hrole])

end Symbolic

end Wara
