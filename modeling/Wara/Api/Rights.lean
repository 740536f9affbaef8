import Wara.Api.Coherence
import Wara.Api.Failsafe
import Wara.Interleave.Movers
import Wara.Store.Permits

/-!
# Who may change what

Whatever a request changes, it changes as the user that its extractor has handed
to it, and that user may: nothing of a workspace without access to it, nobody's
tokens but the user's own, servers and accounts only as a platform admin, and
members only as one who administers the workspace. Nothing is ever taken out.
-/

namespace Wara

open Interleave Store Service Docker AuthService WorkspaceService AppServiceService DomainService
  DeploymentService WorkspaceTemplateService CredentialService ServerService

/-! ## Rights -/

/-- The user has access to the workspace that the service is in. -/
def AccessesService (user : User) (serviceId : Uuid) (db : Db) : Prop :=
  ∃ service ∈ (db.rows .appServices : List AppServiceRecord), service.id = serviceId ∧
    canAccessWorkspace user service.workspaceId = true

/-- What a user may add. -/
def MayAdd (user : User) (db : Db) : (t : Table) → Row t → Prop
  | .workspaces, _ => user.role = .superAdmin
  | .environments, r => canAccessWorkspace user r.workspaceId = true
  | .servers, _ => user.role = .superAdmin
  | .appServices, r => canAccessWorkspace user r.workspaceId = true
  | .dockerCredentials, r => canAccessWorkspace user r.workspaceId = true
  | .envVars, r => canAccessWorkspace user r.workspaceId = true
  | .domains, r => AccessesService user r.serviceId db
  | .deployments, r => AccessesService user r.serviceId db
  | .workspaceTemplates, r => canAccessWorkspace user r.sourceWorkspaceId = true
  | .users, r => r.role = Role.viewer.asStr ∧ r.status = UserStatus.invited.asStr ∧
      ∃ workspaceId, canAdministerWorkspace user workspaceId = true
  | .userInvites, _ => ∃ workspaceId, canAdministerWorkspace user workspaceId = true
  | .userApiTokens, r => r.userId = user.id
  | .workspaceUserRoles, r => canAdministerWorkspace user r.workspaceId = true ∧
      r.role ≠ Role.superAdmin.asStr
  | .userRefreshTokens, _ | .jwtPublicKeys, _ => False

/-- What a user may change. -/
def MayChange (user : User) : (t : Table) → Row t → Row t → Prop
  | .servers, r, r' => user.role = .superAdmin ∧ r' = { r with
      dockerStatus := r'.dockerStatus
      dockerVersion := r'.dockerVersion
      lastCheckAt := r'.lastCheckAt
      lastCheckError := r'.lastCheckError }
  | .users, r, r' => user.role = .superAdmin ∧ r' = { r with role := r'.role, status := r'.status }
  | .userApiTokens, r, r' => r.userId = user.id ∧ r' = { r with revokedAt := r'.revokedAt }
  | _, _, _ => False

/-- What is new in the second database, the user may add or change. -/
abbrev Permitted (user : User) (db db' : Db) : Prop :=
  Layout.Permits (MayAdd user db) (MayChange user) db db'

/-! ## Promises -/

/-- Thread `i` commits only what its callers may change. -/
def permitting (i : Nat) : Rules Res World where
  rely s s' := s.Keeps s' ∧ ∀ p ∈ s.callers, p ∈ s'.callers
  rely_refl s := ⟨World.Keeps.refl s, fun _ h => h⟩
  rely_trans h h' := ⟨h.1.trans h'.1, fun p hp => h'.2 p (h.2 p hp)⟩
  step o s r s' := (∃ a, exec i o a s = some (r, s')) ∧ o.Tidy
  guar o s r s' := ¬ o.Commits r ∨ ∃ user, (i, user) ∈ s.callers ∧ Permitted user s.db s'.db

/-- The user may do what the operation writes. -/
def Op.Allowed (user : User) (db : Db) (o : Op) : Prop :=
  (∀ w ∈ o.writes, ∃ t r, w = .insert t r ∧ MayAdd user db t r) ∨
    ∃ w, o.writes = [w] ∧ layout.Allows (MayAdd user db) (MayChange user) db w

section promises

variable {i : Nat} {user : User} {s s' : World} {o : Op} {α β : Type} {y : Service α}
  {J : Db → Prop}

theorem close_permitting : Close (permitting i) where
  exec h := ⟨i, h.1⟩
  reads {o s r s'} ho h := by
    obtain ⟨⟨a, ha⟩, htidy⟩ := h
    exact ⟨.inl (never_of_reads ho r), exec_keeps htidy ha, exec_callers ha⟩
  within {o s r s'} h _ := by
    obtain ⟨⟨a, ha⟩, htidy⟩ := h
    exact ⟨exec_keeps htidy ha, exec_callers ha⟩

theorem Op.Allowed.permitted (ho : o.Allowed user s.db) {a : Ans} {r : Res o}
    (h : exec i o a s = some (r, s')) : Permitted user s.db s'.db := by
  rcases exec_db h with hdb | ⟨-, hdb⟩
  · exact hdb ▸ Layout.Permits.refl _
  · rcases ho with hinserts | ⟨w, hw, hallows⟩
    · exact (Layout.permits_of_inserts hdb hinserts).mono (fun _ _ h => h) fun _ _ _ h => h.elim
    · rw [hw] at hdb
      obtain ⟨db₁, h₁, h₂⟩ := Layout.applyAll_cons.mp hdb
      rw [← Layout.applyAll_nil.mp h₂]
      exact hallows.apply h₁

/-- The call keeps the promise, once the user is known and while `J` stays true. A structure, so
that the call is not unfolded where this is used. -/
structure Keeping (i : Nat) (user : User) (J : Db → Prop) (α : Type) (y : Service α) : Prop where
  ends : KeepsFrom (permitting i) (fun s => (i, user) ∈ s.callers ∧ J s.db) α y

/-- What stays true while rows are kept. -/
def Lasts (J : Db → Prop) : Prop := ∀ db db', Db.Keeps db db' → J db → J db'

theorem composes_keeping (hJ : Lasts J) : Composes (Keeping i user J) := by
  have hc : Composes (KeepsFrom (permitting i) fun s => (i, user) ∈ s.callers ∧ J s.db) :=
    composes_keepsFrom close_permitting fun s s' hs h => ⟨hs.2 _ h.1, hJ s.db s'.db hs.1 h.2⟩
  exact ⟨fun h => ⟨hc.reads h⟩, fun h hf => ⟨hc.bind h.ends fun a => (hf a).ends⟩⟩

theorem keeping_all (hJ : Lasts J) {φ : Op → Prop} (h : Flow.All φ y fun _ => True)
    (hφ : ∀ o, φ o → ∀ db, J db → o.Allowed user db) : Keeping i user J α y := by
  constructor
  intro s hs
  have hsafe := Prog.All.safe_while h (c := permitting i)
    (J := fun s => (i, user) ∈ s.callers ∧ J s.db)
    (fun s s' hs h => ⟨hs.2 _ h.1, hJ s.db s'.db hs.1 h.2⟩)
    (fun o ho s₁ r s₂ h₁ hs₁ => ?_) hs
  · exact Prog.Safe.mono hsafe fun r s' _ => by cases r <;> trivial
  · obtain ⟨⟨a, ha⟩, htidy⟩ := hs₁
    have hg : (permitting i).guar o s₁ r s₂ := .inr ⟨user, h₁.1, (hφ o ho _ h₁.2).permitted ha⟩
    exact ⟨hg, close_permitting.within ⟨⟨a, ha⟩, htidy⟩ hg⟩

end promises

/-! ## What the services add -/

/-- Whatever the operation writes is an insert of a row with the property. -/
def Op.Adds (P : (t : Table) → Row t → Prop) (o : Op) : Prop :=
  ∀ w ∈ o.writes, ∃ t r, w = .insert t r ∧ P t r

/-- A structure, so that the call is not unfolded where this is used. -/
structure AddsOnly (P : (t : Table) → Row t → Prop) (α : Type) (y : Service α) : Prop where
  all : Flow.All (Op.Adds P) y fun _ => True

section adds

variable {P : (t : Table) → Row t → Prop} {x : Ext} {config : Config} {secretKey : String}
  {i : Nat} {user : User} {α : Type} {y : Service α} {J : Db → Prop} {executor : DeployExecutor}

theorem Op.adds_of_reads {o : Op} (h : o.writes = []) : o.Adds P := by
  intro w hw
  rw [h] at hw
  cases hw

theorem composes_adds : Composes (AddsOnly P) where
  reads h := ⟨Flow.All.mono h (fun _ ho => Op.adds_of_reads ho) fun _ h => h⟩
  bind h hf := ⟨Flow.all_bind.mpr (Flow.All.mono h.all (fun _ h => h) fun a _ => (hf a).all)⟩

instance : AboutWrites (Op.Adds P) := ⟨fun _ => Op.adds_of_reads⟩

@[simp] theorem adds_insert {t : Table} {r : Row t} :
    Op.Adds P (.write (.insert t r)) ↔ P t r := by
  constructor
  · intro h
    obtain ⟨t', r', he, hP⟩ := h _ (List.mem_singleton_self _)
    cases he
    exact hP
  · intro h w hw
    exact ⟨t, r, List.mem_singleton.mp hw, h⟩

@[simp] theorem adds_commit {ws : List Write} :
    Op.Adds P (.commit ws) ↔ ∀ w ∈ ws, ∃ t r, w = .insert t r ∧ P t r := Iff.rfl

/-- A call that only adds what the user may, whatever the database is. -/
theorem keeping_adds (h : AddsOnly (fun t r => ∀ db, J db → MayAdd user db t r) α y)
    (hJ : Lasts J) : Keeping i user J α y := by
  refine keeping_all hJ h.all fun o ho db hdb => .inl fun w hw => ?_
  obtain ⟨t, r, he, hr⟩ := ho w hw
  exact ⟨t, r, he, hr db hdb⟩

theorem adds_createWorkspace (name : String) (description : Option String)
    (hw : ∀ id, P .workspaces ⟨id, name, description⟩)
    (he : ∀ id workspaceId, P .environments ⟨id, workspaceId, "production"⟩) :
    AddsOnly P _ (createWorkspace name description) := by
  constructor
  simp only [createWorkspace, Flow.all_bind, all_transaction_of_writes, all_nowV7_of_writes,
    all_create_of_writes, all_commit, adds_commit, Flow.all_pure, and_true]
  intro id environmentId w hmem
  rcases List.mem_cons.mp hmem with rfl | hmem
  · exact ⟨_, _, rfl, hw id⟩
  · exact ⟨_, _, List.mem_singleton.mp hmem, he _ _⟩

theorem adds_createEnvironment (workspaceId : Uuid) (name : String)
    (h : ∀ id, P .environments ⟨id, workspaceId, name⟩) :
    AddsOnly P _ (createEnvironment workspaceId name) := by
  constructor
  simp [createEnvironment, getWorkspace, Executor.op, h]

theorem adds_createService (input : CreateAppServiceInput)
    (h : ∀ r : AppServiceRecord, r.workspaceId = input.workspaceId → P .appServices r) :
    AddsOnly P _ (createService input) := by
  constructor
  simp [createService, getWorkspace, ensureEnvironment, listEnvironments, Executor.op, h]

theorem adds_createCredential (input : CreateCredentialInput)
    (h : ∀ r : DockerCredentialRecord, r.workspaceId = input.workspaceId → P .dockerCredentials r) :
    AddsOnly P _ (createCredential x secretKey input) := by
  constructor
  simp [createCredential, getWorkspace, Executor.op, h]

theorem adds_createEnvVar (input : CreateEnvVarInput)
    (h : ∀ r : EnvVarRecord, r.workspaceId = input.workspaceId → P .envVars r) :
    AddsOnly P _ (createEnvVar x secretKey input) := by
  unfold createEnvVar
  refine composes_adds.after (reads_validateEnvVarScope input) fun _ => ⟨?_⟩
  simp [createEnvVarRecord, Executor.op, h]

/-- The bulk adds all its rows in one commit. -/
theorem adds_createEnvVars (inputs : List CreateEnvVarInput)
    (h : ∀ input ∈ inputs, ∀ r : EnvVarRecord, r.workspaceId = input.workspaceId → P .envVars r) :
    AddsOnly P _ (createEnvVars x secretKey inputs) := by
  have hcreated : Flow.All (Op.Adds P) (inputs.mapM (createEnvVarRecord x secretKey .transaction))
      (List.Forall₂ (fun input record => record.workspaceId = input.workspaceId) inputs) :=
    all_mapM fun input _ => by simp [createEnvVarRecord]
  unfold createEnvVars
  have hscopes : Reads (inputs.forM validateEnvVarScope) :=
    all_forM fun input _ => reads_validateEnvVarScope input
  refine composes_adds.after hscopes fun _ => ⟨?_⟩
  rw [Flow.all_bind, all_transaction_of_writes]
  refine Flow.all_bind.mpr (Flow.All.mono hcreated (fun _ h => h) ?_)
  intro created hrows
  rw [Flow.all_bind, all_commit]
  refine ⟨adds_commit.mpr fun w hw => ?_, Flow.all_pure.mpr trivial⟩
  obtain ⟨record, hrecord, rfl⟩ := List.mem_map.mp hw
  obtain ⟨input, hinput, hworkspace⟩ := exists_of_forall₂ hrows hrecord
  exact ⟨_, _, rfl, h input hinput record hworkspace⟩

theorem adds_createTemplate (input : CreateTemplateInput)
    (h : ∀ r : WorkspaceTemplateRecord, r.sourceWorkspaceId = input.workspaceId →
      P .workspaceTemplates r) : AddsOnly P _ (createTemplate input) := by
  constructor
  simp [createTemplate, getWorkspace, Executor.op, h]

theorem adds_createServer (payload : CreateServerInput) (h : ∀ r : ServerRecord, P .servers r) :
    AddsOnly P _ (createServer x secretKey payload) := by
  constructor
  simp [createServer, validateSshKeyPair, Executor.op, h]

theorem adds_createDomain (input : CreateDomainInput)
    (h : ∀ r : DomainRecord, r.serviceId = input.serviceId → P .domains r) :
    AddsOnly P _ (createDomain input) := by
  constructor
  simp [createDomain, AppServiceService.getService, Executor.op, h]

theorem adds_createDeployment (serviceId : Uuid) (status : DeploymentStatus) (output : String)
    (h : ∀ r : DeploymentRecord, r.serviceId = serviceId → P .deployments r) :
    AddsOnly P _ (createDeployment x serviceId status output) := by
  constructor
  simp [createDeployment, Deployment.from, Executor.op, h]

theorem adds_runAndRecord (serviceId : Uuid) (commands : List RemoteCommand)
    (h : ∀ r : DeploymentRecord, r.serviceId = serviceId → P .deployments r) :
    AddsOnly P _ (runAndRecord x executor serviceId commands) := by
  unfold runAndRecord
  exact composes_adds.after (by simp [Reads]) fun run => adds_createDeployment _ _ _ h

theorem adds_triggerDeploy (serviceId : Uuid)
    (h : ∀ r : DeploymentRecord, r.serviceId = serviceId → P .deployments r) :
    AddsOnly P _ (triggerDeploy x config executor serviceId) := by
  unfold triggerDeploy
  exact composes_adds.after (reads_getService _) fun service =>
    composes_adds.after (by simp [Reads]) fun commands => adds_runAndRecord _ _ h

theorem adds_restartService (serviceId : Uuid)
    (h : ∀ r : DeploymentRecord, r.serviceId = serviceId → P .deployments r) :
    AddsOnly P _ (restartService x executor serviceId) := by
  unfold restartService
  exact composes_adds.after (reads_getService _) fun service =>
    composes_adds.after (by simp [Reads]) fun _ => adds_runAndRecord _ _ h

end adds

/-! ## Handlers -/

section handlers

variable {x : Ext} {config : Config} {i : Nat} {user : User} {s : World} {α β : Type}

theorem lasts_trivial : Lasts fun _ => True := fun _ _ _ _ => trivial

theorem lasts_accessesService {serviceId : Uuid} : Lasts (AccessesService user serviceId) := by
  rintro db db' hdb ⟨service, hservice, hrest⟩
  obtain ⟨service', hservice', hc⟩ := hdb .appServices service hservice
  obtain rfl : service' = service := eq_of_fixed rfl hc
  exact ⟨service', hservice', hrest⟩

/-- The token is one of the user's. -/
def OwnsToken (user : User) (tokenId : Uuid) (db : Db) : Prop :=
  ∃ r ∈ (db.rows .userApiTokens : List UserApiTokenRecord), r.id = tokenId ∧ r.userId = user.id

theorem lasts_ownsToken {tokenId : Uuid} : Lasts (OwnsToken user tokenId) := by
  rintro db db' hdb ⟨r, hr, hid, howner⟩
  obtain ⟨r', hr', hc⟩ := hdb .userApiTokens r hr
  exact ⟨r', hr', (uuid_of_col (hc 0 (by decide))).trans hid,
    (uuid_of_col (hc 1 (by decide))).trans howner⟩

theorem keeping_changes {q : AuthRequest} {y : Service α} (hcovers : q.Covers x y)
    (hq : ∀ o, Changes x q o → ∀ db, o.Allowed user db) :
    Keeping i user (fun _ => True) α y := by
  refine keeping_all lasts_trivial hcovers fun o ho db _ => ?_
  rcases ho with ho | ho
  · exact .inl fun w hw => by rw [ho] at hw; cases hw
  · exact hq o ho db

theorem keeping_createApiToken (name : String) :
    Keeping i user (fun _ => True) _ (createApiToken x ⟨user, name⟩) := by
  refine keeping_changes (covers_createApiToken _) fun o ho db => ?_
  cases ho with
  | createApiToken =>
    exact .inl fun w hw => ⟨_, _, List.mem_singleton.mp hw, rfl⟩

/-- Found to be the user's, the token is the row that the update finds. -/
theorem keeping_revokeApiToken (tokenId : Uuid) :
    Keeping i user (fun _ => True) _ (revokeApiToken x user tokenId) := by
  constructor
  intro s hs
  unfold revokeApiToken
  refine ends_first close_permitting.toTame fun s₁ h₁ => ends_okOr fun record hrecord => ?_
  refine ends_throwIf fun howner => ?_
  obtain ⟨hmem, hholds⟩ := Layout.mem_of_head?_select hrecord
  have howns : OwnsToken user tokenId s₁.db :=
    ⟨record, hmem, uuid_of_col (holds_byId hholds), not_not.mp howner⟩
  refine (keeping_all lasts_ownsToken (φ := fun o => o.writes = [] ∨
    ∃ revokedAt, o = .write (.update .userApiTokens (byId tokenId)
      [(6, .optText (some revokedAt))])) (by simp [Op.writes]) fun o ho db hdb => ?_).ends
        s₁ ⟨h₁.2 _ hs.1, howns⟩
  rcases ho with ho | ⟨revokedAt, rfl⟩
  · exact .inl fun w hw => by rw [ho] at hw; cases hw
  · refine .inr ⟨_, rfl, fun r hr hid => ?_⟩
    obtain ⟨r', hr', hid', howner'⟩ := hdb
    have hcol : layout.col (t := .userApiTokens) 0 r = layout.col (t := .userApiTokens) 0 r' :=
      (holds_byId hid).trans (congrArg (fun u => some (Value.uuid u)) hid'.symm)
    obtain rfl : r = r' := (db.unique .userApiTokens).eq (by decide) hr hr' hcol
    exact ⟨howner', rfl⟩

theorem keeping_inviteUser {input : InviteUserInput} (hinviter : input.inviter = user) :
    Keeping i user (fun _ => True) _ (inviteUser x config input) := by
  refine keeping_changes (covers_inviteUser input) fun o ho db => ?_
  cases ho with
  | invite _ hrole hadmin userId inviteId roleId raw expiresAt createdAt =>
    rw [hinviter] at hadmin
    refine .inl fun w hw => ?_
    simp only [Op.writes, List.mem_cons, List.not_mem_nil, or_false] at hw
    rcases hw with rfl | rfl | rfl
    · exact ⟨_, _, rfl, rfl, rfl, _, hadmin⟩
    · exact ⟨_, _, rfl, _, hadmin⟩
    · exact ⟨_, _, rfl, hadmin, fun h => hrole (Role.asStr_inj h)⟩

/-- An operation of a platform admin on an account changes its role or its status. -/
theorem keeping_account {q : AuthRequest} {y : Service α} (hcovers : q.Covers x y)
    (hq : ∀ o, Changes x q o → ∃ f sets, o = .write (.update .users f sets) ∧
      ∀ r, MayChange user .users r (layout.setCols sets r)) :
    Keeping i user (fun _ => True) α y := by
  refine keeping_changes hcovers fun o ho db => ?_
  obtain ⟨f, sets, rfl, hsets⟩ := hq o ho
  exact .inr ⟨_, rfl, fun r _ _ => hsets r⟩

theorem keeping_checkServer {secretKey : String} (hrole : user.role = .superAdmin) (id : Uuid) :
    Keeping i user (fun _ => True) _ (checkServer x secretKey id) := by
  refine keeping_all lasts_trivial (φ := fun o => o.writes = [] ∨ ∃ status version checkedAt error,
    o = .write (.update .servers (byId id)
      [(10, .text status), (11, .text version), (12, .text checkedAt), (13, .text error)]))
    (by simp [checkServer, getServer, updateCheckMetadata, Op.writes]) fun o ho db _ => ?_
  rcases ho with ho | ⟨status, version, checkedAt, error, rfl⟩
  · exact .inl fun w hw => by rw [ho] at hw; cases hw
  · exact .inr ⟨_, rfl, fun r _ _ => ⟨hrole, rfl⟩⟩

/-- The stored service, behind the check of the routes that go through one. -/
theorem ends_accessesService {serviceId : Uuid} {f : AppService → Service β}
    {ok : β → World → Prop} (hs : (i, user) ∈ s.callers)
    (h : ∀ service s', (i, user) ∈ s'.callers → AccessesService user serviceId s'.db →
      Ends (permitting i) (f service) ok s') :
    Ends (permitting i) (ensureServiceAccess user serviceId >>= f) ok s := by
  unfold ensureServiceAccess AppServiceService.getService
  simp only [bind_assoc]
  refine ends_first close_permitting.toTame fun s₁ h₁ => ends_okOr fun service hservice => ?_
  obtain ⟨r, hr, rfl⟩ := Option.map_eq_some_iff.mp hservice
  obtain ⟨hmem, hid⟩ := Layout.mem_of_head?_select hr
  unfold ensureWorkspaceAccess
  split
  · next haccess =>
    simp only [pure_bind]
    exact h _ s₁ (h₁.2 _ hs) ⟨r, hmem, uuid_of_col (holds_byId hid), haccess⟩
  · exact ends_throwApi _

/-- Behind that check, what adds rows of the service. -/
theorem keeping_behind {serviceId : Uuid} {y : Service α} (g : α → ApiReply)
    (h : Keeping i user (AccessesService user serviceId) α y) :
    Keeping i user (fun _ => True) _ (do
      let _ ← ensureServiceAccess user serviceId
      return g (← y)) := by
  constructor
  intro s hs
  refine ends_accessesService hs.1 fun _ s₁ hcaller haccess => ?_
  exact ((composes_keeping lasts_accessesService).reply h g).ends s₁ ⟨hcaller, haccess⟩

theorem canAccess_superAdmin (hrole : user.role = .superAdmin) (workspaceId : Uuid) :
    canAccessWorkspace user workspaceId = true := by
  simp [canAccessWorkspace, hrole]

/-- **Handlers** change only what their user may. -/
theorem keeping_handle (route : UserRoute) :
    Keeping i user (fun _ => True) _ (route.handle x config user) := by
  have hP : Composes (Keeping i user fun _ => True) := composes_keeping lasts_trivial
  have hadds : ∀ {γ : Type} {y : Service γ},
      AddsOnly (fun t r => ∀ db, True → MayAdd user db t r) γ y →
        Keeping i user (fun _ => True) γ y := fun h => keeping_adds h lasts_trivial
  cases route with
  | createApiToken payload =>
    exact hP.validated (hP.bind (keeping_createApiToken _) fun _ => hP.pure _)
  | revokeApiToken id => exact hP.reply (keeping_revokeApiToken id) _
  | createServer payload =>
    exact hP.validated (hP.superAdmin fun h =>
      hP.reply (hadds (adds_createServer _ fun _ _ _ => h)) _)
  | checkServer id => exact hP.superAdmin fun h => hP.reply (keeping_checkServer h id) _
  | createWorkspace payload =>
    exact hP.validated (hP.superAdmin fun h => hP.reply (hadds (adds_createWorkspace _ _
      (fun _ _ _ => h) fun _ _ _ _ => canAccess_superAdmin h _)) _)
  | createEnvironment workspaceId payload =>
    exact hP.validated (hP.access fun h =>
      hP.reply (hadds (adds_createEnvironment _ _ fun _ _ _ => h)) _)
  | createService workspaceId payload =>
    exact hP.validated (hP.access fun h =>
      hP.reply (hadds (adds_createService _ fun r hr _ _ => by rw [MayAdd, hr]; exact h)) _)
  | createCredential workspaceId payload =>
    exact hP.validated (hP.access fun h =>
      hP.reply (hadds (adds_createCredential _ fun r hr _ _ => by rw [MayAdd, hr]; exact h)) _)
  | createEnvVar workspaceId payload =>
    exact hP.validated (hP.access fun h =>
      hP.reply (hadds (adds_createEnvVar _ fun r hr _ _ => by rw [MayAdd, hr]; exact h)) _)
  | createEnvVars workspaceId payload =>
    refine hP.validated (hP.access fun h => hP.reply (hadds (adds_createEnvVars _ ?_)) _)
    intro input hinput r hr _ _
    obtain ⟨envVar, -, rfl⟩ := List.mem_map.mp hinput
    rw [MayAdd, hr]
    exact h
  | createDomain serviceId payload =>
    exact hP.validated (keeping_behind _ (keeping_adds
      (adds_createDomain _ fun r hr db h => by rw [MayAdd, hr]; exact h) lasts_accessesService))
  | triggerDeploy serviceId =>
    exact keeping_behind _ (keeping_adds
      (adds_triggerDeploy _ fun r hr db h => by rw [MayAdd, hr]; exact h) lasts_accessesService)
  | restartService serviceId =>
    exact keeping_behind _ (keeping_adds
      (adds_restartService _ fun r hr db h => by rw [MayAdd, hr]; exact h) lasts_accessesService)
  | createTemplate workspaceId payload =>
    exact hP.validated (hP.access fun h =>
      hP.reply (hadds (adds_createTemplate _ fun r hr _ _ => by rw [MayAdd, hr]; exact h)) _)
  | createWorkspacesFromTemplate id payload =>
    refine hP.validated (hP.superAdmin fun h => hP.after (by simp [Reads, getTemplate, Op.writes])
      fun template => hP.access fun _ => hP.reply ?_ _)
    unfold createWorkspacesFromTemplate
    refine hP.after (by simp [Reads, getTemplate, Op.writes]) fun template => hadds ⟨?_⟩
    refine Flow.All.mono (all_mapM (P := fun _ _ => True) fun name _ => ?_) (fun _ h => h)
      fun _ _ => trivial
    exact (adds_createWorkspace name _ (fun _ _ _ => h) fun _ _ _ _ => canAccess_superAdmin h _).all
  | inviteUser payload => exact hP.validated (hP.reply (keeping_inviteUser rfl) _)
  | disableUser id =>
    exact hP.superAdmin fun h => hP.reply (keeping_account (x := x) (covers_disableUser id)
      fun o ho => by cases ho; exact ⟨_, _, rfl, fun r => ⟨h, rfl⟩⟩) _
  | reactivateUser id =>
    exact hP.superAdmin fun h => hP.reply (keeping_account (x := x) (covers_reactivateUser id)
      fun o ho => by cases ho; exact ⟨_, _, rfl, fun r => ⟨h, rfl⟩⟩) _
  | changeUserRole id payload =>
    exact hP.superAdmin fun h => hP.reply (keeping_account (x := x) (covers_changeUserRole _)
      fun o ho => by cases ho; exact ⟨_, _, rfl, fun r => ⟨h, rfl⟩⟩) _
  | _ => exact hP.reads (reads_handle trivial)

/-- The extractor only notes that a token was used, and hands over its user. -/
theorem ends_extractUser_permitting {authorization : Option String} {f : User → Service β}
    {ok : β → World → Prop}
    (h : ∀ user s', (i, user) ∈ s'.callers → Ends (permitting i) (f user) ok s') :
    Ends (permitting i) (extractUser x config authorization >>= f) ok s := by
  unfold extractUser currentUser
  simp only [bind_assoc]
  refine ends_okOr fun token _ => ?_
  refine ends_all (never_authenticateBearer token) (fun o ho s₁ r s₂ hs => ?_)
    fun user s₁ _ h₁ => ?_
  · obtain ⟨⟨a, ha⟩, htidy⟩ := hs
    have hg : (permitting i).guar o s₁ r s₂ := .inl (ho r)
    exact ⟨hg, close_permitting.within ⟨⟨a, ha⟩, htidy⟩ hg⟩
  · refine ends_call fun s₂ h₂ r s₃ hs => ?_
    obtain ⟨⟨a, ha⟩, htidy⟩ := hs
    refine ⟨(close_permitting.reads rfl ⟨⟨a, ha⟩, htidy⟩).1, ?_⟩
    rw [pure_bind]
    refine h user s₃ ?_
    rw [exec_caller ha]
    exact List.mem_cons_self

theorem safe_request_permitting {authorization : Option String} {route : UserRoute} :
    Ends (permitting i) ((Task.job (.request (.user authorization route))).serve x config)
      (fun _ _ => True) s := by
  show Ends (permitting i) (some <$> (extractUser x config authorization >>= _)) _ s
  refine ends_map ?_
  refine ends_extractUser_permitting fun user s' hcaller => ?_
  refine Ends.mono ((keeping_handle route).ends s' ⟨hcaller, trivial⟩) fun _ _ _ _ _ => trivial

end handlers

/-! ## Runs -/

section runs

variable {x : Ext} {tasks : List (Config × Task)} {P P' : JobPool}
  {es₁ es₂ : List (Event Res World)}

theorem callers_origin {i j : Nat} {o : Op} {a : Ans} {r : Res o} {s s' : World} {user : User}
    (h : exec j o a s = some (r, s')) (hmem : (i, user) ∈ s'.callers) :
    (i, user) ∈ s.callers ∨ j = i ∧ o = .caller user := by
  cases o
  case write w =>
    rcases exec_write h with ⟨e, -, rfl⟩ | ⟨-, db, -, rfl⟩ <;> exact .inl hmem
  case commit ws =>
    rcases exec_commit h with ⟨e, -, rfl⟩ | ⟨-, db, -, rfl⟩ <;> exact .inl hmem
  case newUuid =>
    obtain ⟨hu, rfl⟩ := exec_newUuid h
    exact .inl hmem
  case caller user' =>
    rw [exec_caller h] at hmem
    rcases List.mem_cons.mp hmem with he | hmem
    · cases he
      exact .inr ⟨rfl, rfl⟩
    · exact .inl hmem
  all_goals
    rw [exec_idle rfl h] at hmem
    exact .inl hmem

/-- Callers are on the record because an extractor has handed them over. -/
theorem caller_of_runs {e : Event Res World} (hr : Runs exec P (es₁ ++ e :: es₂) P') {i : Nat}
    {user : User} (h : (i, user) ∈ e.pre.callers) :
    (i, user) ∈ P.state.callers ∨ ∃ e' ∈ es₁, e'.tid = i ∧ e'.op = .caller user := by
  induction es₁ generalizing P with
  | nil =>
    cases hr
    exact .inl h
  | cons e₀ es₁ ih =>
    cases hr with
    | cons hk hx hrest =>
      rcases ih hrest with hold | ⟨e', he', hcaller⟩
      · rcases callers_origin hx hold with hold | ⟨htid, hop⟩
        · exact .inl hold
        · exact .inr ⟨_, List.mem_cons_self, htid, hop⟩
      · exact .inr ⟨e', List.mem_cons_of_mem _ he', hcaller⟩

/-- **Rights.** Among any tasks in any order of their statements, what a request changes is the note
that the API token it presents was used, or is what a user may add or change whom the extractor of
that request has handed over before. Nothing is taken out. -/
theorem changes_permitted {db : Db} {es : List (Event Res World)}
    (hr : Runs exec (TaskPool.of x tasks (.start db)) es P') {i : Nat} {config : Config}
    {authorization : Option String} {route : UserRoute}
    (hi : tasks[i]? = some (config, .job (.request (.user authorization route))))
    {e : Event Res World} (hes : es = es₁ ++ e :: es₂) (htid : e.tid = i) :
    SameButUse ((ApiRequest.user authorization route).Presents x) e.pre.db e.post.db ∨
      ∃ user, (∃ e' ∈ es₁, e'.tid = i ∧ e'.op = .caller user) ∧
        Permitted user e.pre.db e.post.db := by
  have hp := TaskPool.thread_of (x := x) (w := .start db) hi
  have hstep : ∀ e ∈ es, (∃ a, exec e.tid e.op a e.pre = some (e.res, e.post)) ∧ e.op.Tidy :=
    fun e he => ⟨hr.handled e he, tidy_of_runs hr e he⟩
  have hmem : e ∈ es := hes ▸ List.mem_append_right _ List.mem_cons_self
  have hguar := hr.guards (c := permitting i) hp safe_request_permitting (fun e he _ => ?_)
    (fun e he htid => htid ▸ hstep e he) e hmem htid
  · rcases hguar with hno | ⟨user, hcaller, hpermitted⟩
    · exact .inl (sameButUse_of_runs hr hi e hmem htid hno)
    · rcases caller_of_runs (hes ▸ hr) hcaller with hold | hcaller
      · exact absurd hold List.not_mem_nil
      · exact .inr ⟨user, hcaller, hpermitted⟩
  · obtain ⟨a, ha⟩ := hr.handled e he
    exact ⟨keeps_of_runs hr e he, exec_callers ha⟩

end runs

namespace Symbolic

/-- Bob may add the environment that he has asked for. -/
theorem changes_permitted_staging : ∃ (P' : JobPool) (es₁ es₂ : List (Event Res World))
    (e : Event Res World), Runs exec twiceStagingPool (es₁ ++ e :: es₂) P' ∧
      (⟨21, 9, "staging"⟩ : Environment) ∉ e.pre.db.rows .environments ∧
      (⟨21, 9, "staging"⟩ : Environment) ∈ e.post.db.rows .environments ∧
      ∃ user, (∃ e' ∈ es₁, e'.tid = e.tid ∧ e'.op = .caller user) ∧
        Permitted user e.pre.db e.post.db := by
  obtain ⟨P', hrun, hends⟩ := Option.map_eq_some_iff.mp twiceStaging_ends
  have hr := Pool.run_runs hrun
  have hrows : P'.state.db.rows .environments = ([⟨21, 9, "staging"⟩] : List Environment) :=
    (Prod.mk.inj hends).2
  rcases hr.established (A := fun s => (⟨21, 9, "staging"⟩ : Environment) ∈
    s.db.rows .environments) (hrows ▸ List.mem_singleton_self _) with hstart | ⟨e, he, hpre, hpost⟩
  · exact absurd hstart (by decide)
  · obtain ⟨es₁, es₂, hes⟩ := List.append_of_mem he
    have htid : e.tid < 2 := hr.tid_lt he
    have hi := List.getElem?_replicate_of_lt (a := (config "A", Task.job (.request (.user
      (some "Bearer wara_t") (.createEnvironment 9 ⟨"staging"⟩))))) htid
    refine ⟨P', es₁, es₂, e, hes ▸ hr, hpre, hpost, ?_⟩
    rcases changes_permitted hr hi hes rfl with hsame | hpermitted
    · exact absurd (hsame.rows .environments nofun ▸ hpost) hpre
    · exact hpermitted

end Symbolic

end Wara
