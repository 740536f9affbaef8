import Wara.Api.Jobs
import Wara.Platform.Owned

/-!
# Every task owns what it inserts

Whatever a task does, it inserts rows under identifiers that it got, or that are
keys already, and changes only columns that may change.
-/

namespace Wara

open Interleave Store Service AuthService WorkspaceService AppServiceService DomainService
  DeploymentService WorkspaceTemplateService CredentialService ServerService

/-- A structure, so that the call is not unfolded where this is used. -/
structure OwnsAll (α : Type) (y : Service α) : Prop where
  all : ∀ known, Owns known y fun _ _ => True

theorem composes_owns : Composes OwnsAll where
  reads h := ⟨fun _ => owns_of_inert (Flow.All.mono h (fun _ ho => inert_of_reads ho)
    fun _ h => h) fun _ _ _ _ => trivial⟩
  bind h hf :=
    ⟨fun known => owns_bind.mpr ((h.all known).mono fun known' a _ _ => (hf a).all known')⟩

section writers

variable {x : Ext} {config : Config} {secretKey : String} {α : Type}

/-! ## The platform -/

theorem owns_createServer (payload : CreateServerInput) :
    OwnsAll _ (createServer x secretKey payload) := by
  constructor
  simp [createServer, validateSshKeyPair, rowKey]

theorem owns_checkServer (id : Uuid) : OwnsAll _ (checkServer x secretKey id) := by
  constructor
  simp [checkServer, getServer, updateCheckMetadata, fixedCols]

theorem owns_checkAllServers : OwnsAll _ (checkAllServers x secretKey) := by
  unfold checkAllServers
  refine composes_owns.after (by simp [Reads, listServers, Op.writes]) fun servers => ?_
  refine composes_owns.bind ⟨fun known => ?_⟩ fun _ => composes_owns.pure _
  refine Owns.mono (owns_mapM (P := fun _ _ => True) servers (fun _ _ _ _ _ => trivial)
    fun server _ known' _ => ?_) fun _ _ _ _ => trivial
  rw [owns_bind]
  exact owns_attempt ((owns_checkServer server.id).all known') fun _ _ _ => owns_pure.mpr trivial

theorem owns_createWorkspace (name : String) (description : Option String) :
    OwnsAll _ (createWorkspace name description) := by
  constructor
  simp [createWorkspace, rowKey]

theorem owns_createEnvironment (workspaceId : Uuid) (name : String) :
    OwnsAll _ (WorkspaceService.createEnvironment workspaceId name) := by
  constructor
  simp [WorkspaceService.createEnvironment, WorkspaceService.getWorkspace, rowKey]

theorem owns_createService (input : CreateAppServiceInput) :
    OwnsAll _ (AppServiceService.createService input) := by
  constructor
  simp [AppServiceService.createService, WorkspaceService.getWorkspace, ensureEnvironment,
    WorkspaceService.listEnvironments, rowKey]

theorem owns_createCredential (input : CreateCredentialInput) :
    OwnsAll _ (CredentialService.createCredential x secretKey input) := by
  constructor
  simp [CredentialService.createCredential, WorkspaceService.getWorkspace, rowKey]

theorem owns_createEnvVar (input : CreateEnvVarInput) :
    OwnsAll _ (CredentialService.createEnvVar x secretKey input) := by
  unfold CredentialService.createEnvVar
  refine composes_owns.after (reads_validateEnvVarScope input) fun _ => ⟨?_⟩
  simp [createEnvVarRecord, rowKey]

/-- The rows of the bulk keep their identifiers until the commit. -/
theorem owns_createEnvVars (inputs : List CreateEnvVarInput) :
    OwnsAll _ (createEnvVars x secretKey inputs) := by
  unfold createEnvVars
  have hscopes : Reads (inputs.forM validateEnvVarScope) :=
    all_forM fun input _ => reads_validateEnvVarScope input
  refine composes_owns.after hscopes fun _ => ⟨fun known => ?_⟩
  rw [owns_bind, owns_transaction, owns_bind]
  have hcreated : Owns known (inputs.mapM (createEnvVarRecord x secretKey .transaction))
      fun known' records => ∀ record ∈ records, EnvVarRecord.id record ∈ known' :=
    owns_mapM (P := fun known' record => EnvVarRecord.id record ∈ known') inputs
      (fun _ _ _ hsub h => hsub h) fun input _ known' _ => by simp [createEnvVarRecord]
  refine hcreated.mono fun known' records _ hrecords => ?_
  rw [owns_bind, owns_commit]
  refine ⟨fun w hw => ?_, owns_pure.mpr trivial⟩
  obtain ⟨record, hrecord, rfl⟩ := List.mem_map.mp hw
  exact hrecords record hrecord

theorem owns_createDomain (input : CreateDomainInput) :
    OwnsAll _ (DomainService.createDomain input) := by
  constructor
  simp [DomainService.createDomain, AppServiceService.getService, rowKey]

theorem owns_triggerDeploy (executor : DeployExecutor) (serviceId : Uuid) :
    OwnsAll _ (DeploymentService.triggerDeploy x config executor serviceId) := by
  constructor
  simp [DeploymentService.triggerDeploy, runAndRecord, createDeployment, Deployment.from,
    AppServiceService.getService, rowKey]

theorem owns_restartService (executor : DeployExecutor) (serviceId : Uuid) :
    OwnsAll _ (DeploymentService.restartService x executor serviceId) := by
  constructor
  simp [DeploymentService.restartService, runAndRecord, createDeployment, Deployment.from,
    AppServiceService.getService, rowKey]

theorem owns_createTemplate (input : CreateTemplateInput) : OwnsAll _ (createTemplate input) := by
  constructor
  simp [createTemplate, WorkspaceService.getWorkspace, rowKey]

theorem owns_createWorkspacesFromTemplate (input : CreateWorkspacesFromTemplateInput) :
    OwnsAll _ (createWorkspacesFromTemplate input) := by
  unfold createWorkspacesFromTemplate
  refine composes_owns.after (by simp [Reads, getTemplate, Op.writes]) fun template =>
    ⟨fun known => ?_⟩
  exact Owns.mono (owns_mapM (P := fun _ _ => True) input.names (fun _ _ _ _ _ => trivial)
    fun name _ known' _ => (owns_createWorkspace name _).all known') fun _ _ _ _ => trivial

/-! ## The accounts -/

theorem owns_startSession (user : User) : OwnsAll _ (startSession x config user) := by
  constructor
  simp [startSession, issueRefreshToken, afterSeconds, signRefreshToken, signAccessToken,
    signWithActiveKey, activeJwtPublicKeyRecord, getCurrentTimestamp, rowKey]

/-- The requests that insert nothing. -/
theorem reads_of_covers {y : Service α} (h : AuthRequest.Covers x .jwks y) : Reads y :=
  Flow.All.mono h (fun _ ho => ho.resolve_right fun hc => by cases hc) fun _ h => h

theorem owns_login (input : LoginInput) : OwnsAll _ (login x config input) := by
  unfold login
  refine composes_owns.after (reads_of_covers (x := x) (covers_findUserByEmail _)) fun record => ?_
  refine composes_owns.after (by simp [Reads]) fun _ =>
    composes_owns.after (by simp [Reads]) fun _ => ?_
  refine composes_owns.after (by simp [Reads, verifyPassword]) fun _ => ?_
  exact composes_owns.after (reads_userFromRecord record) fun user => owns_startSession user

theorem owns_acceptInvite (input : AcceptInviteInput) :
    OwnsAll _ (acceptInvite x config input) := by
  unfold acceptInvite
  refine composes_owns.after (by simp [Reads, findOpenInvite, Op.writes]) fun invite => ?_
  refine composes_owns.after (by simp [Reads, parseRfc3339]) fun expiresAt => ?_
  refine composes_owns.after (by simp [Reads, Op.writes]) fun time => ?_
  refine composes_owns.after (by simp [Reads]) fun _ => ?_
  refine composes_owns.after (by simp [Reads, getUserRecord, Op.writes]) fun user => ?_
  refine composes_owns.after (by simp [Reads]) fun _ =>
    composes_owns.after (by simp [Reads]) fun _ => ?_
  refine composes_owns.after (by simp [Reads, hashPassword, Op.writes]) fun passwordHash => ?_
  refine composes_owns.bind ⟨fun known => by simp [fixedCols]⟩ fun _ => ?_
  refine composes_owns.after (by simp [Reads, Op.writes]) fun acceptedAt => ?_
  refine composes_owns.bind ⟨fun known => by simp [fixedCols]⟩ fun _ => ?_
  refine composes_owns.after ?_ fun user => owns_startSession user
  unfold getUser
  exact .bind (by simp [Reads, getUserRecord, Op.writes]) fun record => reads_userFromRecord record

theorem owns_refreshSession (input : RefreshSessionInput) :
    OwnsAll _ (refreshSession x config input) := by
  unfold refreshSession
  refine composes_owns.after (reads_of_covers (x := x) (covers_activeRefreshTokenRecord _))
    fun record => ?_
  refine composes_owns.after (by simp [Reads, getUserRecord, Op.writes]) fun userRecord => ?_
  refine composes_owns.after (by simp [Reads]) fun _ => ?_
  refine composes_owns.after (reads_userFromRecord userRecord) fun user => ⟨fun known => ?_⟩
  simp [issueRefreshToken, afterSeconds, signRefreshToken, signAccessToken, signWithActiveKey,
    activeJwtPublicKeyRecord, getCurrentTimestamp, rowKey, fixedCols]

theorem owns_inviteUser (input : InviteUserInput) : OwnsAll _ (inviteUser x config input) := by
  unfold inviteUser
  refine composes_owns.after (by simp [Reads]) fun _ =>
    composes_owns.after (by simp [Reads]) fun _ => ?_
  refine composes_owns.after (reads_attempt (reads_of_covers (x := x) (covers_findUserByEmail _)))
    fun found => ?_
  refine composes_owns.after (by simp [Reads]) fun _ => ?_
  refine composes_owns.after (reads_of_covers (x := x) (covers_ensureWorkspaceExists _)) fun _ => ?_
  refine composes_owns.after (by simp [Reads, Op.writes]) fun now => ⟨fun known => ?_⟩
  simp [afterSeconds, generateInviteToken, rowKey]

theorem owns_createApiToken (input : CreateApiTokenInput) : OwnsAll _ (createApiToken x input) := by
  constructor
  simp [createApiToken, generateApiToken, rowKey]

/-- A key that is inserted has a new identifier, or one that a stored key has. -/
theorem owns_bootstrapAdmin : OwnsAll _ (bootstrapAdmin x config) := by
  unfold bootstrapAdmin
  refine composes_owns.bind ⟨fun known => ?_⟩ fun _ => ⟨fun known => ?_⟩
  · unfold syncActiveJwtPublicKey
    refine owns_bind.mpr (owns_orThrow.mpr fun key _ => ?_)
    refine owns_bind.mpr (owns_query.mpr fun records => ?_)
    refine owns_bind.mpr (owns_unwrapOrElse.mpr ⟨fun id hid => ?_, fun _ => ?_⟩)
    · obtain ⟨record, hfound, rfl⟩ := Option.map_eq_some_iff.mp hid
      have hmem : record.id ∈ records.map rowKey :=
        List.mem_map.mpr ⟨record, List.mem_of_find?_eq_some hfound, rfl⟩
      have hknown : record.id ∈ records.map rowKey ++ known := List.mem_append_left _ hmem
      generalize records.map rowKey ++ known = known' at hknown
      simp [fixedCols, rowKey, hknown]
    · simp [fixedCols, rowKey]
  · simp [hashPassword, rowKey]

theorem reads_getUser (id : Uuid) : Reads (getUser id) := by
  unfold getUser
  exact .bind (by simp [Reads, getUserRecord, Op.writes]) fun record => reads_userFromRecord record

theorem owns_updateUserStatus (id : Uuid) (status : UserStatus) :
    OwnsAll _ (updateUserStatus id status) := by
  unfold updateUserStatus
  exact composes_owns.bind ⟨fun known => by simp [fixedCols]⟩ fun _ =>
    composes_owns.reads (reads_getUser id)

theorem reads_atMostOneActive (c : Prop) [Decidable c] : Reads (atMostOneActive c) := by
  simp [Reads, atMostOneActive, activeSuperAdminCount, Op.writes]

theorem owns_disableUser (id : Uuid) : OwnsAll _ (disableUser id) := by
  unfold disableUser
  refine composes_owns.after (by simp [Reads, getUserRecord, Op.writes]) fun record => ?_
  split
  · exact composes_owns.reads (reads_userFromRecord record)
  · refine composes_owns.after (reads_atMostOneActive _) fun last => ?_
    exact composes_owns.after (by simp [Reads]) fun _ => owns_updateUserStatus id _

theorem owns_reactivateUser (id : Uuid) : OwnsAll _ (reactivateUser id) := by
  unfold reactivateUser
  refine composes_owns.after (by simp [Reads, getUserRecord, Op.writes]) fun record => ?_
  refine composes_owns.after (by simp [Reads]) fun _ =>
    composes_owns.after (by simp [Reads]) fun _ => ?_
  exact owns_updateUserStatus id _

theorem owns_changeUserRole (input : ChangeUserRoleInput) : OwnsAll _ (changeUserRole input) := by
  unfold changeUserRole
  refine composes_owns.after (by simp [Reads, getUserRecord, Op.writes]) fun record => ?_
  refine composes_owns.after (reads_atMostOneActive _) fun last => ?_
  refine composes_owns.after (by simp [Reads]) fun _ => ?_
  exact composes_owns.bind ⟨fun known => by simp [fixedCols]⟩ fun _ =>
    composes_owns.reads (reads_getUser input.userId)

theorem owns_logout (input : LogoutInput) : OwnsAll _ (logout x config input) := by
  unfold logout
  refine composes_owns.after (reads_of_covers (x := x) (covers_activeRefreshTokenRecord _))
    fun record => ?_
  exact ⟨fun known => by simp [fixedCols]⟩

theorem owns_authenticateBearer (token : String) :
    OwnsAll _ (authenticateBearer x config token) := by
  unfold authenticateBearer
  refine composes_owns.after (reads_attempt (reads_of_covers (x := x) (covers_verifyAccessToken _)))
    fun verified => ?_
  split
  · refine composes_owns.after (by simp [Reads]) fun userId => ?_
    refine composes_owns.after (by simp [Reads, getUserRecord, Op.writes]) fun userRecord => ?_
    exact composes_owns.after (by simp [Reads]) fun _ =>
      composes_owns.reads (reads_userFromRecord userRecord)
  · unfold authenticateApiToken
    refine composes_owns.after (by simp [Reads]) fun _ => ?_
    refine composes_owns.after (by simp [Reads, Op.writes]) fun record => ?_
    refine composes_owns.after (by simp [Reads]) fun record => ?_
    refine composes_owns.after (by simp [Reads]) fun _ => ?_
    refine composes_owns.after (by simp [Reads, getUserRecord, Op.writes]) fun userRecord => ?_
    refine composes_owns.after (by simp [Reads]) fun _ => ?_
    refine composes_owns.after (by simp [Reads, Op.writes]) fun now => ?_
    exact composes_owns.bind ⟨fun known => by simp [fixedCols]⟩ fun _ =>
      composes_owns.reads (reads_userFromRecord userRecord)
  · exact composes_owns.reads (by simp [Reads])

/-! ## All of them -/

theorem creators_own : CreatorsSatisfy OwnsAll (fun _ _ _ => True) x config where
  createWorkspace := owns_createWorkspace
  createEnvironment := owns_createEnvironment
  createService := owns_createService
  createDomain := owns_createDomain
  triggerDeploy executor serviceId _ := owns_triggerDeploy executor serviceId
  restartService executor serviceId _ := owns_restartService executor serviceId
  createTemplate := owns_createTemplate
  createWorkspacesFromTemplate := owns_createWorkspacesFromTemplate
  createCredential := owns_createCredential
  createEnvVar := owns_createEnvVar
  createEnvVars := owns_createEnvVars
  createServer := owns_createServer
  login := owns_login
  inviteUser := owns_inviteUser
  acceptInvite := owns_acceptInvite
  refreshSession := owns_refreshSession

theorem updaters_own : UpdatersSatisfy OwnsAll x config where
  bootstrapAdmin := owns_bootstrapAdmin
  createApiToken := owns_createApiToken
  revokeApiToken user id := ⟨fun known => by simp [revokeApiToken, fixedCols]⟩
  authenticateBearer := owns_authenticateBearer
  logout := owns_logout
  disableUser := owns_disableUser
  reactivateUser := owns_reactivateUser
  changeUserRole := owns_changeUserRole
  checkServer := owns_checkServer
  checkAllServers := owns_checkAllServers

theorem owns_handle (user : User) (route : UserRoute) : OwnsAll _ (route.handle x config user) :=
  composes_owns.handleAny creators_own updaters_own (fun _ _ => trivial) (fun _ _ => trivial) user

theorem owns_task (task : Task) : OwnsAll _ (task.serve x config) :=
  composes_owns.task creators_own updaters_own fun _ _ _ _ => trivial

end writers

end Wara
