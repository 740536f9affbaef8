import Wara.Api.Composed

/-!
# What the handlers write to

Every service writes to the tables it is for, and to no others. So a promise
about the accounts, or about workspaces and their templates, asks nothing of the
services that write elsewhere.
-/

namespace Wara

open Interleave Store Service AuthService WorkspaceService AppServiceService DomainService
  DeploymentService WorkspaceTemplateService CredentialService ServerService

/-- Whatever the operation writes goes to these tables. -/
def Op.Into (ts : List Table) (o : Op) : Prop := ∀ w ∈ o.writes, w.table ∈ ts

/-- A structure, so that the call is not unfolded where this is used. -/
structure WritesInto (ts : List Table) (α : Type) (y : Service α) : Prop where
  all : Flow.All (Op.Into ts) y fun _ => True

/-- The tables of the services that write neither accounts nor workspaces nor templates. -/
def platformTables : List Table :=
  [.servers, .environments, .appServices, .dockerCredentials, .envVars, .domains, .deployments]

/-- The operations of the authentication service that write, behind the checks of their routes. -/
structure AccountWritersSatisfy (P : (α : Type) → Service α → Prop) (x : Ext) (config : Config)
    (user : User) : Prop where
  createApiToken : ∀ name, P _ (AuthService.createApiToken x ⟨user, name⟩)
  revokeApiToken : ∀ id, P _ (AuthService.revokeApiToken x user id)
  inviteUser : ∀ input : InviteUserInput, input.inviter = user →
    P _ (AuthService.inviteUser x config input)
  disableUser : ∀ id, user.role = .superAdmin → P _ (AuthService.disableUser id)
  reactivateUser : ∀ id, user.role = .superAdmin → P _ (AuthService.reactivateUser id)
  changeUserRole : ∀ input, user.role = .superAdmin → P _ (AuthService.changeUserRole input)

section writes

variable {ts ts' : List Table} {x : Ext} {config : Config} {secretKey : String} {α : Type}
  {y : Service α}

theorem Op.into_of_reads {o : Op} (h : o.writes = []) : o.Into ts := by
  intro w hw
  rw [h] at hw
  cases hw

theorem Op.Into.mono {o : Op} (h : o.Into ts) (hts : ts ⊆ ts') : o.Into ts' :=
  fun w hw => hts (h w hw)

theorem WritesInto.mono (h : WritesInto ts α y) (hts : ts ⊆ ts') : WritesInto ts' α y :=
  ⟨Flow.All.mono h.all (fun _ ho => ho.mono hts) fun _ h => h⟩

theorem composes_into : Composes (WritesInto ts) where
  reads h := ⟨Flow.All.mono h (fun _ ho => Op.into_of_reads ho) fun _ h => h⟩
  bind h hf := ⟨Flow.all_bind.mpr (Flow.All.mono h.all (fun _ h => h) fun a _ => (hf a).all)⟩

instance : AboutWrites (Op.Into ts) := ⟨fun _ => Op.into_of_reads⟩

@[simp] theorem into_write {w : Write} : Op.Into ts (.write w) ↔ w.table ∈ ts := by
  unfold Op.Into
  exact List.forall_mem_singleton

@[simp] theorem into_commit {ws : List Write} :
    Op.Into ts (.commit ws) ↔ ∀ w ∈ ws, w.table ∈ ts := Iff.rfl

/-! ## The services -/

theorem into_createServer (payload : CreateServerInput) :
    WritesInto [.servers] _ (createServer x secretKey payload) := by
  constructor
  simp [createServer, validateSshKeyPair, Executor.op, Write.table]

theorem into_checkServer (id : Uuid) : WritesInto [.servers] _ (checkServer x secretKey id) := by
  constructor
  simp [checkServer, getServer, updateCheckMetadata, Write.table]

theorem into_checkAllServers : WritesInto [.servers] _ (checkAllServers x secretKey) := by
  unfold checkAllServers
  refine composes_into.after (by simp [Reads, listServers, Op.writes]) fun servers => ?_
  refine composes_into.bind ⟨Flow.All.mono (all_mapM (P := fun _ _ => True) fun server _ => ?_)
    (fun _ h => h) fun _ _ => trivial⟩ fun _ => composes_into.pure _
  rw [Flow.all_bind, all_attempt fun _ => Flow.all_pure.mpr trivial]
  exact Flow.All.mono (into_checkServer server.id).all (fun _ h => h)
    fun _ _ => Flow.all_pure.mpr trivial

theorem into_createWorkspace (name : String) (description : Option String) :
    WritesInto [.workspaces, .environments] _ (createWorkspace name description) := by
  constructor
  simp [createWorkspace, Write.table]

theorem into_createEnvironment (workspaceId : Uuid) (name : String) :
    WritesInto [.environments] _ (WorkspaceService.createEnvironment workspaceId name) := by
  constructor
  simp [WorkspaceService.createEnvironment, WorkspaceService.getWorkspace, Executor.op, Write.table]

theorem into_createService (input : CreateAppServiceInput) :
    WritesInto [.appServices] _ (AppServiceService.createService input) := by
  constructor
  simp [AppServiceService.createService, WorkspaceService.getWorkspace, ensureEnvironment,
    WorkspaceService.listEnvironments, Executor.op, Write.table]

theorem into_createCredential (input : CreateCredentialInput) :
    WritesInto [.dockerCredentials] _ (CredentialService.createCredential x secretKey input) := by
  constructor
  simp [CredentialService.createCredential, WorkspaceService.getWorkspace, Executor.op, Write.table]

theorem into_createEnvVar (input : CreateEnvVarInput) :
    WritesInto [.envVars] _ (CredentialService.createEnvVar x secretKey input) := by
  unfold CredentialService.createEnvVar
  refine composes_into.after (reads_validateEnvVarScope input) fun _ => ⟨?_⟩
  simp [createEnvVarRecord, Executor.op, Write.table]

/-- The bulk adds all its rows in one commit. -/
theorem into_createEnvVars (inputs : List CreateEnvVarInput) :
    WritesInto [.envVars] _ (createEnvVars x secretKey inputs) := by
  unfold createEnvVars
  have hscopes : Reads (inputs.forM validateEnvVarScope) :=
    all_forM fun input _ => reads_validateEnvVarScope input
  refine composes_into.after hscopes fun _ => ⟨?_⟩
  have hcreated : Flow.All (Op.Into [.envVars])
      (inputs.mapM (createEnvVarRecord x secretKey .transaction))
      (List.Forall₂ (fun _ _ => True) inputs) :=
    all_mapM fun input _ => by simp [createEnvVarRecord]
  rw [Flow.all_bind, all_transaction_of_writes]
  refine Flow.all_bind.mpr (Flow.All.mono hcreated (fun _ h => h) ?_)
  intro created _
  rw [Flow.all_bind, all_commit]
  refine ⟨into_commit.mpr fun w hw => ?_, Flow.all_pure.mpr trivial⟩
  obtain ⟨record, -, rfl⟩ := List.mem_map.mp hw
  exact List.mem_singleton_self _

theorem into_createDomain (input : CreateDomainInput) :
    WritesInto [.domains] _ (DomainService.createDomain input) := by
  constructor
  simp [DomainService.createDomain, AppServiceService.getService, Executor.op, Write.table]

theorem into_triggerDeploy (executor : DeployExecutor) (serviceId : Uuid) :
    WritesInto [.deployments] _ (DeploymentService.triggerDeploy x config executor serviceId) := by
  constructor
  simp [DeploymentService.triggerDeploy, runAndRecord, createDeployment, Deployment.from,
    AppServiceService.getService, Executor.op, Write.table]

theorem into_restartService (executor : DeployExecutor) (serviceId : Uuid) :
    WritesInto [.deployments] _ (DeploymentService.restartService x executor serviceId) := by
  constructor
  simp [DeploymentService.restartService, runAndRecord, createDeployment, Deployment.from,
    AppServiceService.getService, Executor.op, Write.table]

theorem into_createTemplate (input : CreateTemplateInput) :
    WritesInto [.workspaceTemplates] _ (createTemplate input) := by
  constructor
  simp [createTemplate, WorkspaceService.getWorkspace, Executor.op, Write.table]

theorem into_createWorkspacesFromTemplate (input : CreateWorkspacesFromTemplateInput) :
    WritesInto [.workspaces, .environments] _ (createWorkspacesFromTemplate input) := by
  unfold createWorkspacesFromTemplate
  refine composes_into.after (by simp [Reads, getTemplate, Op.writes]) fun template => ⟨?_⟩
  refine Flow.All.mono (all_mapM (P := fun _ _ => True) fun name _ => ?_) (fun _ h => h)
    fun _ _ => trivial
  exact (into_createWorkspace name _).all

/-! ## All of them -/

/-- What holds of the services of the platform by where they write, and of those of the accounts. -/
theorem OrdinaryWritersSatisfy.of_into {P : (α : Type) → Service α → Prop} {user : User}
    {route : UserRoute} (hP : ∀ {α : Type} {y : Service α}, WritesInto platformTables α y → P α y)
    (ha : AccountWritersSatisfy P x config user) :
    OrdinaryWritersSatisfy P x config user route where
  createApiToken := ha.createApiToken
  revokeApiToken := ha.revokeApiToken
  createServer payload _ := hP ((into_createServer payload).mono (by decide))
  checkServer id _ := hP ((into_checkServer id).mono (by decide))
  createEnvironment workspaceId name _ :=
    hP ((into_createEnvironment workspaceId name).mono (by decide))
  createService input _ := hP ((into_createService input).mono (by decide))
  createCredential input _ := hP ((into_createCredential input).mono (by decide))
  createEnvVar input _ := hP ((into_createEnvVar input).mono (by decide))
  createEnvVars inputs _ := hP ((into_createEnvVars inputs).mono (by decide))
  createDomain input := hP ((into_createDomain input).mono (by decide))
  triggerDeploy serviceId _ := hP ((into_triggerDeploy _ serviceId).mono (by decide))
  restartService serviceId _ := hP ((into_restartService _ serviceId).mono (by decide))
  inviteUser := ha.inviteUser
  disableUser := ha.disableUser
  reactivateUser := ha.reactivateUser
  changeUserRole := ha.changeUserRole

end writes

end Wara
