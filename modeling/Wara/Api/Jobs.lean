import Wara.Api.Composed
import Wara.Auth.Requests

/-!
# What runs on the database

A `Job` is what the binaries do: start an instance (`main.rs`), serve a request,
check all servers (`temporal_worker.rs`). A `Task` is a job, or a create
operation of a service called directly, with any input and any executor. A pool
of either is any number of them, each for an instance with its own
configuration.
-/

namespace Wara

open Interleave Service AuthService WorkspaceService AppServiceService DomainService
  DeploymentService WorkspaceTemplateService CredentialService ServerService

inductive Job where
  | start
  | request (request : ApiRequest)
  | checkServers
  deriving DecidableEq, Repr

/-- What the job replies, if anybody asked. -/
def Job.serve (x : Ext) (config : Config) : Job → Service (Option ApiReply)
  | .start => (fun _ => none) <$> bootstrapAdmin x config
  | .request q => some <$> q.serve x config
  | .checkServers => (fun _ => none) <$> checkAllServers x config.secretKey

/-- Whatever all parts of a job satisfy, the job does. -/
theorem Composes.job {P : (α : Type) → Service α → Prop} (hP : Composes P) {x : Ext}
    {config : Config} {job : Job} (hstart : P _ (bootstrapAdmin x config))
    (hpublic : PublicWritersSatisfy P x config)
    (hauth : ∀ token, P _ (authenticateBearer x config token))
    (huser : ∀ authorization route, job = .request (.user authorization route) → ∀ user,
      P _ (route.handle x config user))
    (hcheck : P _ (checkAllServers x config.secretKey)) : P _ (job.serve x config) := by
  cases job with
  | start => exact hP.map hstart _
  | request request =>
    refine hP.map ?_ _
    cases request with
    | anyone route => exact hP.publicRoute hpublic route
    | user authorization route =>
      exact hP.bind (hP.extractUser hauth authorization) (huser authorization route rfl)
  | checkServers => exact hP.map hcheck _

/-- The create operations. `create_api_token` is left to requests: it takes the user that the
extractor has found. -/
inductive CreateCall where
  | createWorkspace (name : String) (description : Option String)
  | createEnvironment (workspaceId : Uuid) (name : String)
  | createService (input : CreateAppServiceInput)
  | createDomain (input : CreateDomainInput)
  | triggerDeploy (executor : DeployExecutor) (serviceId : Uuid)
  | restartService (executor : DeployExecutor) (serviceId : Uuid)
  | createTemplate (input : CreateTemplateInput)
  | createWorkspacesFromTemplate (input : CreateWorkspacesFromTemplateInput)
  | createCredential (input : CreateCredentialInput)
  | createEnvVar (input : CreateEnvVarInput)
  | createEnvVars (inputs : List CreateEnvVarInput)
  | createServer (payload : CreateServerInput)
  | login (input : LoginInput)
  | inviteUser (input : InviteUserInput)
  | acceptInvite (input : AcceptInviteInput)
  | refreshSession (input : RefreshSessionInput)

def CreateCall.serve (x : Ext) (config : Config) : CreateCall → Service Unit
  | .createWorkspace name description => discard (WorkspaceService.createWorkspace name description)
  | .createEnvironment workspaceId name =>
    discard (WorkspaceService.createEnvironment workspaceId name)
  | .createService input => discard (AppServiceService.createService input)
  | .createDomain input => discard (DomainService.createDomain input)
  | .triggerDeploy executor serviceId =>
    discard (DeploymentService.triggerDeploy x config executor serviceId)
  | .restartService executor serviceId =>
    discard (DeploymentService.restartService x executor serviceId)
  | .createTemplate input => discard (WorkspaceTemplateService.createTemplate input)
  | .createWorkspacesFromTemplate input =>
    discard (WorkspaceTemplateService.createWorkspacesFromTemplate input)
  | .createCredential input =>
    discard (CredentialService.createCredential x config.secretKey input)
  | .createEnvVar input => discard (CredentialService.createEnvVar x config.secretKey input)
  | .createEnvVars inputs => discard (CredentialService.createEnvVars x config.secretKey inputs)
  | .createServer payload => discard (ServerService.createServer x config.secretKey payload)
  | .login input => discard (AuthService.login x config input)
  | .inviteUser input => discard (AuthService.inviteUser x config input)
  | .acceptInvite input => discard (AuthService.acceptInvite x config input)
  | .refreshSession input => discard (AuthService.refreshSession x config input)

inductive Task where
  | job (job : Job)
  | create (call : CreateCall)

def Task.serve (x : Ext) (config : Config) : Task → Service (Option ApiReply)
  | .job j => j.serve x config
  | .create call => (fun _ => none) <$> call.serve x config

abbrev JobPool := Pool Res World (Except Abort (Option ApiReply))

/-- Each job with the configuration of its instance. -/
def JobPool.of (x : Ext) (jobs : List (Config × Job)) (w : World) : JobPool :=
  ⟨jobs.map fun j => j.2.serve x j.1, w⟩

def TaskPool.of (x : Ext) (tasks : List (Config × Task)) (w : World) : JobPool :=
  ⟨tasks.map fun j => j.2.serve x j.1, w⟩

theorem TaskPool.thread_of {x : Ext} {tasks : List (Config × Task)} {w : World} {i : Nat}
    {config : Config} {task : Task} (h : tasks[i]? = some (config, task)) :
    (TaskPool.of x tasks w).threads[i]? = some (task.serve x config) := by
  simp only [TaskPool.of, List.getElem?_map, h, Option.map_some]

theorem TaskPool.task_of {x : Ext} {tasks : List (Config × Task)} {w : World} {i : Nat}
    {p : Prog Res (Except Abort (Option ApiReply))}
    (h : (TaskPool.of x tasks w).threads[i]? = some p) :
    ∃ task, tasks[i]? = some task ∧ task.2.serve x task.1 = p := by
  simpa only [TaskPool.of, List.getElem?_map, Option.map_eq_some_iff] using h

/-! ## All of them -/

inductive ServiceCommand where
  | deploy
  | restart
  deriving DecidableEq, Repr

/-- The task has the executor do this to the service: a request only has it previewed. -/
inductive Task.Commands : Task → ServiceCommand → DeployExecutor → Uuid → Prop
  | deployRequest (authorization : Option String) (serviceId : Uuid) :
    Commands (.job (.request (.user authorization (.triggerDeploy serviceId)))) .deploy
      previewExecutor serviceId
  | restartRequest (authorization : Option String) (serviceId : Uuid) :
    Commands (.job (.request (.user authorization (.restartService serviceId)))) .restart
      previewExecutor serviceId
  | deployCall (executor : DeployExecutor) (serviceId : Uuid) :
    Commands (.create (.triggerDeploy executor serviceId)) .deploy executor serviceId
  | restartCall (executor : DeployExecutor) (serviceId : Uuid) :
    Commands (.create (.restartService executor serviceId)) .restart executor serviceId

/-- The create operations, with any input and the given commands. -/
structure CreatorsSatisfy (P : (α : Type) → Service α → Prop)
    (E : ServiceCommand → DeployExecutor → Uuid → Prop) (x : Ext) (config : Config) : Prop where
  createWorkspace : ∀ name description, P _ (WorkspaceService.createWorkspace name description)
  createEnvironment : ∀ workspaceId name, P _ (WorkspaceService.createEnvironment workspaceId name)
  createService : ∀ input, P _ (AppServiceService.createService input)
  createDomain : ∀ input, P _ (DomainService.createDomain input)
  triggerDeploy : ∀ executor serviceId, E .deploy executor serviceId →
    P _ (DeploymentService.triggerDeploy x config executor serviceId)
  restartService : ∀ executor serviceId, E .restart executor serviceId →
    P _ (DeploymentService.restartService x executor serviceId)
  createTemplate : ∀ input, P _ (WorkspaceTemplateService.createTemplate input)
  createWorkspacesFromTemplate : ∀ input,
    P _ (WorkspaceTemplateService.createWorkspacesFromTemplate input)
  createCredential : ∀ input, P _ (CredentialService.createCredential x config.secretKey input)
  createEnvVar : ∀ input, P _ (CredentialService.createEnvVar x config.secretKey input)
  createEnvVars : ∀ inputs, P _ (CredentialService.createEnvVars x config.secretKey inputs)
  createServer : ∀ payload, P _ (ServerService.createServer x config.secretKey payload)
  login : ∀ input, P _ (AuthService.login x config input)
  inviteUser : ∀ input, P _ (AuthService.inviteUser x config input)
  acceptInvite : ∀ input, P _ (AuthService.acceptInvite x config input)
  refreshSession : ∀ input, P _ (AuthService.refreshSession x config input)

/-- The other operations that write. -/
structure UpdatersSatisfy (P : (α : Type) → Service α → Prop) (x : Ext) (config : Config) :
    Prop where
  bootstrapAdmin : P _ (AuthService.bootstrapAdmin x config)
  createApiToken : ∀ input, P _ (AuthService.createApiToken x input)
  revokeApiToken : ∀ user id, P _ (AuthService.revokeApiToken x user id)
  authenticateBearer : ∀ token, P _ (AuthService.authenticateBearer x config token)
  logout : ∀ input, P _ (AuthService.logout x config input)
  disableUser : ∀ id, P _ (AuthService.disableUser id)
  reactivateUser : ∀ id, P _ (AuthService.reactivateUser id)
  changeUserRole : ∀ input, P _ (AuthService.changeUserRole input)
  checkServer : ∀ id, P _ (ServerService.checkServer x config.secretKey id)
  checkAllServers : P _ (ServerService.checkAllServers x config.secretKey)

namespace Composes

variable {P : (α : Type) → Service α → Prop} {E : ServiceCommand → DeployExecutor → Uuid → Prop}
  {x : Ext} {config : Config} (hP : Composes P) (hc : CreatorsSatisfy P E x config)

include hP hc

theorem create {call : CreateCall}
    (hE : ∀ command executor id, (Task.create call).Commands command executor id →
      E command executor id) : P _ (call.serve x config) := by
  cases call with
  | createWorkspace name description => exact hP.map (hc.createWorkspace name description) _
  | createEnvironment workspaceId name => exact hP.map (hc.createEnvironment workspaceId name) _
  | createService input => exact hP.map (hc.createService input) _
  | createDomain input => exact hP.map (hc.createDomain input) _
  | triggerDeploy executor serviceId =>
    exact hP.map (hc.triggerDeploy executor serviceId (hE _ _ _ (.deployCall ..))) _
  | restartService executor serviceId =>
    exact hP.map (hc.restartService executor serviceId (hE _ _ _ (.restartCall ..))) _
  | createTemplate input => exact hP.map (hc.createTemplate input) _
  | createWorkspacesFromTemplate input => exact hP.map (hc.createWorkspacesFromTemplate input) _
  | createCredential input => exact hP.map (hc.createCredential input) _
  | createEnvVar input => exact hP.map (hc.createEnvVar input) _
  | createEnvVars inputs => exact hP.map (hc.createEnvVars inputs) _
  | createServer payload => exact hP.map (hc.createServer payload) _
  | login input => exact hP.map (hc.login input) _
  | inviteUser input => exact hP.map (hc.inviteUser input) _
  | acceptInvite input => exact hP.map (hc.acceptInvite input) _
  | refreshSession input => exact hP.map (hc.refreshSession input) _

variable (hu : UpdatersSatisfy P x config)

include hu

theorem handleAny {route : UserRoute}
    (hdeploy : ∀ id, route = .triggerDeploy id → E .deploy previewExecutor id)
    (hrestart : ∀ id, route = .restartService id → E .restart previewExecutor id) (user : User) :
    P _ (route.handle x config user) :=
  hP.handle {
    createApiToken := fun _ => hu.createApiToken _
    revokeApiToken := hu.revokeApiToken user
    createServer := fun payload _ => hc.createServer payload
    checkServer := fun id _ => hu.checkServer id
    createWorkspace := fun name description _ => hc.createWorkspace name description
    createEnvironment := fun workspaceId name _ => hc.createEnvironment workspaceId name
    createService := fun input _ => hc.createService input
    createCredential := fun input _ => hc.createCredential input
    createEnvVar := fun input _ => hc.createEnvVar input
    createEnvVars := fun inputs _ => hc.createEnvVars inputs
    createDomain := hc.createDomain
    triggerDeploy := fun serviceId h => hc.triggerDeploy _ serviceId (hdeploy serviceId h)
    restartService := fun serviceId h => hc.restartService _ serviceId (hrestart serviceId h)
    createTemplate := fun input _ => hc.createTemplate input
    createWorkspacesFromTemplate := fun input _ => hc.createWorkspacesFromTemplate input
    inviteUser := fun input _ => hc.inviteUser input
    disableUser := fun id _ => hu.disableUser id
    reactivateUser := fun id _ => hu.reactivateUser id
    changeUserRole := fun input _ => hu.changeUserRole input }

/-- **Tasks.** What all operations that write satisfy, every task does. -/
theorem task {t : Task} (hE : ∀ command executor id, t.Commands command executor id →
    E command executor id) : P _ (t.serve x config) := by
  cases t with
  | job j =>
    refine hP.job hu.bootstrapAdmin ⟨hc.login, hc.refreshSession, hu.logout, hc.acceptInvite⟩
      hu.authenticateBearer (fun authorization route hjob user => ?_) hu.checkAllServers
    subst hjob
    refine hP.handleAny hc hu (fun id h => ?_) (fun id h => ?_) user
    · subst h
      exact hE _ _ _ (.deployRequest authorization id)
    · subst h
      exact hE _ _ _ (.restartRequest authorization id)
  | create call => exact hP.map (hP.create hc hE) _

end Composes

end Wara
