import Wara.Rust.Text
import Wara.Service.Monad

/-!
# The services of the platform

`backend/src/services`: workspaces, app services, domains, deployments and
workspace templates, one definition per function, in the namespaces of their
types.
-/

namespace Wara

open Interleave Service Docker

/-! ## Workspaces -/

namespace WorkspaceService

def listWorkspaces : Service (List Workspace) := query .workspaces .all

def getWorkspace (id : Uuid) : Service Workspace := do
  okOr (.notFound "workspace") (← first .workspaces (byId id))

def listAccessibleWorkspaces (user : User) : Service (List Workspace) := do
  if user.role = .superAdmin then
    listWorkspaces
  else
    let found ← user.workspaceRoles.mapM fun workspaceRole => do
      match ← attempt (getWorkspace workspaceRole.workspaceId) with
      | .ok workspace => return some workspace
      | .error (.notFound "workspace") => return none
      | .error error => throwApi error
    let workspaces := found.reduceOption.mergeSort fun left right => left.id ≤ right.id
    return Rust.dedupByKey (·.id) workspaces

def createWorkspace (name : String) (description : Option String) : Service Workspace := do
  transaction
  let workspace ← create (t := .workspaces) .transaction ⟨← nowV7, name, description⟩
  let environment ← create (t := .environments) .transaction ⟨← nowV7, workspace.id, "production"⟩
  commit [.insert .workspaces workspace, .insert .environments environment]
  return workspace

def listEnvironments (workspaceId : Uuid) : Service (List Environment) :=
  query .environments (.eq 1 (.uuid workspaceId))

def createEnvironment (workspaceId : Uuid) (name : String) : Service Environment := do
  let _ ← getWorkspace workspaceId
  create (t := .environments) .handle ⟨← nowV7, workspaceId, name⟩

end WorkspaceService

open WorkspaceService

/-! ## App services -/

structure CreateAppServiceInput where
  workspaceId : Uuid
  environmentId : Uuid
  name : String
  deployKind : DeployKind
  image : Option String
  composeFile : Option String
  dockerfile : Option String
  internalPort : Option UInt16
  deriving DecidableEq, Repr

namespace AppServiceService

def listServices (workspaceId : Uuid) : Service (List AppService) := do
  let records ← query .appServices (.eq 1 (.uuid workspaceId))
  return records.map AppService.from

/-- The environment is one of the workspace, or the call ends with `environment not found`. -/
def ensureEnvironment (workspaceId environmentId : Uuid) : Service Unit := do
  let environments ← listEnvironments workspaceId
  throwIf (¬ environments.any fun environment => environment.id = environmentId)
    (.notFound "environment")

def createService (input : CreateAppServiceInput) : Service AppService := do
  let _ ← getWorkspace input.workspaceId
  ensureEnvironment input.workspaceId input.environmentId
  let record ← create (t := .appServices) .handle ⟨← nowV7, input.workspaceId,
    input.environmentId, input.name, input.deployKind.asStr, input.image, input.composeFile,
    input.dockerfile, input.internalPort⟩
  return AppService.from record

def getService (id : Uuid) : Service AppService := do
  let record ← first .appServices (byId id)
  okOr (.notFound "service") (record.map AppService.from)

end AppServiceService

open AppServiceService

/-! ## Domains -/

structure CreateDomainInput where
  serviceId : Uuid
  hostname : String
  proxy : Option ProxyKind
  tlsEnabled : Option Bool
  deriving DecidableEq, Repr

namespace DomainService

def listDomains (serviceId : Uuid) : Service (List Domain) := do
  let records ← query .domains (.eq 1 (.uuid serviceId))
  return records.map Domain.from

def createDomain (input : CreateDomainInput) : Service Domain := do
  let _ ← getService input.serviceId
  let record ← create (t := .domains) .handle ⟨← nowV7, input.serviceId, input.hostname,
    (input.proxy.getD .nginx).asStr, input.tlsEnabled.getD true⟩
  return Domain.from record

def getDomain (id : Uuid) : Service Domain := do
  let record ← first .domains (byId id)
  okOr (.notFound "domain") (record.map Domain.from)

end DomainService

/-- `services/proxy.rs`. -/
def generateConfig (x : Ext) (domain : Domain) (upstream : String) : String :=
  match domain.proxy with
  | .nginx => "server \x7b\n    listen 80;\n    server_name " ++ domain.hostname ++
      ";\n\n    location / \x7b\n        proxy_pass http://" ++ upstream ++
      ";\n        proxy_set_header Host $host;\n        proxy_set_header X-Forwarded-Proto " ++
      "$scheme;\n    \x7d\n\x7d\n"
  | .traefik => "http:\n  routers:\n    " ++ x.uuidToString domain.id ++ ":\n      rule: Host(`" ++
      domain.hostname ++ "`)\n      service: " ++ x.uuidToString domain.serviceId ++
      "\n  services:\n    " ++ x.uuidToString domain.serviceId ++
      ":\n      loadBalancer:\n        servers:\n          - url: http://" ++ upstream ++ "\n"

/-! ## Deployments -/

structure CommandOutcome where
  command : String
  stdout : String
  stderr : String
  exitCode : Int
  deriving DecidableEq, Repr

structure DeployRun where
  outcomes : List CommandOutcome
  executed : Bool
  success : Bool
  deriving DecidableEq, Repr

def redactSecrets (text : String) (secrets : List String) : String :=
  secrets.foldl (fun redacted secret =>
    if secret.toList.isEmpty then redacted else Rust.replace redacted secret "[redacted]") text

def DeployRun.toOutput (run : DeployRun) (secrets : List String) : String :=
  let lines := run.outcomes.flatMap fun outcome =>
    let stdout := redactSecrets (Rust.trimEnd outcome.stdout) secrets
    let stderr := redactSecrets (Rust.trimEnd outcome.stderr) secrets
    ["$ " ++ outcome.command] ++ (if stdout.toList.isEmpty then [] else [stdout]) ++
      (if stderr.toList.isEmpty then [] else [stderr]) ++
      if run.executed then ["[exit " ++ toString outcome.exitCode ++ "]"] else []
  let lines := if run.executed then lines else lines ++ ["(preview — commands not executed)"]
  "\n".intercalate lines

/-- `dyn DeployExecutor`. -/
abbrev DeployExecutor := List RemoteCommand → Except WaraError DeployRun

def previewExecutor : DeployExecutor := fun commands =>
  .ok ⟨commands.map fun command => ⟨command.render, "", "", 0⟩, false, true⟩

def Docker.Refused.badRequest (x : Ext) (refused : Refused) : ApiError :=
  .badRequest (refused.message x.debugPrints)

def plannedCommands (x : Ext) (service : AppService) (config : Config) :
    Except ApiError (List RemoteCommand) := do
  (validateServiceName service.name).mapError (Refused.badRequest x)
  let dockerConfig : DockerCommandConfig := ⟨config.remoteServicesRoot, config.dockerfileContextDir⟩
  match service.deployKind with
  | .dockerImage =>
    let image := service.image.getD "missing-image"
    (validateImageReference image).mapError (Refused.badRequest x)
    return imageDeployCommands image service.name
  | .dockerCompose => return composeDeployCommands service.name dockerConfig
  | .dockerfile => return dockerfileDeployCommands service.name dockerConfig

/-- A time that does not parse reads as the present. -/
def Deployment.from (x : Ext) (record : DeploymentRecord) : Service Deployment := do
  let createdAt ← unwrapOrElse now (x.dateTimeFromStr record.createdAt)
  return ⟨record.id, record.serviceId, DeploymentStatus.from record.status, record.workflowId,
    record.output, createdAt⟩

def deployStatus (run : DeployRun) : DeploymentStatus :=
  if ¬ run.executed then .queued else if run.success then .succeeded else .failed

namespace DeploymentService

variable (x : Ext) (config : Config) (executor : DeployExecutor)

def listDeployments (serviceId : Uuid) : Service (List Deployment) := do
  let records ← query .deployments (.eq 1 (.uuid serviceId))
  records.mapM (Deployment.from x)

def getDeployment (id : Uuid) : Service Deployment := do
  let record ← okOr (.notFound "deployment") (← first .deployments (byId id))
  Deployment.from x record

def createDeployment (serviceId : Uuid) (status : DeploymentStatus) (output : String) :
    Service Deployment := do
  let id ← nowV7
  let workflowId := "workflow-" ++ x.uuidSimple (← nowV7)
  let createdAt ← now
  let record ← create (t := .deployments) .handle
    ⟨id, serviceId, status.asStr, workflowId, output, x.toRfc3339 createdAt⟩
  Deployment.from x record

def runAndRecord (serviceId : Uuid) (commands : List RemoteCommand) : Service Deployment := do
  let run ← orThrow ((executor commands).mapError fun error =>
    .internal ("deploy execution failed: " ++ error.toString))
  createDeployment x serviceId (deployStatus run) (run.toOutput [])

def triggerDeploy (serviceId : Uuid) : Service Deployment := do
  let service ← getService serviceId
  let commands ← orThrow (plannedCommands x service config)
  runAndRecord x executor serviceId commands

def restartService (serviceId : Uuid) : Service Deployment := do
  let service ← getService serviceId
  orThrow ((validateServiceName service.name).mapError (Refused.badRequest x))
  runAndRecord x executor serviceId [restartCommand service.name]

end DeploymentService

/-! ## Workspace templates -/

inductive SecretCopyMode where
  | copyEncrypted
  | rebind
  | empty
  deriving DecidableEq, Repr

structure CreateTemplateInput where
  workspaceId : Uuid
  name : String
  description : Option String
  deriving DecidableEq, Repr

structure CreateWorkspacesFromTemplateInput where
  templateId : Uuid
  names : List String
  secretCopyMode : SecretCopyMode
  deriving DecidableEq, Repr

namespace WorkspaceTemplateService

def listWorkspaceTemplates (workspaceId : Uuid) : Service (List WorkspaceTemplate) := do
  let records ← query .workspaceTemplates (.eq 1 (.uuid workspaceId))
  return records.map WorkspaceTemplate.from

def createTemplate (input : CreateTemplateInput) : Service WorkspaceTemplate := do
  let _ ← getWorkspace input.workspaceId
  let record ← create (t := .workspaceTemplates) .handle
    ⟨← nowV7, input.workspaceId, input.name, input.description⟩
  return WorkspaceTemplate.from record

def getTemplate (id : Uuid) : Service WorkspaceTemplate := do
  let record ← first .workspaceTemplates (byId id)
  okOr (.notFound "template") (record.map WorkspaceTemplate.from)

/-- The copy mode is only logged. -/
def createWorkspacesFromTemplate (input : CreateWorkspacesFromTemplateInput) :
    Service (List Workspace) := do
  let template ← getTemplate input.templateId
  input.names.mapM fun name => createWorkspace name template.description

end WorkspaceTemplateService

end Wara
