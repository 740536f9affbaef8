import Wara.Auth.Service
import Wara.Platform.Secrets

/-!
# The HTTP routes

`backend/src/routes`: every route with its path parameters and its body, and one
handler for each. A route is open to anyone, or its handler gets the user that
the `CurrentUser` extractor found; a body is validated after the extractors and
before the handler. What a response serialises is an `ApiReply`; a body that
does not validate is answered with `rejected`, a text about the body alone.
-/

namespace Wara

open Interleave Service Docker AuthService WorkspaceService AppServiceService DomainService
  DeploymentService WorkspaceTemplateService CredentialService ServerService

/-! ## Bodies -/

/-- `validate(length(min, max))` of a string counts characters. -/
def lengthIn (s : String) (min max : Nat) : Bool :=
  min ≤ s.toList.length && s.toList.length ≤ max

def lengthMin (s : String) (min : Nat) : Bool := min ≤ s.toList.length

/-- A check of an optional field. -/
def ifSome {α : Type} (check : α → Bool) (o : Option α) : Bool := o.all check

structure LoginRequest where
  email : String
  password : String
  deriving DecidableEq, Repr

def LoginRequest.valid (x : Ext) (r : LoginRequest) : Bool :=
  x.validateEmail r.email && lengthMin r.password 1

structure RefreshSessionRequest where
  refreshToken : String
  deriving DecidableEq, Repr

def RefreshSessionRequest.valid (r : RefreshSessionRequest) : Bool := lengthMin r.refreshToken 1

structure LogoutRequest where
  refreshToken : String
  deriving DecidableEq, Repr

def LogoutRequest.valid (r : LogoutRequest) : Bool := lengthMin r.refreshToken 1

structure AcceptInviteRequest where
  token : String
  password : String
  deriving DecidableEq, Repr

def AcceptInviteRequest.valid (r : AcceptInviteRequest) : Bool :=
  lengthMin r.token 1 && lengthMin r.password 8

structure CreateApiTokenRequest where
  name : String
  deriving DecidableEq, Repr

def CreateApiTokenRequest.valid (r : CreateApiTokenRequest) : Bool := lengthIn r.name 1 120

structure CreateServerRequest where
  name : String
  host : String
  port : Option UInt16
  username : String
  publicKey : String
  privateKey : String
  privateKeyPassphrase : Option String
  defaultProxy : Option ProxyKind
  deriving DecidableEq, Repr

def CreateServerRequest.valid (r : CreateServerRequest) : Bool :=
  lengthIn r.name 1 120 && lengthIn r.host 1 253 && ifSome (1 ≤ ·) r.port &&
    lengthIn r.username 1 64 && lengthMin r.publicKey 1 && lengthMin r.privateKey 1 &&
    ifSome (lengthMin · 1) r.privateKeyPassphrase

def CreateServerInput.from (r : CreateServerRequest) : CreateServerInput :=
  ⟨r.name, r.host, r.port, r.username, r.publicKey, r.privateKey, r.privateKeyPassphrase,
    r.defaultProxy⟩

structure CreateWorkspaceRequest where
  name : String
  description : Option String
  deriving DecidableEq, Repr

def CreateWorkspaceRequest.valid (r : CreateWorkspaceRequest) : Bool :=
  lengthIn r.name 1 120 && ifSome (lengthIn · 0 500) r.description

structure CreateEnvironmentRequest where
  name : String
  deriving DecidableEq, Repr

def CreateEnvironmentRequest.valid (r : CreateEnvironmentRequest) : Bool := lengthIn r.name 1 80

structure CreateServiceRequest where
  environmentId : Uuid
  name : String
  deployKind : DeployKind
  image : Option String
  composeFile : Option String
  dockerfile : Option String
  internalPort : Option UInt16
  deriving DecidableEq, Repr

def CreateServiceRequest.valid (r : CreateServiceRequest) : Bool :=
  lengthIn r.name 1 120 && ifSome (lengthMin · 1) r.image && ifSome (lengthMin · 1) r.composeFile &&
    ifSome (lengthMin · 1) r.dockerfile && ifSome (1 ≤ ·) r.internalPort

structure CreateCredentialRequest where
  registry : String
  username : String
  password : String
  deriving DecidableEq, Repr

def CreateCredentialRequest.valid (r : CreateCredentialRequest) : Bool :=
  lengthIn r.registry 1 253 && lengthMin r.username 1 && lengthMin r.password 1

structure CreateEnvVarRequest where
  environmentId : Option Uuid
  serviceId : Option Uuid
  key : String
  value : String
  deriving DecidableEq, Repr

def CreateEnvVarRequest.valid (r : CreateEnvVarRequest) : Bool :=
  lengthIn r.key 1 255 && lengthMin r.value 1

def CreateEnvVarRequest.toInput (workspaceId : Uuid) (r : CreateEnvVarRequest) :
    CreateEnvVarInput :=
  ⟨workspaceId, r.environmentId, r.serviceId, r.key, r.value⟩

structure CreateEnvVarsRequest where
  envVars : List CreateEnvVarRequest
  deriving DecidableEq, Repr

def CreateEnvVarsRequest.valid (r : CreateEnvVarsRequest) : Bool :=
  1 ≤ r.envVars.length && r.envVars.length ≤ 100 && r.envVars.all CreateEnvVarRequest.valid

structure CreateDomainRequest where
  hostname : String
  proxy : Option ProxyKind
  tlsEnabled : Option Bool
  deriving DecidableEq, Repr

def CreateDomainRequest.valid (r : CreateDomainRequest) : Bool := lengthIn r.hostname 1 253

structure CreateTemplateRequest where
  name : String
  description : Option String
  deriving DecidableEq, Repr

def CreateTemplateRequest.valid (r : CreateTemplateRequest) : Bool :=
  lengthIn r.name 1 120 && ifSome (lengthIn · 0 500) r.description

structure CreateWorkspacesFromTemplateRequest where
  names : List String
  secretCopyMode : SecretCopyMode
  deriving DecidableEq, Repr

def CreateWorkspacesFromTemplateRequest.valid (r : CreateWorkspacesFromTemplateRequest) : Bool :=
  1 ≤ r.names.length && r.names.length ≤ 100

structure TelemetrySettings where
  enabled : Bool
  serviceName : String
  otlpEndpoint : Option String
  platformOnly : Bool
  deriving DecidableEq, Repr

def TelemetrySettings.valid (x : Ext) (r : TelemetrySettings) : Bool :=
  lengthIn r.serviceName 1 120 && ifSome x.validateUrl r.otlpEndpoint

structure InviteUserRequest where
  workspaceId : Uuid
  email : String
  name : String
  role : Role
  deriving DecidableEq, Repr

def InviteUserRequest.valid (x : Ext) (r : InviteUserRequest) : Bool :=
  x.validateEmail r.email && lengthIn r.name 1 120

structure ChangeUserRoleRequest where
  role : Role
  deriving DecidableEq, Repr

/-! ## Routes -/

inductive PublicRoute where
  | jwks
  | login (payload : LoginRequest)
  | refreshSession (payload : RefreshSessionRequest)
  | logout (payload : LogoutRequest)
  | acceptInvite (payload : AcceptInviteRequest)
  deriving DecidableEq, Repr

inductive UserRoute where
  | me
  | listApiTokens
  | createApiToken (payload : CreateApiTokenRequest)
  | revokeApiToken (id : Uuid)
  | listServers
  | createServer (payload : CreateServerRequest)
  | getServer (id : Uuid)
  | checkServer (id : Uuid)
  | listWorkspaces
  | createWorkspace (payload : CreateWorkspaceRequest)
  | getWorkspace (id : Uuid)
  | listEnvironments (workspaceId : Uuid)
  | createEnvironment (workspaceId : Uuid) (payload : CreateEnvironmentRequest)
  | listServices (workspaceId : Uuid)
  | createService (workspaceId : Uuid) (payload : CreateServiceRequest)
  | getService (id : Uuid)
  | listCredentials (workspaceId : Uuid)
  | createCredential (workspaceId : Uuid) (payload : CreateCredentialRequest)
  | listEnvVars (workspaceId : Uuid)
  | createEnvVar (workspaceId : Uuid) (payload : CreateEnvVarRequest)
  | createEnvVars (workspaceId : Uuid) (payload : CreateEnvVarsRequest)
  | listDomains (serviceId : Uuid)
  | createDomain (serviceId : Uuid) (payload : CreateDomainRequest)
  | previewProxy (id : Uuid)
  | listDeployments (serviceId : Uuid)
  | triggerDeploy (serviceId : Uuid)
  | getDeployment (id : Uuid)
  | restartService (serviceId : Uuid)
  | serviceLogs (serviceId : Uuid)
  | listWorkspaceTemplates (workspaceId : Uuid)
  | createTemplate (workspaceId : Uuid) (payload : CreateTemplateRequest)
  | createWorkspacesFromTemplate (id : Uuid) (payload : CreateWorkspacesFromTemplateRequest)
  | getSettings
  | updateSettings (payload : TelemetrySettings)
  | listUsers
  | inviteUser (payload : InviteUserRequest)
  | disableUser (id : Uuid)
  | reactivateUser (id : Uuid)
  | changeUserRole (id : Uuid) (payload : ChangeUserRoleRequest)
  deriving DecidableEq, Repr

/-- A request, with the `authorization` header where the handler looks at it. -/
inductive ApiRequest where
  | anyone (route : PublicRoute)
  | user (authorization : Option String) (route : UserRoute)
  deriving DecidableEq, Repr

/-! ## Replies -/

structure ApiTokenResponse where
  id : Uuid
  name : String
  tokenPrefix : String
  createdAt : String
  revokedAt : Option String
  lastUsedAt : Option String
  deriving DecidableEq, Repr

def ApiTokenResponse.from (token : UserApiTokenRecord) : ApiTokenResponse :=
  ⟨token.id, token.name, token.tokenPrefix, token.createdAt, token.revokedAt, token.lastUsedAt⟩

/-- What `Server` serialises: everything but the encrypted key and passphrase. -/
structure ServerResponse where
  id : Uuid
  name : String
  host : String
  port : UInt16
  username : String
  publicKey : String
  privateKeyFingerprint : String
  defaultProxy : ProxyKind
  dockerStatus : String
  dockerVersion : String
  lastCheckAt : String
  lastCheckError : String
  deriving DecidableEq, Repr

def Server.serialize (server : Server) : ServerResponse :=
  ⟨server.id, server.name, server.host, server.port, server.username, server.publicKey,
    server.privateKeyFingerprint, server.defaultProxy, server.dockerStatus, server.dockerVersion,
    server.lastCheckAt, server.lastCheckError⟩

inductive ApiReply where
  | rejected
  | noContent
  | jwks (keys : List JwtPublicKey)
  | session (output : LoginOutput)
  | user (user : User)
  | users (users : List User)
  | invited (output : InviteUserOutput)
  | apiTokens (tokens : List ApiTokenResponse)
  | apiTokenCreated (token : String) (apiToken : ApiTokenResponse)
  | apiToken (token : ApiTokenResponse)
  | servers (servers : List ServerResponse)
  | server (server : ServerResponse)
  | serverCheck (check : ServerCheckResponse)
  | workspaces (workspaces : List Workspace)
  | workspace (workspace : Workspace)
  | environments (environments : List Environment)
  | environment (environment : Environment)
  | services (services : List AppService)
  | service (service : AppService)
  | credentials (credentials : List CredentialResponse)
  | credential (credential : CredentialResponse)
  | envVars (envVars : List EnvVarResponse)
  | envVar (envVar : EnvVarResponse)
  | domains (domains : List Domain)
  | domain (domain : Domain)
  | proxyPreview (config : String)
  | deployments (deployments : List Deployment)
  | deployment (deployment : Deployment)
  | logs (output : String)
  | templates (templates : List WorkspaceTemplate)
  | template (template : WorkspaceTemplate)
  | telemetry (settings : TelemetrySettings)
  deriving DecidableEq, Repr

/-! ## Handlers -/

/-- The handler runs on a body that validates. -/
def validated (valid : Bool) (y : Service ApiReply) : Service ApiReply :=
  if valid then y else pure .rejected

/-- `ensure_workspace_access` for the owner of a service. -/
def ensureServiceAccess (user : User) (serviceId : Uuid) : Service AppService := do
  let service ← AppServiceService.getService serviceId
  ensureWorkspaceAccess user service.workspaceId
  return service

section handlers

variable (x : Ext) (config : Config)

def PublicRoute.handle : PublicRoute → Service ApiReply
  | .jwks => .jwks <$> AuthService.jwks x
  | .login payload => validated (payload.valid x) do
    return .session (← AuthService.login x config ⟨payload.email, payload.password⟩)
  | .refreshSession payload => validated payload.valid do
    return .session (← AuthService.refreshSession x config ⟨payload.refreshToken⟩)
  | .logout payload => validated payload.valid do
    AuthService.logout x config ⟨payload.refreshToken⟩
    return .noContent
  | .acceptInvite payload => validated payload.valid do
    return .session (← AuthService.acceptInvite x config ⟨payload.token, payload.password⟩)

def logsPlaceholder : String :=
  "Platform-captured service log stream placeholder. Hosted app telemetry is not exported."

def UserRoute.handle (user : User) : UserRoute → Service ApiReply
  | .me => return .user user
  | .listApiTokens => do
    return .apiTokens ((← AuthService.listApiTokens user).map ApiTokenResponse.from)
  | .createApiToken payload => validated payload.valid do
    let output ← AuthService.createApiToken x ⟨user, payload.name⟩
    return .apiTokenCreated output.token (ApiTokenResponse.from output.apiToken)
  | .revokeApiToken id => do
    return .apiToken (ApiTokenResponse.from (← AuthService.revokeApiToken x user id))
  | .listServers => do
    ensureSuperAdmin user
    return .servers ((← ServerService.listServers).map Server.serialize)
  | .createServer payload => validated payload.valid do
    ensureSuperAdmin user
    return .server (← ServerService.createServer x config.secretKey (.from payload)).serialize
  | .getServer id => do
    ensureSuperAdmin user
    return .server (← ServerService.getServer id).serialize
  | .checkServer id => do
    ensureSuperAdmin user
    return .serverCheck (← ServerService.checkServer x config.secretKey id)
  | .listWorkspaces => return .workspaces (← listAccessibleWorkspaces user)
  | .createWorkspace payload => validated payload.valid do
    ensureSuperAdmin user
    return .workspace (← WorkspaceService.createWorkspace payload.name payload.description)
  | .getWorkspace id => do
    ensureWorkspaceAccess user id
    return .workspace (← WorkspaceService.getWorkspace id)
  | .listEnvironments workspaceId => do
    ensureWorkspaceAccess user workspaceId
    return .environments (← WorkspaceService.listEnvironments workspaceId)
  | .createEnvironment workspaceId payload => validated payload.valid do
    ensureWorkspaceAccess user workspaceId
    return .environment (← WorkspaceService.createEnvironment workspaceId payload.name)
  | .listServices workspaceId => do
    ensureWorkspaceAccess user workspaceId
    return .services (← AppServiceService.listServices workspaceId)
  | .createService workspaceId payload => validated payload.valid do
    ensureWorkspaceAccess user workspaceId
    return .service (← AppServiceService.createService ⟨workspaceId, payload.environmentId,
      payload.name, payload.deployKind, payload.image, payload.composeFile, payload.dockerfile,
      payload.internalPort⟩)
  | .getService id => return .service (← ensureServiceAccess user id)
  | .listCredentials workspaceId => do
    ensureWorkspaceAccess user workspaceId
    return .credentials (← CredentialService.listCredentials workspaceId)
  | .createCredential workspaceId payload => validated payload.valid do
    ensureWorkspaceAccess user workspaceId
    return .credential (← CredentialService.createCredential x config.secretKey ⟨workspaceId,
      payload.registry, payload.username, payload.password⟩)
  | .listEnvVars workspaceId => do
    ensureWorkspaceAccess user workspaceId
    return .envVars (← CredentialService.listEnvVars workspaceId)
  | .createEnvVar workspaceId payload => validated payload.valid do
    ensureWorkspaceAccess user workspaceId
    return .envVar (← CredentialService.createEnvVar x config.secretKey
      (payload.toInput workspaceId))
  | .createEnvVars workspaceId payload => validated payload.valid do
    ensureWorkspaceAccess user workspaceId
    return .envVars (← CredentialService.createEnvVars x config.secretKey
      (payload.envVars.map (CreateEnvVarRequest.toInput workspaceId)))
  | .listDomains serviceId => do
    let _ ← ensureServiceAccess user serviceId
    return .domains (← DomainService.listDomains serviceId)
  | .createDomain serviceId payload => validated payload.valid do
    let _ ← ensureServiceAccess user serviceId
    return .domain (← DomainService.createDomain ⟨serviceId, payload.hostname, payload.proxy,
      payload.tlsEnabled⟩)
  | .previewProxy id => do
    let domain ← DomainService.getDomain id
    let _ ← ensureServiceAccess user domain.serviceId
    return .proxyPreview (generateConfig x domain "127.0.0.1:8080")
  | .listDeployments serviceId => do
    let _ ← ensureServiceAccess user serviceId
    return .deployments (← DeploymentService.listDeployments x serviceId)
  | .triggerDeploy serviceId => do
    let _ ← ensureServiceAccess user serviceId
    return .deployment (← DeploymentService.triggerDeploy x config previewExecutor serviceId)
  | .getDeployment id => do
    let deployment ← DeploymentService.getDeployment x id
    let _ ← ensureServiceAccess user deployment.serviceId
    return .deployment deployment
  | .restartService serviceId => do
    let _ ← ensureServiceAccess user serviceId
    return .deployment (← DeploymentService.restartService x previewExecutor serviceId)
  | .serviceLogs serviceId => do
    let _ ← ensureServiceAccess user serviceId
    return .logs logsPlaceholder
  | .listWorkspaceTemplates workspaceId => do
    ensureWorkspaceAccess user workspaceId
    return .templates (← WorkspaceTemplateService.listWorkspaceTemplates workspaceId)
  | .createTemplate workspaceId payload => validated payload.valid do
    ensureWorkspaceAccess user workspaceId
    return .template (← WorkspaceTemplateService.createTemplate ⟨workspaceId, payload.name,
      payload.description⟩)
  | .createWorkspacesFromTemplate id payload => validated payload.valid do
    ensureSuperAdmin user
    let template ← getTemplate id
    ensureWorkspaceAccess user template.sourceWorkspaceId
    return .workspaces (← WorkspaceTemplateService.createWorkspacesFromTemplate ⟨id, payload.names,
      payload.secretCopyMode⟩)
  | .getSettings => do
    ensureSuperAdmin user
    return .telemetry ⟨config.telemetryEnabled, config.otelServiceName,
      config.otelExporterOtlpEndpoint, true⟩
  | .updateSettings payload => do
    ensureSuperAdmin user
    validated (payload.valid x) do
      return .telemetry { payload with platformOnly := true }
  | .listUsers => do
    ensureSuperAdmin user
    return .users (← AuthService.listUsers)
  | .inviteUser payload => validated (payload.valid x) do
    return .invited (← AuthService.inviteUser x config ⟨user, payload.workspaceId, payload.email,
      payload.name, payload.role⟩)
  | .disableUser id => do
    ensureSuperAdmin user
    return .user (← AuthService.disableUser id)
  | .reactivateUser id => do
    ensureSuperAdmin user
    return .user (← AuthService.reactivateUser id)
  | .changeUserRole id payload => do
    ensureSuperAdmin user
    return .user (← AuthService.changeUserRole ⟨id, payload.role⟩)

/-- The `CurrentUser` extractor, which leaves a note of the user it hands over. -/
def extractUser (authorization : Option String) : Service User := do
  let user ← currentUser x config authorization
  Flow.call (Op.caller user)
  return user

def ApiRequest.serve : ApiRequest → Service ApiReply
  | .anyone route => route.handle x config
  | .user authorization route => do
    let user ← extractUser x config authorization
    route.handle x config user

end handlers

end Wara
