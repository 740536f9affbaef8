import Wara.Api.AtOnce
import Wara.Api.Coherence
import Wara.Platform.Records

/-!
# Replies are on record

What a reply tells is on record: it is read off rows that are stored, and that
stay. What a request made is as the request said. A list has nothing that is not
on record when the request has ended, and all that was when it began. So nothing
that a reply acknowledged is ever lost, or missing from a list asked for later.
-/

namespace Wara

open Interleave Store Service Docker AuthService WorkspaceService AppServiceService DomainService
  DeploymentService WorkspaceTemplateService CredentialService ServerService

/-! ## What a reply tells -/

/-- The API token of a row of the user. -/
def ApiTokenOf (userId : Uuid) (r : UserApiTokenRecord) (token : ApiTokenResponse) : Prop :=
  r.userId = userId ∧ ApiTokenResponse.from r = token

def ServerOf (r : ServerRecord) (server : ServerResponse) : Prop :=
  (Server.from r).serialize = server

section answers

variable (x : Ext) (config : Config)

/-- The body of the request validates, if it has one. -/
def UserRoute.valid : UserRoute → Bool
  | .createApiToken payload => payload.valid
  | .createServer payload => payload.valid
  | .createWorkspace payload => payload.valid
  | .createEnvironment _ payload => payload.valid
  | .createService _ payload => payload.valid
  | .createCredential _ payload => payload.valid
  | .createEnvVar _ payload => payload.valid
  | .createEnvVars _ payload => payload.valid
  | .createDomain _ payload => payload.valid
  | .createTemplate _ payload => payload.valid
  | .createWorkspacesFromTemplate _ payload => payload.valid
  | .updateSettings payload => payload.valid x
  | .inviteUser payload => payload.valid x
  | _ => true

def PublicRoute.valid : PublicRoute → Bool
  | .jwks => true
  | .login payload => payload.valid x
  | .refreshSession payload => payload.valid
  | .logout payload => payload.valid
  | .acceptInvite payload => payload.valid

/-- The reply to a request of the user: it ran in the time `D`, from `db₀` to `db`. -/
inductive Answers (user : User) (D : Db → Prop) (db₀ db : Db) : UserRoute → ApiReply → Prop
  | rejected {route : UserRoute} (h : route.valid x = false) : Answers user D db₀ db route .rejected
  | me (h : KnownUser D db user) : Answers user D db₀ db .me (.user user)
  | listApiTokens {tokens} (h : ReportsOn D db₀ db .userApiTokens
      (fun r : UserApiTokenRecord => r.userId = user.id) (ApiTokenResponse.from · = ·) tokens) :
      Answers user D db₀ db .listApiTokens (.apiTokens tokens)
  | createApiToken {payload token info} (hname : info.name = payload.name)
      (h : Told D db .userApiTokens (fun (r : UserApiTokenRecord) info => ApiTokenOf user.id r info ∧
        r.tokenHash = hashApiToken x token) info) :
      Answers user D db₀ db (.createApiToken payload) (.apiTokenCreated token info)
  | revokeApiToken {id info} (hid : info.id = id)
      (h : Told D db .userApiTokens (ApiTokenOf user.id) info) :
      Answers user D db₀ db (.revokeApiToken id) (.apiToken info)
  | listServers {servers} (h : ReportsOn D db₀ db .servers (fun _ => True) ServerOf servers) :
      Answers user D db₀ db .listServers (.servers servers)
  | createServer {payload : CreateServerRequest} {server : ServerResponse}
      (hmade : server = ⟨server.id, payload.name, payload.host, payload.port.getD 22,
        payload.username, payload.publicKey, fingerprintPublicKey x payload.publicKey,
        payload.defaultProxy.getD .nginx, "unchecked", "", "", ""⟩)
      (h : Told D db .servers ServerOf server) :
      Answers user D db₀ db (.createServer payload) (.server server)
  | getServer {id} {server : ServerResponse} (hid : server.id = id)
      (h : Told D db .servers ServerOf server) : Answers user D db₀ db (.getServer id) (.server server)
  | checkServer {id} {check : ServerCheckResponse} (hid : check.serverId = id)
      (h : Told D db .servers CheckOf check) :
      Answers user D db₀ db (.checkServer id) (.serverCheck check)
  | listWorkspaces {workspaces} (h : ReportsOn D db₀ db .workspaces
      (fun w : Workspace => canAccessWorkspace user w.id = true) Eq workspaces) :
      Answers user D db₀ db .listWorkspaces (.workspaces workspaces)
  | createWorkspace {payload : CreateWorkspaceRequest} {w}
      (h : MadeWorkspace D db payload.name payload.description w) :
      Answers user D db₀ db (.createWorkspace payload) (.workspace w)
  | getWorkspace {id} {w : Workspace} (hid : w.id = id) (h : Recorded D db .workspaces w) :
      Answers user D db₀ db (.getWorkspace id) (.workspace w)
  | listEnvironments {workspaceId environments} (h : ReportsOn D db₀ db .environments
      (fun e : Environment => e.workspaceId = workspaceId) Eq environments) :
      Answers user D db₀ db (.listEnvironments workspaceId) (.environments environments)
  | createEnvironment {workspaceId id} {payload : CreateEnvironmentRequest}
      (h : Recorded D db .environments (⟨id, workspaceId, payload.name⟩ : Environment)) :
      Answers user D db₀ db (.createEnvironment workspaceId payload)
        (.environment ⟨id, workspaceId, payload.name⟩)
  | listServices {workspaceId services} (h : ReportsOn D db₀ db .appServices
      (fun r : AppServiceRecord => r.workspaceId = workspaceId) (AppService.from · = ·) services) :
      Answers user D db₀ db (.listServices workspaceId) (.services services)
  | createService {workspaceId} {payload : CreateServiceRequest} {service : AppService}
      (hmade : service = ⟨service.id, workspaceId, payload.environmentId, payload.name,
        payload.deployKind, payload.image, payload.composeFile, payload.dockerfile,
        payload.internalPort⟩)
      (h : Told D db .appServices (AppService.from · = ·) service) :
      Answers user D db₀ db (.createService workspaceId payload) (.service service)
  | getService {id} {service : AppService} (hid : service.id = id)
      (h : Told D db .appServices (AppService.from · = ·) service) :
      Answers user D db₀ db (.getService id) (.service service)
  | listCredentials {workspaceId credentials} (h : ReportsOn D db₀ db .dockerCredentials
      (fun r : DockerCredentialRecord => r.workspaceId = workspaceId) (credentialResponse · = ·)
      credentials) : Answers user D db₀ db (.listCredentials workspaceId) (.credentials credentials)
  | createCredential {workspaceId} {payload : CreateCredentialRequest}
      {credential : CredentialResponse}
      (hmade : credential = ⟨credential.id, workspaceId, payload.registry, payload.username,
        redact "secret"⟩)
      (h : Told D db .dockerCredentials (credentialResponse · = ·) credential) :
      Answers user D db₀ db (.createCredential workspaceId payload) (.credential credential)
  | listEnvVars {workspaceId envVars} (h : ReportsOn D db₀ db .envVars
      (fun r : EnvVarRecord => r.workspaceId = workspaceId) (envVarResponse · = ·) envVars) :
      Answers user D db₀ db (.listEnvVars workspaceId) (.envVars envVars)
  | createEnvVar {workspaceId} {payload : CreateEnvVarRequest} {envVar}
      (h : MadeEnvVar D db (payload.toInput workspaceId) envVar) :
      Answers user D db₀ db (.createEnvVar workspaceId payload) (.envVar envVar)
  | createEnvVars {workspaceId} {payload : CreateEnvVarsRequest} {envVars}
      (h : List.Forall₂ (fun r envVar => MadeEnvVar D db (CreateEnvVarRequest.toInput workspaceId r)
        envVar) payload.envVars envVars) :
      Answers user D db₀ db (.createEnvVars workspaceId payload) (.envVars envVars)
  | listDomains {serviceId domains} (h : ReportsOn D db₀ db .domains
      (fun r : DomainRecord => r.serviceId = serviceId) (Domain.from · = ·) domains) :
      Answers user D db₀ db (.listDomains serviceId) (.domains domains)
  | createDomain {serviceId} {payload : CreateDomainRequest} {domain : Domain}
      (hmade : domain = ⟨domain.id, serviceId, payload.hostname, payload.proxy.getD .nginx,
        payload.tlsEnabled.getD true⟩)
      (h : Told D db .domains (Domain.from · = ·) domain) :
      Answers user D db₀ db (.createDomain serviceId payload) (.domain domain)
  | previewProxy {id} {domain : Domain} (hid : domain.id = id)
      (h : Told D db .domains (Domain.from · = ·) domain) :
      Answers user D db₀ db (.previewProxy id)
        (.proxyPreview (generateConfig x domain "127.0.0.1:8080"))
  | listDeployments {serviceId deployments} (h : ReportsOn D db₀ db .deployments
      (fun r : DeploymentRecord => r.serviceId = serviceId) (DeploymentOf x) deployments) :
      Answers user D db₀ db (.listDeployments serviceId) (.deployments deployments)
  | triggerDeploy {serviceId} {deployment : Deployment}
      (hservice : deployment.serviceId = serviceId)
      (h : Told D db .deployments (DeploymentOf x) deployment) :
      Answers user D db₀ db (.triggerDeploy serviceId) (.deployment deployment)
  | getDeployment {id} {deployment : Deployment} (hid : deployment.id = id)
      (h : Told D db .deployments (DeploymentOf x) deployment) :
      Answers user D db₀ db (.getDeployment id) (.deployment deployment)
  | restartService {serviceId} {deployment : Deployment}
      (hservice : deployment.serviceId = serviceId)
      (h : Told D db .deployments (DeploymentOf x) deployment) :
      Answers user D db₀ db (.restartService serviceId) (.deployment deployment)
  | serviceLogs {serviceId} (h : Told D db .appServices
      (fun (r : AppServiceRecord) id => r.id = id) serviceId) :
      Answers user D db₀ db (.serviceLogs serviceId) (.logs logsPlaceholder)
  | listWorkspaceTemplates {workspaceId templates} (h : ReportsOn D db₀ db .workspaceTemplates
      (fun r : WorkspaceTemplateRecord => r.sourceWorkspaceId = workspaceId)
      (WorkspaceTemplate.from · = ·) templates) :
      Answers user D db₀ db (.listWorkspaceTemplates workspaceId) (.templates templates)
  | createTemplate {workspaceId} {payload : CreateTemplateRequest} {template : WorkspaceTemplate}
      (hmade : template = ⟨template.id, workspaceId, payload.name, payload.description⟩)
      (h : Told D db .workspaceTemplates (WorkspaceTemplate.from · = ·) template) :
      Answers user D db₀ db (.createTemplate workspaceId payload) (.template template)
  | createWorkspacesFromTemplate {id} {payload : CreateWorkspacesFromTemplateRequest}
      {template : WorkspaceTemplate} {workspaces} (hid : template.id = id)
      (h : Told D db .workspaceTemplates (WorkspaceTemplate.from · = ·) template)
      (hmade : List.Forall₂ (fun name w => MadeWorkspace D db name template.description w)
        payload.names workspaces) :
      Answers user D db₀ db (.createWorkspacesFromTemplate id payload) (.workspaces workspaces)
  | getSettings : Answers user D db₀ db .getSettings (.telemetry ⟨config.telemetryEnabled,
      config.otelServiceName, config.otelExporterOtlpEndpoint, true⟩)
  | updateSettings {payload : TelemetrySettings} :
      Answers user D db₀ db (.updateSettings payload)
        (.telemetry { payload with platformOnly := true })
  | listUsers {users} (h : ReportsOn D db₀ db .users (fun _ => True) (UserOf D db) users) :
      Answers user D db₀ db .listUsers (.users users)
  | inviteUser {payload : InviteUserRequest} {output} (h : Invited D x config db
      ⟨user, payload.workspaceId, payload.email, payload.name, payload.role⟩ output) :
      Answers user D db₀ db (.inviteUser payload) (.invited output)
  | disableUser {id} {changed : User} (hid : changed.id = id) (h : KnownUser D db changed) :
      Answers user D db₀ db (.disableUser id) (.user changed)
  | reactivateUser {id} {changed : User} (hid : changed.id = id) (h : KnownUser D db changed) :
      Answers user D db₀ db (.reactivateUser id) (.user changed)
  | changeUserRole {id payload} {changed : User} (hid : changed.id = id)
      (h : KnownUser D db changed) :
      Answers user D db₀ db (.changeUserRole id payload) (.user changed)

/-- The reply to a request of anyone. -/
inductive AnswersAnyone (D : Db → Prop) (db₀ db : Db) : PublicRoute → ApiReply → Prop
  | rejected {route : PublicRoute} (h : route.valid x = false) :
      AnswersAnyone D db₀ db route .rejected
  | jwks {keys} (h : ReportsOn D db₀ db .jwtPublicKeys (fun _ => True) (KeyOf x) keys) :
      AnswersAnyone D db₀ db .jwks (.jwks keys)
  | login {payload : LoginRequest} {output : LoginOutput}
      (hemail : output.user.email = payload.email)
      (h : KnownUser D db output.user) : AnswersAnyone D db₀ db (.login payload) (.session output)
  | refreshSession {payload} {output : LoginOutput} (h : KnownUser D db output.user) :
      AnswersAnyone D db₀ db (.refreshSession payload) (.session output)
  | logout {payload} : AnswersAnyone D db₀ db (.logout payload) .noContent
  | acceptInvite {payload} {output : LoginOutput} (h : KnownUser D db output.user) :
      AnswersAnyone D db₀ db (.acceptInvite payload) (.session output)

/-- The reply to the request, made for a user that was handed over. -/
def ApiRequest.Answered (handed : User → Prop) (D : Db → Prop) (db₀ db : Db) :
    ApiRequest → ApiReply → Prop
  | .anyone route, reply => AnswersAnyone x D db₀ db route reply
  | .user _ route, reply => ∃ user, handed user ∧ Answers x config user D db₀ db route reply

end answers

/-! ## Handlers -/

section handlers

variable {D : Db → Prop} {fires : Event Res World → Prop} {i : Nat} {x : Ext} {config : Config}
  {user : User} {s : World} {β : Type} {ok : β → Db → Prop}

theorem tells_validated {valid : Bool} {y : Service ApiReply} {told : ApiReply → Db → Prop}
    (hrejected : ∀ db, valid = false → told .rejected db) (h : Tells D fires i y told s) :
    Tells D fires i (validated valid y) told s := by
  unfold validated
  split
  · exact h
  · next hvalid => exact tells_pure fun db _ => hrejected db (Bool.not_eq_true _ ▸ hvalid)

theorem tells_superAdmin {f : Unit → Service β} (h : Tells D fires i (f ()) ok s) :
    Tells D fires i (ensureSuperAdmin user >>= f) ok s := by
  unfold ensureSuperAdmin
  split
  · exact h
  · exact tells_throwApi _

theorem tells_access {workspaceId : Uuid} {f : Unit → Service β} (h : Tells D fires i (f ()) ok s) :
    Tells D fires i (ensureWorkspaceAccess user workspaceId >>= f) ok s := by
  unfold ensureWorkspaceAccess
  split
  · exact h
  · exact tells_throwApi _

theorem tells_ensureServiceAccess {serviceId : Uuid} :
    Tells D fires i (ensureServiceAccess user serviceId) (fun service db =>
      ∃ r : AppServiceRecord, Recorded D db .appServices r ∧ r.id = serviceId ∧
        AppService.from r = service) s := by
  unfold ensureServiceAccess
  refine tells_bind tells_getService fun service s₁ _ h => tells_access (tells_pure fun db hdb => ?_)
  exact h db hdb

/-- The handler of a request that began at `db₀`. -/
theorem tells_handle {db₀ : Db} (h₀ : db₀.Later D s.db) (huser : KnownUser D s.db user)
    (route : UserRoute) : Tells D fires i (route.handle x config user)
      (fun reply db => Answers x config user D db₀ db route reply) s := by
  cases route with
  | me => exact tells_pure fun db hdb => .me (huser.mono hdb)
  | listApiTokens =>
    refine tells_return tells_listApiTokens fun tokens db _ h => .listApiTokens ?_
    exact (h.map _ fun r a he => congrArg ApiTokenResponse.from he).since h₀
  | createApiToken payload =>
    refine tells_validated (fun _ h => .rejected h) ?_
    refine tells_return tells_createApiToken fun output db _ h => ?_
    obtain ⟨hr, howner, hname, hhash⟩ := h
    exact .createApiToken hname ⟨output.apiToken, hr, ⟨howner, rfl⟩, hhash⟩
  | revokeApiToken id =>
    refine tells_return tells_revokeApiToken fun r db _ h => ?_
    obtain ⟨hr, hid, howner⟩ := h
    exact .revokeApiToken hid ⟨r, hr, howner, rfl⟩
  | listServers =>
    refine tells_superAdmin (tells_return tells_listServers fun servers db _ h => .listServers ?_)
    exact (h.map _ fun r a he => congrArg Server.serialize he).since h₀
  | createServer payload =>
    refine tells_validated (fun _ h => .rejected h) (tells_superAdmin ?_)
    refine tells_return tells_createServer fun server db _ h => ?_
    obtain ⟨⟨_, _, hmade⟩, r, hr, rfl⟩ := h
    exact .createServer (congrArg Server.serialize hmade) ⟨r, hr, rfl⟩
  | getServer id =>
    refine tells_superAdmin (tells_return tells_found fun server db _ h => ?_)
    obtain ⟨r, hr, hid, rfl⟩ := h
    exact .getServer (uuid_of_col hid) ⟨r, hr, rfl⟩
  | checkServer id =>
    refine tells_superAdmin (tells_return tells_checkServer fun check db _ h => ?_)
    exact .checkServer h.1 h.2
  | listWorkspaces =>
    exact tells_return tells_listAccessibleWorkspaces fun ws db _ h => .listWorkspaces (h.since h₀)
  | createWorkspace payload =>
    refine tells_validated (fun _ h => .rejected h) (tells_superAdmin ?_)
    exact tells_return tells_createWorkspace fun w db _ h => .createWorkspace h
  | getWorkspace id =>
    exact tells_access (tells_return tells_getWorkspace fun w db _ h => .getWorkspace h.2 h.1)
  | listEnvironments workspaceId =>
    refine tells_access (tells_return (tells_by (by decide)) fun es db _ h => .listEnvironments ?_)
    exact (h.congr fun e => uuid_col_iff).since h₀
  | createEnvironment workspaceId payload =>
    refine tells_validated (fun _ h => .rejected h) (tells_access ?_)
    refine tells_return tells_createEnvironment fun e db _ h => ?_
    obtain ⟨id, hr, rfl⟩ := h
    exact .createEnvironment hr
  | listServices workspaceId =>
    refine tells_access (tells_return (tells_listed (by decide) fun r => uuid_col_iff) ?_)
    exact fun services db _ h => .listServices (h.since h₀)
  | createService workspaceId payload =>
    refine tells_validated (fun _ h => .rejected h) (tells_access ?_)
    exact tells_return tells_createService fun service db _ h => .createService h.1 h.2
  | getService id =>
    refine tells_return tells_ensureServiceAccess fun service db _ h => ?_
    obtain ⟨r, hr, hid, rfl⟩ := h
    exact .getService hid ⟨r, hr, rfl⟩
  | listCredentials workspaceId =>
    refine tells_access (tells_return (tells_listed (by decide) fun r => uuid_col_iff) ?_)
    exact fun credentials db _ h => .listCredentials (h.since h₀)
  | createCredential workspaceId payload =>
    refine tells_validated (fun _ h => .rejected h) (tells_access ?_)
    exact tells_return tells_createCredential fun credential db _ h => .createCredential h.1 h.2
  | listEnvVars workspaceId =>
    refine tells_access (tells_return (tells_listed (by decide) fun r => uuid_col_iff) ?_)
    exact fun envVars db _ h => .listEnvVars (h.since h₀)
  | createEnvVar workspaceId payload =>
    refine tells_validated (fun _ h => .rejected h) (tells_access ?_)
    exact tells_return tells_createEnvVar fun envVar db _ h => .createEnvVar h
  | createEnvVars workspaceId payload =>
    refine tells_validated (fun _ h => .rejected h) (tells_access ?_)
    refine tells_return tells_createEnvVars fun envVars db _ h => .createEnvVars ?_
    exact List.forall₂_map_left_iff.mp h
  | listDomains serviceId =>
    refine tells_any fun _ s₁ h₁ => ?_
    refine tells_return (tells_listed (by decide) fun r => uuid_col_iff) fun domains db _ h => ?_
    exact .listDomains (h.since (Layout.Later.trans h₀ h₁))
  | createDomain serviceId payload =>
    refine tells_validated (fun _ h => .rejected h) (tells_any fun _ s₁ _ => ?_)
    exact tells_return tells_createDomain fun domain db _ h => .createDomain h.1 h.2
  | previewProxy id =>
    refine tells_bind tells_found fun domain s₁ _ hdomain => tells_any fun _ s₂ h₂ => ?_
    refine tells_pure fun db hdb => ?_
    obtain ⟨r, hr, hid, rfl⟩ := hdomain db (Layout.Later.trans h₂ hdb)
    exact .previewProxy (uuid_of_col hid) ⟨r, hr, rfl⟩
  | listDeployments serviceId =>
    refine tells_any fun _ s₁ h₁ => tells_return tells_listDeployments fun deployments db _ h => ?_
    exact .listDeployments (h.since (Layout.Later.trans h₀ h₁))
  | triggerDeploy serviceId =>
    refine tells_any fun _ s₁ _ => tells_return tells_triggerDeploy fun deployment db _ h => ?_
    exact .triggerDeploy h.1 h.2
  | getDeployment id =>
    refine tells_bind tells_getDeployment fun deployment s₁ _ h => tells_any fun _ s₂ h₂ => ?_
    refine tells_pure fun db hdb => ?_
    obtain ⟨hid, htold⟩ := h db (Layout.Later.trans h₂ hdb)
    exact .getDeployment hid htold
  | restartService serviceId =>
    refine tells_any fun _ s₁ _ => tells_return tells_restartService fun deployment db _ h => ?_
    exact .restartService h.1 h.2
  | serviceLogs serviceId =>
    refine tells_return tells_ensureServiceAccess fun service db _ h => ?_
    obtain ⟨r, hr, hid, -⟩ := h
    exact .serviceLogs ⟨r, hr, hid⟩
  | listWorkspaceTemplates workspaceId =>
    refine tells_access (tells_return (tells_listed (by decide) fun r => uuid_col_iff) ?_)
    exact fun templates db _ h => .listWorkspaceTemplates (h.since h₀)
  | createTemplate workspaceId payload =>
    refine tells_validated (fun _ h => .rejected h) (tells_access ?_)
    exact tells_return tells_createTemplate fun template db _ h => .createTemplate h.1 h.2
  | createWorkspacesFromTemplate id payload =>
    refine tells_validated (fun _ h => .rejected h) (tells_superAdmin (tells_any fun _ s₁ _ => ?_))
    refine tells_access (tells_return tells_createWorkspacesFromTemplate fun ws db _ h => ?_)
    obtain ⟨template, hid, htemplate, hmade⟩ := h
    exact .createWorkspacesFromTemplate hid htemplate hmade
  | getSettings => exact tells_superAdmin (tells_pure fun _ _ => .getSettings)
  | updateSettings payload =>
    refine tells_superAdmin (tells_validated (fun _ h => .rejected h) ?_)
    exact tells_pure fun _ _ => .updateSettings
  | listUsers =>
    exact tells_superAdmin (tells_return tells_listUsers fun users db _ h => .listUsers (h.since h₀))
  | inviteUser payload =>
    refine tells_validated (fun _ h => .rejected h) ?_
    exact tells_return tells_inviteUser fun output db _ h => .inviteUser h
  | disableUser id =>
    refine tells_superAdmin (tells_return tells_disableUser fun changed db _ h => ?_)
    exact .disableUser h.2 h.1
  | reactivateUser id =>
    refine tells_superAdmin (tells_return tells_reactivateUser fun changed db _ h => ?_)
    exact .reactivateUser h.2 h.1
  | changeUserRole id payload =>
    refine tells_superAdmin (tells_return tells_changeUserRole fun changed db _ h => ?_)
    exact .changeUserRole h.2 h.1

theorem tells_handleAnyone (route : PublicRoute) :
    Tells D fires i (route.handle x config)
      (fun reply db => AnswersAnyone x D s.db db route reply) s := by
  cases route with
  | jwks =>
    unfold PublicRoute.handle
    rw [← bind_pure_comp]
    exact tells_return tells_jwks fun keys db _ h => .jwks h
  | login payload =>
    refine tells_validated (fun _ h => .rejected h) ?_
    refine tells_return tells_login fun output db _ h => ?_
    exact .login h.2 h.1
  | refreshSession payload =>
    refine tells_validated (fun _ h => .rejected h) ?_
    exact tells_return tells_refreshSession fun output db _ h => .refreshSession h
  | logout payload =>
    refine tells_validated (fun _ h => .rejected h) ?_
    exact tells_any fun _ s₁ _ => tells_pure fun _ _ => .logout
  | acceptInvite payload =>
    refine tells_validated (fun _ h => .rejected h) ?_
    exact tells_return tells_acceptInvite fun output db _ h => .acceptInvite h

end handlers

/-! ## Runs -/

section runs

variable {x : Ext} {tasks : List (Config × Task)} {w : World} {P₁ P' : JobPool}
  {es₁ es : List (Event Res World)} {i : Nat} {config : Config}

/-- A database that the run passes: the first one, or the one after an event. -/
def Passes (P : JobPool) (es : List (Event Res World)) (db : Db) : Prop :=
  db = P.state.db ∨ ∃ e ∈ es, db = e.post.db

/-- The event hands over a user that is not among those that the pool has handed over. -/
def HandsOverOther (handed : User → Prop) (e : Event Res World) : Prop :=
  ∃ user, e.op = .caller user ∧ ¬ handed user

theorem tells_extractUser {D : Db → Prop} {handed : User → Prop} {s : World}
    (authorization : Option String) :
    Tells D (HandsOverOther handed) i (extractUser x config authorization)
      (fun user db => handed user ∧ KnownUser D db user) s := by
  unfold extractUser currentUser
  rw [bind_assoc]
  refine tells_okOr fun token _ => tells_bind tells_authenticateBearer fun user s₁ _ huser => ?_
  refine ⟨fun _ => ends_call fun s₂ h₂ r s₃ hstep => ⟨trivial, ?_⟩⟩
  have hhanded : handed user := by
    by_contra hnot
    exact hstep.2.2 ⟨user, rfl, hnot⟩
  exact ends_pure fun s₄ h₄ => ⟨hhanded, huser s₄.db (h₂.trans (hstep.2.1.trans h₄))⟩

theorem tells_serve {D : Db → Prop} {handed : User → Prop} {s : World} (q : ApiRequest) :
    Tells D (HandsOverOther handed) i (q.serve x config)
      (fun reply db => q.Answered x config handed D s.db db reply) s := by
  cases q with
  | anyone route => exact tells_handleAnyone route
  | user authorization route =>
    refine tells_bind (tells_extractUser authorization) fun user s₁ h₁ huser => ?_
    obtain ⟨hhanded, hknown⟩ := huser s₁.db (Layout.Later.refl _)
    exact (tells_handle h₁ hknown route).mono fun reply db _ h => ⟨user, hhanded, h⟩

/-- What the requests that have ended were told, and who they were for. -/
theorem answered_of_runs (hr₁ : Runs exec (TaskPool.of x tasks w) es₁ P₁) (hr : Runs exec P₁ es P')
    {q : ApiRequest} (hi : tasks[i]? = some (config, .job (.request q)))
    (hstart : ∀ e ∈ es₁, e.tid ≠ i) {reply : ApiReply}
    (hend : P'.threads[i]? = some (.ret (.ok (some reply)))) :
    q.Answered x config (fun user => ∃ e ∈ es, e.tid = i ∧ e.op = .caller user) (Passes P₁ es)
      P₁.state.db P'.state.db reply := by
  let handed : User → Prop := fun user => ∃ e ∈ es, e.tid = i ∧ e.op = .caller user
  have hthread : P₁.threads[i]? = some ((Task.job (.request q)).serve x config) := by
    rw [hr₁.thread_eq hstart]
    exact TaskPool.thread_of hi
  have htold : Tells (Passes P₁ es) (HandsOverOther handed) i ((Task.job (.request q)).serve x config)
      (fun reply db => ∀ r, reply = some r →
        q.Answered x config handed (Passes P₁ es) P₁.state.db db r)
      P₁.state := by
    show Tells _ _ i (some <$> q.serve x config) _ _
    rw [← bind_pure_comp]
    refine tells_return (tells_serve q) fun r db _ h r' he => ?_
    cases he
    exact h
  have hlater : ∀ e ∈ es, e.pre.db.Later (Passes P₁ es) e.post.db := fun e he =>
    ⟨keeps_of_runs (hr₁.append hr) e (List.mem_append_right _ he), fun _ => .inr ⟨e, he, rfl⟩⟩
  refine hr.ended_in (c := watched (Passes P₁ es) (HandsOverOther handed) i) hthread
    (htold.ends (.inl rfl)) (fun e he _ => hlater e he) (fun e he htid => ?_) hend reply rfl
  obtain ⟨a, ha⟩ := hr.handled e he
  refine ⟨⟨a, htid ▸ ha⟩, hlater e he, ?_⟩
  rintro ⟨user, hop, hnot⟩
  exact hnot ⟨e, he, htid, hop⟩

end runs

/-! ## What was made is listed -/

/-- The second request lists what the first makes. -/
inductive ListedBy : UserRoute → UserRoute → Prop
  | environment {workspaceId payload} :
      ListedBy (.createEnvironment workspaceId payload) (.listEnvironments workspaceId)
  | service {workspaceId payload} :
      ListedBy (.createService workspaceId payload) (.listServices workspaceId)
  | credential {workspaceId payload} :
      ListedBy (.createCredential workspaceId payload) (.listCredentials workspaceId)
  | envVar {workspaceId payload} :
      ListedBy (.createEnvVar workspaceId payload) (.listEnvVars workspaceId)
  | envVars {workspaceId payload} :
      ListedBy (.createEnvVars workspaceId payload) (.listEnvVars workspaceId)
  | template {workspaceId payload} :
      ListedBy (.createTemplate workspaceId payload) (.listWorkspaceTemplates workspaceId)
  | domain {serviceId payload} : ListedBy (.createDomain serviceId payload) (.listDomains serviceId)
  | deploy {serviceId} : ListedBy (.triggerDeploy serviceId) (.listDeployments serviceId)
  | restart {serviceId} : ListedBy (.restartService serviceId) (.listDeployments serviceId)
  | server {payload} : ListedBy (.createServer payload) .listServers
  | invite {payload} : ListedBy (.inviteUser payload) .listUsers

/-- What the first reply tells of is in the list, with all that cannot have changed since. -/
inductive Shows : ApiReply → ApiReply → Prop
  | environment {e es} (h : e ∈ es) : Shows (.environment e) (.environments es)
  | service {service services} (h : service ∈ services) :
      Shows (.service service) (.services services)
  | credential {credential credentials} (h : credential ∈ credentials) :
      Shows (.credential credential) (.credentials credentials)
  | envVar {envVar envVars} (h : envVar ∈ envVars) : Shows (.envVar envVar) (.envVars envVars)
  | envVars {made envVars} (h : ∀ envVar ∈ made, envVar ∈ envVars) :
      Shows (.envVars made) (.envVars envVars)
  | template {template templates} (h : template ∈ templates) :
      Shows (.template template) (.templates templates)
  | domain {domain domains} (h : domain ∈ domains) : Shows (.domain domain) (.domains domains)
  | deployment {deployment : Deployment} {deployments} (h : ∃ d ∈ deployments, d.id = deployment.id ∧
      d.serviceId = deployment.serviceId ∧ d.status = deployment.status ∧
        d.workflowId = deployment.workflowId ∧ d.output = deployment.output) :
      Shows (.deployment deployment) (.deployments deployments)
  | server {server : ServerResponse} {servers} (h : ∃ v ∈ servers, v.id = server.id ∧
      v.name = server.name ∧ v.host = server.host ∧ v.port = server.port ∧
        v.username = server.username ∧ v.publicKey = server.publicKey ∧
          v.privateKeyFingerprint = server.privateKeyFingerprint ∧
            v.defaultProxy = server.defaultProxy) :
      Shows (.server server) (.servers servers)
  | invite {output : InviteUserOutput} {users} (h : ∃ u ∈ users, u.id = output.user.id ∧
      u.email = output.user.email ∧ u.name = output.user.name) :
      Shows (.invited output) (.users users)

section listed

variable {x : Ext} {config config' : Config} {user user' : User} {D D' : Db → Prop}
  {db₀ db₁ db : Db} {α β : Type} {t : Table}

/-- What was told of a row is listed when the row is asked for. -/
theorem Told.listed {R : Row t → α → Prop} {R' : Row t → β → Prop} {p : Row t → Prop} {a : α}
    {bs : List β} (h : Told D db₁ t R a) (hs : ReportsOn D' db₁ db t p R' bs)
    (hp : ∀ r, R r a → p r) : ∃ b ∈ bs, ∃ r r', SameRow t r' r ∧ R r a ∧ R' r' b := by
  obtain ⟨r, hr, hR⟩ := h
  obtain ⟨b, hb, r', -, hsame, hR'⟩ := hs.complete r hr.onRecord (hp r hR)
  exact ⟨b, hb, r, r', hsame, hR, hR'⟩

/-- The same of rows that never change. -/
theorem Told.mem_listed (ht : fixedCols t = List.range 14) {f : Row t → α} {p : Row t → Prop}
    {a : α} {as : List α} (h : Told D db₁ t (f · = ·) a) (hs : ReportsOn D' db₁ db t p (f · = ·) as)
    (hp : ∀ r, f r = a → p r) : a ∈ as := by
  obtain ⟨b, hb, r, r', hsame, rfl, rfl⟩ := h.listed hs hp
  exact eq_of_fixed ht hsame ▸ hb

theorem Told.deployment_listed {serviceId : Uuid} {deployment : Deployment}
    {deployments : List Deployment} (h : Told D db₁ .deployments (DeploymentOf x) deployment)
    (hservice : deployment.serviceId = serviceId)
    (hs : ReportsOn D' db₁ db .deployments (fun r : DeploymentRecord => r.serviceId = serviceId)
      (DeploymentOf x) deployments) : Shows (.deployment deployment) (.deployments deployments) := by
  obtain ⟨d, hd, r, r', hsame, hr, hr'⟩ := h.listed hs fun r hr => hr.serviceId.symm.trans hservice
  have he : r' = r := eq_of_fixed rfl hsame
  subst he
  exact .deployment ⟨d, hd, hr'.id.trans hr.id.symm, hr'.serviceId.trans hr.serviceId.symm,
    hr'.status.trans hr.status.symm, hr'.workflowId.trans hr.workflowId.symm,
    hr'.output.trans hr.output.symm⟩

theorem Told.server_listed {server : ServerResponse} {servers : List ServerResponse}
    (h : Told D db₁ .servers ServerOf server)
    (hs : ReportsOn D' db₁ db .servers (fun _ => True) ServerOf servers) :
    Shows (.server server) (.servers servers) := by
  obtain ⟨v, hv, r, r', hsame, rfl, rfl⟩ := h.listed hs fun _ _ => trivial
  have hport : some (Value.u16 r'.port) = some (.u16 r.port) := hsame 3 (by decide)
  refine .server ⟨_, hv, uuid_of_col (hsame 0 (by decide)), text_of_col (hsame 1 (by decide)),
    text_of_col (hsame 2 (by decide)), Value.u16.inj (Option.some.inj hport),
    text_of_col (hsame 4 (by decide)), text_of_col (hsame 5 (by decide)),
    text_of_col (hsame 6 (by decide)), congrArg ProxyKind.from (text_of_col (hsame 9 (by decide)))⟩

/-- The list has what was made for its workspace. -/
theorem MadeEnvVar.mem_listed {input : CreateEnvVarInput} {envVar : EnvVarResponse}
    {envVars : List EnvVarResponse} (h : MadeEnvVar D db₁ input envVar)
    (hs : ReportsOn D' db₁ db .envVars (fun r : EnvVarRecord => r.workspaceId = input.workspaceId)
      (envVarResponse · = ·) envVars) : envVar ∈ envVars := by
  refine h.recorded.mem_listed rfl hs fun r hr => ?_
  exact (congrArg EnvVarResponse.workspaceId hr).trans (congrArg EnvVarResponse.workspaceId h.made)

theorem KnownUser.user_listed {output : InviteUserOutput} {users : List User}
    (h : KnownUser D db₁ output.user)
    (hs : ReportsOn D' db₁ db .users (fun _ => True) (UserOf D' db) users) :
    Shows (.invited output) (.users users) := by
  obtain ⟨u, hu, r, r', hsame, hr, hr'⟩ := Told.listed h hs fun _ _ => trivial
  have hid : r'.id = r.id := uuid_of_col (hsame 0 (by decide))
  have hemail : r'.email = r.email := text_of_col (hsame 1 (by decide))
  have hname : r'.name = r.name := text_of_col (hsame 2 (by decide))
  refine .invite ⟨u, hu, ?_, ?_, ?_⟩
  · exact (congrArg User.id hr'.record).symm.trans (hid.trans (congrArg User.id hr.record))
  · exact (congrArg User.email hr'.record).symm.trans (hemail.trans (congrArg User.email hr.record))
  · exact (congrArg User.name hr'.record).symm.trans (hname.trans (congrArg User.name hr.record))

theorem shows_of_answers {route route' : UserRoute} {reply reply' : ApiReply}
    (hlist : ListedBy route route') (hreply : reply ≠ .rejected)
    (h : Answers x config user D db₀ db₁ route reply)
    (h' : Answers x config' user' D' db₁ db route' reply') : Shows reply reply' := by
  -- a list has no body that could be rejected
  cases hlist with
  | environment =>
    cases h with
    | rejected => exact absurd rfl hreply
    | createEnvironment h =>
      cases h' with
      | rejected h => cases h
      | listEnvironments h' =>
        have htold : Told D db₁ .environments Eq _ := ⟨_, h, rfl⟩
        obtain ⟨e, he, r, r', hsame, rfl, rfl⟩ := htold.listed h' fun r hr => hr ▸ rfl
        exact .environment (eq_of_fixed rfl hsame ▸ he)
  | service =>
    cases h with
    | rejected => exact absurd rfl hreply
    | createService hmade h =>
      cases h' with
      | rejected h => cases h
      | listServices h' =>
        refine .service (h.mem_listed rfl h' fun r hr => ?_)
        exact (congrArg AppService.workspaceId hr).trans (congrArg AppService.workspaceId hmade)
  | credential =>
    cases h with
    | rejected => exact absurd rfl hreply
    | createCredential hmade h =>
      cases h' with
      | rejected h => cases h
      | listCredentials h' =>
        refine .credential (h.mem_listed rfl h' fun r hr => ?_)
        exact (congrArg CredentialResponse.workspaceId hr).trans
          (congrArg CredentialResponse.workspaceId hmade)
  | envVar =>
    cases h with
    | rejected => exact absurd rfl hreply
    | createEnvVar h =>
      cases h' with
      | rejected h => cases h
      | listEnvVars h' =>
        exact .envVar (h.mem_listed h')
  | envVars =>
    cases h with
    | rejected => exact absurd rfl hreply
    | createEnvVars h =>
      cases h' with
      | rejected h => cases h
      | listEnvVars h' =>
        refine .envVars fun envVar henvVar => ?_
        obtain ⟨request, -, hmade⟩ := exists_of_forall₂ h henvVar
        exact hmade.mem_listed h'
  | template =>
    cases h with
    | rejected => exact absurd rfl hreply
    | createTemplate hmade h =>
      cases h' with
      | rejected h => cases h
      | listWorkspaceTemplates h' =>
        refine .template (h.mem_listed rfl h' fun r hr => ?_)
        exact (congrArg WorkspaceTemplate.sourceWorkspaceId hr).trans
          (congrArg WorkspaceTemplate.sourceWorkspaceId hmade)
  | domain =>
    cases h with
    | rejected => exact absurd rfl hreply
    | createDomain hmade h =>
      cases h' with
      | rejected h => cases h
      | listDomains h' =>
        refine .domain (h.mem_listed rfl h' fun r hr => ?_)
        exact (congrArg Domain.serviceId hr).trans (congrArg Domain.serviceId hmade)
  | deploy =>
    cases h with
    | rejected h => cases h
    | triggerDeploy hservice h =>
      cases h' with
      | rejected h => cases h
      | listDeployments h' => exact h.deployment_listed hservice h'
  | restart =>
    cases h with
    | rejected h => cases h
    | restartService hservice h =>
      cases h' with
      | rejected h => cases h
      | listDeployments h' => exact h.deployment_listed hservice h'
  | server =>
    cases h with
    | rejected => exact absurd rfl hreply
    | createServer hmade h =>
      cases h' with
      | rejected h => cases h
      | listServers h' => exact h.server_listed h'
  | invite =>
    cases h with
    | rejected => exact absurd rfl hreply
    | inviteUser h =>
      cases h' with
      | rejected h => cases h
      | listUsers h' => exact h.recorded.user_listed h'

/-- **What was made is listed.** A request has been told what it made. A request for the list of
such things, that begins later, at any instance and for anyone, shows it, whatever else is done. -/
theorem made_then_listed {tasks : List (Config × Task)} {w : World} {P₁ P' : JobPool}
    {es₁ es : List (Event Res World)} (hr₁ : Runs exec (TaskPool.of x tasks w) es₁ P₁)
    (hr : Runs exec P₁ es P') {i j : Nat} {authorization authorization' : Option String}
    {route route' : UserRoute} (hlist : ListedBy route route')
    (hi : tasks[i]? = some (config, .job (.request (.user authorization route))))
    (hj : tasks[j]? = some (config', .job (.request (.user authorization' route'))))
    {reply reply' : ApiReply} (hmade : P₁.threads[i]? = some (.ret (.ok (some reply))))
    (hvalid : reply ≠ .rejected) (hstart : ∀ e ∈ es₁, e.tid ≠ j)
    (hend : P'.threads[j]? = some (.ret (.ok (some reply')))) : Shows reply reply' := by
  obtain ⟨user, -, h⟩ := answered_of_runs (.nil _) hr₁ hi (fun _ he => by cases he) hmade
  obtain ⟨user', -, h'⟩ := answered_of_runs hr₁ hr hj hstart hend
  exact shows_of_answers hlist hvalid h h'

end listed

namespace Symbolic

/-- Bob makes an environment, and lists the environments at another instance. -/
def makeAndList : List (Config × Task) :=
  [(config "A", .job (.request (.user (some "Bearer wara_t") (.createEnvironment 9 ⟨"staging"⟩)))),
    (config "B", .job (.request (.user (some "Bearer wara_t") (.listEnvironments 9))))]

def makeAndListPool : JobPool := TaskPool.of ext makeAndList (.start manager)

def makeEnvironmentSteps : List (Nat × Ans) :=
  [(0, .done), (0, .done), (0, .time ⟨10000000000⟩), (0, .done), (0, .done), (0, .done), (0, .done),
    (0, .uuid 11), (0, .done)]

def listEnvironmentsSteps : List (Nat × Ans) :=
  [(1, .done), (1, .done), (1, .time ⟨20000000000⟩), (1, .done), (1, .done), (1, .done), (1, .done)]

theorem makeAndList_replies : (makeAndListPool.run exec makeEnvironmentSteps).bind
    (fun P₁ : JobPool => (P₁.run exec listEnvironmentsSteps).map fun P' : JobPool =>
      (P₁.threads.map replied, P'.threads.map replied)) =
      some ([some (some (.environment ⟨11, 9, "staging"⟩)), none],
        [some (some (.environment ⟨11, 9, "staging"⟩)),
          some (some (.environments [⟨11, 9, "staging"⟩]))]) ∧
    (makeAndListPool.trace exec makeEnvironmentSteps).all (fun e => e.tid ≠ 1) = true := by
  decide +kernel

theorem makeAndList_runs : ∃ (P₁ P' : JobPool) (es₁ es : List (Event Res World)),
    Runs exec makeAndListPool es₁ P₁ ∧ Runs exec P₁ es P' ∧ (∀ e ∈ es₁, e.tid ≠ 1) ∧
      P₁.threads[0]? = some (.ret (.ok (some (.environment ⟨11, 9, "staging"⟩)))) ∧
      P'.threads[1]? = some (.ret (.ok (some (.environments [⟨11, 9, "staging"⟩])))) := by
  obtain ⟨hreplies, hstart⟩ := makeAndList_replies
  obtain ⟨P₁, hrun₁, hreplies⟩ := Option.bind_eq_some_iff.mp hreplies
  obtain ⟨P', hrun, hreplies⟩ := Option.map_eq_some_iff.mp hreplies
  obtain ⟨hmade, hlisted⟩ := Prod.mk.inj hreplies
  refine ⟨P₁, P', _, _, Pool.run_runs hrun₁, Pool.run_runs hrun, ?_,
    getElem?_of_replied hmade rfl, getElem?_of_replied hlisted rfl⟩
  exact fun e he => of_decide_eq_true (List.all_eq_true.mp hstart e he)

theorem made_then_listed_environment :
    Shows (.environment ⟨11, 9, "staging"⟩) (.environments [⟨11, 9, "staging"⟩]) := by
  obtain ⟨P₁, P', es₁, es, hr₁, hr, hstart, hmade, hlisted⟩ := makeAndList_runs
  exact made_then_listed hr₁ hr (i := 0) (j := 1) ListedBy.environment rfl rfl hmade
    (by decide) hstart hlisted

end Symbolic

end Wara
