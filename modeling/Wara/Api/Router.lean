import Wara.Api.Failsafe
import Wara.Http.Router

/-!
# The routing table

The `router` functions of `backend/src/routes`, and what the handlers' docs
(`utoipa::path`) say of their methods and paths. The table serves the documented
operations and no others, wherever its entries stand; and what it serves under
`GET` leaves the database as it is.
-/

namespace Wara

open Interleave Store Service Http

/-- The handlers that the routers name. -/
inductive Endpoint where
  | health
  | jwks
  | login
  | refreshSession
  | logout
  | acceptInvite
  | me
  | listApiTokens
  | createApiToken
  | revokeApiToken
  | listServers
  | createServer
  | getServer
  | checkServer
  | listWorkspaces
  | createWorkspace
  | getWorkspace
  | listEnvironments
  | createEnvironment
  | listServices
  | createService
  | getService
  | listCredentials
  | createCredential
  | listEnvVars
  | createEnvVar
  | createEnvVars
  | listDomains
  | createDomain
  | previewProxy
  | listDeployments
  | triggerDeploy
  | getDeployment
  | restartService
  | serviceLogs
  | listWorkspaceTemplates
  | createTemplate
  | createWorkspacesFromTemplate
  | getSettings
  | updateSettings
  | listUsers
  | inviteUser
  | disableUser
  | reactivateUser
  | changeUserRole
  | metricsHandler
  | openapiJson
  deriving DecidableEq, Repr

/-! ## Routers -/

instance : Coe String Segment := ⟨.literal⟩

def auth.router : Router Endpoint := [
  (["auth", "login"], [(.post, .login)]),
  (["auth", "refresh"], [(.post, .refreshSession)]),
  (["auth", "logout"], [(.post, .logout)]),
  (["auth", "invites", "accept"], [(.post, .acceptInvite)]),
  (["auth", "me"], [(.get, .me)]),
  (["auth", "api-tokens"], [(.get, .listApiTokens), (.post, .createApiToken)]),
  (["auth", "api-tokens", .capture "id"], [(.delete, .revokeApiToken)])]

def servers.router : Router Endpoint := [
  (["servers"], [(.get, .listServers), (.post, .createServer)]),
  (["servers", .capture "id"], [(.get, .getServer)]),
  (["servers", .capture "id", "check"], [(.post, .checkServer)])]

def workspaces.router : Router Endpoint := [
  (["workspaces"], [(.get, .listWorkspaces), (.post, .createWorkspace)]),
  (["workspaces", .capture "id"], [(.get, .getWorkspace)])]

def environments.router : Router Endpoint := [
  (["workspaces", .capture "workspace_id", "environments"],
    [(.get, .listEnvironments), (.post, .createEnvironment)])]

def services.router : Router Endpoint := [
  (["workspaces", .capture "workspace_id", "services"],
    [(.get, .listServices), (.post, .createService)]),
  (["services", .capture "id"], [(.get, .getService)])]

def credentials.router : Router Endpoint := [
  (["workspaces", .capture "workspace_id", "credentials"],
    [(.get, .listCredentials), (.post, .createCredential)]),
  (["workspaces", .capture "workspace_id", "env-vars"],
    [(.get, .listEnvVars), (.post, .createEnvVar)]),
  (["workspaces", .capture "workspace_id", "env-vars", "bulk"], [(.post, .createEnvVars)])]

def domains.router : Router Endpoint := [
  (["services", .capture "service_id", "domains"], [(.get, .listDomains), (.post, .createDomain)]),
  (["domains", .capture "id", "proxy-preview"], [(.post, .previewProxy)])]

def deployments.router : Router Endpoint := [
  (["services", .capture "service_id", "deployments"],
    [(.get, .listDeployments), (.post, .triggerDeploy)]),
  (["deployments", .capture "id"], [(.get, .getDeployment)]),
  (["services", .capture "service_id", "restart"], [(.post, .restartService)]),
  (["services", .capture "service_id", "logs"], [(.get, .serviceLogs)])]

def templates.router : Router Endpoint := [
  (["workspaces", .capture "workspace_id", "templates"],
    [(.get, .listWorkspaceTemplates), (.post, .createTemplate)]),
  (["templates", .capture "id", "workspaces"], [(.post, .createWorkspacesFromTemplate)])]

def telemetry.router : Router Endpoint := [
  (["telemetry", "settings"], [(.get, .getSettings), (.put, .updateSettings)])]

def admin.router : Router Endpoint := [
  (["admin", "users"], [(.get, .listUsers), (.post, .inviteUser)]),
  (["admin", "users", .capture "id", "disable"], [(.post, .disableUser)]),
  (["admin", "users", .capture "id", "reactivate"], [(.post, .reactivateUser)]),
  (["admin", "users", .capture "id", "role"], [(.patch, .changeUserRole)])]

def wellKnown.router : Router Endpoint := [([".well-known", "jwks.json"], [(.get, .jwks)])]

def routes.api : Router Endpoint :=
  auth.router.merge servers.router |>.merge workspaces.router |>.merge environments.router
    |>.merge services.router |>.merge credentials.router |>.merge domains.router
    |>.merge deployments.router |>.merge templates.router |>.merge telemetry.router
    |>.merge admin.router

/-- Without the documentation pages. -/
def routes.router : Router Endpoint :=
  wellKnown.router.route ["health"] [(.get, .health)]
    |>.route ["metrics"] [(.get, .metricsHandler)]
    |>.nest ["api", "v1"] routes.api
    |>.route ["api", "openapi.json"] [(.get, .openapiJson)]

/-! ## Documentation -/

def v1 (t : Template) : Template := "api" :: "v1" :: t

/-- The method and the path in the docs of the handler. -/
def Endpoint.operation : Endpoint → Option (Method × Template)
  | .health => some (.get, ["health"])
  | .jwks => some (.get, [".well-known", "jwks.json"])
  | .login => some (.post, v1 ["auth", "login"])
  | .refreshSession => some (.post, v1 ["auth", "refresh"])
  | .logout => some (.post, v1 ["auth", "logout"])
  | .acceptInvite => some (.post, v1 ["auth", "invites", "accept"])
  | .me => some (.get, v1 ["auth", "me"])
  | .listApiTokens => some (.get, v1 ["auth", "api-tokens"])
  | .createApiToken => some (.post, v1 ["auth", "api-tokens"])
  | .revokeApiToken => some (.delete, v1 ["auth", "api-tokens", .capture "id"])
  | .listServers => some (.get, v1 ["servers"])
  | .createServer => some (.post, v1 ["servers"])
  | .getServer => some (.get, v1 ["servers", .capture "id"])
  | .checkServer => some (.post, v1 ["servers", .capture "id", "check"])
  | .listWorkspaces => some (.get, v1 ["workspaces"])
  | .createWorkspace => some (.post, v1 ["workspaces"])
  | .getWorkspace => some (.get, v1 ["workspaces", .capture "id"])
  | .listEnvironments => some (.get, v1 ["workspaces", .capture "workspace_id", "environments"])
  | .createEnvironment => some (.post, v1 ["workspaces", .capture "workspace_id", "environments"])
  | .listServices => some (.get, v1 ["workspaces", .capture "workspace_id", "services"])
  | .createService => some (.post, v1 ["workspaces", .capture "workspace_id", "services"])
  | .getService => some (.get, v1 ["services", .capture "id"])
  | .listCredentials => some (.get, v1 ["workspaces", .capture "workspace_id", "credentials"])
  | .createCredential => some (.post, v1 ["workspaces", .capture "workspace_id", "credentials"])
  | .listEnvVars => some (.get, v1 ["workspaces", .capture "workspace_id", "env-vars"])
  | .createEnvVar => some (.post, v1 ["workspaces", .capture "workspace_id", "env-vars"])
  | .createEnvVars => some (.post, v1 ["workspaces", .capture "workspace_id", "env-vars", "bulk"])
  | .listDomains => some (.get, v1 ["services", .capture "service_id", "domains"])
  | .createDomain => some (.post, v1 ["services", .capture "service_id", "domains"])
  | .previewProxy => some (.post, v1 ["domains", .capture "id", "proxy-preview"])
  | .listDeployments => some (.get, v1 ["services", .capture "service_id", "deployments"])
  | .triggerDeploy => some (.post, v1 ["services", .capture "service_id", "deployments"])
  | .getDeployment => some (.get, v1 ["deployments", .capture "id"])
  | .restartService => some (.post, v1 ["services", .capture "service_id", "restart"])
  | .serviceLogs => some (.get, v1 ["services", .capture "service_id", "logs"])
  | .listWorkspaceTemplates => some (.get, v1 ["workspaces", .capture "workspace_id", "templates"])
  | .createTemplate => some (.post, v1 ["workspaces", .capture "workspace_id", "templates"])
  | .createWorkspacesFromTemplate => some (.post, v1 ["templates", .capture "id", "workspaces"])
  | .getSettings => some (.get, v1 ["telemetry", "settings"])
  | .updateSettings => some (.put, v1 ["telemetry", "settings"])
  | .listUsers => some (.get, v1 ["admin", "users"])
  | .inviteUser => some (.post, v1 ["admin", "users"])
  | .disableUser => some (.post, v1 ["admin", "users", .capture "id", "disable"])
  | .reactivateUser => some (.post, v1 ["admin", "users", .capture "id", "reactivate"])
  | .changeUserRole => some (.patch, v1 ["admin", "users", .capture "id", "role"])
  | .metricsHandler | .openapiJson => none

/-- The paths of `ApiDoc` in `backend/src/openapi.rs`. -/
def ApiDoc.paths : List Endpoint :=
  [.health, .jwks, .login, .refreshSession, .logout, .acceptInvite, .me, .listApiTokens,
  .createApiToken, .revokeApiToken, .listServers, .createServer, .getServer, .checkServer,
  .listWorkspaces, .createWorkspace, .getWorkspace, .listEnvironments, .createEnvironment,
  .listServices, .createService, .getService, .listCredentials, .createCredential, .listEnvVars,
  .createEnvVar, .createEnvVars, .listDomains, .createDomain, .previewProxy, .listDeployments,
  .triggerDeploy, .getDeployment, .restartService, .serviceLogs, .listWorkspaceTemplates,
  .createTemplate, .createWorkspacesFromTemplate, .getSettings, .updateSettings, .listUsers,
  .inviteUser, .disableUser, .reactivateUser, .changeUserRole]

/-! ## Requests -/

def UserRoute.endpoint : UserRoute → Endpoint
  | .me => .me
  | .listApiTokens => .listApiTokens
  | .createApiToken _ => .createApiToken
  | .revokeApiToken _ => .revokeApiToken
  | .listServers => .listServers
  | .createServer _ => .createServer
  | .getServer _ => .getServer
  | .checkServer _ => .checkServer
  | .listWorkspaces => .listWorkspaces
  | .createWorkspace _ => .createWorkspace
  | .getWorkspace _ => .getWorkspace
  | .listEnvironments _ => .listEnvironments
  | .createEnvironment _ _ => .createEnvironment
  | .listServices _ => .listServices
  | .createService _ _ => .createService
  | .getService _ => .getService
  | .listCredentials _ => .listCredentials
  | .createCredential _ _ => .createCredential
  | .listEnvVars _ => .listEnvVars
  | .createEnvVar _ _ => .createEnvVar
  | .createEnvVars _ _ => .createEnvVars
  | .listDomains _ => .listDomains
  | .createDomain _ _ => .createDomain
  | .previewProxy _ => .previewProxy
  | .listDeployments _ => .listDeployments
  | .triggerDeploy _ => .triggerDeploy
  | .getDeployment _ => .getDeployment
  | .restartService _ => .restartService
  | .serviceLogs _ => .serviceLogs
  | .listWorkspaceTemplates _ => .listWorkspaceTemplates
  | .createTemplate _ _ => .createTemplate
  | .createWorkspacesFromTemplate _ _ => .createWorkspacesFromTemplate
  | .getSettings => .getSettings
  | .updateSettings _ => .updateSettings
  | .listUsers => .listUsers
  | .inviteUser _ => .inviteUser
  | .disableUser _ => .disableUser
  | .reactivateUser _ => .reactivateUser
  | .changeUserRole _ _ => .changeUserRole

def PublicRoute.endpoint : PublicRoute → Endpoint
  | .jwks => .jwks
  | .login _ => .login
  | .refreshSession _ => .refreshSession
  | .logout _ => .logout
  | .acceptInvite _ => .acceptInvite

/-- The handler that serves the request. -/
def ApiRequest.endpoint : ApiRequest → Endpoint
  | .anyone route => route.endpoint
  | .user _ route => route.endpoint

/-! ## The table -/

section table

variable {e : Endpoint} {m m' : Method} {t : Template} {path : List String} {ps : Params}

/-- The table, entry by entry: no two templates take one path, every entry is as documented, and
every documented operation has an entry, in which nothing of its own answers `HEAD`. -/
theorem router_checked : routes.router.Unambiguous ∧
    (∀ entry ∈ routes.router, ∀ p ∈ entry.2, p.2.operation = some (p.1, entry.1) ∨
      p.2 = .metricsHandler ∨ p.2 = .openapiJson) ∧
    ∀ e ∈ ApiDoc.paths, ∀ op ∈ e.operation, ∃ entry ∈ routes.router,
      entry.1 = op.2 ∧ entry.2.lookup op.1 = some e ∧ entry.2.lookup .head = none := by
  decide +kernel

theorem mem_paths (h : e.operation = some (m, t)) : e ∈ ApiDoc.paths := by
  cases e <;> first | cases h; done | simp [ApiDoc.paths]

/-- Where a documented handler stands in the table. -/
theorem documented_of_entry {entry : Template × MethodRouter Endpoint}
    (hentry : entry ∈ routes.router) (hm : entry.2.handler m' = some e)
    (h : e.operation = some (m, t)) : (m' = m ∨ m = .get ∧ m' = .head) ∧ entry.1 = t := by
  have hop : ∀ m₁, (m₁, e) ∈ entry.2 → m = m₁ ∧ t = entry.1 := by
    intro m₁ hm₁
    rcases router_checked.2.1 _ hentry _ hm₁ with he | he | he
    · rw [h] at he
      cases he
      exact ⟨rfl, rfl⟩
    all_goals
      obtain rfl : e = _ := he
      cases h
  rcases MethodRouter.mem_of_handler hm with hmem | ⟨rfl, hmem⟩
  · obtain ⟨rfl, rfl⟩ := hop _ hmem
    exact ⟨.inl rfl, rfl⟩
  · obtain ⟨rfl, rfl⟩ := hop _ hmem
    exact ⟨.inr ⟨rfl, rfl⟩, rfl⟩

/-- **Routed as documented.** A request reaches a documented handler just when its method is the
one of the docs, or `HEAD` for `GET`, and its path is the one of the docs with the parameters filled
in, of which a last one is not empty. This holds in whatever order the routers are merged. -/
theorem dispatch_iff_documented {table : Router Endpoint} (htable : routes.router.Perm table)
    (h : e.operation = some (m, t)) :
    table.dispatch m' path = .handler e ps ↔
      (m' = m ∨ m = .get ∧ m' = .head) ∧ Fits t ps ∧ path = fill t ps := by
  obtain ⟨hunambiguous, -, hserved⟩ := router_checked
  refine ⟨fun hd => ?_, ?_⟩
  · rw [Router.dispatch_perm hunambiguous htable] at hd
    obtain ⟨t', ms, hmem, htake, hms⟩ := Router.entry_of_dispatch hd
    obtain ⟨hm', rfl⟩ := documented_of_entry hmem hms h
    obtain ⟨hfits, hfill⟩ := fill_of_take htake
    exact ⟨hm', hfits, hfill.symm⟩
  rintro ⟨hm', hfits, rfl⟩
  obtain ⟨⟨t', ms⟩, hmem, ht', hlookup, hhead⟩ := hserved e (mem_paths h) (m, t) h
  obtain rfl : t' = t := ht'
  rw [Router.dispatch_perm hunambiguous htable,
    Router.dispatch_of_mem hunambiguous hmem (take_fill hfits)]
  have hhandler : MethodRouter.handler ms m' = some e := by
    rcases hm' with rfl | ⟨rfl, rfl⟩
    · simp only [MethodRouter.handler, hlookup]
    · simp only [MethodRouter.handler, hhead, hlookup, if_pos]
  simp only [MethodRouter.outcome, hhandler]

/-- `HEAD` is answered at the path of the server, and an empty parameter is one too. -/
theorem dispatch_iff_documented_getServer :
    Router.dispatch routes.router.reverse .head ["api", "v1", "servers", "7"] =
        .handler .getServer [("id", "7")] ∧
      Router.dispatch routes.router.reverse .get ["api", "v1", "workspaces", "", "services"] =
        .handler .listServices [("workspace_id", "")] := by
  constructor
  · exact (dispatch_iff_documented (t := v1 ["servers", .capture "id"])
      (List.reverse_perm _).symm rfl).mpr ⟨.inr ⟨rfl, rfl⟩, ⟨rfl, by decide, rfl⟩, rfl⟩
  · exact (dispatch_iff_documented (t := v1 ["workspaces", .capture "workspace_id", "services"])
      (List.reverse_perm _).symm rfl).mpr ⟨.inl rfl, ⟨rfl, by decide, rfl⟩, rfl⟩

end table

/-! ## Safe methods -/

/-- A request for a handler that is documented under `GET` writes nothing. -/
theorem reads_of_get {q : ApiRequest} {t : Template} (h : q.endpoint.operation = some (.get, t)) :
    (∃ authorization route, q = .user authorization route ∧ route.Reading) ∨ q = .anyone .jwks := by
  cases q with
  | anyone route =>
    cases route with
    | jwks => exact .inr rfl
    | _ => cases h
  | user authorization route =>
    refine .inl ⟨authorization, route, rfl, ?_⟩
    cases route with
    | me | listApiTokens | listServers | getServer | listWorkspaces | getWorkspace
      | listEnvironments | listServices | getService | listCredentials | listEnvVars | listDomains
      | previewProxy | listDeployments | getDeployment | serviceLogs | listWorkspaceTemplates
      | getSettings | updateSettings | listUsers => trivial
    | _ => cases h

theorem documented_request (q : ApiRequest) : ∃ op, q.endpoint.operation = some op := by
  cases q with
  | anyone route => cases route <;> exact ⟨_, rfl⟩
  | user authorization route => cases route <;> exact ⟨_, rfl⟩

section runs

variable {x : Ext} {tasks : List (Config × Task)} {w : World} {P' : JobPool}
  {es : List (Event Res World)}

/-- **`GET` is safe.** What an entry of the table serves under `GET` or `HEAD` leaves the database as
it is but for the note that the API token it presents was used, among any tasks in any order of
their statements, whether it has ended or not. -/
theorem get_safe (hr : Runs exec (TaskPool.of x tasks w) es P') {i : Nat} {config : Config}
    {q : ApiRequest} (hi : tasks[i]? = some (config, .job (.request q))) {m : Method}
    (hm : m = .get ∨ m = .head) {entry : Template × MethodRouter Endpoint}
    (hentry : entry ∈ routes.router) (hq : entry.2.handler m = some q.endpoint) :
    ∀ e ∈ es, e.tid = i → SameButUse (q.Presents x) e.pre.db e.post.db := by
  obtain ⟨⟨m', t⟩, hop⟩ := documented_request q
  have hget : m' = .get := by
    rcases (documented_of_entry hentry hq hop).1 with rfl | ⟨rfl, -⟩
    · -- no operation is documented under `HEAD`
      rcases hm with rfl | rfl
      · rfl
      · cases he : q.endpoint <;> rw [he] at hop <;> cases hop
    · rfl
  subst hget
  have hnever : Flow.All (Prog.Never Op.Commits) ((Task.job (.request q)).serve x config)
      fun _ => True := by
    refine Flow.all_map.mpr ?_
    rcases reads_of_get hop with ⟨authorization, route, rfl, hroute⟩ | rfl
    · refine Flow.all_bind.mpr (Flow.All.mono (never_extractUser authorization) (fun _ h => h)
        fun user _ => ?_)
      exact Flow.All.mono (reads_handle hroute) (fun _ ho => never_of_reads ho) fun _ h => h
    · have hjwks : Reads (PublicRoute.handle x config .jwks) := by
        simp [Reads, PublicRoute.handle, AuthService.jwks, Op.writes]
      exact Flow.All.mono hjwks (fun _ ho => never_of_reads ho) fun _ h => h
  obtain ⟨hcommits, -⟩ := hr.never (TaskPool.thread_of hi) hnever
  exact fun e he htid => sameButUse_of_runs hr hi e he htid (hcommits e he htid e.res)

end runs

namespace Symbolic

/-- Bob makes an environment, and looks at the environments. -/
def stageAndLook : List (Config × Task) :=
  [(config "A", .job (.request (.user (some "Bearer wara_t") (.createEnvironment 9 ⟨"staging"⟩)))),
    (config "A", .job (.request (.user (some "Bearer wara_t") (.listEnvironments 9))))]

def stageAndLookSteps : List (Nat × Ans) :=
  [(0, .done), (1, .done), (0, .done), (0, .time ⟨10000000000⟩), (0, .done), (1, .done), (0, .done),
    (0, .done), (0, .done), (0, .uuid 11), (0, .done), (1, .time ⟨20000000000⟩), (1, .done),
    (1, .done), (1, .done), (1, .done)]

theorem stageAndLook_replies :
    ((TaskPool.of ext stageAndLook (.start manager)).run exec stageAndLookSteps).map
      (fun P' : JobPool => P'.threads.map replied) =
        some [some (some (.environment ⟨11, 9, "staging"⟩)),
          some (some (.environments [⟨11, 9, "staging"⟩]))] := by decide +kernel

theorem get_safe_look : ∃ (P' : JobPool) (es : List (Event Res World)),
    Runs exec (TaskPool.of ext stageAndLook (.start manager)) es P' ∧
      P'.threads.map replied = [some (some (.environment ⟨11, 9, "staging"⟩)),
        some (some (.environments [⟨11, 9, "staging"⟩]))] ∧
      ∀ e ∈ es, e.tid = 1 → SameButUse (ApiRequest.Presents ext (.user (some "Bearer wara_t")
        (.listEnvironments 9))) e.pre.db e.post.db := by
  obtain ⟨P', hrun, hreplies⟩ := Option.map_eq_some_iff.mp stageAndLook_replies
  have hr := Pool.run_runs hrun
  have hentry : (v1 ["workspaces", .capture "workspace_id", "environments"],
      [(.get, .listEnvironments), (.post, .createEnvironment)]) ∈ routes.router := by decide +kernel
  exact ⟨P', _, hr, hreplies, get_safe hr (i := 1) rfl (.inr rfl) hentry rfl⟩

end Symbolic

end Wara
