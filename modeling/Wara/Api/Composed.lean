import Wara.Api.Routes
import Wara.Service.Loops

/-!
# How the handlers are put together

A handler checks who calls, reads, and calls one operation that writes. So a
property of calls that `Composes` holds of every handler when it holds of the
writing operations, each behind the check that its route makes.
-/

namespace Wara

open Interleave Store Service Docker AuthService WorkspaceService AppServiceService DomainService
  DeploymentService WorkspaceTemplateService CredentialService ServerService

/-- A call that writes nothing. -/
def Reads {α : Type} (y : Service α) : Prop := Flow.All (fun o => o.writes = []) y fun _ => True

/-- A property that reading calls have, and a call made of two parts that have it. -/
structure Composes (P : (α : Type) → Service α → Prop) : Prop where
  reads : ∀ {α : Type} {y : Service α}, Reads y → P α y
  bind : ∀ {α β : Type} {y : Service α} {f : α → Service β}, P α y → (∀ a, P β (f a)) →
    P β (y >>= f)

/-- The operations that write, behind the checks of their routes, but for those that make workspaces
and templates. -/
structure OrdinaryWritersSatisfy (P : (α : Type) → Service α → Prop) (x : Ext) (config : Config)
    (user : User) (route : UserRoute) : Prop where
  createApiToken : ∀ name, P _ (AuthService.createApiToken x ⟨user, name⟩)
  revokeApiToken : ∀ id, P _ (AuthService.revokeApiToken x user id)
  createServer : ∀ payload, user.role = .superAdmin →
    P _ (ServerService.createServer x config.secretKey payload)
  checkServer : ∀ id, user.role = .superAdmin →
    P _ (ServerService.checkServer x config.secretKey id)
  createEnvironment : ∀ workspaceId name, canAccessWorkspace user workspaceId = true →
    P _ (WorkspaceService.createEnvironment workspaceId name)
  createService : ∀ input : CreateAppServiceInput,
    canAccessWorkspace user input.workspaceId = true → P _ (AppServiceService.createService input)
  createCredential : ∀ input : CreateCredentialInput,
    canAccessWorkspace user input.workspaceId = true →
      P _ (CredentialService.createCredential x config.secretKey input)
  createEnvVar : ∀ input : CreateEnvVarInput, canAccessWorkspace user input.workspaceId = true →
    P _ (CredentialService.createEnvVar x config.secretKey input)
  createEnvVars : ∀ inputs : List CreateEnvVarInput,
    (∀ input ∈ inputs, canAccessWorkspace user input.workspaceId = true) →
      P _ (CredentialService.createEnvVars x config.secretKey inputs)
  createDomain : ∀ input, P _ (DomainService.createDomain input)
  triggerDeploy : ∀ serviceId, route = .triggerDeploy serviceId →
    P _ (DeploymentService.triggerDeploy x config previewExecutor serviceId)
  restartService : ∀ serviceId, route = .restartService serviceId →
    P _ (DeploymentService.restartService x previewExecutor serviceId)
  inviteUser : ∀ input : InviteUserInput, input.inviter = user →
    P _ (AuthService.inviteUser x config input)
  disableUser : ∀ id, user.role = .superAdmin → P _ (AuthService.disableUser id)
  reactivateUser : ∀ id, user.role = .superAdmin → P _ (AuthService.reactivateUser id)
  changeUserRole : ∀ input, user.role = .superAdmin → P _ (AuthService.changeUserRole input)

/-- The operations that write, behind the checks of their routes. -/
structure WritersSatisfy (P : (α : Type) → Service α → Prop) (x : Ext) (config : Config)
    (user : User) (route : UserRoute) : Prop
    extends OrdinaryWritersSatisfy P x config user route where
  createWorkspace : ∀ name description, user.role = .superAdmin →
    P _ (WorkspaceService.createWorkspace name description)
  createTemplate : ∀ input : CreateTemplateInput, canAccessWorkspace user input.workspaceId = true →
    P _ (WorkspaceTemplateService.createTemplate input)
  createWorkspacesFromTemplate : ∀ input, user.role = .superAdmin →
    P _ (WorkspaceTemplateService.createWorkspacesFromTemplate input)

/-- The operations behind the routes that are open to anyone. -/
structure PublicWritersSatisfy (P : (α : Type) → Service α → Prop) (x : Ext) (config : Config) :
    Prop where
  login : ∀ input, P _ (AuthService.login x config input)
  refreshSession : ∀ input, P _ (AuthService.refreshSession x config input)
  logout : ∀ input, P _ (AuthService.logout x config input)
  acceptInvite : ∀ input, P _ (AuthService.acceptInvite x config input)

/-- The routes that make neither workspaces nor templates. -/
def UserRoute.Ordinary : UserRoute → Prop
  | .createWorkspace _ | .createTemplate _ _ | .createWorkspacesFromTemplate _ _ => False
  | _ => True

/-! ## Calls that only read -/

section reads

variable {x : Ext} {α β : Type}

theorem reads_pure (a : α) : Reads (pure a : Service α) := Flow.all_pure.mpr trivial

theorem Reads.bind {y : Service α} {f : α → Service β} (h : Reads y) (hf : ∀ a, Reads (f a)) :
    Reads (y >>= f) :=
  Flow.all_bind.mpr (Flow.All.mono h (fun _ h => h) fun a _ => hf a)

theorem reads_mapM {g : α → Service β} (h : ∀ a, Reads (g a)) (as : List α) : Reads (as.mapM g) :=
  Flow.All.mono (all_mapM (P := fun _ _ => True) fun a _ => h a) (fun _ h => h) fun _ _ => trivial

theorem reads_attempt {y : Service α} (h : Reads y) : Reads (attempt y) :=
  (all_attempt fun _ => trivial).mpr h

theorem reads_userFromRecord (record : UserRecord) : Reads (userFromRecord record) := by
  simp [Reads, userFromRecord, Op.writes]

theorem reads_listUsers : Reads AuthService.listUsers := by
  unfold AuthService.listUsers
  exact .bind (by simp [Reads, Op.writes]) fun records => reads_mapM reads_userFromRecord records

theorem reads_getService (id : Uuid) : Reads (AppServiceService.getService id) := by
  simp [Reads, AppServiceService.getService, Op.writes]

theorem reads_ensureWorkspaceAccess (user : User) (workspaceId : Uuid) :
    Reads (ensureWorkspaceAccess user workspaceId) := by
  unfold ensureWorkspaceAccess Reads
  split <;> simp

theorem reads_ensureServiceAccess (user : User) (serviceId : Uuid) :
    Reads (ensureServiceAccess user serviceId) := by
  unfold ensureServiceAccess
  exact .bind (reads_getService serviceId) fun service =>
    .bind (reads_ensureWorkspaceAccess user _) fun _ => reads_pure _

theorem reads_listAccessibleWorkspaces (user : User) : Reads (listAccessibleWorkspaces user) := by
  unfold listAccessibleWorkspaces
  split
  · simp [Reads, listWorkspaces, Op.writes]
  · refine .bind (reads_mapM (fun role => ?_) _) fun _ => reads_pure _
    refine .bind (reads_attempt (by simp [Reads, getWorkspace, Op.writes])) fun r => ?_
    split <;> simp [Reads]

theorem reads_deploymentFrom (record : DeploymentRecord) : Reads (Deployment.from x record) := by
  simp [Reads, Deployment.from, Op.writes]

theorem reads_listDeployments (serviceId : Uuid) : Reads (listDeployments x serviceId) := by
  unfold listDeployments
  exact .bind (by simp [Reads, Op.writes]) fun records => reads_mapM reads_deploymentFrom records

theorem reads_getDeployment (id : Uuid) : Reads (getDeployment x id) := by
  unfold getDeployment
  exact .bind (by simp [Reads, Op.writes]) fun record =>
    .bind (by simp [Reads]) fun record => reads_deploymentFrom record

theorem reads_ensureEnvironment (workspaceId environmentId : Uuid) :
    Reads (ensureEnvironment workspaceId environmentId) := by
  simp [Reads, ensureEnvironment, listEnvironments, Op.writes]

theorem reads_validateEnvVarScope (input : CreateEnvVarInput) :
    Reads (validateEnvVarScope input) := by
  have hservice : Reads (validateServiceScope input) := by
    unfold validateServiceScope
    split
    · exact .bind (reads_getService _) fun service => by simp [Reads]
    · exact reads_pure _
  unfold validateEnvVarScope
  refine .bind (by simp [Reads, getWorkspace, Op.writes]) fun _ => ?_
  cases input.environmentId with
  | none => exact hservice
  | some environmentId => exact .bind (reads_ensureEnvironment _ _) fun _ => hservice

end reads

/-! ## Handlers -/

namespace Composes

variable {P : (α : Type) → Service α → Prop} (hP : Composes P) {x : Ext} {config : Config}
  {user : User} {α β : Type}

include hP

theorem pure (a : α) : P α (Pure.pure a) := hP.reads (reads_pure a)

theorem reply {y : Service α} (h : P α y) (g : α → β) : P β (do return g (← y)) :=
  hP.bind h fun _ => hP.pure _

theorem validated {valid : Bool} {y : Service ApiReply} (h : P _ y) :
    P _ (Wara.validated valid y) := by
  unfold Wara.validated
  split
  · exact h
  · exact hP.pure _

theorem superAdmin {f : Unit → Service β} (h : user.role = .superAdmin → P β (f ())) :
    P β (ensureSuperAdmin user >>= f) := by
  unfold ensureSuperAdmin
  split
  · next hrole => exact h hrole
  · exact hP.reads (by simp [Reads])

theorem access {workspaceId : Uuid} {f : Unit → Service β}
    (h : canAccessWorkspace user workspaceId = true → P β (f ())) :
    P β (ensureWorkspaceAccess user workspaceId >>= f) := by
  unfold ensureWorkspaceAccess
  split
  · next haccess => exact h haccess
  · exact hP.reads (by simp [Reads])

/-- The part of a handler before `f` reads. -/
theorem after {y : Service α} {f : α → Service β} (h : Reads y) (hf : ∀ a, P β (f a)) :
    P β (y >>= f) := hP.bind (hP.reads h) hf

theorem map {y : Service α} (h : P α y) (g : α → β) : P β (g <$> y) := by
  rw [← bind_pure_comp]
  exact hP.bind h fun _ => hP.pure _

theorem publicRoute (hw : PublicWritersSatisfy P x config) (route : PublicRoute) :
    P _ (route.handle x config) := by
  cases route with
  | jwks => exact hP.reads (by simp [Reads, PublicRoute.handle, AuthService.jwks, Op.writes])
  | login => exact hP.validated (hP.reply (hw.login _) _)
  | refreshSession => exact hP.validated (hP.reply (hw.refreshSession _) _)
  | logout => exact hP.validated (hP.bind (hw.logout _) fun _ => hP.pure _)
  | acceptInvite => exact hP.validated (hP.reply (hw.acceptInvite _) _)

theorem extractUser (ha : ∀ token, P _ (authenticateBearer x config token))
    (authorization : Option String) : P _ (Wara.extractUser x config authorization) := by
  unfold Wara.extractUser currentUser
  refine hP.bind (hP.after (by simp [Reads]) ha) fun user => hP.reads ?_
  exact Flow.all_bind.mpr (Flow.all_call.mpr ⟨rfl, fun _ => Flow.all_pure.mpr trivial⟩)

theorem handle_ordinary {route : UserRoute} (hw : OrdinaryWritersSatisfy P x config user route)
    (hroute : route.Ordinary) : P _ (route.handle x config user) := by
  have hservice := reads_ensureServiceAccess user
  cases route with
  | me => exact hP.pure _
  | listApiTokens => exact hP.reply (hP.reads (by simp [Reads, AuthService.listApiTokens, Op.writes])) _
  | createApiToken payload => exact hP.validated (hP.bind (hw.createApiToken _) fun _ => hP.pure _)
  | revokeApiToken id => exact hP.reply (hw.revokeApiToken id) _
  | listServers =>
    exact hP.superAdmin fun _ => hP.reply (hP.reads (by simp [Reads, listServers, Op.writes])) _
  | createServer =>
    exact hP.validated (hP.superAdmin fun h => hP.reply (hw.createServer _ h) _)
  | getServer =>
    exact hP.superAdmin fun _ => hP.reply (hP.reads (by simp [Reads, getServer, Op.writes])) _
  | checkServer => exact hP.superAdmin fun h => hP.reply (hw.checkServer _ h) _
  | listWorkspaces => exact hP.reply (hP.reads (reads_listAccessibleWorkspaces user)) _
  | createWorkspace => exact hroute.elim
  | getWorkspace =>
    exact hP.access fun _ => hP.reply (hP.reads (by simp [Reads, getWorkspace, Op.writes])) _
  | listEnvironments =>
    exact hP.access fun _ => hP.reply (hP.reads (by simp [Reads, listEnvironments, Op.writes])) _
  | createEnvironment =>
    exact hP.validated (hP.access fun h => hP.reply (hw.createEnvironment _ _ h) _)
  | listServices =>
    exact hP.access fun _ => hP.reply (hP.reads (by simp [Reads, listServices, Op.writes])) _
  | createService => exact hP.validated (hP.access fun h => hP.reply (hw.createService _ h) _)
  | getService id => exact hP.reply (hP.reads (hservice id)) _
  | listCredentials =>
    exact hP.access fun _ => hP.reply (hP.reads (by simp [Reads, listCredentials, Op.writes])) _
  | createCredential => exact hP.validated (hP.access fun h => hP.reply (hw.createCredential _ h) _)
  | listEnvVars =>
    exact hP.access fun _ => hP.reply (hP.reads (by simp [Reads, listEnvVars, Op.writes])) _
  | createEnvVar => exact hP.validated (hP.access fun h => hP.reply (hw.createEnvVar _ h) _)
  | createEnvVars workspaceId payload =>
    refine hP.validated (hP.access fun h => hP.reply (hw.createEnvVars _ fun input hmem => ?_) _)
    obtain ⟨r, -, rfl⟩ := List.mem_map.mp hmem
    exact h
  | listDomains id =>
    exact hP.after (hservice id) fun _ => hP.reply (hP.reads
      (by simp [Reads, listDomains, Op.writes])) _
  | createDomain id =>
    exact hP.validated (hP.after (hservice id) fun _ => hP.reply (hw.createDomain _) _)
  | previewProxy =>
    exact hP.after (by simp [Reads, getDomain, Op.writes]) fun _ =>
      hP.after (hservice _) fun _ => hP.pure _
  | listDeployments id =>
    exact hP.after (hservice id) fun _ => hP.reply (hP.reads (reads_listDeployments id)) _
  | triggerDeploy id => exact hP.after (hservice id) fun _ => hP.reply (hw.triggerDeploy id rfl) _
  | getDeployment id =>
    exact hP.after (reads_getDeployment id) fun _ => hP.after (hservice _) fun _ => hP.pure _
  | restartService id => exact hP.after (hservice id) fun _ => hP.reply (hw.restartService id rfl) _
  | serviceLogs id => exact hP.after (hservice id) fun _ => hP.pure _
  | listWorkspaceTemplates =>
    exact hP.access fun _ => hP.reply (hP.reads
      (by simp [Reads, listWorkspaceTemplates, Op.writes])) _
  | createTemplate => exact hroute.elim
  | createWorkspacesFromTemplate => exact hroute.elim
  | getSettings => exact hP.superAdmin fun _ => hP.pure _
  | updateSettings => exact hP.superAdmin fun _ => hP.validated (hP.pure _)
  | listUsers => exact hP.superAdmin fun _ => hP.reply (hP.reads reads_listUsers) _
  | inviteUser => exact hP.validated (hP.reply (hw.inviteUser _ rfl) _)
  | disableUser id => exact hP.superAdmin fun h => hP.reply (hw.disableUser id h) _
  | reactivateUser id => exact hP.superAdmin fun h => hP.reply (hw.reactivateUser id h) _
  | changeUserRole => exact hP.superAdmin fun h => hP.reply (hw.changeUserRole _ h) _

/-- **Handlers.** What the writing operations satisfy, every handler does. -/
theorem handle {route : UserRoute} (hw : WritersSatisfy P x config user route) :
    P _ (route.handle x config user) := by
  cases route with
  | createWorkspace =>
    exact hP.validated (hP.superAdmin fun h => hP.reply (hw.createWorkspace _ _ h) _)
  | createTemplate => exact hP.validated (hP.access fun h => hP.reply (hw.createTemplate _ h) _)
  | createWorkspacesFromTemplate =>
    exact hP.validated (hP.superAdmin fun h => hP.after (by simp [Reads, getTemplate, Op.writes])
      fun _ => hP.access fun _ => hP.reply (hw.createWorkspacesFromTemplate _ h) _)
  | _ => exact hP.handle_ordinary hw.toOrdinaryWritersSatisfy trivial

end Composes

/-! ## Promises -/

/-- A call keeps its promises, started in a state with `J`. -/
def KeepsFrom (c : Rules Res World) (J : World → Prop) (α : Type) (y : Service α) : Prop :=
  ∀ s, J s → Ends c y (fun _ _ => True) s

/-- It does when each of its operations keeps to the rules, whatever is read. -/
theorem keepsFrom_all {c : Rules Res World} (hc : Close c) {J : World → Prop} {φ : Op → Prop}
    {α : Type} {y : Service α} (h : Flow.All φ y fun _ => True)
    (hφ : ∀ o, φ o → ∀ s r s', c.step o s r s' → c.guar o s r s') : KeepsFrom c J α y := by
  intro s _
  rw [← bind_pure y]
  refine ends_all h (fun o ho s₁ r s₂ hs => ?_) fun _ _ _ _ => ends_pure fun _ _ => trivial
  have hg := hφ o ho s₁ r s₂ hs
  exact ⟨hg, hc.within hs hg⟩

theorem composes_keepsFrom {c : Rules Res World} (hc : Close c) {J : World → Prop}
    (hJ : ∀ s s', c.rely s s' → J s → J s') : Composes (KeepsFrom c J) where
  reads {α y} h s _ := by
    rw [← bind_pure y]
    exact ends_reads hc.toTame h fun _ _ _ _ => ends_pure fun _ _ => trivial
  bind {α β y f} h hf s hs :=
    Ends.bind hc (h s hs) fun a s' hr _ => hf a s' (hJ s s' hr hs)

end Wara
