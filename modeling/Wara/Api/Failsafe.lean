import Wara.Api.AtOnce
import Wara.Api.Owned
import Wara.Api.Uses
import Wara.Interleave.Lastly

/-!
# Requests that fail leave no trace

Most handlers write in one statement, after which nothing can fail. So when such
a request is answered with an error, or its body does not validate, it has
changed nothing, whatever else went on, but that its API token was used. And the
handlers behind `GET` write nothing at all.
-/

namespace Wara

open Interleave Store Service Docker AuthService WorkspaceService AppServiceService DomainService
  DeploymentService WorkspaceTemplateService CredentialService ServerService

theorem never_of_reads {o : Op} (h : o.writes = []) : Prog.Never Op.Commits o := by
  rintro r ⟨-, w, hw, -⟩
  rw [h] at hw
  cases hw

/-! ## Rules -/

/-- The call commits by its last step that can fail, and ends in `Q` when it has. A structure, so
that the call is not unfolded where this is used. -/
structure Failsafe {α : Type} (Q : α → Prop) (y : Service α) : Prop where
  prog : Prog.Lastly Op.Commits (fun r : Except Abort α => ∃ a, r = .ok a ∧ Q a) y

/-- The call writes nothing and does not fail. -/
structure Certain {α : Type} (Q : α → Prop) (y : Service α) : Prop where
  prog : Prog.All (fun o => o.writes = []) y fun r => ∃ a, r = .ok a ∧ Q a

section rules

variable {α β : Type} {Q : β → Prop} {P : α → Prop} {y : Service α} {f : α → Service β} {t : Table}

theorem certain_pure {b : β} (h : Q b) : Certain Q (pure b) := ⟨b, rfl, h⟩

theorem Failsafe.of_reads {z : Service β} (h : Reads z) : Failsafe Q z :=
  ⟨Prog.All.lastly (Prog.All.mono h (fun _ ho => never_of_reads ho) fun _ h => h)⟩

theorem Failsafe.mono {Q' : β → Prop} {z : Service β} (h : Failsafe Q z)
    (hQ : ∀ b, Q b → Q' b) : Failsafe Q' z := by
  refine ⟨?_⟩
  rw [← Prog.bind_ret z]
  exact h.prog.followed (fun _ => trivial) fun r ⟨b, hr, hb⟩ => ⟨b, hr, hQ b hb⟩

/-- A first part that commits nothing. -/
theorem Failsafe.after_never (h : Flow.All (Prog.Never Op.Commits) y fun _ => True)
    (hf : ∀ a, Failsafe Q (f a)) : Failsafe Q (y >>= f) := by
  refine ⟨?_⟩
  rw [Flow.bind_eq]
  refine Prog.Lastly.after h fun r _ => ?_
  cases r with
  | ok a => exact (hf a).prog
  | error e => trivial

theorem Failsafe.after (h : Reads y) (hf : ∀ a, Failsafe Q (f a)) : Failsafe Q (y >>= f) :=
  .after_never (Flow.All.mono h (fun _ ho => never_of_reads ho) fun _ h => h) hf

/-- A part that commits, and the rest, which does not fail. -/
theorem Failsafe.followed (h : Failsafe P y) (hf : ∀ a, P a → Certain Q (f a))
    (hreads : ∀ a, Reads (f a)) : Failsafe Q (y >>= f) := by
  refine ⟨?_⟩
  rw [Flow.bind_eq]
  refine h.prog.followed (fun r => ?_) fun r ⟨a, hr, ha⟩ => ?_
  · cases r with
    | ok a => exact (Failsafe.of_reads (Q := Q) (hreads a)).prog
    | error e => trivial
  · subst hr
    exact (hf a ha).prog.mono (fun _ ho => never_of_reads ho) fun _ h => h

theorem Failsafe.reply {g : α → β} (h : Failsafe P y) (hg : ∀ a, P a → Q (g a)) :
    Failsafe Q (y >>= fun a => pure (g a)) :=
  h.followed (fun a ha => certain_pure (hg a ha)) fun _ => reads_pure _

/-- One statement. -/
theorem failsafe_write {w : Write} : Failsafe (fun _ => True)
    (Flow.call (.write w) >>= fun r => mapErr mapToastyError r) := by
  refine ⟨fun r => ?_⟩
  cases r with
  | ok u => exact ⟨fun _ => ⟨u, rfl, trivial⟩, fun _ => trivial⟩
  | error e => exact ⟨fun hr => (by cases hr.1), fun _ => trivial⟩

theorem failsafe_update {f : Filter} {sets : List (Nat × Value)} :
    Failsafe (fun _ => True) (update t f sets) := failsafe_write

theorem failsafe_create {r : Row t} : Failsafe (fun _ => True) (create .handle r) := by
  unfold create
  exact Failsafe.reply failsafe_write fun _ _ => trivial

theorem failsafe_commit {ws : List Write} : Failsafe (fun _ => True) (commit ws) := by
  refine ⟨fun r => ?_⟩
  cases r with
  | ok u => exact ⟨fun _ => ⟨u, rfl, trivial⟩, fun _ => trivial⟩
  | error e => exact ⟨fun hr => (by cases hr.1), fun _ => trivial⟩

end rules

/-! ## Services -/

section services

variable {x : Ext} {config : Config} {secretKey : String} {user : User} {β : Type} {t : Table}
  {Q : β → Prop}

theorem failsafe_createApiToken (input : CreateApiTokenInput) :
    Failsafe (fun _ => True) (createApiToken x input) := by
  unfold createApiToken
  refine .after (by simp [Reads, generateApiToken, Op.writes]) fun rawToken =>
    .after (by simp [Reads, Op.writes]) fun time => .after (by simp [Reads, Op.writes]) fun id => ?_
  exact failsafe_create.reply fun _ _ => trivial

theorem failsafe_createServer (payload : CreateServerInput) :
    Failsafe (fun _ => True) (createServer x secretKey payload) := by
  unfold createServer
  refine .after (by simp [Reads, validateSshKeyPair]) fun _ =>
    .after (by simp [Reads, Op.writes]) fun id => ?_
  exact failsafe_create.reply fun _ _ => trivial

theorem failsafe_checkServer (id : Uuid) :
    Failsafe (fun _ => True) (checkServer x secretKey id) := by
  unfold checkServer
  refine .after (by simp [Reads, getServer, Op.writes]) fun server =>
    .after (by simp [Reads]) fun target => .after (by simp [Reads, Op.writes]) fun time => ?_
  exact failsafe_update.reply fun _ _ => trivial

theorem failsafe_createWorkspace (name : String) (description : Option String) :
    Failsafe (fun _ => True) (WorkspaceService.createWorkspace name description) := by
  unfold WorkspaceService.createWorkspace
  refine .after (by simp [Reads, Op.writes]) fun _ => .after (by simp [Reads, Op.writes]) fun id =>
    .after (by simp [Reads, Executor.op, Op.writes]) fun workspace =>
    .after (by simp [Reads, Op.writes]) fun id' =>
    .after (by simp [Reads, Executor.op, Op.writes]) fun environment => ?_
  exact failsafe_commit.reply fun _ _ => trivial

theorem failsafe_createEnvironment (workspaceId : Uuid) (name : String) :
    Failsafe (fun _ => True) (WorkspaceService.createEnvironment workspaceId name) := by
  unfold WorkspaceService.createEnvironment
  exact .after (by simp [Reads, getWorkspace, Op.writes]) fun _ =>
    .after (by simp [Reads, Op.writes]) fun id => failsafe_create (t := .environments)

theorem failsafe_createService (input : CreateAppServiceInput) :
    Failsafe (fun _ => True) (AppServiceService.createService input) := by
  unfold AppServiceService.createService
  refine .after (by simp [Reads, getWorkspace, Op.writes]) fun _ =>
    .after (reads_ensureEnvironment _ _) fun _ => .after (by simp [Reads, Op.writes]) fun id => ?_
  exact failsafe_create.reply fun _ _ => trivial

theorem failsafe_createCredential (input : CreateCredentialInput) :
    Failsafe (fun _ => True) (CredentialService.createCredential x secretKey input) := by
  unfold CredentialService.createCredential
  refine .after (by simp [Reads, getWorkspace, Op.writes]) fun _ =>
    .after (by simp [Reads, Op.writes]) fun id => ?_
  exact failsafe_create.reply fun _ _ => trivial

theorem failsafe_createEnvVar (input : CreateEnvVarInput) :
    Failsafe (fun _ => True) (CredentialService.createEnvVar x secretKey input) := by
  unfold CredentialService.createEnvVar createEnvVarRecord
  refine .after (reads_validateEnvVarScope input) fun _ => ?_
  rw [bind_assoc]
  exact .after (by simp [Reads, Op.writes]) fun id => failsafe_create.reply fun _ _ => trivial

theorem failsafe_createEnvVars (inputs : List CreateEnvVarInput) :
    Failsafe (fun _ => True) (CredentialService.createEnvVars x secretKey inputs) := by
  unfold CredentialService.createEnvVars
  have hscopes : Reads (inputs.forM validateEnvVarScope) :=
    all_forM fun input _ => reads_validateEnvVarScope input
  have hcreated : Reads (inputs.mapM (createEnvVarRecord x secretKey .transaction)) :=
    reads_mapM (fun input => by simp [Reads, createEnvVarRecord, Executor.op, Op.writes]) inputs
  refine .after hscopes fun _ => .after (by simp [Reads, Op.writes]) fun _ =>
    .after hcreated fun created => ?_
  exact failsafe_commit.reply fun _ _ => trivial

theorem failsafe_createDomain (input : CreateDomainInput) :
    Failsafe (fun _ => True) (DomainService.createDomain input) := by
  unfold DomainService.createDomain
  refine .after (reads_getService _) fun _ => .after (by simp [Reads, Op.writes]) fun id => ?_
  exact failsafe_create.reply fun _ _ => trivial

theorem certain_deploymentFrom (record : DeploymentRecord) :
    Certain (fun _ => True) (Deployment.from x record) := by
  unfold Deployment.from
  cases x.dateTimeFromStr record.createdAt with
  | some time => exact certain_pure trivial
  | none => exact ⟨rfl, fun time => ⟨_, rfl, trivial⟩⟩

theorem failsafe_runAndRecord (executor : DeployExecutor) (serviceId : Uuid)
    (commands : List RemoteCommand) :
    Failsafe (fun _ => True) (runAndRecord x executor serviceId commands) := by
  unfold runAndRecord createDeployment
  refine .after (by simp [Reads]) fun run => .after (by simp [Reads, Op.writes]) fun id =>
    .after (by simp [Reads, Op.writes]) fun workflowId =>
    .after (by simp [Reads, Op.writes]) fun createdAt => ?_
  exact failsafe_create.followed (fun record _ => certain_deploymentFrom record)
    fun record => reads_deploymentFrom record

theorem failsafe_triggerDeploy (executor : DeployExecutor) (serviceId : Uuid) :
    Failsafe (fun _ => True) (triggerDeploy x config executor serviceId) := by
  unfold triggerDeploy
  exact .after (reads_getService _) fun service => .after (by simp [Reads]) fun commands =>
    failsafe_runAndRecord executor serviceId commands

theorem failsafe_restartService (executor : DeployExecutor) (serviceId : Uuid) :
    Failsafe (fun _ => True) (restartService x executor serviceId) := by
  unfold restartService
  exact .after (reads_getService _) fun service => .after (by simp [Reads]) fun _ =>
    failsafe_runAndRecord executor serviceId _

theorem failsafe_createTemplate (input : CreateTemplateInput) :
    Failsafe (fun _ => True) (createTemplate input) := by
  unfold createTemplate
  refine .after (by simp [Reads, getWorkspace, Op.writes]) fun _ =>
    .after (by simp [Reads, Op.writes]) fun id => ?_
  exact failsafe_create.reply fun _ _ => trivial

theorem failsafe_inviteUser (input : InviteUserInput) :
    Failsafe (fun _ => True) (inviteUser x config input) := by
  unfold inviteUser
  refine .after (by simp [Reads]) fun _ => .after (by simp [Reads]) fun _ =>
    .after (reads_attempt (reads_of_covers (x := x) (covers_findUserByEmail _))) fun found =>
    .after (by simp [Reads]) fun _ =>
    .after (reads_of_covers (x := x) (covers_ensureWorkspaceExists _)) fun _ =>
    .after (by simp [Reads, Op.writes]) fun now =>
    .after (reads_of_covers (x := x) (covers_afterSeconds _ _)) fun expiresAt =>
    .after (by simp [Reads, generateInviteToken, Op.writes]) fun rawToken =>
    .after (by simp [Reads, Op.writes]) fun _ => .after (by simp [Reads, Op.writes]) fun id =>
    .after (by simp [Reads, Executor.op, Op.writes]) fun userRecord =>
    .after (by simp [Reads, Op.writes]) fun id' =>
    .after (by simp [Reads, Executor.op, Op.writes]) fun invite =>
    .after (by simp [Reads, Op.writes]) fun id'' =>
    .after (by simp [Reads, Executor.op, Op.writes]) fun role => ?_
  exact failsafe_commit.reply fun _ _ => trivial

theorem failsafe_logout (input : LogoutInput) :
    Failsafe (fun _ => True) (logout x config input) := by
  unfold logout
  exact .after (reads_of_covers (x := x) (covers_activeRefreshTokenRecord _)) fun record =>
    .after (by simp [Reads, Op.writes]) fun time => failsafe_update

end services

/-! ## Handlers -/

/-- Handlers that write nothing. -/
def UserRoute.Reading : UserRoute → Prop
  | .me | .listApiTokens | .listServers | .getServer _ | .listWorkspaces | .getWorkspace _
  | .listEnvironments _ | .listServices _ | .getService _ | .listCredentials _ | .listEnvVars _
  | .listDomains _ | .previewProxy _ | .listDeployments _ | .getDeployment _ | .serviceLogs _
  | .listWorkspaceTemplates _ | .getSettings | .updateSettings _ | .listUsers => True
  | _ => False

/-- Handlers that write in one statement. The others make several workspaces, or change an account
or revoke a token and read it again. -/
def UserRoute.CommitsLast : UserRoute → Prop
  | .revokeApiToken _ | .createWorkspacesFromTemplate _ _ | .disableUser _ | .reactivateUser _
  | .changeUserRole _ _ => False
  | _ => True

def PublicRoute.CommitsLast : PublicRoute → Prop
  | .jwks | .logout _ => True
  | _ => False

def ApiRequest.CommitsLast : ApiRequest → Prop
  | .anyone route => route.CommitsLast
  | .user _ route => route.CommitsLast

/-- The request is answered as asked for. -/
def Answered (reply : ApiReply) : Prop := reply ≠ .rejected

section handlers

variable {x : Ext} {config : Config} {user : User} {α : Type} {Q : α → Prop} {y : Service α}

theorem failsafe_validated {valid : Bool} {y : Service ApiReply} (h : Failsafe Answered y) :
    Failsafe Answered (validated valid y) := by
  unfold validated
  split
  · exact h
  · exact .of_reads (reads_pure _)

theorem failsafe_checked {f : Unit → Service α} (h : Failsafe Q (f ())) :
    Failsafe Q (ensureSuperAdmin user >>= f) := by
  unfold ensureSuperAdmin
  split
  · exact h
  · exact .of_reads (by simp [Reads])

theorem failsafe_accessed {workspaceId : Uuid} {f : Unit → Service α} (h : Failsafe Q (f ())) :
    Failsafe Q (ensureWorkspaceAccess user workspaceId >>= f) :=
  .after (reads_ensureWorkspaceAccess user workspaceId) fun _ => h

theorem Failsafe.answer {g : α → ApiReply} (h : Failsafe (fun _ => True) y)
    (hg : ∀ a, g a ≠ .rejected) : Failsafe Answered (y >>= fun a => pure (g a)) :=
  h.reply fun a _ => hg a

theorem composes_reads : Composes fun _ y => Reads y := ⟨fun h => h, fun h hf => h.bind hf⟩

theorem reads_handle {route : UserRoute} (hroute : route.Reading) :
    Reads (route.handle x config user) := by
  have hP := composes_reads
  have hservice := reads_ensureServiceAccess user
  cases route with
  | me => exact reads_pure _
  | listApiTokens => exact hP.reply (by simp [Reads, AuthService.listApiTokens, Op.writes]) _
  | listServers =>
    exact hP.superAdmin fun _ => hP.reply (by simp [Reads, listServers, Op.writes]) _
  | getServer => exact hP.superAdmin fun _ => hP.reply (by simp [Reads, getServer, Op.writes]) _
  | listWorkspaces => exact hP.reply (reads_listAccessibleWorkspaces user) _
  | getWorkspace => exact hP.access fun _ => hP.reply (by simp [Reads, getWorkspace, Op.writes]) _
  | listEnvironments =>
    exact hP.access fun _ => hP.reply (by simp [Reads, listEnvironments, Op.writes]) _
  | listServices => exact hP.access fun _ => hP.reply (by simp [Reads, listServices, Op.writes]) _
  | getService id => exact hP.reply (hservice id) _
  | listCredentials =>
    exact hP.access fun _ => hP.reply (by simp [Reads, listCredentials, Op.writes]) _
  | listEnvVars => exact hP.access fun _ => hP.reply (by simp [Reads, listEnvVars, Op.writes]) _
  | listDomains id =>
    exact .bind (hservice id) fun _ => hP.reply (by simp [Reads, listDomains, Op.writes]) _
  | previewProxy id =>
    exact .bind (by simp [Reads, getDomain, Op.writes]) fun domain =>
      .bind (hservice _) fun _ => reads_pure _
  | listDeployments id =>
    exact .bind (hservice id) fun _ => hP.reply (reads_listDeployments id) _
  | getDeployment id =>
    exact .bind (reads_getDeployment id) fun _ => .bind (hservice _) fun _ => reads_pure _
  | serviceLogs id => exact .bind (hservice id) fun _ => reads_pure _
  | listWorkspaceTemplates =>
    exact hP.access fun _ => hP.reply (by simp [Reads, listWorkspaceTemplates, Op.writes]) _
  | getSettings => exact hP.superAdmin fun _ => reads_pure _
  | updateSettings => exact hP.superAdmin fun _ => hP.validated (reads_pure _)
  | listUsers => exact hP.superAdmin fun _ => hP.reply reads_listUsers _
  | _ => exact hroute.elim

/-- A handler that commits last, once its user is known. -/
theorem failsafe_handle {route : UserRoute} (hroute : route.CommitsLast) :
    Failsafe Answered (route.handle x config user) := by
  cases route with
  | createApiToken payload =>
    exact failsafe_validated ((failsafe_createApiToken _).answer fun _ h => by cases h)
  | createServer payload =>
    exact failsafe_validated (failsafe_checked ((failsafe_createServer _).answer
      fun _ h => by cases h))
  | checkServer id =>
    exact failsafe_checked ((failsafe_checkServer id).answer fun _ h => by cases h)
  | createWorkspace payload =>
    exact failsafe_validated (failsafe_checked ((failsafe_createWorkspace _ _).answer
      fun _ h => by cases h))
  | createEnvironment workspaceId payload =>
    exact failsafe_validated (failsafe_accessed ((failsafe_createEnvironment _ _).answer
      fun _ h => by cases h))
  | createService workspaceId payload =>
    exact failsafe_validated (failsafe_accessed ((failsafe_createService _).answer
      fun _ h => by cases h))
  | createCredential workspaceId payload =>
    exact failsafe_validated (failsafe_accessed ((failsafe_createCredential _).answer
      fun _ h => by cases h))
  | createEnvVar workspaceId payload =>
    exact failsafe_validated (failsafe_accessed ((failsafe_createEnvVar _).answer
      fun _ h => by cases h))
  | createEnvVars workspaceId payload =>
    exact failsafe_validated (failsafe_accessed ((failsafe_createEnvVars _).answer
      fun _ h => by cases h))
  | createDomain serviceId payload =>
    exact failsafe_validated (.after (reads_ensureServiceAccess _ _) fun _ =>
      (failsafe_createDomain _).answer fun _ h => by cases h)
  | triggerDeploy serviceId =>
    exact .after (reads_ensureServiceAccess _ _) fun _ =>
      (failsafe_triggerDeploy _ _).answer fun _ h => by cases h
  | restartService serviceId =>
    exact .after (reads_ensureServiceAccess _ _) fun _ =>
      (failsafe_restartService _ _).answer fun _ h => by cases h
  | createTemplate workspaceId payload =>
    exact failsafe_validated (failsafe_accessed ((failsafe_createTemplate _).answer
      fun _ h => by cases h))
  | inviteUser payload =>
    exact failsafe_validated ((failsafe_inviteUser _).answer fun _ h => by cases h)
  | revokeApiToken | createWorkspacesFromTemplate | disableUser | reactivateUser | changeUserRole =>
    exact hroute.elim
  | _ => exact .of_reads (reads_handle trivial)

theorem never_authenticateBearer (token : String) :
    Flow.All (Prog.Never Op.Commits) (authenticateBearer x config token) fun _ => True := by
  have hcovers : (AuthRequest.authenticateBearer token).Covers x
      (authenticateBearer x config token) := covers_authenticateBearer token
  refine Flow.All.mono hcovers (fun o ho => ?_) fun _ h => h
  rcases ho with ho | ho
  · exact never_of_reads ho
  · cases ho with
    | useApiToken id lastUsedAt =>
      rintro r ⟨-, w, hw, hnot⟩
      obtain rfl := List.mem_singleton.mp hw
      exact hnot fun p hp => by rw [List.mem_singleton.mp hp]

/-- Whoever asks, finding out who it is commits nothing. -/
theorem never_extractUser (authorization : Option String) :
    Flow.All (Prog.Never Op.Commits) (extractUser x config authorization) fun _ => True := by
  have hcaller (user : User) : Flow.All (Prog.Never Op.Commits)
      (Flow.call (Op.caller user) >>= fun _ => (pure user : Service User)) fun _ => True :=
    Flow.all_bind.mpr (Flow.all_call.mpr ⟨never_of_reads rfl, fun _ => Flow.all_pure.mpr trivial⟩)
  unfold extractUser currentUser
  refine Flow.all_bind.mpr (Flow.All.mono (Q := fun _ => True) ?_ (fun _ h => h)
    fun user _ => hcaller user)
  exact Flow.all_bind.mpr ((all_okOr _ _).mpr fun token _ => never_authenticateBearer token)

theorem failsafe_serve {q : ApiRequest} (hq : q.CommitsLast) :
    Failsafe Answered (q.serve x config) := by
  cases q with
  | anyone route =>
    cases route with
    | jwks => exact .of_reads (by simp [Reads, ApiRequest.serve, PublicRoute.handle,
        AuthService.jwks, Op.writes])
    | logout payload =>
      exact failsafe_validated ((failsafe_logout _).answer fun _ h => by cases h)
    | login | refreshSession | acceptInvite => exact hq.elim
  | user authorization route =>
    exact .after_never (never_extractUser authorization) fun user => failsafe_handle hq

theorem failsafe_request {q : ApiRequest} (hq : q.CommitsLast) :
    Failsafe (fun reply => ∃ answer, reply = some answer ∧ Answered answer)
      ((Task.job (.request q)).serve x config) := by
  show Failsafe _ (some <$> q.serve x config)
  rw [← bind_pure_comp]
  exact (failsafe_serve hq).reply fun reply h => ⟨reply, rfl, h⟩

end handlers

/-! ## Runs -/

section runs

variable {x : Ext} {tasks : List (Config × Task)} {w : World} {P' : JobPool}
  {es : List (Event Res World)}

/-- **Requests that fail leave no trace.** Among any tasks in any order of their statements, a
request whose handler commits last changes the database at most once, in one statement or one
transaction, but for the note that the API token it presents was used; and if it has ended with an
error, or its body did not validate, it has not changed it at all. -/
theorem requests_all_or_nothing (hr : Runs exec (TaskPool.of x tasks w) es P') {i : Nat}
    {config : Config} {q : ApiRequest} (hi : tasks[i]? = some (config, .job (.request q)))
    (hq : q.CommitsLast) :
    (es.Pairwise fun e e' => e.tid = i → e'.tid = i →
      SameButUse (q.Presents x) e.pre.db e.post.db ∨
        SameButUse (q.Presents x) e'.pre.db e'.post.db) ∧
    ∀ a, P'.threads[i]? = some (.ret a) →
      (∀ reply, a = .ok (some reply) → reply = .rejected) →
        ∀ e ∈ es, e.tid = i → SameButUse (q.Presents x) e.pre.db e.post.db := by
  have hp := TaskPool.thread_of (x := x) (w := w) hi
  have hfailsafe : Failsafe _ ((Task.job (.request q)).serve x config) := failsafe_request hq
  have hl := hfailsafe.prog
  have hstep := sameButUse_of_runs hr hi
  refine ⟨?_, fun a hend ha e he htid => ?_⟩
  · refine (hr.committed_once hp hl).imp_of_mem fun {e e'} he he' honce htid htid' => ?_
    by_cases hc : e.op.Commits e.res
    · exact .inr (hstep e' he' htid' (honce htid htid' hc))
    · exact .inl (hstep e he htid hc)
  · refine hstep e he htid (hr.nothing_committed hp hl hend (fun hgood => ?_) e he htid)
    obtain ⟨reply, hreply, answer, rfl, hanswered⟩ := hgood
    exact hanswered (ha answer hreply)

end runs

namespace Symbolic

/-- Bob asks twice for the environment, at the same time. -/
def twiceStaging : List (Config × Task) :=
  List.replicate 2 (config "A", .job (.request (.user (some "Bearer wara_t")
    (.createEnvironment 9 ⟨"staging"⟩))))

/-- The connection is lost in the last statement of the first. -/
def twiceStagingSteps : List (Nat × Ans) :=
  [(0, .done), (1, .done), (0, .done), (0, .time ⟨10000000000⟩), (1, .done), (0, .done),
    (1, .time ⟨10000000000⟩), (0, .done), (0, .done), (0, .done), (1, .done), (0, .uuid 11),
    (1, .done), (1, .done), (1, .done), (0, .fail "connection lost"), (1, .uuid 21), (1, .done)]

def twiceStagingPool : JobPool := TaskPool.of ext twiceStaging (.start manager)

/-- The activity has ended with an error. -/
def refused : Prog Res (Except Abort (Option ApiReply)) → Bool
  | .ret (.error _) => true
  | _ => false

theorem eq_of_refused {p : Prog Res (Except Abort (Option ApiReply))} (h : refused p = true) :
    ∃ e, p = .ret (.error e) := by
  cases p with
  | op o k => cases h
  | ret r => cases r with
    | error e => exact ⟨e, rfl⟩
    | ok reply => cases h

theorem twiceStaging_ends : (twiceStagingPool.run exec twiceStagingSteps).map
    (fun P' : JobPool => (P'.threads.map refused,
      (P'.state.db.rows .environments : List Environment))) =
      some ([true, false], [⟨21, 9, "staging"⟩]) := by decide +kernel

/-- The first request leaves nothing but the note that Bob's token was used. -/
theorem requests_all_or_nothing_staging : ∃ (P' : JobPool) (es : List (Event Res World)),
    Runs exec twiceStagingPool es P' ∧
      P'.state.db.rows .environments = ([⟨21, 9, "staging"⟩] : List Environment) ∧
      ∀ e ∈ es, e.tid = 0 →
        SameButUse (ApiRequest.Presents ext (.user (some "Bearer wara_t")
          (.createEnvironment 9 ⟨"staging"⟩))) e.pre.db e.post.db := by
  obtain ⟨P', hrun, hends⟩ := Option.map_eq_some_iff.mp twiceStaging_ends
  obtain ⟨hrefused, henvironments⟩ := Prod.mk.inj hends
  have hr := Pool.run_runs hrun
  have hfirst : (P'.threads.map refused)[0]? = some true := by rw [hrefused]; rfl
  obtain ⟨p, hp, hpr⟩ := Option.map_eq_some_iff.mp ((List.getElem?_map ..).symm.trans hfirst)
  obtain ⟨e, rfl⟩ := eq_of_refused hpr
  exact ⟨P', _, hr, henvironments, (requests_all_or_nothing hr (i := 0) rfl trivial).2 _ hp
    fun _ h => by cases h⟩

end Symbolic

end Wara
