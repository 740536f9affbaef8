import Wara.Api.Composed
import Wara.Api.Jobs
import Wara.External.Symbolic
import Wara.Platform.Linked

/-!
# Every reachable database is coherent

Requests of the authentication service refer to users that they have read, or
that they insert in the same transaction; the user of a request is one that the
extractor has read. So every task is linked, and coherence is an invariant of
any interleaving of them.
-/

namespace Wara

open Interleave Store Service AuthService WorkspaceService AppServiceService DomainService
  DeploymentService WorkspaceTemplateService CredentialService ServerService

/-! ## Authentication -/

/-- The requests that insert rows which refer to others. -/
def AuthRequest.Links : AuthRequest → Prop
  | .login _ | .inviteUser _ | .acceptInvite _ | .refreshSession _ | .createApiToken _ => True
  | _ => False

section auth

variable {x : Ext} {config : Config} {q : AuthRequest} {s : World} {α β : Type}

theorem Op.free_of_insert {t : Table} {r : Row t} (h : ∀ db : Db, needs db.Has r) :
    Op.Free (.write (.insert t r)) := by
  refine ⟨tidy_insert, fun db => References.supported_of_has fun u r' hr' => ?_⟩
  cases List.mem_singleton.mp hr'
  exact h db

theorem free_of_canIssue (hq : ¬ q.Links) {o : Op} (h : q.CanIssue x o) : o.Free := by
  rcases h with h | h
  · exact Op.free_of_reads h
  · cases h with
    | createKey | createAdmin => exact Op.free_of_insert fun _ => trivial
    | login | invite | acceptUser | acceptInvite | acceptLogin | refresh | createApiToken =>
      exact absurd trivial hq
    | _ => exact free_update (by simp [fixedCols])

theorem free_of_covers (hq : ¬ q.Links) {y : Service α} (h : q.Covers x y) :
    Flow.All Op.Free y fun _ => True :=
  Flow.All.mono h (fun _ ho => free_of_canIssue hq ho) fun _ h => h

theorem linked_of_covers (hq : ¬ q.Links) {y : Service α} (h : q.Covers x y) : Linked y :=
  linked_free (free_of_covers hq h)

theorem ends_startSession_linked {user : User} (h : s.HasUser user.id) :
    Ends linking (startSession x config user) (fun _ _ => True) s := by
  unfold startSession issueRefreshToken
  simp only [bind_assoc]
  refine ends_nowV7 fun id s₁ h₁ => ends_free (Q := fun _ => True) (by simp) fun now s₂ _ h₂ => ?_
  refine ends_free (free_of_covers (q := .jwks) (x := x) nofun (covers_afterSeconds ..))
    fun expiresAt s₃ _ h₃ => ?_
  refine ends_insert (fun s₄ h₄ => (((h.mono h₁).mono h₂).mono h₃).mono h₄) fun s₄ _ => ?_
  refine ends_free (free_of_covers (q := .jwks) (x := x) nofun (covers_signRefreshToken ..))
    fun token s₅ _ _ => ?_
  rw [pure_bind]
  refine ends_free (free_of_covers (q := .jwks) (x := x) nofun (covers_signAccessToken ..))
    fun access s₆ _ _ => ends_pure fun _ _ => trivial

/-- The user returned is the one of the record. -/
theorem all_userFromRecord {φ : Op → Prop} (hφ : ∀ t f, φ (.select t f)) (record : UserRecord) :
    Flow.All φ (userFromRecord record) fun user => user.id = record.id := by
  unfold userFromRecord
  simp [hφ, User.from]

theorem ends_userFromRecord_linked {record : UserRecord} {f : User → Service β}
    {ok : β → World → Prop} (hr : s.HasUser record.id)
    (h : ∀ user s', s.Keeps s' → s'.HasUser user.id → Ends linking (f user) ok s') :
    Ends linking (userFromRecord record >>= f) ok s := by
  refine ends_free (all_userFromRecord (fun _ _ => Op.free_of_reads rfl) record) fun user s' hid hs => ?_
  exact h user s' hs (hid ▸ hr.mono hs)

theorem linked_login (input : LoginInput) : Linked (login x config input) := by
  unfold login findUserByEmail
  intro s
  rw [bind_assoc]
  refine ends_first tame_linking fun s₁ _ => ends_okOr fun record hrecord => ?_
  obtain ⟨hm, -⟩ := Layout.mem_of_head?_select hrecord
  have huser : s₁.HasUser record.id := ⟨record, hm, rfl⟩
  refine ends_throwIf fun _ => ends_throwIf fun _ => ?_
  refine ends_free (Q := fun _ => True) (by simp [verifyPassword]) fun _ s₂ _ h₂ => ?_
  exact ends_userFromRecord_linked (huser.mono h₂) fun user s₃ _ => ends_startSession_linked

theorem linked_acceptInvite (input : AcceptInviteInput) : Linked (acceptInvite x config input) := by
  unfold acceptInvite
  intro s
  refine ends_findOpenInvite tame_linking fun s₁ invite _ _ _ _ => ?_
  refine ends_free (Q := fun _ => True) (by simp [parseRfc3339]) fun expiresAt s₂ _ _ => ?_
  refine ends_free (Q := fun _ => True) (by simp) fun time s₃ _ _ => ends_throwIf fun _ => ?_
  refine ends_getUserRecord tame_linking fun s₄ u _ _ _ => ?_
  refine ends_throwIf fun _ => ends_throwIf fun _ => ?_
  refine ends_free (Q := fun _ => True) (by simp [hashPassword]) fun hash s₅ _ _ => ?_
  refine ends_free (Q := fun _ => True) ?_ fun _ s₆ _ _ => ?_
  · exact all_update.mpr ⟨free_update (by simp [fixedCols]), trivial⟩
  refine ends_free (Q := fun _ => True) (by simp) fun acceptedAt s₇ _ _ => ?_
  refine ends_free (Q := fun _ => True) ?_ fun _ s₈ _ _ => ?_
  · exact all_update.mpr ⟨free_update (by simp [fixedCols]), trivial⟩
  unfold getUser
  rw [bind_assoc]
  refine ends_getUserRecord tame_linking fun s₉ record _ hm _ => ?_
  exact ends_userFromRecord_linked ⟨record, hm, rfl⟩ fun user s' _ => ends_startSession_linked

theorem linked_refreshSession (input : RefreshSessionInput) :
    Linked (refreshSession x config input) := by
  unfold refreshSession
  intro s
  refine ends_activeRefreshTokenRecord tame_linking fun _ s₁ _ record _ _ _ _ _ _ _ => ?_
  refine ends_getUserRecord tame_linking fun s₂ u _ hm _ => ends_throwIf fun _ => ?_
  refine ends_userFromRecord_linked ⟨u, hm, rfl⟩ fun user s₃ _ huser => ?_
  refine ends_free (Q := fun _ => True) (by simp) fun _ s₄ _ h₄ => ?_
  have hissue : Flow.All Op.Free (issueRefreshToken x config .transaction user.id)
      fun issue => issue.record.userId = user.id :=
    Flow.All.mono (all_issueRefreshToken (q := .jwks) (fun _ _ _ => .inl rfl)
      fun _ _ _ _ => rfl) (fun _ ho => free_of_canIssue (q := .jwks) nofun ho) fun _ h => h
  refine ends_free hissue fun issue s₅ hid h₅ => ?_
  refine ends_free (Q := fun _ => True) (by simp) fun revokedAt s₆ _ h₆ => ?_
  refine ends_free (Q := fun _ => True) (by simp) fun _ s₇ _ h₇ => ?_
  have huser₇ : s₇.HasUser user.id := (((huser.mono h₄).mono h₅).mono h₆).mono h₇
  refine ends_commitRows ?_ (fun s₈ h₈ => References.supported_of_has fun t r hr => ?_)
    fun s₈ _ => ?_
  · simp [Op.Tidy, Op.writes, Write.sets, Write.table, fixedCols]
  · rcases List.mem_cons.mp hr with hr | hr
    · cases hr
      show s₈.HasUser issue.record.userId
      exact hid ▸ huser₇.mono h₈
    · cases List.mem_singleton.mp hr
  · refine ends_free (free_of_covers (q := .jwks) (x := x) nofun (covers_signAccessToken ..))
      fun access s₉ _ _ => ends_pure fun _ _ => trivial

theorem linked_inviteUser (input : InviteUserInput) : Linked (inviteUser x config input) := by
  unfold inviteUser
  intro s
  refine ends_throwIf fun _ => ends_throwIf fun _ => ?_
  refine ends_free (free_of_covers (q := .jwks) (x := x) nofun
    (covers_attempt (covers_findUserByEmail _))) fun found s₁ _ _ => ends_throwIf fun _ => ?_
  refine ends_ensureWorkspaceExists fun s₂ _ hws => ?_
  refine ends_free (Q := fun _ => True) (by simp) fun now s₃ _ h₃ => ?_
  refine ends_free (free_of_covers (q := .jwks) (x := x) nofun (covers_afterSeconds ..))
    fun expiresAt s₄ _ h₄ => ?_
  refine ends_free (Q := fun _ => True) (by simp [generateInviteToken]) fun rawToken s₅ _ h₅ => ?_
  refine ends_free (Q := fun _ => True) (by simp) fun _ s₆ _ h₆ => ends_nowV7 fun userId s₇ h₇ => ?_
  refine ends_free (Q := fun u => u.id = userId) (by simp) fun u s₈ hu h₈ => ?_
  refine ends_nowV7 fun inviteId s₉ h₉ => ?_
  refine ends_free (Q := fun i => i.userId = u.id) (by simp) fun i s₁₀ hi h₁₀ => ?_
  refine ends_nowV7 fun roleId s₁₁ h₁₁ => ?_
  refine ends_free (Q := fun r => r.userId = u.id ∧ r.workspaceId = input.workspaceId)
    (by simp) fun r s₁₂ hr h₁₂ => ?_
  have hws₁₂ : s₁₂.HasWorkspace input.workspaceId := h₁₂.has rfl (h₁₁.has rfl (h₁₀.has rfl
    (h₉.has rfl (h₈.has rfl (h₇.has rfl (h₆.has rfl (h₅.has rfl (h₄.has rfl (h₃.has rfl hws)))))))))
  refine ends_commitRows (by simp [Op.Tidy, Op.writes, Write.sets]) (fun s₁₃ h₁₃ => ?_)
    fun _ _ => ends_pure fun _ _ => trivial
  intro t row hrow
  -- the user comes along, the workspace is there
  rcases List.mem_cons.mp hrow with hrow | hrow
  · cases hrow
    trivial
  rcases List.mem_cons.mp hrow with hrow | hrow
  · cases hrow
    exact .inr ⟨u, List.mem_cons_self, hi.symm⟩
  · cases List.mem_singleton.mp hrow
    have hws₁₃ : s₁₃.HasWorkspace r.workspaceId := hr.2 ▸ h₁₃.has rfl hws₁₂
    exact ⟨.inr ⟨u, List.mem_cons_self, hr.1.symm⟩, .inl hws₁₃⟩

theorem ends_createApiToken_linked {input : CreateApiTokenInput} (h : s.HasUser input.user.id) :
    Ends linking (createApiToken x input) (fun _ _ => True) s := by
  unfold createApiToken
  refine ends_free (Q := fun _ => True) (by simp [generateApiToken]) fun rawToken s₁ _ h₁ => ?_
  refine ends_free (Q := fun _ => True) (by simp) fun time s₂ _ h₂ => ends_nowV7 fun id s₃ h₃ => ?_
  refine ends_insert (fun s₄ h₄ => ?_) fun _ _ => ends_pure fun _ _ => trivial
  exact (((h.mono h₁).mono h₂).mono h₃).mono h₄

/-- Whoever the extractor hands over is a stored user. -/
theorem ends_extractUser (authorization : Option String) {f : User → Service β}
    {ok : β → World → Prop}
    (h : ∀ user s', s.Keeps s' → s'.HasUser user.id → Ends linking (f user) ok s') :
    Ends linking (extractUser x config authorization >>= f) ok s := by
  have hfrom : ∀ (s₂ : World) (u : UserRecord), s₂.HasUser u.id →
      Ends linking (userFromRecord u) (fun user s' => s'.HasUser user.id) s₂ := by
    intro s₂ u hu
    rw [← bind_pure (userFromRecord u)]
    exact ends_userFromRecord_linked hu fun user s₃ _ huser =>
      ends_pure fun s₄ h₄ => huser.mono h₄
  unfold extractUser currentUser
  simp only [bind_assoc]
  refine ends_okOr fun token _ => ?_
  have hauth : Ends linking (authenticateBearer x config token) (fun user s' => s'.HasUser user.id)
      s := by
    refine ends_authenticateBearer tame_linking (fun s₁ _ _ _ _ _ s₂ u _ hu _ _ => hfrom s₂ u ⟨u, hu, rfl⟩) ?_
    intro s₁ r _ _ _ _ _ s₂ u _ hu _ _
    refine ends_free (Q := fun _ => True) (by simp) fun now s₃ _ h₃ => ?_
    refine ends_free (Q := fun _ => True) ?_ fun _ s₄ _ h₄ => ?_
    · exact all_update.mpr ⟨free_update (by simp [fixedCols]), trivial⟩
    · have huser : s₂.HasUser u.id := ⟨u, hu, rfl⟩
      exact hfrom s₄ u ((huser.mono h₃).mono h₄)
  refine Ends.bind close_linking hauth fun user s₁ h₁ huser => ?_
  refine ends_free (Q := fun _ => True) (Flow.all_call.mpr ⟨Op.free_of_reads rfl, fun _ => trivial⟩)
    fun _ s₂ _ h₂ => ?_
  rw [pure_bind]
  exact h user s₂ (Layout.Keeps.trans h₁ h₂) (huser.mono h₂)

end auth

/-! ## Routes -/

section routes

variable {x : Ext} {config : Config} {s : World}

theorem Linked.keepsFrom {α : Type} {y : Service α} (h : Linked y) {J : World → Prop} :
    KeepsFrom linking J α y := fun s _ => h s

theorem writers_linked (user : User) (route : UserRoute) :
    WritersSatisfy (KeepsFrom linking fun s => s.HasUser user.id) x config user route where
  createApiToken _ _ h := ends_createApiToken_linked h
  revokeApiToken id := (linked_of_covers (q := .revokeApiToken user id) nofun
    (covers_revokeApiToken user id)).keepsFrom
  createServer payload _ := by
    have hlinked := @linked_createServer x config.secretKey payload
    generalize ServerService.createServer x config.secretKey payload = y at hlinked ⊢
    exact hlinked.keepsFrom
  checkServer id _ := (linked_checkServer id).keepsFrom
  createWorkspace name description _ := (linked_createWorkspace name description).keepsFrom
  createEnvironment workspaceId name _ := (linked_createEnvironment workspaceId name).keepsFrom
  createService input _ := (linked_createService input).keepsFrom
  createCredential input _ := (linked_createCredential input).keepsFrom
  createEnvVar input _ := (linked_createEnvVar input).keepsFrom
  createEnvVars inputs _ := (linked_createEnvVars inputs).keepsFrom
  createDomain input := (linked_createDomain input).keepsFrom
  triggerDeploy serviceId _ := (linked_triggerDeploy serviceId).keepsFrom
  restartService serviceId _ := (linked_restartService serviceId).keepsFrom
  createTemplate input _ := (linked_createTemplate input).keepsFrom
  createWorkspacesFromTemplate input _ := (linked_createWorkspacesFromTemplate input).keepsFrom
  inviteUser input _ := (linked_inviteUser input).keepsFrom
  disableUser id _ := (linked_of_covers (q := .disableUser id) (x := x) nofun
    (covers_disableUser id)).keepsFrom
  reactivateUser id _ := (linked_of_covers (q := .reactivateUser id) (x := x) nofun
    (covers_reactivateUser id)).keepsFrom
  changeUserRole input _ := (linked_of_covers (q := .changeUserRole input) (x := x) nofun
    (covers_changeUserRole input)).keepsFrom

theorem public_linked :
    PublicWritersSatisfy (KeepsFrom linking fun _ => True) x config where
  login input := (linked_login input).keepsFrom
  refreshSession input := (linked_refreshSession input).keepsFrom
  logout input := (linked_of_covers (q := .logout input) (x := x) (fun h => h)
    (covers_logout input)).keepsFrom
  acceptInvite input := (linked_acceptInvite input).keepsFrom

/-- Every route for a user who is stored. -/
theorem ends_userRoute (route : UserRoute) {user : User} (h : s.HasUser user.id) :
    Ends linking (route.handle x config user) (fun _ _ => True) s :=
  (composes_keepsFrom close_linking fun _ _ hs hu => World.HasUser.mono hu hs).handle
    (writers_linked user route) s h

end routes

/-! ## Tasks -/

section tasks

variable {x : Ext} {config : Config}

theorem linked_request (request : ApiRequest) : Linked (request.serve x config) := by
  cases request with
  | anyone route =>
    intro s
    exact (composes_keepsFrom close_linking fun _ _ _ h => h).publicRoute public_linked route s
      trivial
  | user authorization route =>
    intro s
    exact ends_extractUser authorization fun user s' _ huser => ends_userRoute route huser

theorem linked_job (job : Job) : Linked (job.serve x config) := by
  cases job with
  | start => exact .map (linked_of_covers (q := .bootstrapAdmin) nofun covers_bootstrapAdmin) _
  | request request => exact .map (linked_request request) _
  | checkServers => exact .map linked_checkAllServers _

theorem linked_create (call : CreateCall) : Linked (call.serve x config) := by
  cases call with
  | createWorkspace name description => exact .map (linked_createWorkspace name description) _
  | createEnvironment workspaceId name => exact .map (linked_createEnvironment workspaceId name) _
  | createService input => exact .map (linked_createService input) _
  | createDomain input => exact .map (linked_createDomain input) _
  | triggerDeploy executor serviceId => exact .map (linked_triggerDeploy serviceId) _
  | restartService executor serviceId => exact .map (linked_restartService serviceId) _
  | createTemplate input => exact .map (linked_createTemplate input) _
  | createWorkspacesFromTemplate input => exact .map (linked_createWorkspacesFromTemplate input) _
  | createCredential input => exact .map (linked_createCredential input) _
  | createEnvVar input => exact .map (linked_createEnvVar input) _
  | createEnvVars inputs => exact .map (linked_createEnvVars inputs) _
  | createServer payload => exact @Linked.map _ _ _ (@linked_createServer _ _ payload) _
  | login input => exact .map (linked_login input) _
  | inviteUser input => exact .map (linked_inviteUser input) _
  | acceptInvite input => exact .map (linked_acceptInvite input) _
  | refreshSession input => exact .map (linked_refreshSession input) _

theorem linked_task (task : Task) : Linked (task.serve x config) := by
  cases task with
  | job job => exact linked_job job
  | create call => exact .map (linked_create call) _

/-- **One step** of a linked task keeps the integrity. -/
theorem integral_step {o : Op} {s s' : World} {r : Res o} (h : references.Integral s.db)
    (hs : linking.step o s r s') (hg : linking.guar o s r s') : references.Integral s'.db := by
  obtain ⟨i, a, ha⟩ := hs
  rcases exec_db ha with hdb | ⟨-, hdb⟩
  · rw [hdb]
    exact h
  · exact h.applyAll hdb hg.1 hg.2

/-- All that the tasks ever do is linked. -/
theorem linked_of_runs {tasks : List (Config × Task)} {w : World} {P' : JobPool}
    {es : List (Event Res World)} (hr : Runs exec (TaskPool.of x tasks w) es P') :
    ∀ e ∈ es, e.op.Tidy ∧ references.Supported e.op.writes e.pre.db := by
  have hsafe : (TaskPool.of x tasks w).AllSafe (fun _ => linking) fun _ _ _ => True := by
    intro i p hp
    obtain ⟨t, -, rfl⟩ := TaskPool.task_of hp
    exact Prog.Safe.mono (linked_task t.2 w) fun _ _ _ => trivial
  obtain ⟨hevents, -⟩ := hr.safe (I := fun _ => True) trivial hsafe
    (fun e he _ => ⟨e.tid, hr.handled e he⟩)
    fun i o s r s' _ hs hg => ⟨trivial, fun _ _ => close_linking.within hs hg⟩
  exact fun e he => (hevents e he).2

/-- The tasks only update columns that may change. -/
theorem tidy_of_runs {tasks : List (Config × Task)} {w : World} {P' : JobPool}
    {es : List (Event Res World)} (hr : Runs exec (TaskPool.of x tasks w) es P') :
    ∀ e ∈ es, e.op.Tidy := fun e he => (linked_of_runs hr e he).1

/-- They leave every row in its place. -/
theorem keeps_of_runs {tasks : List (Config × Task)} {w : World} {P' : JobPool}
    {es : List (Event Res World)} (hr : Runs exec (TaskPool.of x tasks w) es P') :
    ∀ e ∈ es, e.pre.Keeps e.post := by
  intro e he
  obtain ⟨a, ha⟩ := hr.handled e he
  exact exec_keeps (tidy_of_runs hr e he) ha

/-- **Referential integrity.** In every state that any tasks reach from a coherent database, in
whatever order their statements are done: every workspace has an environment, what belongs to a
workspace belongs to one that is there, a service is in an environment of its own workspace and an
environment variable in the scope of its own workspace, and no domain, deployment, role, invite or
token is left without what it refers to. -/
theorem coherent_reachable {tasks : List (Config × Task)} {w : World} {P' : JobPool}
    {es : List (Event Res World)} (h0 : Coherent w.db)
    (hr : Runs exec (TaskPool.of x tasks w) es P') :
    Coherent P'.state.db ∧ ∀ e ∈ es, Coherent e.pre.db ∧ Coherent e.post.db := by
  have hstep : ∀ e ∈ es, Coherent e.pre.db → Coherent e.post.db := by
    intro e he hpre
    rw [coherent_iff] at hpre ⊢
    exact integral_step hpre ⟨e.tid, hr.handled e he⟩ (linked_of_runs hr e he)
  obtain ⟨hevents, hend⟩ := hr.keeps (I := fun s => Coherent s.db) h0 hstep
  exact ⟨hend, hevents⟩

end tasks

namespace Symbolic

/-- A workspace is created, and an environment in it before the first call has returned. -/
def founding : JobPool := TaskPool.of ext
  [(config "A", .create (.createWorkspace "Shop" none)),
    (config "A", .create (.createEnvironment 1 "staging"))] (.start (Db.empty layout))

def found : List (Nat × Ans) :=
  [(0, .done), (0, .uuid 1), (0, .done), (0, .uuid 2), (0, .done), (0, .done), (1, .done),
    (1, .uuid 3), (1, .done)]

theorem founding_state : (founding.run exec found).map (fun P' : JobPool =>
    (P'.state.db.rows .environments : List Environment)) =
      some [⟨2, 1, "production"⟩, ⟨3, 1, "staging"⟩] := by decide +kernel

theorem coherent_reachable_founding : ∃ P' : JobPool,
    (P'.state.db.rows .environments : List Environment) =
      [⟨2, 1, "production"⟩, ⟨3, 1, "staging"⟩] ∧ Coherent P'.state.db := by
  obtain ⟨P', hrun, hrows⟩ := Option.map_eq_some_iff.mp founding_state
  exact ⟨P', hrows, (coherent_reachable (coherent_iff.mpr References.integral_empty)
    (Pool.run_runs hrun)).1⟩

end Symbolic

end Wara
