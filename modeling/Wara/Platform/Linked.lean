import Wara.Platform.Coherent

/-!
# The services keep the coherence

Each create operation reads the rows that its record will refer to before it
inserts the record, with other calls in between. What it has read stays true, as
no row is ever deleted and no link ever changes.
-/

namespace Wara

open Interleave Store Service AuthService WorkspaceService AppServiceService DomainService
  DeploymentService WorkspaceTemplateService CredentialService ServerService

/-! ## Rows that a call has seen -/

abbrev World.HasWorkspace (s : World) (id : Uuid) : Prop :=
  s.db.Has .workspaces fun w : Workspace => w.id = id

abbrev World.HasEnvironment (s : World) (id workspaceId : Uuid) : Prop :=
  s.db.Has .environments fun e : Environment => e.id = id ∧ e.workspaceId = workspaceId

abbrev World.HasService (s : World) (id workspaceId : Uuid) : Prop :=
  s.db.Has .appServices fun r : AppServiceRecord => r.id = id ∧ r.workspaceId = workspaceId

abbrev World.HasUser (s : World) (id : Uuid) : Prop :=
  s.db.Has .users fun u : UserRecord => u.id = id

section lookups

variable {β : Type} {ok : β → World → Prop} {s s' : World} {t : Table}

theorem World.Keeps.has {p : Row t → Prop} (h : s.Keeps s') (ht : fixedCols t = List.range 14)
    (hp : s.db.Has t p) : s'.db.Has t p := Layout.Keeps.has h (stable_of_fixed ht p) hp

theorem World.HasUser.mono {id : Uuid} (hu : s.HasUser id) (h : s.Keeps s') : s'.HasUser id :=
  Layout.Keeps.has h (stable_userId id) hu

theorem holds_byId {id : Uuid} {r : Row t} (h : layout.holds (byId id) r = true) :
    layout.col 0 r = some (.uuid id) := Layout.holds_eq.mp h

theorem ends_getWorkspace {id : Uuid} {f : Workspace → Service β}
    (h : ∀ s' w, s.Keeps s' → s'.HasWorkspace id → Ends linking (f w) ok s') :
    Ends linking (getWorkspace id >>= f) ok s := by
  unfold getWorkspace
  rw [bind_assoc]
  refine ends_first tame_linking fun s' hs' => ends_okOr fun w hw => ?_
  obtain ⟨hm, hid⟩ := Layout.mem_of_head?_select hw
  exact h s' w hs' ⟨w, hm, uuid_of_col (holds_byId hid)⟩

theorem ends_getService {id : Uuid} {f : AppService → Service β}
    (h : ∀ s' service, s.Keeps s' → s'.HasService id service.workspaceId →
      Ends linking (f service) ok s') :
    Ends linking (AppServiceService.getService id >>= f) ok s := by
  unfold AppServiceService.getService
  rw [bind_assoc]
  refine ends_first tame_linking fun s' hs' => ends_okOr fun service hservice => ?_
  obtain ⟨r, hr, rfl⟩ := Option.map_eq_some_iff.mp hservice
  obtain ⟨hm, hid⟩ := Layout.mem_of_head?_select hr
  exact h s' _ hs' ⟨r, hm, uuid_of_col (holds_byId hid), rfl⟩

theorem ends_ensureEnvironment {workspaceId environmentId : Uuid} {f : Unit → Service β}
    (h : ∀ s', s.Keeps s' → s'.HasEnvironment environmentId workspaceId → Ends linking (f ()) ok s') :
    Ends linking (ensureEnvironment workspaceId environmentId >>= f) ok s := by
  unfold ensureEnvironment listEnvironments
  rw [bind_assoc]
  refine ends_query tame_linking fun s' hs' _ => ends_throwIf fun hany => ?_
  obtain ⟨e, he, hid⟩ := List.any_eq_true.mp (not_not.mp hany)
  obtain ⟨hm, hws⟩ := Layout.mem_select.mp he
  exact h s' hs' ⟨e, hm, of_decide_eq_true hid, uuid_of_col (Layout.holds_eq.mp hws)⟩

theorem ends_ensureWorkspaceExists {id : Uuid} {f : Unit → Service β}
    (h : ∀ s', s.Keeps s' → s'.HasWorkspace id → Ends linking (f ()) ok s') :
    Ends linking (ensureWorkspaceExists id >>= f) ok s := by
  unfold ensureWorkspaceExists
  rw [bind_assoc]
  refine ends_first tame_linking fun s' hs' => ?_
  rw [bind_assoc]
  refine ends_okOr fun w hw => ?_
  obtain ⟨hm, hid⟩ := Layout.mem_of_head?_select hw
  rw [pure_bind]
  exact h s' hs' ⟨w, hm, uuid_of_col (holds_byId hid)⟩

/-- A fresh identifier, and an insert under it. -/
theorem ends_nowV7 {f : Uuid → Service β}
    (h : ∀ id s', s.Keeps s' → Ends linking (f id) ok s') : Ends linking (nowV7 >>= f) ok s :=
  ends_free (Q := fun _ => True) (by simp) fun id s' _ hs' => h id s' hs'

/-- Rows committed together. -/
theorem ends_commitRows {ws : List Write} {f : Unit → Service β} (ht : Op.Tidy (.commit ws))
    (hs : ∀ s₁, s.Keeps s₁ → references.Supported ws s₁.db)
    (hf : ∀ s₂, s.Keeps s₂ → Ends linking (f ()) ok s₂) : Ends linking (commit ws >>= f) ok s := by
  refine ends_commit (fun s₁ r s₂ h₁ _ => ⟨ht, hs s₁ h₁⟩) fun s₁ s₂ h₁ hstep => hf s₂ ?_
  exact Layout.Keeps.trans h₁ (close_linking.within hstep ⟨ht, hs s₁ h₁⟩)

/-- A call that ends with an insert. -/
theorem ends_insertLast {r : Row t} (h : ∀ s₁, s.Keeps s₁ → needs s₁.db.Has r) :
    Ends linking (create .handle r) (fun _ _ => True) s := by
  rw [← bind_pure (create _ _)]
  exact ends_insert h fun _ _ => ends_pure fun _ _ => trivial

end lookups

/-! ## Workspaces and what is in them -/

section services

variable {x : Ext} {config : Config} {secretKey : String} {executor : DeployExecutor}
  {s : World}

/-- A workspace and its first environment need each other, and are committed together. -/
theorem supported_workspace (w : Workspace) (e : Environment) (h : e.workspaceId = w.id) (db : Db) :
    references.Supported [.insert .workspaces w, .insert .environments e] db := by
  intro t r hr
  rcases List.mem_cons.mp hr with hr | hr
  · cases hr
    exact .inr ⟨e, List.mem_cons_of_mem _ List.mem_cons_self, h⟩
  · cases List.mem_singleton.mp hr
    exact .inr ⟨w, List.mem_cons_self, h.symm⟩

theorem linked_createWorkspace (name : String) (description : Option String) :
    Linked (createWorkspace name description) := by
  unfold createWorkspace
  intro s
  refine ends_free (Q := fun _ => True) (by simp) fun _ s₁ _ _ => ends_nowV7 fun wid s₂ _ => ?_
  refine ends_free (Q := fun w => w = ⟨wid, name, description⟩) (by simp)
    fun w s₃ hw _ => ends_nowV7 fun eid s₄ _ => ?_
  subst hw
  refine ends_free (Q := fun e => e = ⟨eid, wid, "production"⟩) (by simp)
    fun e s₅ he _ => ?_
  subst he
  refine ends_commitRows (by simp [Op.Tidy, Op.writes, Write.sets])
    (fun s₆ _ => supported_workspace _ _ rfl s₆.db) fun s₆ _ => ends_pure fun _ _ => trivial

theorem linked_createEnvironment (workspaceId : Uuid) (name : String) :
    Linked (WorkspaceService.createEnvironment workspaceId name) := by
  unfold WorkspaceService.createEnvironment
  intro s
  refine ends_getWorkspace fun s₁ _ _ hws => ends_nowV7 fun id s₂ h₂ => ?_
  exact ends_insertLast fun s₃ h₃ => h₃.has rfl (h₂.has rfl hws)

theorem linked_createService (input : CreateAppServiceInput) :
    Linked (AppServiceService.createService input) := by
  unfold AppServiceService.createService
  intro s
  refine ends_getWorkspace fun s₁ _ _ _ => ends_ensureEnvironment fun s₂ _ henv => ?_
  refine ends_nowV7 fun id s₃ h₃ => ends_insert (fun s₄ h₄ => ?_) fun _ _ => ends_pure fun _ _ => trivial
  exact h₄.has rfl (h₃.has rfl henv)

theorem linked_createDomain (input : CreateDomainInput) :
    Linked (DomainService.createDomain input) := by
  unfold DomainService.createDomain
  intro s
  refine ends_getService fun s₁ _ _ hservice => ends_nowV7 fun id s₂ h₂ => ?_
  refine ends_insert (fun s₃ h₃ => ?_) fun _ _ => ends_pure fun _ _ => trivial
  obtain ⟨r, hr, hid, -⟩ := h₃.has rfl (h₂.has rfl hservice)
  exact ⟨r, hr, hid⟩

theorem free_deploymentFrom (record : DeploymentRecord) :
    Flow.All Op.Free (Deployment.from x record) fun _ => True := by
  simp [Deployment.from]

theorem ends_createDeployment {serviceId workspaceId : Uuid} {status : DeploymentStatus}
    {output : String} (h : s.HasService serviceId workspaceId) :
    Ends linking (createDeployment x serviceId status output) (fun _ _ => True) s := by
  unfold createDeployment
  refine ends_nowV7 fun id s₁ h₁ => ends_nowV7 fun workflowId s₂ h₂ => ?_
  refine ends_free (Q := fun _ => True) (by simp) fun createdAt s₃ _ h₃ => ?_
  refine ends_insert (fun s₄ h₄ => ?_) fun s₄ _ => linked_free (free_deploymentFrom _) s₄
  obtain ⟨r, hr, hid, -⟩ := h₄.has rfl (h₃.has rfl (h₂.has rfl (h₁.has rfl h)))
  exact ⟨r, hr, hid⟩

theorem ends_runAndRecord {serviceId workspaceId : Uuid} {commands : List Docker.RemoteCommand}
    (h : s.HasService serviceId workspaceId) :
    Ends linking (runAndRecord x executor serviceId commands) (fun _ _ => True) s := by
  unfold runAndRecord
  exact ends_orThrow fun run _ => ends_createDeployment h

theorem linked_triggerDeploy (serviceId : Uuid) :
    Linked (triggerDeploy x config executor serviceId) := by
  unfold triggerDeploy
  intro s
  exact ends_getService fun s₁ _ _ hservice => ends_orThrow fun _ _ => ends_runAndRecord hservice

theorem linked_restartService (serviceId : Uuid) :
    Linked (restartService x executor serviceId) := by
  unfold restartService
  intro s
  exact ends_getService fun s₁ _ _ hservice => ends_orThrow fun _ _ => ends_runAndRecord hservice

theorem linked_createTemplate (input : CreateTemplateInput) : Linked (createTemplate input) := by
  unfold createTemplate
  intro s
  refine ends_getWorkspace fun s₁ _ _ hws => ends_nowV7 fun id s₂ h₂ => ?_
  refine ends_insert (fun s₃ h₃ => ?_) fun _ _ => ends_pure fun _ _ => trivial
  exact h₃.has rfl (h₂.has rfl hws)

theorem linked_createWorkspacesFromTemplate (input : CreateWorkspacesFromTemplateInput) :
    Linked (WorkspaceTemplateService.createWorkspacesFromTemplate input) := by
  unfold WorkspaceTemplateService.createWorkspacesFromTemplate
  refine .bind (linked_free (by simp [getTemplate])) fun template => ?_
  exact linked_mapM (fun name => linked_createWorkspace name template.description) _

/-! ## Secrets -/

theorem linked_createCredential (input : CreateCredentialInput) :
    Linked (createCredential x secretKey input) := by
  unfold createCredential
  intro s
  refine ends_getWorkspace fun s₁ _ _ hws => ends_nowV7 fun id s₂ h₂ => ?_
  refine ends_insert (fun s₃ h₃ => ?_) fun _ _ => ends_pure fun _ _ => trivial
  exact h₃.has rfl (h₂.has rfl hws)

/-- What `validate_env_var_scope` finds. -/
structure InScope (input : CreateEnvVarInput) (s : World) : Prop where
  workspace : s.HasWorkspace input.workspaceId
  environment : ∀ id, input.environmentId = some id → s.HasEnvironment id input.workspaceId
  service : ∀ id, input.serviceId = some id → s.HasService id input.workspaceId

theorem InScope.mono {input : CreateEnvVarInput} {s s' : World} (h : InScope input s)
    (hs : s.Keeps s') : InScope input s' :=
  ⟨hs.has rfl h.workspace, fun id hid => hs.has rfl (h.environment id hid),
    fun id hid => hs.has rfl (h.service id hid)⟩

/-- The check of the service, with the rest of the scope found before. -/
theorem ends_scopeService {input : CreateEnvVarInput} (hws : s.HasWorkspace input.workspaceId)
    (henv : ∀ id, input.environmentId = some id → s.HasEnvironment id input.workspaceId) :
    Ends linking (match input.serviceId with
      | some serviceId => do
        let service ← AppServiceService.getService serviceId
        throwIf (service.workspaceId ≠ input.workspaceId) (.notFound "service")
      | none => pure ()) (fun _ => InScope input) s := by
  cases hservice : input.serviceId with
  | none =>
    refine ends_pure fun s₁ h₁ => InScope.mono ⟨hws, henv, ?_⟩ h₁
    rw [hservice]
    nofun
  | some serviceId =>
    refine ends_getService fun s₁ service h₁ hfound => ?_
    rw [← bind_pure (throwIf _ _)]
    refine ends_throwIf fun hsame => ends_pure fun s₂ h₂ => InScope.mono ⟨?_, ?_, ?_⟩ h₂
    · exact h₁.has rfl hws
    · exact fun id hid => h₁.has rfl (henv id hid)
    · intro id hid
      rw [hservice] at hid
      cases hid
      rw [← not_not.mp hsame]
      exact hfound

theorem ends_validateEnvVarScope (input : CreateEnvVarInput) :
    Ends linking (validateEnvVarScope input) (fun _ => InScope input) s := by
  unfold validateEnvVarScope
  refine ends_getWorkspace fun s₁ _ _ hws => ?_
  cases henv : input.environmentId with
  | none =>
    refine ends_scopeService hws ?_
    rw [henv]
    nofun
  | some environmentId =>
    refine ends_ensureEnvironment fun s₂ h₂ hfound => ends_scopeService (h₂.has rfl hws) ?_
    intro id hid
    rw [henv] at hid
    cases hid
    exact hfound

/-- The record of an input in scope finds what it needs. -/
theorem InScope.needs {input : CreateEnvVarInput} {s : World} (h : InScope input s)
    {r : EnvVarRecord} (hw : r.workspaceId = input.workspaceId)
    (he : r.environmentId = input.environmentId) (hs : r.serviceId = input.serviceId) :
    needs s.db.Has (t := .envVars) r := by
  refine ⟨hw ▸ h.workspace, fun id hid => ?_, fun id hid => ?_⟩
  · rw [hw]
    exact h.environment id (he ▸ hid)
  · rw [hw]
    exact h.service id (hs ▸ hid)

theorem linked_createEnvVar (input : CreateEnvVarInput) :
    Linked (createEnvVar x secretKey input) := by
  unfold createEnvVar createEnvVarRecord
  intro s
  refine Ends.bind close_linking (ends_validateEnvVarScope input) fun _ s₁ _ hscope => ?_
  rw [bind_assoc]
  refine ends_nowV7 fun id s₂ h₂ => ends_insert (fun s₃ h₃ => ?_) fun _ _ => ends_pure fun _ _ => trivial
  exact ((hscope.mono h₂).mono h₃).needs rfl rfl rfl

theorem linked_createEnvVars (inputs : List CreateEnvVarInput) :
    Linked (createEnvVars x secretKey inputs) := by
  unfold createEnvVars
  intro s
  have hscopes : Ends linking (inputs.forM validateEnvVarScope)
      (fun _ s' => ∀ input ∈ inputs, InScope input s') s :=
    ends_forM close_linking (fun _ _ _ h hs => hs.mono h)
      fun input _ s' _ => ends_validateEnvVarScope input
  refine Ends.bind close_linking hscopes fun _ s₁ _ hscopes => ?_
  refine ends_free (Q := fun _ => True) (by simp) fun _ s₂ _ h₂ => ?_
  have hcreated : Flow.All Op.Free (inputs.mapM (createEnvVarRecord x secretKey .transaction))
      (List.Forall₂ (fun input r => EnvVarRecord.workspaceId r = input.workspaceId ∧
        r.environmentId = input.environmentId ∧ r.serviceId = input.serviceId) inputs) :=
    all_mapM fun input _ => by simp [createEnvVarRecord]
  refine ends_free hcreated fun created s₃ hcreated h₃ => ?_
  refine ends_commitRows ?_ (fun s₄ h₄ => ?_) fun s₄ _ => ends_pure fun _ _ => trivial
  · intro w hw c hc
    obtain ⟨r, -, rfl⟩ := List.mem_map.mp hw
    cases hc
  · refine References.supported_of_has fun t r hr => ?_
    obtain ⟨record, hrecord, he⟩ := List.mem_map.mp hr
    cases he
    obtain ⟨input, hinput, hw, henv, hservice⟩ := exists_of_forall₂ hcreated hrecord
    have hscope := ((hscopes input hinput).mono h₂).mono (Layout.Keeps.trans h₃ h₄)
    exact hscope.needs hw henv hservice

theorem linked_createServer (payload : CreateServerInput) :
    Linked (createServer x secretKey payload) := by
  unfold createServer
  have hvalid : Flow.All Op.Free (validateSshKeyPair payload) fun _ => True := by
    simp [validateSshKeyPair]
  -- the check is set aside: the elaborator would run it
  generalize validateSshKeyPair payload = check at hvalid
  intro s
  refine ends_free hvalid fun _ s₁ _ _ => ends_nowV7 fun id s₂ _ => ?_
  exact ends_insert (fun _ _ => trivial) fun _ _ => ends_pure fun _ _ => trivial

theorem linked_checkServer (id : Uuid) : Linked (checkServer x secretKey id) := by
  have hfree : ∀ sets : List (Nat × Value), (∀ p ∈ sets, p.1 ∉ fixedCols .servers) →
      Op.Free (.write (.update .servers (byId id) sets)) := fun sets h => free_update h
  refine linked_free ?_
  simp [checkServer, getServer, updateCheckMetadata, fixedCols, hfree]

theorem linked_checkAllServers : Linked (checkAllServers x secretKey) := by
  unfold checkAllServers
  refine .bind (linked_free (by simp [listServers])) fun servers => .bind ?_ fun _ => linked_pure _
  refine linked_mapM (fun server => ?_) servers
  exact .bind (linked_attempt (linked_checkServer server.id)) fun _ => linked_pure _

end services

end Wara
