import Wara.Platform.Linked
import Wara.Platform.Movers

/-!
# The services take effect at once

A create operation reads what its record refers to, gets an identifier and
inserts the record: all but the insert can be put off. A check of a server goes
on with nothing of the server's row that a check changes.
-/

namespace Wara

open Interleave Store Service Docker AuthService WorkspaceService AppServiceService DomainService
  DeploymentService WorkspaceTemplateService CredentialService ServerService

section services

variable {x : Ext} {config : Config} {secretKey : String} {executor : DeployExecutor} {i : Nat}
  {α β : Type} {s : World}

/-! ## Lookups -/

theorem atomic_getWorkspace {id : Uuid} {f : Workspace → Service β}
    (h : ∀ w s', Beside i s s' → Atomic i (f w) s') : Atomic i (getWorkspace id >>= f) s := by
  unfold getWorkspace
  rw [bind_assoc]
  exact atomic_first rfl (by decide) (detached_throwApi _) fun w s' hs _ _ => h w s' hs

theorem atomic_getService {id : Uuid} {f : AppService → Service β}
    (h : ∀ r s', Beside i s s' → Atomic i (f r) s') :
    Atomic i (AppServiceService.getService id >>= f) s := by
  unfold AppServiceService.getService
  rw [bind_assoc]
  exact atomic_first rfl (by decide) (detached_throwApi _) fun r s' hs _ _ => h _ s' hs

theorem atomic_getDomain {id : Uuid} {f : Domain → Service β}
    (h : ∀ r s', Beside i s s' → Atomic i (f r) s') : Atomic i (getDomain id >>= f) s := by
  unfold getDomain
  rw [bind_assoc]
  exact atomic_first rfl (by decide) (detached_throwApi _) fun r s' hs _ _ => h _ s' hs

/-- An environment that was found among those of the workspace stays among them. -/
theorem atomic_ensureEnvironment {workspaceId environmentId : Uuid} {f : Unit → Service β}
    (h : ∀ s', Beside i s s' → Atomic i (f ()) s') :
    Atomic i (ensureEnvironment workspaceId environmentId >>= f) s := by
  unfold ensureEnvironment listEnvironments
  rw [bind_assoc]
  refine atomic_query fun s₁ h₁ => ?_
  by_cases hany : (layout.select s₁.db .environments (.eq 1 (.uuid workspaceId))).any
      fun environment : Environment => decide (environment.id = environmentId)
  · left
    have hpass : ∀ s₂, Beside i s₁ s₂ →
        (layout.select s₂.db .environments (.eq 1 (.uuid workspaceId))).any
          fun environment : Environment => decide (environment.id = environmentId) := by
      intro s₂ h₂
      obtain ⟨e, he, hid⟩ := List.any_eq_true.mp hany
      obtain ⟨hm, hws⟩ := Layout.mem_select.mp he
      exact List.any_eq_true.mpr ⟨e, Layout.mem_select.mpr ⟨h₂.mem rfl hm, hws⟩, hid⟩
    refine ⟨fun s₂ h₂ => ?_, ?_⟩
    · unfold throwIf
      rw [if_neg (not_not_intro (hpass s₂ h₂)), if_neg (not_not_intro hany)]
    · exact atomic_throwIf fun _ => h s₁ h₁
  · right
    unfold throwIf
    rw [if_pos hany]
    exact detached_throwApi _

theorem atomic_validateServiceScope {input : CreateEnvVarInput} {f : Unit → Service β}
    (h : ∀ s', Beside i s s' → Atomic i (f ()) s') :
    Atomic i (validateServiceScope input >>= f) s := by
  unfold validateServiceScope
  cases input.serviceId with
  | none => exact h s (Beside.refl i s)
  | some serviceId =>
    show Atomic i ((AppServiceService.getService serviceId >>= _) >>= f) s
    rw [bind_assoc]
    exact atomic_getService fun r s' hs => atomic_throwIf fun _ => h s' hs

theorem atomic_validateEnvVarScope {input : CreateEnvVarInput} {f : Unit → Service β}
    (h : ∀ s', Beside i s s' → Atomic i (f ()) s') :
    Atomic i (validateEnvVarScope input >>= f) s := by
  unfold validateEnvVarScope
  rw [bind_assoc]
  refine atomic_getWorkspace fun _ s₁ h₁ => ?_
  cases input.environmentId with
  | none => exact atomic_validateServiceScope fun s₂ h₂ => h s₂ (h₁.trans h₂)
  | some environmentId =>
    show Atomic i ((ensureEnvironment _ _ >>= fun _ => validateServiceScope input) >>= f) s₁
    rw [bind_assoc]
    exact atomic_ensureEnvironment fun s₂ h₂ => atomic_validateServiceScope fun s₃ h₃ =>
      h s₃ (h₁.trans (h₂.trans h₃))

theorem atomic_ensureWorkspaceAccess {user : User} {workspaceId : Uuid} {f : Unit → Service β}
    (h : Atomic i (f ()) s) : Atomic i (ensureWorkspaceAccess user workspaceId >>= f) s := by
  unfold ensureWorkspaceAccess
  split
  · exact h
  · exact atomic_throwApi _

theorem atomic_ensureSuperAdmin {user : User} {f : Unit → Service β} (h : Atomic i (f ()) s) :
    Atomic i (ensureSuperAdmin user >>= f) s := by
  unfold ensureSuperAdmin
  split
  · exact h
  · exact atomic_throwApi _

/-! ## Operations -/

theorem atomic_createWorkspace {name : String} {description : Option String}
    {f : Workspace → Service β} (h : ∀ w, Detached (f w)) :
    Atomic i (createWorkspace name description >>= f) s := by
  unfold createWorkspace
  rw [bind_assoc]
  refine atomic_transaction fun s₁ _ => ?_
  rw [bind_assoc]
  refine atomic_nowV7 fun wid s₂ _ hown hkey => ?_
  rw [bind_assoc]
  refine atomic_txCreate rfl rfl hown hkey fun s₃ _ => ?_
  rw [bind_assoc]
  refine atomic_nowV7 fun eid s₄ _ hown hkey => ?_
  rw [bind_assoc]
  refine atomic_txCreate rfl rfl hown hkey fun s₅ _ => ?_
  rw [bind_assoc]
  exact atomic_commitLast (by rw [pure_bind]; exact h _)

theorem atomic_createEnvironment {workspaceId : Uuid} {name : String}
    {f : Environment → Service β} (h : ∀ e, Detached (f e)) :
    Atomic i (WorkspaceService.createEnvironment workspaceId name >>= f) s := by
  unfold WorkspaceService.createEnvironment
  rw [bind_assoc]
  refine atomic_getWorkspace fun _ s₁ _ => ?_
  rw [bind_assoc]
  exact atomic_nowV7 fun id s₂ _ _ _ => atomic_createLast (h _)

theorem atomic_createService {input : CreateAppServiceInput} {f : AppService → Service β}
    (h : ∀ r, Detached (f r)) : Atomic i (AppServiceService.createService input >>= f) s := by
  unfold AppServiceService.createService
  rw [bind_assoc]
  refine atomic_getWorkspace fun _ s₁ _ => ?_
  rw [bind_assoc]
  refine atomic_ensureEnvironment fun s₂ _ => ?_
  rw [bind_assoc]
  refine atomic_nowV7 fun id s₃ _ _ _ => ?_
  rw [bind_assoc]
  exact atomic_createLast (by rw [pure_bind]; exact h _)

theorem atomic_createDomain {input : CreateDomainInput} {f : Domain → Service β}
    (h : ∀ r, Detached (f r)) : Atomic i (DomainService.createDomain input >>= f) s := by
  unfold DomainService.createDomain
  rw [bind_assoc]
  refine atomic_getService fun _ s₁ _ => ?_
  rw [bind_assoc]
  refine atomic_nowV7 fun id s₂ _ _ _ => ?_
  rw [bind_assoc]
  exact atomic_createLast (by rw [pure_bind]; exact h _)

theorem atomic_createTemplate {input : CreateTemplateInput} {f : WorkspaceTemplate → Service β}
    (h : ∀ r, Detached (f r)) : Atomic i (createTemplate input >>= f) s := by
  unfold createTemplate
  rw [bind_assoc]
  refine atomic_getWorkspace fun _ s₁ _ => ?_
  rw [bind_assoc]
  refine atomic_nowV7 fun id s₂ _ _ _ => ?_
  rw [bind_assoc]
  exact atomic_createLast (by rw [pure_bind]; exact h _)

theorem atomic_createCredential {input : CreateCredentialInput} {f : CredentialResponse → Service β}
    (h : ∀ r, Detached (f r)) : Atomic i (createCredential x secretKey input >>= f) s := by
  unfold createCredential
  rw [bind_assoc]
  refine atomic_getWorkspace fun _ s₁ _ => ?_
  rw [bind_assoc]
  refine atomic_nowV7 fun id s₂ _ _ _ => ?_
  rw [bind_assoc]
  exact atomic_createLast (by rw [pure_bind]; exact h _)

theorem atomic_createEnvVar {input : CreateEnvVarInput} {f : EnvVarResponse → Service β}
    (h : ∀ r, Detached (f r)) : Atomic i (createEnvVar x secretKey input >>= f) s := by
  unfold createEnvVar createEnvVarRecord
  rw [bind_assoc]
  refine atomic_validateEnvVarScope fun s₁ _ => ?_
  rw [bind_assoc, bind_assoc]
  refine atomic_nowV7 fun id s₂ _ _ _ => ?_
  exact atomic_createLast (by rw [pure_bind]; exact h _)

/-- All inputs are checked before the transaction begins. -/
theorem atomic_validateEnvVarScopes {inputs : List CreateEnvVarInput} {f : Unit → Service β}
    (h : ∀ s', Beside i s s' → Atomic i (f ()) s') :
    Atomic i (inputs.forM validateEnvVarScope >>= f) s := by
  induction inputs generalizing s with
  | nil => exact h s (Beside.refl i s)
  | cons input inputs ih =>
    show Atomic i ((validateEnvVarScope input >>= fun _ => inputs.forM validateEnvVarScope) >>= f) s
    rw [bind_assoc]
    exact atomic_validateEnvVarScope fun s₁ h₁ => ih fun s₂ h₂ => h s₂ (h₁.trans h₂)

/-- The rows are only shown to the others by the commit. -/
theorem atomic_createEnvVarRecords {inputs : List CreateEnvVarInput}
    {f : List EnvVarRecord → Service β} (h : ∀ rs s', Beside i s s' → Atomic i (f rs) s') :
    Atomic i (inputs.mapM (createEnvVarRecord x secretKey .transaction) >>= f) s := by
  induction inputs generalizing s f with
  | nil =>
    rw [List.mapM_nil, pure_bind]
    exact h [] s (Beside.refl i s)
  | cons input inputs ih =>
    rw [List.mapM_cons, bind_assoc]
    unfold createEnvVarRecord
    rw [bind_assoc]
    refine atomic_nowV7 fun id s₁ h₁ hown hkey => ?_
    refine atomic_txCreate rfl rfl hown hkey fun s₂ h₂ => ?_
    rw [bind_assoc]
    refine ih fun rs s₃ h₃ => ?_
    rw [pure_bind]
    exact h _ s₃ (h₁.trans (h₂.trans h₃))

theorem atomic_createEnvVars {inputs : List CreateEnvVarInput} {f : List EnvVarResponse → Service β}
    (h : ∀ rs, Detached (f rs)) : Atomic i (createEnvVars x secretKey inputs >>= f) s := by
  unfold createEnvVars
  rw [bind_assoc]
  refine atomic_validateEnvVarScopes fun s₁ _ => ?_
  rw [bind_assoc]
  refine atomic_transaction fun s₂ _ => ?_
  rw [bind_assoc]
  refine atomic_createEnvVarRecords fun rs s₃ _ => ?_
  rw [bind_assoc]
  exact atomic_commitLast (by rw [pure_bind]; exact h _)

theorem detached_deploymentFrom (record : DeploymentRecord) :
    Detached (Deployment.from x record) := by
  simp [Detached, Deployment.from, Op.Aside]

theorem atomic_runAndRecord {serviceId : Uuid} {commands : List RemoteCommand}
    {f : Deployment → Service β} (h : ∀ d, Detached (f d)) :
    Atomic i (runAndRecord x executor serviceId commands >>= f) s := by
  unfold runAndRecord createDeployment
  rw [bind_assoc]
  refine atomic_orThrow fun run _ => ?_
  rw [bind_assoc]
  refine atomic_nowV7 fun id s₁ _ _ _ => ?_
  rw [bind_assoc]
  refine atomic_nowV7 fun workflowId s₂ _ _ _ => ?_
  rw [bind_assoc]
  refine atomic_now fun createdAt s₃ _ => ?_
  rw [bind_assoc]
  exact atomic_createLast ((detached_deploymentFrom _).bind h)

theorem atomic_triggerDeploy {serviceId : Uuid} {f : Deployment → Service β}
    (h : ∀ d, Detached (f d)) : Atomic i (triggerDeploy x config executor serviceId >>= f) s := by
  unfold triggerDeploy
  rw [bind_assoc]
  refine atomic_getService fun service s₁ _ => ?_
  rw [bind_assoc]
  exact atomic_orThrow fun commands _ => atomic_runAndRecord h

theorem atomic_restartService {serviceId : Uuid} {f : Deployment → Service β}
    (h : ∀ d, Detached (f d)) : Atomic i (restartService x executor serviceId >>= f) s := by
  unfold restartService
  rw [bind_assoc]
  refine atomic_getService fun service s₁ _ => ?_
  rw [bind_assoc]
  exact atomic_orThrow fun _ _ => atomic_runAndRecord h

theorem atomic_getDeployment {id : Uuid} {f : Deployment → Service β}
    (h : ∀ d s', Beside i s s' → Atomic i (f d) s') : Atomic i (getDeployment x id >>= f) s := by
  unfold getDeployment Deployment.from
  rw [bind_assoc]
  refine atomic_first rfl (by decide) (detached_throwApi _) fun record s₁ h₁ _ _ => ?_
  show Atomic i ((unwrapOrElse now _ >>= _) >>= f) s₁
  rw [bind_assoc]
  cases x.dateTimeFromStr record.createdAt with
  | none => exact atomic_now fun t s₂ h₂ => h _ s₂ (h₁.trans h₂)
  | some t => exact h _ s₁ h₁

theorem atomic_listDeployments {serviceId : Uuid} {f : List Deployment → Service β}
    (h : ∀ ds, Detached (f ds)) : Atomic i (listDeployments x serviceId >>= f) s := by
  unfold listDeployments
  rw [bind_assoc]
  exact atomic_queryLast fun records => (detached_mapM detached_deploymentFrom records).bind h

/-! ## Servers -/

theorem atomic_createServer {payload : CreateServerInput} {f : Server → Service β}
    (h : ∀ r, Detached (f r)) : Atomic i (createServer x secretKey payload >>= f) s := by
  unfold createServer validateSshKeyPair
  rw [bind_assoc, bind_assoc]
  refine atomic_throwIf fun _ => atomic_throwIf fun _ => ?_
  rw [bind_assoc]
  refine atomic_nowV7 fun id s₁ _ _ _ => ?_
  rw [bind_assoc]
  exact atomic_createLast (by rw [pure_bind]; exact h _)

/-- What a check needs of a server is in the columns that never change. -/
theorem sshTarget_of_fixed {r r' : ServerRecord}
    (h : ∀ c ∈ fixedCols .servers,
      layout.col (t := .servers) c r' = layout.col (t := .servers) c r) :
    sshTarget x secretKey (.from r') = sshTarget x secretKey (.from r) := by
  have hhost : r'.host = r.host := text_of_col (h 2 (by decide))
  have hport : some (Value.u16 r'.port) = some (Value.u16 r.port) := h 3 (by decide)
  have husername : r'.username = r.username := text_of_col (h 4 (by decide))
  have hpublicKey : r'.publicKey = r.publicKey := text_of_col (h 5 (by decide))
  have hkey : r'.encryptedPrivateKey = r.encryptedPrivateKey := text_of_col (h 7 (by decide))
  have hphrase : some (Value.optText r'.encryptedPrivateKeyPassphrase) =
      some (Value.optText r.encryptedPrivateKeyPassphrase) := h 8 (by decide)
  cases r
  cases r'
  cases hhost
  cases hport
  cases husername
  cases hpublicKey
  cases hkey
  cases hphrase
  rfl

theorem atomic_checkServer {id : Uuid} {f : ServerCheckResponse → Service β}
    (h : ∀ r, Detached (f r)) : Atomic i (checkServer x secretKey id >>= f) s := by
  unfold checkServer getServer first
  simp only [bind_assoc, pure_bind]
  refine atomic_query fun s₁ h₁ => ?_
  cases hfound : (layout.select s₁.db .servers (byId id)).head? with
  | none => exact .inr (detached_throwApi _)
  | some r =>
    obtain ⟨hr, hid⟩ := Layout.mem_of_head?_select hfound
    refine .inl ⟨fun s₂ h₂ => ?_, ?_⟩
    · obtain ⟨r', hr', hcols⟩ := h₂.keeps .servers r hr
      have hid' : layout.col 0 r' = some (.uuid id) :=
        (hcols 0 (by decide)).trans (Layout.holds_eq.mp hid)
      rw [show byId id = .eq 0 (.uuid id) from rfl, Layout.head?_select (by decide) hr' hid']
      show orThrow (sshTarget x secretKey (.from r')) >>= _ =
        orThrow (sshTarget x secretKey (.from r)) >>= _
      rw [sshTarget_of_fixed hcols]
    · refine atomic_orThrow fun target _ => atomic_now fun t s₂ _ => ?_
      exact atomic_updateLast (h _)

end services

end Wara
