import Wara.Api.Grants
import Wara.Api.Tenants

/-!
# Tenants do not see each other

The requests of outsiders, in two runs that begin with other contents in the
records of a workspace. A handler either asks for the workspace by its path, or
finds a service, domain or deployment first and follows it to its owner; behind
both checks what it reads is none of the workspace's, so it is the same.
-/

namespace Wara

open Interleave Store Service Docker AuthService WorkspaceService AppServiceService DomainService
  DeploymentService WorkspaceTemplateService CredentialService ServerService

section isolation

variable {x : Ext} {db₀ : Db} {w : Uuid} {t : Table}

/-! ## Reads and writes -/

/-- A filter on a link tells no two contents apart. -/
theorem respects_link {c : Nat} {v : Value} (hc : c ∈ linkCols t) :
    (tenantLikeness x db₀ w).Respects t (.eq c v) := by
  intro r r' hr
  show (layout.col c r' == some v) = (layout.col c r == some v)
  rw [BelongAlike.col hr hc]

/-- And sees nothing of the workspace, if its value is not the workspace's. -/
theorem sees_link {c : Nat} {v : Value} (hc : c ∈ linkCols t)
    (hv : ∀ r : Row t, belongs db₀ w r = true → layout.col c r ≠ some v) :
    (tenantLikeness x db₀ w).Sees t (.eq c v) := by
  intro r r' hr
  refine ⟨respects_link hc r r' hr, fun hholds => ?_⟩
  refine hr.eq (Bool.eq_false_iff.mpr fun hb => hv r hb ?_)
  exact beq_iff_eq.mp hholds

theorem sees_workspace {id : Uuid} (hid : id ≠ w) :
    (tenantLikeness x db₀ w).Sees .workspaces (byId id) := by
  refine sees_link (by decide) fun r hb hcol => hid ?_
  exact (uuid_of_col hcol.symm).trans (of_decide_eq_true hb)

/-- The tables whose second column is the workspace. -/
def ofWorkspace : Table → Bool
  | .environments | .appServices | .dockerCredentials | .envVars | .workspaceTemplates => true
  | _ => false

theorem sees_ofWorkspace (ht : ofWorkspace t = true) {id : Uuid} (hid : id ≠ w) :
    (tenantLikeness x db₀ w).Sees t (.eq 1 (.uuid id)) := by
  refine sees_link (by cases t <;> first | decide | cases ht) fun r hb hcol => hid ?_
  cases t <;> first | exact (uuid_of_col hcol.symm).trans (of_decide_eq_true hb) | cases ht

/-- The tables whose second column is the service. -/
def ofService : Table → Bool
  | .domains | .deployments => true
  | _ => false

theorem sees_ofService (ht : ofService t = true) {id : Uuid} (hid : id ∉ servicesOf db₀ w) :
    (tenantLikeness x db₀ w).Sees t (.eq 1 (.uuid id)) := by
  refine sees_link (by cases t <;> first | decide | cases ht) fun r hb hcol => hid ?_
  cases t <;> first | exact uuid_of_col hcol.symm ▸ of_decide_eq_true hb | cases ht

theorem filter_append_other {rs : List (Row t)} {r : Row t} (hr : belongs db₀ w r = false) :
    (rs ++ [r]).filter (belongs db₀ w) = rs.filter (belongs db₀ w) := by
  rw [List.filter_append, List.filter_cons_of_neg (by rw [hr]; exact Bool.false_ne_true),
    List.filter_nil, List.append_nil]

/-- New records, none of them the workspace's. -/
def Write.Foreign (db₀ : Db) (w : Uuid) : Write → Prop
  | .insert _ r => belongs db₀ w r = false
  | .update _ _ _ => False

theorem known_apply {s : Write} (hs : Write.Foreign db₀ w s) {db d : Db}
    (h : layout.apply s db = some d) (hk : (isolation x db₀ w).known db) :
    (isolation x db₀ w).known d := by
  cases s with
  | update => exact hs.elim
  | insert t r =>
    intro u
    rw [← hk u]
    by_cases hu : u = t
    · subst hu
      rw [Layout.apply_insert h]
      exact filter_append_other hs
    · rw [Layout.apply_frame h hu]

theorem parallel_foreign {ws : List Write} (h : ∀ s ∈ ws, Write.Foreign db₀ w s) :
    Parallel (isolation x db₀ w) ws ws := by
  constructor
  · refine List.forall₂_same.mpr fun s hs => ?_
    cases s with
    | insert t r => exact .insert (.inl rfl)
    | update => exact (h _ hs).elim
  · intro db d hd hk
    induction ws generalizing db with
    | nil => exact Layout.applyAll_nil.mp hd ▸ hk
    | cons s ws ih =>
      obtain ⟨db₁, h₁, h₂⟩ := Layout.applyAll_cons.mp hd
      exact ih (fun s' hs' => h s' (List.mem_cons_of_mem _ hs')) db₁ h₂
        (known_apply (h s List.mem_cons_self) h₁ hk)

variable (db₀ w) in
theorem noneOfAccount (ht : t.isAccount = true) (hr : t ≠ .workspaceUserRoles) (r : Row t) :
    belongs db₀ w r = false := by
  cases t <;> first | rfl | exact absurd rfl hr | cases ht

theorem belongAlike_account (ht : t.isAccount = true) {r r' : Row t} :
    BelongAlike x db₀ w r r' ↔ r' = r := by
  constructor
  · intro h
    by_cases hr : t = .workspaceUserRoles
    · subst hr
      exact workspaceUserRole_eq fun c hc => h.col hc
    · exact h.eq (noneOfAccount db₀ w ht hr r)
  · exact .inl

theorem sameAccounts_isolation : SameAccounts (isolation x db₀ w) where
  rows ht _ _ := belongAlike_account ht
  keeps {ws db d} hws hd hk u := by
    by_cases hu : ∃ s ∈ ws, u = Write.table s
    · obtain ⟨s, hs, rfl⟩ := hu
      have hnone := noneOfAccount db₀ w (hws s hs).1 (hws s hs).2
      have hempty : ∀ rs : List (Row (Write.table s)), rs.filter (belongs db₀ w) = [] :=
        fun rs => List.filter_eq_nil_iff.mpr fun r _ => by rw [hnone r]; exact Bool.false_ne_true
      unfold recordsOf
      rw [hempty, hempty]
    · rw [Layout.applyAll_frame hd fun s hs he => hu ⟨s, hs, he⟩]
      exact hk u

/-! ## Calls behind a check -/

/-- Operations that see nothing of the workspace and leave it alone. -/
abbrev Aside (x : Ext) (db₀ : Db) (w : Uuid) {α : Type} (y : Service α) : Prop :=
  Flow.All (Op.Blind (isolation x db₀ w)) y fun _ => True

@[simp] theorem blind_select {f : Filter} : Op.Blind (isolation x db₀ w) (.select t f) ↔
    (tenantLikeness x db₀ w).Sees t f := Iff.rfl

@[simp] theorem blind_now : Op.Blind (isolation x db₀ w) .now := trivial

@[simp] theorem blind_newUuid : Op.Blind (isolation x db₀ w) .newUuid := trivial

@[simp] theorem blind_begin : Op.Blind (isolation x db₀ w) .begin := trivial

@[simp] theorem blind_randomBytes {n : Nat} : Op.Blind (isolation x db₀ w) (.randomBytes n) :=
  trivial

variable (x db₀ w) in
theorem blind_insert {r : Row t} (e : Executor) (hr : belongs db₀ w r = false) :
    Op.Blind (isolation x db₀ w) (e.op (.insert t r)) := by
  have hp : Parallel (isolation x db₀ w) [.insert t r] [.insert t r] :=
    parallel_foreign fun s hs => List.mem_singleton.mp hs ▸ hr
  cases e with
  | handle => exact hp
  | transaction => exact (List.forall₂_cons.mp hp.writes).1

section workspace

variable {workspaceId : Uuid} (hw : workspaceId ≠ w)

include hw

theorem aside_getWorkspace : Aside x db₀ w (getWorkspace workspaceId) := by
  simp [getWorkspace, sees_workspace hw]

theorem aside_listEnvironments : Aside x db₀ w (listEnvironments workspaceId) := by
  simp [listEnvironments, sees_ofWorkspace (t := .environments) rfl hw]

theorem aside_ensureEnvironment (environmentId : Uuid) :
    Aside x db₀ w (ensureEnvironment workspaceId environmentId) := by
  simp [ensureEnvironment, listEnvironments, sees_ofWorkspace (t := .environments) rfl hw]

theorem aside_createEnvironment (name : String) :
    Aside x db₀ w (createEnvironment workspaceId name) := by
  have hinsert : ∀ id, Op.Blind (isolation x db₀ w)
      (Executor.op (.insert .environments ⟨id, workspaceId, name⟩) .handle) :=
    fun id => blind_insert x db₀ w .handle (decide_eq_false hw)
  simp [createEnvironment, getWorkspace, sees_workspace hw, hinsert]

theorem aside_listServices : Aside x db₀ w (listServices workspaceId) := by
  simp [listServices, sees_ofWorkspace (t := .appServices) rfl hw]

theorem aside_createService {input : CreateAppServiceInput}
    (hinput : input.workspaceId = workspaceId) : Aside x db₀ w (createService input) := by
  subst hinput
  have hinsert := fun id name kind image compose file port => blind_insert x db₀ w
    (t := .appServices) (r := ⟨id, input.workspaceId, input.environmentId, name, kind, image,
      compose, file, port⟩) .handle (decide_eq_false hw)
  simp [createService, getWorkspace, ensureEnvironment, listEnvironments, sees_workspace hw,
    sees_ofWorkspace (t := .environments) rfl hw, hinsert]

theorem aside_listCredentials : Aside x db₀ w (listCredentials workspaceId) := by
  simp [listCredentials, sees_ofWorkspace (t := .dockerCredentials) rfl hw]

theorem aside_createCredential {secretKey : String} {input : CreateCredentialInput}
    (hinput : input.workspaceId = workspaceId) :
    Aside x db₀ w (createCredential x secretKey input) := by
  subst hinput
  have hinsert := fun id registry username password => blind_insert x db₀ w
    (t := .dockerCredentials) (r := ⟨id, input.workspaceId, registry, username, password⟩) .handle
    (decide_eq_false hw)
  simp [createCredential, getWorkspace, sees_workspace hw, hinsert]

theorem aside_listEnvVars : Aside x db₀ w (listEnvVars workspaceId) := by
  simp [listEnvVars, sees_ofWorkspace (t := .envVars) rfl hw]

theorem aside_listWorkspaceTemplates : Aside x db₀ w (listWorkspaceTemplates workspaceId) := by
  simp [listWorkspaceTemplates, sees_ofWorkspace (t := .workspaceTemplates) rfl hw]

theorem aside_createTemplate {input : CreateTemplateInput}
    (hinput : input.workspaceId = workspaceId) : Aside x db₀ w (createTemplate input) := by
  subst hinput
  have hinsert := fun id name description => blind_insert x db₀ w
    (t := .workspaceTemplates) (r := ⟨id, input.workspaceId, name, description⟩) .handle
    (decide_eq_false hw)
  simp [createTemplate, getWorkspace, sees_workspace hw, hinsert]

end workspace

/-- Only own workspaces are looked up. -/
theorem aside_listAccessibleWorkspaces {user : User} (h : Outsider w user) :
    Aside x db₀ w (listAccessibleWorkspaces user) := by
  unfold listAccessibleWorkspaces
  rw [if_neg h.role]
  refine Flow.all_bind.mpr (Flow.All.mono (all_mapM (P := fun _ _ => True) fun role hrole => ?_)
    (fun _ h => h) fun _ _ => Flow.all_pure.mpr trivial)
  refine Flow.all_bind.mpr ?_
  have hfound : Aside x db₀ w (attempt (getWorkspace role.workspaceId)) :=
    (all_attempt fun _ => trivial).mpr (aside_getWorkspace (h.roles role hrole))
  refine Flow.All.mono hfound (fun _ h => h) fun r _ => ?_
  split <;> simp

variable (x db₀ w) in
/-- An invitation to another workspace. -/
theorem blind_commitInvite (user : UserRecord) (invite : UserInviteRecord)
    (role : WorkspaceUserRoleRecord) (hrole : role.workspaceId ≠ w) :
    Op.Blind (isolation x db₀ w) (.commit [.insert .users user, .insert .userInvites invite,
      .insert .workspaceUserRoles role]) := by
  refine parallel_foreign fun s hs => ?_
  rcases List.mem_cons.mp hs with rfl | hs
  · rfl
  · rcases List.mem_cons.mp hs with rfl | hs
    · rfl
    · rw [List.mem_singleton.mp hs]
      exact decide_eq_false hrole

theorem aside_inviteUser {config : Config} {input : InviteUserInput}
    (h : Outsider w input.inviter) : Aside x db₀ w (inviteUser x config input) := by
  unfold inviteUser
  simp only [Aside, Flow.all_bind, all_throwIf, not_not]
  intro hrole hadmin
  have hw : input.workspaceId ≠ w := h.canAdminister hadmin
  have husers : ∀ f, (tenantLikeness x db₀ w).Sees .users f := fun f =>
    sameAccounts_isolation.blind (o := .select .users f) rfl
  have hinsert : ∀ {t : Table} (r : Row t), Op.Blind (isolation x db₀ w) (.txWrite (.insert t r)) :=
    fun _ => .insert (.inl rfl)
  have hcommit := fun user invite id userId role => blind_commitInvite x db₀ w user invite
    ⟨id, userId, input.workspaceId, role⟩ hw
  simp [findUserByEmail, ensureWorkspaceExists, afterSeconds, generateInviteToken, Executor.op,
    all_attempt, husers, sees_workspace hw, hinsert, hcommit]

/-! ## Through a service to its owner -/

/-- What two runs find under an identifier: services of one workspace, the same one unless it is
ours, and ours only if the identifier is. -/
structure FoundAlike (db₀ : Db) (w : Uuid) (id : Uuid) (service service' : AppService) : Prop where
  workspaceId : service'.workspaceId = service.workspaceId
  ours : service.workspaceId = w ↔ id ∈ servicesOf db₀ w
  same : id ∉ servicesOf db₀ w → service' = service

theorem agree_getService (id : Uuid) :
    Agree (isolation x db₀ w) (AppServiceService.getService id) (AppServiceService.getService id)
      (FoundAlike db₀ w id) := by
  unfold AppServiceService.getService
  refine Agree.bind (agree_first (respects_link (by decide))) fun o o' h => agree_okOr ?_
  obtain ⟨hrel, db, hdb, ho⟩ := h
  cases hrel with
  | none => exact .none
  | @some r r' hr =>
    refine .some ?_
    have hmem : r ∈ layout.select db .appServices (byId id) := List.mem_of_head? ho.symm
    obtain ⟨hrow, hholds⟩ := List.mem_filter.mp hmem
    obtain rfl : r.id = id := uuid_of_col (Layout.holds_eq.mp hholds)
    have hours : r.workspaceId = w ↔ r.id ∈ servicesOf db₀ w := (mem_servicesOf hdb hrow).symm
    refine ⟨uuid_of_col (hr.col (c := 1) (by decide)), hours, fun hid => ?_⟩
    have hother : belongs (t := .appServices) db₀ w r = false :=
      decide_eq_false fun hw => hid (hours.mp hw)
    rw [hr.eq hother]

/-- Behind the check of a service, it is none of the workspace's. -/
theorem agree_ensureServiceAccess {user : User} (h : Outsider w user) (id : Uuid) :
    Agree (isolation x db₀ w) (ensureServiceAccess user id) (ensureServiceAccess user id)
      fun service service' => service' = service ∧ id ∉ servicesOf db₀ w := by
  unfold ensureServiceAccess
  refine (agree_getService id).bind fun service service' hfound => ?_
  rw [hfound.workspaceId]
  refine agree_ensureWorkspaceAccess fun haccess => agree_pure ?_
  have hid : id ∉ servicesOf db₀ w := fun hid => h.canAccess haccess (hfound.ours.mpr hid)
  exact ⟨hfound.same hid, hid⟩

/-- The scope of a variable in another workspace. -/
theorem same_validateScope {input : CreateEnvVarInput} (hw : input.workspaceId ≠ w) :
    Same (isolation x db₀ w) (validateEnvVarScope input) := by
  have hservice : Same (isolation x db₀ w) (validateServiceScope input) := by
    unfold validateServiceScope
    split
    · refine (agree_getService _).bind fun service service' hfound => ?_
      exact (agree_throwIf (by rw [hfound.workspaceId])).mono fun _ _ _ => rfl
    · exact same_pure _
  unfold validateEnvVarScope
  refine (same_blind (aside_getWorkspace hw)).bind fun _ => ?_
  cases input.environmentId with
  | none => exact hservice
  | some environmentId => exact (same_blind (aside_ensureEnvironment hw _)).bind fun _ => hservice

theorem aside_createEnvVarRecord {secretKey : String} (e : Executor) {input : CreateEnvVarInput}
    (hw : input.workspaceId ≠ w) : Aside x db₀ w (createEnvVarRecord x secretKey e input) := by
  have hinsert := fun id value => blind_insert x db₀ w (t := .envVars)
    (r := ⟨id, input.workspaceId, input.environmentId, input.serviceId, input.key, value⟩) e
    (decide_eq_false hw)
  simp [createEnvVarRecord, hinsert]

theorem same_createEnvVar {secretKey : String} {input : CreateEnvVarInput}
    (hw : input.workspaceId ≠ w) : Same (isolation x db₀ w) (createEnvVar x secretKey input) := by
  unfold createEnvVar
  exact (same_validateScope hw).bind fun _ =>
    (same_blind (aside_createEnvVarRecord .handle hw)).reply _

theorem same_createEnvVars {secretKey : String} {inputs : List CreateEnvVarInput}
    (hw : ∀ input ∈ inputs, input.workspaceId ≠ w) :
    Same (isolation x db₀ w) (createEnvVars x secretKey inputs) := by
  have heach : List.Forall₂ (fun input input' : CreateEnvVarInput => input' = input ∧
      input.workspaceId ≠ w) inputs inputs :=
    List.forall₂_same.mpr fun input hmem => ⟨rfl, hw input hmem⟩
  unfold createEnvVars
  refine Agree.bind (agree_forM heach fun input input' h => ?_) fun _ _ _ => ?_
  · obtain ⟨rfl, hinput⟩ := h
    exact (same_validateScope hinput).mono fun _ _ _ => trivial
  refine same_blind ?_
  rw [Flow.all_bind, all_transaction, Flow.all_bind]
  refine ⟨blind_begin, ?_⟩
  have hcreated : Flow.All (Op.Blind (isolation x db₀ w))
      (inputs.mapM (createEnvVarRecord x secretKey .transaction))
      (List.Forall₂ (fun _ r => r.workspaceId ≠ w) inputs) :=
    all_mapM fun input hmem => by
      have hinsert := fun id value => blind_insert x db₀ w (t := .envVars)
        (r := ⟨id, input.workspaceId, input.environmentId, input.serviceId, input.key, value⟩)
        .transaction (decide_eq_false (hw input hmem))
      simp [createEnvVarRecord, hinsert, hw input hmem]
  refine Flow.All.mono hcreated (fun _ h => h) fun created hall => ?_
  rw [Flow.all_bind, all_commit]
  refine ⟨parallel_foreign fun s hs => ?_, Flow.all_pure.mpr trivial⟩
  obtain ⟨r, hr, rfl⟩ := List.mem_map.mp hs
  obtain ⟨input, -, hrow⟩ := exists_of_forall₂ hall hr
  exact decide_eq_false hrow

/-! ## Domains and deployments -/

/-- What two runs find under the identifier of something with a service. -/
structure OwnedAlike {α : Type} (owner : α → Uuid) (db₀ : Db) (w : Uuid) (a a' : α) : Prop where
  agree : owner a' = owner a
  same : owner a ∉ servicesOf db₀ w → a' = a

theorem agree_getDomain (id : Uuid) :
    Agree (isolation x db₀ w) (getDomain id) (getDomain id) (OwnedAlike Domain.serviceId db₀ w) := by
  unfold getDomain
  refine Agree.bind (agree_first (respects_link (by decide))) fun o o' h => agree_okOr ?_
  cases h.1 with
  | none => exact .none
  | @some r r' hr =>
    refine .some ⟨uuid_of_col (hr.col (c := 1) (by decide)), fun hid => ?_⟩
    have hother : belongs (t := .domains) db₀ w r = false := decide_eq_false hid
    rw [hr.eq hother]

/-- A time that is read on both sides or on neither. -/
theorem agree_deploymentFrom {r r' : DeploymentRecord}
    (h : BelongAlike (t := .deployments) x db₀ w r r') :
    Agree (isolation x db₀ w) (Deployment.from x r) (Deployment.from x r')
      (OwnedAlike Deployment.serviceId db₀ w) := by
  have hservice : r'.serviceId = r.serviceId := uuid_of_col (h.col (c := 1) (by decide))
  have hreadable : (x.dateTimeFromStr r'.createdAt).isSome =
      (x.dateTimeFromStr r.createdAt).isSome := by
    rcases h with rfl | ⟨-, hlinks⟩
    · rfl
    · exact hlinks.readable
  have htime : Agree (isolation x db₀ w) (unwrapOrElse now (x.dateTimeFromStr r.createdAt))
      (unwrapOrElse now (x.dateTimeFromStr r'.createdAt)) fun t t' => r' = r → t' = t := by
    cases ht : x.dateTimeFromStr r.createdAt <;> cases ht' : x.dateTimeFromStr r'.createdAt
    case none.none => exact (same_blind (by simp)).mono fun _ _ h _ => h
    case some.some =>
      refine agree_pure fun heq => ?_
      rw [heq, ht] at ht'
      exact (Option.some.inj ht').symm
    all_goals
      rw [ht, ht'] at hreadable
      cases hreadable
  unfold Deployment.from
  refine htime.bind fun t t' heq => agree_pure ⟨hservice, fun hid => ?_⟩
  have hr : r' = r := h.eq (decide_eq_false hid)
  rw [hr, heq hr]

theorem agree_getDeployment (id : Uuid) :
    Agree (isolation x db₀ w) (getDeployment x id) (getDeployment x id)
      (OwnedAlike Deployment.serviceId db₀ w) := by
  unfold getDeployment
  refine Agree.bind (agree_first (respects_link (by decide))) fun o o' h => ?_
  exact Agree.bind (agree_okOr h.1) fun r r' hr => agree_deploymentFrom hr

section service

variable {serviceId : Uuid} (hid : serviceId ∉ servicesOf db₀ w)

include hid

theorem same_listDomains : Same (isolation x db₀ w) (listDomains serviceId) :=
  same_blind (by simp [listDomains, sees_ofService (t := .domains) rfl hid])

theorem same_getService :
    Same (isolation x db₀ w) (AppServiceService.getService serviceId) :=
  (agree_getService serviceId).mono fun _ _ h => h.same hid

theorem same_createDomain {input : CreateDomainInput} (hinput : input.serviceId = serviceId) :
    Same (isolation x db₀ w) (createDomain input) := by
  subst hinput
  have hinsert := fun id hostname proxy tls => blind_insert x db₀ w
    (t := .domains) (r := ⟨id, input.serviceId, hostname, proxy, tls⟩) .handle (decide_eq_false hid)
  unfold createDomain
  exact (same_getService hid).bind fun _ => same_blind (by simp [hinsert])

theorem same_listDeployments : Same (isolation x db₀ w) (listDeployments x serviceId) := by
  unfold listDeployments
  refine Same.bind (same_blind ?_) fun records => same_mapM (fun r => same_blind ?_) _
  · simp [sees_ofService (t := .deployments) rfl hid]
  · simp [Deployment.from]

theorem same_runAndRecord (executor : DeployExecutor) (commands : List RemoteCommand) :
    Same (isolation x db₀ w) (runAndRecord x executor serviceId commands) := by
  have hinsert := fun id status workflowId output createdAt => blind_insert x db₀ w
    (t := .deployments) (r := ⟨id, serviceId, status, workflowId, output, createdAt⟩) .handle
    (decide_eq_false hid)
  exact same_blind (by simp [runAndRecord, createDeployment, Deployment.from, hinsert])

theorem same_triggerDeploy (config : Config) (executor : DeployExecutor) :
    Same (isolation x db₀ w) (triggerDeploy x config executor serviceId) := by
  unfold triggerDeploy
  refine (same_getService hid).bind fun service => ?_
  exact (same_blind (by simp)).bind fun commands => same_runAndRecord hid executor commands

theorem same_restartService (executor : DeployExecutor) :
    Same (isolation x db₀ w) (restartService x executor serviceId) := by
  unfold restartService
  refine (same_getService hid).bind fun service => ?_
  exact (same_blind (by simp)).bind fun _ => same_runAndRecord hid executor _

end service

/-! ## Requests -/

/-- Behind the check of a service, a call on that service. -/
theorem same_afterService {user : User} (h : Outsider w user) {id : Uuid} {α : Type}
    {y : AppService → Service α}
    (hy : id ∉ servicesOf db₀ w → ∀ service, Same (isolation x db₀ w) (y service)) :
    Same (isolation x db₀ w) (ensureServiceAccess user id >>= y) := by
  refine (agree_ensureServiceAccess h id).bind fun service service' hs => ?_
  rw [hs.1]
  exact hy hs.2 service

/-- What has been found of an owner is the same behind the check of its service. -/
theorem same_afterOwner {user : User} (h : Outsider w user) {α : Type} {owner : α → Uuid}
    {y : Service α} {g : α → ApiReply}
    (hy : Agree (isolation x db₀ w) y y (OwnedAlike owner db₀ w)) :
    Same (isolation x db₀ w) (do
      let a ← y
      let _ ← ensureServiceAccess user (owner a)
      return g a) := by
  refine hy.bind fun a a' ha => ?_
  rw [ha.agree]
  refine (agree_ensureServiceAccess h (owner a)).bind fun _ _ hs => agree_pure ?_
  rw [ha.same hs.2]

theorem same_access {user : User} (h : Outsider w user) {workspaceId : Uuid} {α : Type}
    {y : Service α} (hy : workspaceId ≠ w → Same (isolation x db₀ w) y) :
    Same (isolation x db₀ w) (ensureWorkspaceAccess user workspaceId >>= fun _ => y) :=
  agree_ensureWorkspaceAccess fun haccess => hy (h.canAccess haccess)

theorem same_superAdmin {user : User} (h : Outsider w user) {α : Type} {y : Service α} :
    Same (isolation x db₀ w) (ensureSuperAdmin user >>= fun _ => y) :=
  agree_ensureSuperAdmin fun hrole => absurd hrole h.role

/-- **Handlers.** Every handler serves an outsider alike. -/
theorem same_route {config : Config} {user : User} (h : Outsider w user) (route : UserRoute) :
    Same (isolation x db₀ w) (route.handle x config user) := by
  have haccounts : ∀ {α : Type} {y : Service α}, OnAccounts y → Same (isolation x db₀ w) y :=
    fun hy => sameAccounts_isolation.agree hy
  cases route with
  | me => exact same_pure _
  | listApiTokens => exact (haccounts (onAccounts_listApiTokens user)).reply _
  | createApiToken payload =>
    exact agree_validated rfl ((haccounts (onAccounts_createApiToken _)).reply _)
  | revokeApiToken id => exact (haccounts (onAccounts_revokeApiToken user id)).reply _
  | listServers => exact same_superAdmin h
  | createServer payload => exact agree_validated rfl (same_superAdmin h)
  | getServer id => exact same_superAdmin h
  | checkServer id => exact same_superAdmin h
  | listWorkspaces => exact (same_blind (aside_listAccessibleWorkspaces h)).reply _
  | createWorkspace payload => exact agree_validated rfl (same_superAdmin h)
  | getWorkspace id => exact same_access h fun hw => (same_blind (aside_getWorkspace hw)).reply _
  | listEnvironments id =>
    exact same_access h fun hw => (same_blind (aside_listEnvironments hw)).reply _
  | createEnvironment id payload =>
    exact agree_validated rfl
      (same_access h fun hw => (same_blind (aside_createEnvironment hw _)).reply _)
  | listServices id => exact same_access h fun hw => (same_blind (aside_listServices hw)).reply _
  | createService id payload =>
    exact agree_validated rfl
      (same_access h fun hw => (same_blind (aside_createService hw rfl)).reply _)
  | getService id =>
    exact Agree.reply (agree_ensureServiceAccess h id) fun _ _ hs => congrArg _ hs.1
  | listCredentials id =>
    exact same_access h fun hw => (same_blind (aside_listCredentials hw)).reply _
  | createCredential id payload =>
    exact agree_validated rfl
      (same_access h fun hw => (same_blind (aside_createCredential hw rfl)).reply _)
  | listEnvVars id => exact same_access h fun hw => (same_blind (aside_listEnvVars hw)).reply _
  | createEnvVar id payload =>
    refine agree_validated rfl (same_access h fun hw => ?_)
    have hinput : (payload.toInput id).workspaceId ≠ w := hw
    exact (same_createEnvVar hinput).reply _
  | createEnvVars id payload =>
    refine agree_validated rfl (same_access h fun hw => ?_)
    refine (same_createEnvVars fun input hmem => ?_).reply _
    obtain ⟨v, -, rfl⟩ := List.mem_map.mp hmem
    exact hw
  | listDomains id => exact same_afterService h fun hid _ => (same_listDomains hid).reply _
  | createDomain id payload =>
    exact agree_validated rfl
      (same_afterService h fun hid _ => (same_createDomain hid rfl).reply _)
  | previewProxy id => exact same_afterOwner h (agree_getDomain id)
  | listDeployments id =>
    exact same_afterService h fun hid _ => (same_listDeployments hid).reply _
  | triggerDeploy id =>
    exact same_afterService h fun hid _ => (same_triggerDeploy hid config previewExecutor).reply _
  | getDeployment id => exact same_afterOwner h (agree_getDeployment id)
  | restartService id =>
    exact same_afterService h fun hid _ => (same_restartService hid previewExecutor).reply _
  | serviceLogs id => exact same_afterService h fun _ _ => same_pure _
  | listWorkspaceTemplates id =>
    exact same_access h fun hw => (same_blind (aside_listWorkspaceTemplates hw)).reply _
  | createTemplate id payload =>
    exact agree_validated rfl
      (same_access h fun hw => (same_blind (aside_createTemplate hw rfl)).reply _)
  | createWorkspacesFromTemplate id payload => exact agree_validated rfl (same_superAdmin h)
  | getSettings => exact same_superAdmin h
  | updateSettings payload => exact same_superAdmin h
  | listUsers => exact same_superAdmin h
  | inviteUser payload =>
    exact agree_validated rfl ((same_blind (aside_inviteUser h)).reply _)
  | disableUser id => exact same_superAdmin h
  | reactivateUser id => exact same_superAdmin h
  | changeUserRole id payload => exact same_superAdmin h

theorem same_public {config : Config} (route : PublicRoute) :
    Same (isolation x db₀ w) (route.handle x config) := by
  have haccounts : ∀ {α : Type} {y : Service α}, OnAccounts y → Same (isolation x db₀ w) y :=
    fun hy => sameAccounts_isolation.agree hy
  cases route with
  | jwks =>
    show Same _ (ApiReply.jwks <$> AuthService.jwks x)
    rw [← bind_pure_comp]
    exact (haccounts onAccounts_jwks).reply _
  | login payload => exact agree_validated rfl ((haccounts (onAccounts_login _)).reply _)
  | refreshSession payload =>
    exact agree_validated rfl ((haccounts (onAccounts_refreshSession _)).reply _)
  | logout payload =>
    exact agree_validated rfl (Same.bind (haccounts (onAccounts_logout _)) fun _ => same_pure _)
  | acceptInvite payload =>
    exact agree_validated rfl ((haccounts (onAccounts_acceptInvite _)).reply _)

/-- **Tenant isolation.** Requests are served, in any order of their statements, from two databases
that differ only in the contents of the records of the workspace, with one clock and the same
generated identifiers; and everybody who is authenticated on the way is an outsider. Then the
replies are the same, the databases still differ only there, and the records of the workspace are
those it began with. -/
theorem tenant_isolation {requests : List (Config × ApiRequest)} {schedule : List (Nat × Ans)}
    {db db' : Db} {P : RequestPool} (hdb : AlikeBut x w db db')
    (hr : (RequestPool.of x requests (.start db)).run exec schedule = some P)
    (hcallers : ∀ e ∈ (RequestPool.of x requests (.start db)).trace exec schedule,
      ∀ user, e.op = .caller user → Outsider w user) :
    ∃ P' : RequestPool, (RequestPool.of x requests (.start db')).run exec schedule = some P' ∧
      (∀ (i : Nat) (r : Except Abort ApiReply),
        P'.threads[i]? = some (.ret r) ↔ P.threads[i]? = some (.ret r)) ∧
      AlikeBut x w P.state.db P'.state.db ∧ ∀ t, recordsOf P.state.db w t = recordsOf db w t := by
  have hsame : List.Forall₂ (fun q q' => Agree (isolation x db w) (q.2.serve x q.1)
      (q'.2.serve x q'.1) fun r r' => r' = r) requests requests := by
    refine List.forall₂_same.mpr fun q _ => ?_
    obtain ⟨config, route | ⟨authorization, route⟩⟩ := q
    · exact same_public route
    · exact agree_serve sameAccounts_isolation config fun user h => same_route h route
  have hstart : Twins (isolation x db w) (.start db) (.start db') :=
    ⟨hdb, rfl, rfl, fun _ => rfl⟩
  obtain ⟨P', hr', hreplies, htwins⟩ := requests_agree hsame hstart hr hcallers
  refine ⟨P', hr', hreplies, fun t => ?_, fun t => recordsOf_eq htwins.known t⟩
  refine (htwins.db t).imp fun r r' h => ?_
  rw [belongs_eq htwins.known]
  exact h

end isolation

namespace Symbolic

/-- Bob has a role in one workspace; the other one has a service and a deployment. -/
def neighbours (name image output : String) : Db where
  rows := fun
    | .users => [⟨2, "bob@wara.local", "Bob", "viewer", "active", "$argon2id$password"⟩]
    | .userApiTokens =>
      [⟨6, 2, "ci", hashApiToken ext "wara_t", "wara_t", seconds 0, none, none⟩]
    | .workspaceUserRoles => [⟨4, 2, 8, "viewer"⟩]
    | .workspaces => [⟨8, "Shop", none⟩, ⟨9, name, none⟩]
    | .appServices => [⟨3, 9, 5, "web", "docker_image", some image, none, none, none⟩]
    | .deployments => [⟨7, 3, "queued", "workflow-7", output, seconds 0⟩]
    | _ => []
  unique := fun t c hc => by
    cases t
    case workspaces =>
      obtain rfl : c = 0 := List.mem_singleton.mp hc
      exact (show [some (Value.uuid 8), some (Value.uuid 9)].Nodup by decide)
    all_goals first | exact List.nodup_nil | exact List.nodup_singleton _

def bank : Db := neighbours "Bank" "bank:1" "$ docker pull bank:1"

def otherBank : Db := neighbours "Vault" "vault:2" ""

/-- Bob asks for the deployment, and for his workspaces. -/
def peeking : List (Config × ApiRequest) :=
  [(config "A", .user (some "Bearer wara_t") (.getDeployment 7)),
    (config "A", .user (some "Bearer wara_t") .listWorkspaces)]

def peekingSteps : List (Nat × Ans) :=
  ([.done, .done, .time ⟨10000000000⟩, .done, .done, .done, .done, .done].map fun a => (0, a)) ++
  [.done, .done, .time ⟨12000000000⟩, .done, .done, .done, .done].map fun a => (1, a)

def eventCaller : (e : Event Res World) → Option User
  | ⟨_, .caller user, _, _, _⟩ => some user
  | _ => none

theorem eventCaller_eq {e : Event Res World} {user : User} (h : e.op = .caller user) :
    eventCaller e = some user := by
  obtain ⟨i, o, r, s, s'⟩ := e
  obtain rfl : o = .caller user := h
  rfl

theorem peeking_runs :
    ((RequestPool.of ext peeking (.start bank)).run exec peekingSteps).isSome = true ∧
    ∀ e ∈ (RequestPool.of ext peeking (.start bank)).trace exec peekingSteps,
      ∀ user ∈ eventCaller e, Outsider 9 user := by
  decide +kernel

/-- Another name, image and transcript of the other workspace, the same replies for Bob. -/
theorem tenant_isolation_peeking : ∃ P P' : RequestPool,
    (RequestPool.of ext peeking (.start bank)).run exec peekingSteps = some P ∧
    (RequestPool.of ext peeking (.start otherBank)).run exec peekingSteps = some P' ∧
    (∀ (i : Nat) (r : Except Abort ApiReply),
      P'.threads[i]? = some (.ret r) ↔ P.threads[i]? = some (.ret r)) ∧
    AlikeBut ext 9 P.state.db P'.state.db := by
  obtain ⟨hruns, houtsiders⟩ := peeking_runs
  obtain ⟨P, hrun⟩ := Option.isSome_iff_exists.mp hruns
  have halike : AlikeBut ext 9 bank otherBank := by
    intro t
    cases t
    case workspaces => exact .cons (.inl rfl) (.cons (.inr ⟨rfl, by decide, rfl⟩) .nil)
    case appServices => exact .cons (.inr ⟨rfl, by decide, rfl⟩) .nil
    case deployments => exact .cons (.inr ⟨by decide, by decide, rfl⟩) .nil
    all_goals exact List.forall₂_same.mpr fun _ _ => .inl rfl
  obtain ⟨P', hrun', hreplies, hdb, -⟩ := tenant_isolation halike hrun fun e he user hop =>
    houtsiders e he user (eventCaller_eq hop)
  exact ⟨P, P', hrun, hrun', hreplies, hdb⟩

end Symbolic

end Wara
