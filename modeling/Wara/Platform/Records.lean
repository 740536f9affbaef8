import Mathlib.Data.List.ReduceOption
import Wara.Auth.Credentials
import Wara.Platform.Checks
import Wara.Platform.Coherent
import Wara.Platform.Listing
import Wara.Store.Insert
import Wara.Store.Records

/-!
# What the services return is on record

A call returns what it read off rows that are stored, and that stay. So its
result can be stated of the database at any later time: what it looked up is
there, what it made is there as it was asked for, and a list has all that was
there when the call began.
-/

namespace Wara

open Interleave Store Service Docker AuthService WorkspaceService AppServiceService DomainService
  DeploymentService WorkspaceTemplateService CredentialService ServerService

/-! ## Records -/

/-- The row is stored, as far as it never changes. -/
abbrev OnRecord (db : Db) (t : Table) (r : Row t) : Prop := layout.OnRecord fixedCols db r

abbrev SameRow (t : Table) (r r' : Row t) : Prop := layout.Same fixedCols r r'

/-- The row was stored just so at a moment of the time `D`, and is on record. -/
abbrev Recorded (D : Db → Prop) (db : Db) (t : Table) (r : Row t) : Prop :=
  layout.Recorded fixedCols D db r

/-- The database at a later moment of the time. -/
abbrev Db.Later (D : Db → Prop) (db db' : Db) : Prop := layout.Later fixedCols D db db'

section records

variable {α : Type} (D : Db → Prop)

/-- What is told belongs to a row on record. -/
def Told (db : Db) (t : Table) (R : Row t → α → Prop) (a : α) : Prop :=
  ∃ r, Recorded D db t r ∧ R r a

/-- A list of what is stored with the property. -/
abbrev ReportsOn (db₀ db : Db) (t : Table) (p : Row t → Prop) (R : Row t → α → Prop)
    (as : List α) : Prop := layout.Reports fixedCols D db₀ db p R as

/-- The user of a row, with roles on record. -/
structure UserOf (db : Db) (r : UserRecord) (user : User) : Prop where
  record : User.from r = { user with workspaceRoles := [] }
  roles : ∀ role ∈ user.workspaceRoles, Told D db .workspaceUserRoles
    (fun (m : WorkspaceUserRoleRecord) role => m.userId = r.id ∧ WorkspaceRole.from m = role) role

/-- The deployment of a row. -/
structure DeploymentOf (x : Ext) (r : DeploymentRecord) (deployment : Deployment) : Prop where
  id : deployment.id = r.id
  serviceId : deployment.serviceId = r.serviceId
  status : deployment.status = DeploymentStatus.from r.status
  workflowId : deployment.workflowId = r.workflowId
  output : deployment.output = r.output
  createdAt : ∀ time, x.dateTimeFromStr r.createdAt = some time → deployment.createdAt = time

/-- The workspace was made, with an environment. -/
structure MadeWorkspace (db : Db) (name : String) (description : Option String) (w : Workspace) :
    Prop where
  made : w = ⟨w.id, name, description⟩
  recorded : Recorded D db .workspaces w
  environment : ∃ id, Recorded D db .environments (⟨id, w.id, "production"⟩ : Environment)

variable {D} {db db' : Db}

theorem Told.mono {t : Table} {R : Row t → α → Prop} {a : α} (h : Told D db t R a)
    (hdb : db.Later D db') : Told D db' t R a := by
  obtain ⟨r, hr, hR⟩ := h
  exact ⟨r, hr.mono hdb, hR⟩

theorem UserOf.mono {r : UserRecord} {user : User} (h : UserOf D db r user)
    (hdb : db.Later D db') : UserOf D db' r user :=
  ⟨h.record, fun role hrole => (h.roles role hrole).mono hdb⟩

variable (D) in
/-- The user is the one of a stored row. -/
def KnownUser (db : Db) (user : User) : Prop := Told D db .users (UserOf D db) user

theorem MadeWorkspace.mono {name : String} {description : Option String} {w : Workspace}
    (h : MadeWorkspace D db name description w) (hdb : db.Later D db') :
    MadeWorkspace D db' name description w := by
  obtain ⟨id, he⟩ := h.environment
  exact ⟨h.made, h.recorded.mono hdb, id, he.mono hdb⟩

theorem KnownUser.mono {user : User} (h : KnownUser D db user) (hdb : db.Later D db') :
    KnownUser D db' user := by
  obtain ⟨r, hr, huser⟩ := h
  exact ⟨r, hr.mono hdb, huser.mono hdb⟩

end records

/-! ## Rules -/

section rules

variable {D : Db → Prop} {fires : Event Res World → Prop} {i : Nat} {x : Ext} {config : Config}
  {α β : Type} {s : World} {t : Table} {ok : β → Db → Prop}

/-- As `sparing`, while the time `D` goes on. -/
def watched (D : Db → Prop) (fires : Event Res World → Prop) (i : Nat) : Rules Res World where
  rely s s' := s.db.Later D s'.db
  rely_refl s := Layout.Later.refl s.db
  rely_trans := Layout.Later.trans
  step o s r s' :=
    (∃ a, exec i o a s = some (r, s')) ∧ s.db.Later D s'.db ∧ ¬ fires ⟨i, o, r, s, s'⟩
  guar _ _ _ _ := True

theorem calm_watched : Calm (watched D fires i) where
  exec h := ⟨i, h.1⟩
  reads _ h := ⟨trivial, h.2.1⟩
  guar h := ⟨trivial, h.2.1⟩

theorem close_watched : Close (watched D fires i) := { calm_watched with within := fun h _ => h.2.1 }

/-- If the call begins in the time and ends with a value, it is `ok` in any later database. -/
structure Tells (D : Db → Prop) (fires : Event Res World → Prop) (i : Nat) (y : Service β)
    (ok : β → Db → Prop) (s : World) : Prop where
  ends : D s.db → Ends (watched D fires i) y (fun b s' => ok b s'.db) s

/-- What the call told, at the end, where all rows are still there. -/
theorem Tells.mono {y : Service β} {told : β → Db → Prop} (h : Tells D fires i y told s)
    (hok : ∀ b db, s.db.Later D db → told b db → ok b db) : Tells D fires i y ok s :=
  ⟨fun hD => Ends.mono (Ends.within close_watched (h.ends hD)) fun b s' hs =>
    hok b s'.db hs.2 hs.1⟩

theorem tells_pure {b : β} (h : ∀ db, s.db.Later D db → ok b db) : Tells D fires i (pure b) ok s :=
  ⟨fun _ => ends_pure fun s' hs => h s'.db hs⟩

theorem tells_throwApi (e : ApiError) : Tells D fires i (throwApi e) ok s :=
  ⟨fun _ => ends_throwApi e⟩

theorem tells_okOr {e : ApiError} {o : Option α} {f : α → Service β}
    (h : ∀ a, o = some a → Tells D fires i (f a) ok s) : Tells D fires i (okOr e o >>= f) ok s :=
  ⟨fun hD => ends_okOr fun a ha => (h a ha).ends hD⟩

theorem tells_throwIf {b : Prop} [Decidable b] {e : ApiError} {f : Unit → Service β}
    (h : ¬ b → Tells D fires i (f ()) ok s) : Tells D fires i (throwIf b e >>= f) ok s :=
  ⟨fun hD => ends_throwIf fun hb => (h hb).ends hD⟩

theorem tells_orThrow {r : Except ApiError α} {f : α → Service β}
    (h : ∀ a, Tells D fires i (f a) ok s) : Tells D fires i (orThrow r >>= f) ok s :=
  ⟨fun hD => ends_orThrow fun a _ => (h a).ends hD⟩

theorem tells_any {y : Service α} {f : α → Service β}
    (h : ∀ a s', s.db.Later D s'.db → Tells D fires i (f a) ok s') :
    Tells D fires i (y >>= f) ok s :=
  ⟨fun hD => ends_any calm_watched fun a s' hs => (h a s' hs).ends (hs.within hD)⟩

/-- Any part of the call, with what is known of its value. -/
theorem tells_all {y : Service α} {Q : α → Prop} {f : α → Service β}
    (hy : Flow.All (fun _ => True) y Q)
    (h : ∀ a s', Q a → s.db.Later D s'.db → Tells D fires i (f a) ok s') :
    Tells D fires i (y >>= f) ok s :=
  ⟨fun hD => ends_calm calm_watched hy fun a s' ha hs => (h a s' ha hs).ends (hs.within hD)⟩

/-- What a part of the call tells, it tells at the end. -/
theorem tells_bind {y : Service α} {f : α → Service β} {told : α → Db → Prop}
    (h : Tells D fires i y told s)
    (hf : ∀ a s', s.db.Later D s'.db → (∀ db, s'.db.Later D db → told a db) →
      Tells D fires i (f a) ok s') : Tells D fires i (y >>= f) ok s := by
  refine ⟨fun hD => ?_⟩
  have hlater : Ends (watched D fires i) y
      (fun a s' => ∀ s'' : World, s'.db.Later D s''.db → told a s''.db) s :=
    Flow.Safe.later (h.ends hD)
  exact Ends.bind close_watched hlater fun a s' hs ha =>
    (hf a s' hs fun db hdb => ha { s' with db := db } hdb).ends (hs.within hD)

theorem tells_return {y : Service α} {g : α → β} {told : α → Db → Prop}
    (h : Tells D fires i y told s) (hg : ∀ a db, s.db.Later D db → told a db → ok (g a) db) :
    Tells D fires i (y >>= fun a => pure (g a)) ok s :=
  tells_bind h fun _ _ h₁ ha => tells_pure fun _ h₂ => hg _ _ (h₁.trans h₂) (ha _ h₂)

theorem tells_mapM {g : α → Service β} {as : List α} {P : α → β → Db → Prop}
    (hP : ∀ a b db db', db.Later D db' → P a b db → P a b db')
    (h : ∀ a s', s.db.Later D s'.db → Tells D fires i (g a) (P a) s') :
    Tells D fires i (as.mapM g) (fun bs db => List.Forall₂ (P · · db) as bs) s :=
  ⟨fun hD => ends_mapM close_watched (P := fun a b s' => P a b s'.db)
    (fun a b _ _ hs => hP a b _ _ hs) fun a _ s' hs => (h a s' hs).ends (hs.within hD)⟩

/-! ## Statements -/

theorem tells_query {flt : Filter} (hf : ∀ r r' : Row t, SameRow t r r' →
      (layout.holds flt r = true ↔ layout.holds flt r' = true)) :
    Tells D fires i (query t flt)
      (fun rs db => ReportsOn D s.db db t (fun r => layout.holds flt r = true) Eq rs) s := by
  rw [← bind_pure (query t flt)]
  refine ⟨fun hD => ends_query calm_watched.toTame fun s₁ h₁ _ => ends_pure fun s₂ h₂ => ?_⟩
  exact Layout.Reports.select hf h₁ (h₁.within hD) h₂

theorem tells_table : Tells D fires i (query t .all)
    (fun rs db => ReportsOn D s.db db t (fun _ => True) Eq rs) s :=
  (tells_query fun _ _ _ => Iff.rfl).mono fun _ _ _ h =>
    h.congr fun _ => ⟨fun _ => trivial, fun _ => rfl⟩

/-- The rows that refer to something. -/
theorem tells_by {c : Nat} {v : Value} (hc : c ∈ fixedCols t) : Tells D fires i (query t (.eq c v))
    (fun rs db => ReportsOn D s.db db t (fun r => layout.col c r = some v) Eq rs) s := by
  refine (tells_query fun r r' h => ?_).mono fun _ _ _ h => h.congr fun _ => Layout.holds_eq
  rw [Layout.holds_eq, Layout.holds_eq, h c hc]

theorem tells_listed {c : Nat} {v : Value} (hc : c ∈ fixedCols t) {f : Row t → β}
    {p : Row t → Prop} (hp : ∀ r, layout.col c r = some v ↔ p r) :
    Tells D fires i (query t (.eq c v) >>= fun rs => pure (rs.map f))
      (fun bs db => ReportsOn D s.db db t p (f · = ·) bs) s :=
  tells_return (tells_by hc) fun _ _ _ h => (h.map f fun _ _ he => congrArg f he).congr hp

theorem tells_first {flt : Filter} : Tells D fires i (first t flt)
    (fun o db => ∀ r ∈ o, Recorded D db t r ∧ layout.holds flt r = true) s := by
  rw [← bind_pure (first t flt)]
  refine ⟨fun hD => ends_first calm_watched.toTame fun s₁ h₁ => ends_pure fun s₂ h₂ r hr => ?_⟩
  obtain ⟨hmem, hholds⟩ := Layout.mem_of_head?_select hr
  exact ⟨.mono (.of_mem (h₁.within hD) hmem) h₂, hholds⟩

/-- The row of an identifier. -/
theorem tells_found {id : Uuid} {e : ApiError} {f : Row t → β} :
    Tells D fires i (first t (byId id) >>= fun o => okOr e (o.map f))
      (fun b db => ∃ r, Recorded D db t r ∧ layout.col 0 r = some (.uuid id) ∧ f r = b) s := by
  refine tells_bind tells_first fun o s₁ _ ho => ?_
  rw [← bind_pure (okOr e (o.map f))]
  refine tells_okOr fun b hb => tells_pure fun db hdb => ?_
  obtain ⟨r, rfl, rfl⟩ := Option.map_eq_some_iff.mp hb
  obtain ⟨hr, hholds⟩ := ho db hdb r rfl
  exact ⟨r, hr, Layout.holds_eq.mp hholds, rfl⟩

/-- A statement of a transaction, which changes nothing yet. -/
theorem tells_txCreate {r : Row t} {f : Row t → Service β}
    (h : ∀ s', s.db.Later D s'.db → Tells D fires i (f r) ok s') :
    Tells D fires i (create .transaction r >>= f) ok s :=
  tells_all (all_create.mpr ⟨trivial, rfl⟩) fun _ s' hr hs => hr ▸ h s' hs

/-- What the call commits is on record. -/
theorem tells_commit {ws : List Write} {f : Unit → Service β}
    (hws : ∀ t f sets, Store.Write.update t f sets ∉ ws)
    (h : ∀ s', s.db.Later D s'.db → (∀ t (r : Row t), .insert t r ∈ ws → Recorded D s'.db t r) →
      Tells D fires i (f ()) ok s') : Tells D fires i (commit ws >>= f) ok s := by
  refine ⟨fun hD => ends_commit (fun _ _ _ _ _ => trivial) fun s₁ s₂ h₁ hstep => ?_⟩
  obtain ⟨a, ha⟩ := hstep.1
  have h₂ : s.db.Later D s₂.db := h₁.trans hstep.2.1
  exact (h s₂ h₂ fun t r hr => .inserted (exec_succeeded ha rfl) (hws t) hr (h₂.within hD)).ends
    (h₂.within hD)

theorem tells_inserted {r : Row t} {f : Row t → Service β}
    (h : ∀ s', s.db.Later D s'.db → Recorded D s'.db t r → Tells D fires i (f r) ok s') :
    Tells D fires i (create .handle r >>= f) ok s := by
  refine ⟨fun hD => ends_create (fun _ _ _ _ _ => trivial) fun s₁ s₂ h₁ hstep => ?_⟩
  obtain ⟨a, ha⟩ := hstep.1
  have h₂ : s.db.Later D s₂.db := h₁.trans hstep.2.1
  refine (h s₂ h₂ (.of_mem (h₂.within hD) ?_)).ends (h₂.within hD)
  rw [Layout.apply_insert (applyAll_single (exec_succeeded ha rfl))]
  exact List.mem_append_right _ (List.mem_singleton_self r)

/-- An update of a row that is there. -/
theorem tells_updated {c : Nat} {v : Value} {sets : List (Nat × Value)} {f : Unit → Service β}
    {r : Row t} (hr : OnRecord s.db t r) (hc : c ∈ fixedCols t) (hv : layout.col c r = some v)
    (h : ∀ s' r', s.db.Later D s'.db → layout.col c r' = some v →
      Recorded D s'.db t (layout.setCols sets r') → Tells D fires i (f ()) ok s') :
    Tells D fires i (update t (.eq c v) sets >>= f) ok s := by
  refine ⟨fun hD => ends_update (fun _ _ _ _ _ => trivial) fun s₁ s₂ h₁ hstep => ?_⟩
  obtain ⟨a, ha⟩ := hstep.1
  have h₂ : s.db.Later D s₂.db := h₁.trans hstep.2.1
  obtain ⟨r₁, hr₁, hsame⟩ := hr.mono h₁.keeps
  have hv₁ : layout.col c r₁ = some v := (hsame c hc).trans hv
  refine (h s₂ r₁ h₂ hv₁ (.of_mem (h₂.within hD) ?_)).ends (h₂.within hD)
  rw [Layout.apply_update (applyAll_single (exec_succeeded ha rfl))]
  exact List.mem_map.mpr ⟨r₁, hr₁, if_pos (Layout.holds_eq.mpr hv₁)⟩

/-- What a call makes under a new identifier. -/
theorem tells_created {mk : Uuid → Row t} {f : Row t → β} :
    Tells D fires i (nowV7 >>= fun id => create .handle (mk id) >>= fun r => pure (f r))
      (fun b db => ∃ id, Recorded D db t (mk id) ∧ f (mk id) = b) s :=
  tells_any fun id _ _ => tells_inserted fun _ _ hr => tells_pure fun _ hdb =>
    ⟨id, hr.mono hdb, rfl⟩

/-! ## Workspaces and what belongs to them -/

theorem uuid_col_iff {a b : Uuid} : some (Value.uuid a) = some (.uuid b) ↔ a = b :=
  ⟨uuid_of_col, fun h => h ▸ rfl⟩

theorem tells_getWorkspace {id : Uuid} :
    Tells D fires i (getWorkspace id) (fun w db => Recorded D db .workspaces w ∧ w.id = id) s := by
  unfold getWorkspace
  refine tells_bind tells_first fun o s₁ _ ho => ?_
  rw [← bind_pure (okOr _ o)]
  refine tells_okOr fun w hw => tells_pure fun db hdb => ?_
  obtain ⟨hr, hholds⟩ := ho db hdb w hw
  exact ⟨hr, uuid_of_col (Layout.holds_eq.mp hholds)⟩

theorem tells_createWorkspace {name : String} {description : Option String} :
    Tells D fires i (createWorkspace name description)
      (fun w db => MadeWorkspace D db name description w) s := by
  unfold createWorkspace
  refine tells_any fun _ s₁ _ => tells_any fun id s₂ _ => tells_txCreate fun s₃ _ => ?_
  refine tells_any fun eid s₄ _ => tells_txCreate fun s₅ _ => ?_
  refine tells_commit (by simp) fun s₆ _ hrows => tells_pure fun db hdb => ?_
  refine ⟨rfl, (hrows _ _ ?_).mono hdb, eid, (hrows _ _ ?_).mono hdb⟩
  · exact List.mem_cons_self
  · exact List.mem_cons_of_mem _ List.mem_cons_self

theorem tells_createEnvironment {workspaceId : Uuid} {name : String} :
    Tells D fires i (WorkspaceService.createEnvironment workspaceId name) (fun e db =>
      ∃ id, Recorded D db .environments (⟨id, workspaceId, name⟩ : Environment) ∧
        ⟨id, workspaceId, name⟩ = e) s := by
  unfold WorkspaceService.createEnvironment
  refine tells_any fun _ s₁ _ => tells_any fun id s₂ _ => ?_
  rw [← bind_pure (create _ _)]
  exact tells_inserted fun s₃ _ hr => tells_pure fun db hdb => ⟨id, hr.mono hdb, rfl⟩

theorem tells_getService {id : Uuid} : Tells D fires i (AppServiceService.getService id)
    (fun service db => ∃ r : AppServiceRecord, Recorded D db .appServices r ∧ r.id = id ∧
      AppService.from r = service) s := by
  refine tells_found.mono fun service db _ h => ?_
  obtain ⟨r, hr, hid, he⟩ := h
  exact ⟨r, hr, uuid_of_col hid, he⟩

theorem tells_createService {input : CreateAppServiceInput} :
    Tells D fires i (AppServiceService.createService input) (fun service db =>
      service = ⟨service.id, input.workspaceId, input.environmentId, input.name, input.deployKind,
        input.image, input.composeFile, input.dockerfile, input.internalPort⟩ ∧
        Told D db .appServices (AppService.from · = ·) service) s := by
  unfold AppServiceService.createService
  refine tells_any fun _ s₁ _ => tells_any fun _ s₂ _ => tells_created.mono fun _ db _ h => ?_
  obtain ⟨id, hr, rfl⟩ := h
  refine ⟨?_, _, hr, rfl⟩
  unfold AppService.from
  rw [DeployKind.from_asStr]

theorem tells_createDomain {input : CreateDomainInput} :
    Tells D fires i (DomainService.createDomain input) (fun domain db =>
      domain = ⟨domain.id, input.serviceId, input.hostname, input.proxy.getD .nginx,
        input.tlsEnabled.getD true⟩ ∧ Told D db .domains (Domain.from · = ·) domain) s := by
  unfold DomainService.createDomain
  refine tells_any fun _ s₁ _ => tells_created.mono fun _ db _ h => ?_
  obtain ⟨id, hr, rfl⟩ := h
  refine ⟨?_, _, hr, rfl⟩
  unfold Domain.from
  rw [ProxyKind.from_asStr]

theorem tells_createTemplate {input : CreateTemplateInput} :
    Tells D fires i (WorkspaceTemplateService.createTemplate input) (fun template db =>
      template = ⟨template.id, input.workspaceId, input.name, input.description⟩ ∧
        Told D db .workspaceTemplates (WorkspaceTemplate.from · = ·) template) s := by
  unfold WorkspaceTemplateService.createTemplate
  refine tells_any fun _ s₁ _ => tells_created.mono fun _ db _ h => ?_
  obtain ⟨id, hr, rfl⟩ := h
  exact ⟨rfl, _, hr, rfl⟩

theorem tells_createWorkspacesFromTemplate {input : CreateWorkspacesFromTemplateInput} :
    Tells D fires i (WorkspaceTemplateService.createWorkspacesFromTemplate input)
      (fun workspaces db => ∃ template : WorkspaceTemplate, template.id = input.templateId ∧
        Told D db .workspaceTemplates (WorkspaceTemplate.from · = ·) template ∧
        List.Forall₂ (fun name w => MadeWorkspace D db name template.description w) input.names
          workspaces) s := by
  unfold WorkspaceTemplateService.createWorkspacesFromTemplate getTemplate
  refine tells_bind tells_found fun template s₁ _ ht => ?_
  refine (tells_mapM (P := fun name w db => MadeWorkspace D db name template.description w)
    (fun _ _ _ _ hdb hw => hw.mono hdb) fun name s₂ _ => tells_createWorkspace).mono
      fun ws db hdb hmade => ?_
  obtain ⟨r, hr, hid, rfl⟩ := ht db hdb
  have hid : r.id = input.templateId := uuid_of_col hid
  exact ⟨_, hid, ⟨r, hr, rfl⟩, hmade⟩

/-! ## Deployments -/

theorem tells_deploymentFrom {r : DeploymentRecord} :
    Tells D fires i (Deployment.from x r) (fun deployment _ => DeploymentOf x r deployment) s := by
  unfold Deployment.from
  cases h : x.dateTimeFromStr r.createdAt with
  | none =>
    refine tells_any fun time s₁ _ => tells_pure fun _ _ => ?_
    refine ⟨rfl, rfl, rfl, rfl, rfl, fun time' he => ?_⟩
    rw [h] at he
    cases he
  | some time =>
    refine tells_pure fun _ _ => ⟨rfl, rfl, rfl, rfl, rfl, fun time' he => ?_⟩
    rw [h] at he
    exact Option.some.inj he

theorem tells_listDeployments {serviceId : Uuid} :
    Tells D fires i (DeploymentService.listDeployments x serviceId) (fun deployments db =>
      ReportsOn D s.db db .deployments (fun r : DeploymentRecord => r.serviceId = serviceId)
        (DeploymentOf x) deployments) s := by
  unfold DeploymentService.listDeployments
  refine tells_bind (tells_by (by decide)) fun rs s₁ _ hrs => ?_
  refine (tells_mapM (P := fun r deployment _ => DeploymentOf x r deployment) (fun _ _ _ _ _ h => h)
    fun r s₂ _ => tells_deploymentFrom).mono fun deployments db hdb h => ?_
  refine ((hrs db hdb).forall₂ h fun r a b he hb => ?_).congr fun r => uuid_col_iff
  exact he ▸ hb

theorem tells_getDeployment {id : Uuid} : Tells D fires i (DeploymentService.getDeployment x id)
    (fun deployment db => deployment.id = id ∧ Told D db .deployments (DeploymentOf x) deployment)
    s := by
  unfold DeploymentService.getDeployment
  refine tells_bind tells_first fun o s₁ _ ho => tells_okOr fun r hr => ?_
  refine tells_deploymentFrom.mono fun deployment db hdb h => ?_
  obtain ⟨hrecord, hholds⟩ := ho db hdb r hr
  exact ⟨h.id.trans (uuid_of_col (Layout.holds_eq.mp hholds)), r, hrecord, h⟩

theorem tells_runAndRecord {executor : DeployExecutor} {serviceId : Uuid}
    {commands : List RemoteCommand} :
    Tells D fires i (runAndRecord x executor serviceId commands) (fun deployment db =>
      deployment.serviceId = serviceId ∧ Told D db .deployments (DeploymentOf x) deployment) s := by
  unfold runAndRecord createDeployment
  refine tells_orThrow fun run => tells_any fun id s₁ _ => ?_
  refine tells_any fun workflowId s₂ _ => ?_
  refine tells_any fun createdAt s₃ _ => tells_inserted fun s₄ _ hr => ?_
  refine tells_deploymentFrom.mono fun deployment db hdb h => ?_
  exact ⟨h.serviceId, _, hr.mono hdb, h⟩

theorem tells_triggerDeploy {executor : DeployExecutor} {serviceId : Uuid} :
    Tells D fires i (DeploymentService.triggerDeploy x config executor serviceId) (fun deployment db =>
      deployment.serviceId = serviceId ∧ Told D db .deployments (DeploymentOf x) deployment) s := by
  unfold DeploymentService.triggerDeploy
  exact tells_any fun _ s₁ _ => tells_orThrow fun _ => tells_runAndRecord

theorem tells_restartService {executor : DeployExecutor} {serviceId : Uuid} :
    Tells D fires i (DeploymentService.restartService x executor serviceId) (fun deployment db =>
      deployment.serviceId = serviceId ∧ Told D db .deployments (DeploymentOf x) deployment) s := by
  unfold DeploymentService.restartService
  exact tells_any fun _ s₁ _ => tells_orThrow fun _ => tells_runAndRecord

/-! ## Credentials and servers -/

theorem tells_createCredential {secretKey : String} {input : CreateCredentialInput} :
    Tells D fires i (createCredential x secretKey input) (fun credential db =>
      credential = ⟨credential.id, input.workspaceId, input.registry, input.username,
        redact "secret"⟩ ∧ Told D db .dockerCredentials (credentialResponse · = ·) credential) s := by
  unfold createCredential
  refine tells_any fun _ s₁ _ => tells_created.mono fun _ db _ h => ?_
  obtain ⟨id, hr, rfl⟩ := h
  exact ⟨rfl, _, hr, rfl⟩

/-- The answer to an input, read off a row on record. -/
structure MadeEnvVar (D : Db → Prop) (db : Db) (input : CreateEnvVarInput)
    (envVar : EnvVarResponse) : Prop where
  made : envVar = ⟨envVar.id, input.workspaceId, input.environmentId, input.serviceId, input.key,
    redact "secret"⟩
  recorded : Told D db .envVars (envVarResponse · = ·) envVar

theorem tells_createEnvVar {secretKey : String} {input : CreateEnvVarInput} :
    Tells D fires i (createEnvVar x secretKey input) (fun envVar db => MadeEnvVar D db input envVar)
      s := by
  unfold createEnvVar createEnvVarRecord
  refine tells_any fun _ s₁ _ => ?_
  rw [bind_assoc]
  refine tells_created.mono fun _ db _ h => ?_
  obtain ⟨id, hr, rfl⟩ := h
  exact ⟨rfl, _, hr, rfl⟩

theorem tells_createEnvVars {secretKey : String} {inputs : List CreateEnvVarInput} :
    Tells D fires i (createEnvVars x secretKey inputs)
      (fun envVars db => List.Forall₂ (MadeEnvVar D db) inputs envVars) s := by
  unfold createEnvVars
  refine tells_any fun _ s₁ _ => tells_any fun _ s₂ _ => ?_
  have hrecords : Flow.All (fun _ => True)
      (inputs.mapM (createEnvVarRecord x secretKey .transaction)) fun created =>
        List.Forall₂ (fun input r => ∃ id, r = ⟨id, input.workspaceId, input.environmentId,
          input.serviceId, input.key, encryptSecret x secretKey input.value⟩) inputs created :=
    all_mapM fun input _ => by simp [createEnvVarRecord]
  refine tells_all hrecords fun created s₃ hcreated _ => ?_
  refine tells_commit (by simp) fun s₄ _ hrows => tells_pure fun db hdb => ?_
  have hstored : ∀ r ∈ created, Recorded D db .envVars r := fun r hr =>
    (hrows _ r (List.mem_map_of_mem hr)).mono hdb
  rw [List.forall₂_map_right_iff]
  refine ((List.forall₂_and_left _ _).mpr ⟨hstored, hcreated.flip⟩).flip.imp fun input r h => ?_
  obtain ⟨hr, id, rfl⟩ := h
  exact ⟨rfl, _, hr, rfl⟩

theorem tells_listServers : Tells D fires i listServers
    (fun servers db => ReportsOn D s.db db .servers (fun _ => True) (Server.from · = ·) servers) s := by
  unfold listServers
  exact tells_return tells_table fun rs db _ h => h.map _ fun r a he => congrArg Server.from he

theorem tells_createServer {secretKey : String} {payload : CreateServerInput} :
    Tells D fires i (createServer x secretKey payload) (fun server db =>
      (∃ encrypted passphrase, server = ⟨server.id, payload.name, payload.host, payload.port.getD 22,
        payload.username, payload.publicKey, fingerprintPublicKey x payload.publicKey, encrypted,
        passphrase, payload.defaultProxy.getD .nginx, "unchecked", "", "", ""⟩) ∧
        Told D db .servers (Server.from · = ·) server) s := by
  unfold createServer
  refine tells_any fun _ s₁ _ => tells_created.mono fun _ db _ h => ?_
  obtain ⟨id, hr, rfl⟩ := h
  refine ⟨⟨encryptSecret x secretKey payload.privateKey,
    payload.privateKeyPassphrase.map (encryptSecret x secretKey), ?_⟩, _, hr, rfl⟩
  unfold Server.from
  rw [ProxyKind.from_asStr]

/-- What the row tells of its last check. -/
def CheckOf (r : ServerRecord) (check : ServerCheckResponse) : Prop :=
  check = checkResponse r.id (r.dockerStatus, r.dockerVersion, r.lastCheckError) r.lastCheckAt

theorem tells_checkServer {secretKey : String} {id : Uuid} :
    Tells D fires i (checkServer x secretKey id) (fun check db => check.serverId = id ∧
      Told D db .servers CheckOf check) s := by
  unfold checkServer updateCheckMetadata
  refine tells_bind tells_found fun server s₁ _ hserver => tells_orThrow fun target => ?_
  refine tells_any fun _ s₂ h₂ => ?_
  obtain ⟨dockerStatus, dockerVersion, lastCheckError⟩ := checkOutcome target
  obtain ⟨r, hr, hid, -⟩ := hserver s₂.db h₂
  refine tells_updated hr.onRecord (by decide) hid fun s₃ r' _ hid' hchecked => ?_
  refine tells_pure fun db hdb => ⟨rfl, _, hchecked.mono hdb, ?_⟩
  obtain rfl : r'.id = id := uuid_of_col hid'
  rfl

/-! ## Users -/

theorem tells_userFromRecord {r : UserRecord} :
    Tells D fires i (userFromRecord r) (fun user db => UserOf D db r user) s := by
  unfold userFromRecord
  by_cases h : (User.from r).role = .superAdmin
  · rw [if_pos h]
    exact tells_pure fun _ _ => ⟨rfl, fun _ hrole => by cases hrole⟩
  · rw [if_neg h]
    refine tells_bind (tells_by (by decide)) fun roles s₁ _ hroles => tells_pure fun db hdb => ?_
    refine ⟨rfl, fun role hrole => ?_⟩
    obtain ⟨m, hm, rfl⟩ := List.mem_map.mp hrole
    obtain ⟨m', hrecord, huser, rfl⟩ := (hroles db hdb).sound m hm
    exact ⟨m', hrecord, uuid_of_col huser, rfl⟩

/-- A user read off a row that is stored. -/
theorem tells_knownUser {r : UserRecord} (hr : Recorded D s.db .users r) :
    Tells D fires i (userFromRecord r) (fun user db => KnownUser D db user ∧ user.id = r.id ∧
      user.email = r.email) s := by
  refine tells_userFromRecord.mono fun user db hdb huser => ?_
  exact ⟨⟨r, hr.mono hdb, huser⟩, (congrArg User.id huser.record).symm,
    (congrArg User.email huser.record).symm⟩

theorem tells_getUserRecord {id : Uuid} {f : UserRecord → Service β}
    (h : ∀ s' r, s.db.Later D s'.db → Recorded D s'.db .users r → r.id = id →
      Tells D fires i (f r) ok s') : Tells D fires i (getUserRecord id >>= f) ok s :=
  ⟨fun hD => ends_getUserRecord calm_watched.toTame fun s' r hs hr hid =>
    (h s' r hs (.of_mem (hs.within hD) hr) hid).ends (hs.within hD)⟩

theorem tells_getUser {id : Uuid} :
    Tells D fires i (getUser id) (fun user db => KnownUser D db user ∧ user.id = id) s := by
  unfold getUser
  refine tells_getUserRecord fun s₁ r _ hr hid => ?_
  exact (tells_knownUser hr).mono fun user db _ h => ⟨h.1, h.2.1.trans hid⟩

theorem tells_listUsers : Tells D fires i AuthService.listUsers
    (fun users db => ReportsOn D s.db db .users (fun _ => True) (UserOf D db) users) s := by
  unfold AuthService.listUsers
  refine tells_bind tells_table fun rs s₁ _ hrs => ?_
  refine (tells_mapM (P := fun r user db => UserOf D db r user) (fun _ _ _ _ hdb h => h.mono hdb)
    fun r s₂ _ => tells_userFromRecord).mono fun users db hdb h => ?_
  exact (hrs db hdb).forall₂ h fun r a b he hb => he ▸ hb

/-! ## The workspaces of a user -/

/-- Where no column ever changes, a row on record is stored. -/
theorem mem_of_onRecord (ht : fixedCols t = List.range 14) {db : Db} {r : Row t}
    (h : OnRecord db t r) : r ∈ db.rows t := by
  obtain ⟨r', hr', hsame⟩ := h
  exact eq_of_fixed ht hsame ▸ hr'

/-- What a lookup of the workspace finds, from `db` on. -/
def Looked (D : Db → Prop) (db : Db) (id : Uuid) (o : Option Workspace) (db' : Db) : Prop :=
  (∀ w ∈ o, Recorded D db' .workspaces w ∧ w.id = id) ∧
    (o = none → ∀ w : Workspace, OnRecord db .workspaces w → w.id ≠ id)

theorem Looked.later {db db' db'' : Db} {id : Uuid} {o : Option Workspace}
    (h : Looked D db id o db') (hdb : db'.Later D db'') : Looked D db id o db'' :=
  ⟨fun w hw => ⟨(h.1 w hw).1.mono hdb, (h.1 w hw).2⟩, h.2⟩

theorem looked_workspace? (id : Uuid) {s₁ : World} (h : s.db.Later D s₁.db) (hD : D s₁.db) :
    Looked D s.db id (s₁.workspace? id) s₁.db := by
  constructor
  · intro w hw
    obtain ⟨hmem, hid⟩ := World.workspace?_eq_some.mp hw
    exact ⟨.of_mem hD hmem, hid⟩
  · intro hnone w hw hid
    have hmem : w ∈ (s₁.db.rows .workspaces : List Workspace) := mem_of_onRecord rfl (hw.mono h.keeps)
    rw [World.workspace?_eq_some.mpr ⟨hmem, hid⟩] at hnone
    cases hnone

/-- The database fails, or a workspace that was there is found. -/
theorem safe_getWorkspace {id : Uuid} (hD : D s.db) : Flow.Safe (watched D fires i) (getWorkspace id)
    (fun w s' => Looked D s.db id (some w) s'.db)
    (fun e s' => e = .api (.notFound "workspace") → Looked D s.db id none s'.db) s := by
  unfold getWorkspace first query
  rw [bind_assoc, bind_assoc]
  refine Flow.safe_bind.mpr (Flow.safe_call.mpr fun s₁ h₁ r s₂ hstep => ⟨trivial, fun s₃ h₃ => ?_⟩)
  obtain ⟨a, ha⟩ := hstep.1
  obtain ⟨rfl, ⟨e, rfl⟩ | rfl⟩ := exec_select ha
  · exact fun _ _ he => by cases he
  · have hlooked := looked_workspace? id h₁ (h₁.within hD)
    show Flow.Safe _ (okOr _ (s₂.workspace? id)) _ _ _
    cases ho : s₂.workspace? id with
    | none => exact fun s₄ h₄ _ => (ho ▸ hlooked).later (Layout.Later.trans h₃ h₄)
    | some w => exact fun s₄ h₄ => (ho ▸ hlooked).later (Layout.Later.trans h₃ h₄)

theorem safe_attempt {y : Service α} {told : Except ApiError α → World → Prop}
    (h : Flow.Safe (watched D fires i) y (fun a s' => told (.ok a) s')
      (fun e s' => ∀ e', e = .api e' → told (.error e') s') s) :
    Ends (watched D fires i) (attempt y) told s := by
  unfold Ends Flow.Safe attempt ExceptT.mk
  rw [Prog.safe_bind]
  refine Prog.Safe.mono (Prog.Safe.later h) fun r s' hr => ?_
  rcases r with (e | m) | a
  · exact fun s'' hs => hr s'' hs e rfl
  · exact fun _ _ => trivial
  · exact fun s'' hs => hr s'' hs

theorem tells_lookup {id : Uuid} : Tells D fires i
    (do
      match ← attempt (getWorkspace id) with
      | .ok workspace => return some workspace
      | .error (.notFound "workspace") => return none
      | .error error => throwApi error)
    (fun o db => Looked D s.db id o db) s := by
  have hfound : Tells D fires i (attempt (getWorkspace id))
      (fun r db => (∀ w, r = .ok w → Looked D s.db id (some w) db) ∧
        (r = .error (.notFound "workspace") → Looked D s.db id none db)) s := by
    refine ⟨fun hD => safe_attempt
      (Flow.Safe.mono (safe_getWorkspace hD) (fun w s' hw => ?_) fun e s' he => ?_)⟩
    · exact ⟨fun w' hw' => by cases hw'; exact hw, fun h => by cases h⟩
    · rintro e' rfl
      refine ⟨fun w hw => (by cases hw), fun h => he ?_⟩
      cases h
      rfl
  refine tells_bind hfound fun r s₁ h₁ hr => ?_
  split
  · exact tells_pure fun db hdb => (hr db hdb).1 _ rfl
  · exact tells_pure fun db hdb => (hr db hdb).2 rfl
  · exact tells_throwApi _

theorem tells_lookups (roles : List WorkspaceRole) : Tells D fires i
    (roles.mapM fun workspaceRole => do
      match ← attempt (getWorkspace workspaceRole.workspaceId) with
      | .ok workspace => return some workspace
      | .error (.notFound "workspace") => return none
      | .error error => throwApi error)
    (fun found db => List.Forall₂ (fun role o => Looked D s.db role.workspaceId o db) roles found)
    s := by
  refine tells_mapM (P := fun (role : WorkspaceRole) o db => Looked D s.db role.workspaceId o db)
    (fun _ _ _ _ hdb h => h.later hdb) fun role s₁ h₁ => tells_lookup.mono fun o db _ h => ?_
  exact ⟨h.1, fun ho w hw => h.2 ho w (hw.mono h₁.keeps)⟩

/-- The workspaces that were found, sorted and without repetitions. -/
theorem reports_accessible {user : User} {db₀ db : Db} {found : List (Option Workspace)}
    (haccess : ∀ id, canAccessWorkspace user id = true ↔
      ∃ role ∈ user.workspaceRoles, role.workspaceId = id)
    (hfound : List.Forall₂ (fun role o => Looked D db₀ role.workspaceId o db) user.workspaceRoles
      found) (hdb : db₀.Later D db) :
    ReportsOn D db₀ db .workspaces (fun w : Workspace => canAccessWorkspace user w.id = true) Eq
      (Rust.dedupByKey (·.id) (found.reduceOption.mergeSort fun left right => left.id ≤ right.id)) := by
  have hrecord : ∀ w ∈ found.reduceOption, Recorded D db .workspaces w ∧
      ∃ role ∈ user.workspaceRoles, role.workspaceId = w.id := by
    intro w hw
    obtain ⟨role, hrole, hlooked⟩ := exists_of_forall₂ hfound (List.reduceOption_mem_iff.mp hw)
    obtain ⟨hr, hid⟩ := hlooked.1 w rfl
    exact ⟨hr, role, hrole, hid.symm⟩
  obtain ⟨hmem, -⟩ := sorted_found (s := .start db) fun w hw =>
    mem_of_onRecord rfl (hrecord w hw).1.onRecord
  constructor
  · intro w hw
    obtain ⟨hr, hrole⟩ := hrecord w ((hmem w).mp hw)
    exact ⟨w, hr, (haccess w.id).mpr hrole, rfl⟩
  · intro w hw haccessible
    obtain ⟨role, hrole, hid⟩ := (haccess w.id).mp haccessible
    obtain ⟨o, ho, hlooked⟩ := exists_of_forall₂ hfound.flip hrole
    cases o with
    | none => exact absurd hid.symm (hlooked.2 rfl w hw)
    | some w' =>
      obtain ⟨hw', hid'⟩ := hlooked.1 w' rfl
      have he : w' = w := workspace_eq_of_id (s := .start db)
        (mem_of_onRecord rfl hw'.onRecord) (mem_of_onRecord rfl (hw.mono hdb.keeps)) (hid'.trans hid)
      subst he
      exact ⟨w', (hmem w').mpr (List.reduceOption_mem_iff.mpr ho), w', hw', fun _ _ => rfl, rfl⟩

theorem tells_listAccessibleWorkspaces {user : User} :
    Tells D fires i (listAccessibleWorkspaces user) (fun ws db => ReportsOn D s.db db .workspaces
      (fun w : Workspace => canAccessWorkspace user w.id = true) Eq ws) s := by
  unfold listAccessibleWorkspaces
  by_cases hadmin : user.role = .superAdmin
  · rw [if_pos hadmin]
    refine tells_table.mono fun ws db _ h => h.congr fun w => ⟨fun _ => ?_, fun _ => trivial⟩
    simp [canAccessWorkspace, hadmin]
  rw [if_neg hadmin]
  have haccess : ∀ id, canAccessWorkspace user id = true ↔
      ∃ role ∈ user.workspaceRoles, role.workspaceId = id := by
    simp [canAccessWorkspace, hadmin]
  refine tells_bind (tells_lookups user.workspaceRoles) fun found s₁ h₁ hfound => ?_
  exact tells_pure fun db hdb =>
    reports_accessible haccess (hfound db hdb) (Layout.Later.trans h₁ hdb)

/-! ## Tokens, keys and sessions -/

/-- The key of a row. -/
def KeyOf (x : Ext) (r : JwtPublicKeyRecord) (key : JwtPublicKey) : Prop :=
  key = ⟨r.keyType, r.keyUse, r.algorithm, x.uuidToString r.id, r.modulus, r.exponent⟩

theorem tells_jwks : Tells D fires i (AuthService.jwks x)
    (fun keys db => ReportsOn D s.db db .jwtPublicKeys (fun _ => True) (KeyOf x) keys) s := by
  unfold AuthService.jwks
  refine tells_return tells_table fun rs db _ h => ?_
  exact (h.of_mem_iff fun _ => List.mem_mergeSort).map _ fun r a he => he ▸ rfl

theorem tells_listApiTokens {user : User} : Tells D fires i (AuthService.listApiTokens user)
    (fun tokens db => ReportsOn D s.db db .userApiTokens
      (fun r : UserApiTokenRecord => r.userId = user.id) Eq tokens) s := by
  unfold AuthService.listApiTokens
  refine tells_return (tells_by (by decide)) fun rs db _ h => ?_
  exact (h.of_mem_iff fun _ => List.mem_mergeSort).congr fun r => uuid_col_iff

theorem tells_revokeApiToken {user : User} {id : Uuid} :
    Tells D fires i (AuthService.revokeApiToken x user id) (fun r db =>
      Recorded D db .userApiTokens r ∧ r.id = id ∧ r.userId = user.id) s := by
  unfold AuthService.revokeApiToken
  refine tells_bind tells_first fun o s₁ _ ho => tells_okOr fun r hr => ?_
  refine tells_throwIf fun howner => tells_any fun revokedAt s₂ h₂ => tells_any fun _ s₃ h₃ => ?_
  refine tells_bind tells_first fun o' s₄ h₄ ho' => ?_
  rw [← bind_pure (okOr _ o')]
  refine tells_okOr fun r' hr' => tells_pure fun db hdb => ?_
  obtain ⟨hrecord', hid'⟩ := ho' db hdb r' hr'
  obtain ⟨hrecord, hid⟩ := ho db (Layout.Later.trans h₂ (Layout.Later.trans h₃
    (Layout.Later.trans h₄ hdb))) r hr
  have hid' : r'.id = id := uuid_of_col (Layout.holds_eq.mp hid')
  have hid : r.id = id := uuid_of_col (Layout.holds_eq.mp hid)
  have hsame : SameRow .userApiTokens r' r := hrecord'.onRecord.same hrecord.onRecord (c := 0)
    (by decide) (by decide) (congrArg (fun id => some (Value.uuid id)) (hid'.trans hid.symm))
  exact ⟨hrecord', hid', (uuid_of_col (hsame 1 (by decide))).trans (not_not.mp howner)⟩

theorem tells_createApiToken {input : CreateApiTokenInput} :
    Tells D fires i (AuthService.createApiToken x input) (fun output db =>
      Recorded D db .userApiTokens output.apiToken ∧ output.apiToken.userId = input.user.id ∧
        output.apiToken.name = input.name ∧
        output.apiToken.tokenHash = hashApiToken x output.token) s := by
  unfold AuthService.createApiToken
  refine tells_any fun raw s₁ _ => tells_any fun time s₂ _ => tells_any fun id s₃ _ => ?_
  exact tells_inserted fun s₄ _ hr => tells_pure fun db hdb => ⟨hr.mono hdb, rfl, rfl, rfl⟩

/-- The invited user, and the invite behind the link. -/
structure Invited (D : Db → Prop) (x : Ext) (config : Config) (db : Db) (input : InviteUserInput)
    (output : InviteUserOutput) : Prop where
  made : output.user = ⟨output.user.id, input.email, input.name, .viewer, .invited,
    [⟨input.workspaceId, input.role⟩]⟩
  recorded : KnownUser D db output.user
  link : ∃ token, output.inviteLink = inviteLink config.appBaseUrl token ∧
    Told D db .userInvites (fun (r : UserInviteRecord) userId =>
      r.userId = userId ∧ r.tokenHash = hashInviteToken x token) output.user.id

theorem tells_inviteUser {input : InviteUserInput} :
    Tells D fires i (AuthService.inviteUser x config input)
      (fun output db => Invited D x config db input output) s := by
  unfold AuthService.inviteUser
  refine tells_throwIf fun _ => tells_throwIf fun _ => tells_any fun _ s₁ _ => ?_
  refine tells_throwIf fun _ => tells_any fun _ s₂ _ => tells_any fun time s₃ _ => ?_
  refine tells_any fun expiresAt s₄ _ => ?_
  refine tells_any fun token s₅ _ => tells_any fun _ s₆ _ => ?_
  refine tells_any fun userId s₇ _ => tells_txCreate fun s₈ _ => ?_
  refine tells_any fun inviteId s₉ _ => tells_txCreate fun s₁₀ _ => ?_
  refine tells_any fun roleId s₁₁ _ => tells_txCreate fun s₁₂ _ => ?_
  refine tells_commit (by simp) fun s₁₃ _ hrows => tells_pure fun db hdb => ?_
  have hrecord := fun t r hr => (hrows t r hr).mono hdb
  refine ⟨?_, ⟨_, hrecord .users _ List.mem_cons_self, rfl, fun role hrole => ?_⟩, token, rfl, _,
    hrecord .userInvites _ (List.mem_cons_of_mem _ List.mem_cons_self), rfl, rfl⟩
  · simp [User.from, WorkspaceRole.from]
  · obtain rfl := List.mem_singleton.mp hrole
    refine ⟨_, hrecord .workspaceUserRoles _ ?_, rfl, rfl⟩
    exact List.mem_cons_of_mem _ (List.mem_cons_of_mem _ List.mem_cons_self)

/-- The session is for the user it was started for. -/
theorem tells_startSession {user : User} (told : User → Db → Prop)
    (h : ∀ db, s.db.Later D db → told user db) :
    Tells D fires i (startSession x config user) (fun output db => told output.user db) s := by
  unfold startSession
  refine tells_any fun refreshToken s₁ h₁ => tells_any fun token s₂ h₂ => ?_
  refine tells_pure fun db hdb => ?_
  exact h db (Layout.Later.trans h₁ (Layout.Later.trans h₂ hdb))

theorem tells_login {input : LoginInput} : Tells D fires i (AuthService.login x config input)
    (fun output db => KnownUser D db output.user ∧ output.user.email = input.email) s := by
  unfold AuthService.login findUserByEmail
  rw [bind_assoc]
  refine tells_bind tells_first fun o s₁ _ ho => tells_okOr fun r hr => ?_
  obtain ⟨hrecord, hholds⟩ := ho s₁.db (Layout.Later.refl _) r hr
  have hemail : r.email = input.email := text_of_col (Layout.holds_eq.mp hholds)
  refine tells_throwIf fun _ => tells_throwIf fun _ => tells_any fun _ s₂ h₂ => ?_
  refine tells_bind (tells_knownUser (hrecord.mono h₂)) fun user s₃ _ huser => ?_
  refine tells_startSession (fun user db => KnownUser D db user ∧ user.email = input.email)
    fun db hdb => ?_
  obtain ⟨hknown, -, he⟩ := huser db hdb
  exact ⟨hknown, he.trans hemail⟩

theorem tells_acceptInvite {input : AcceptInviteInput} :
    Tells D fires i (AuthService.acceptInvite x config input)
      (fun output db => KnownUser D db output.user) s := by
  unfold AuthService.acceptInvite
  refine tells_any fun invite s₁ _ => tells_any fun expiresAt s₂ _ => tells_any fun time s₃ _ => ?_
  refine tells_throwIf fun _ => tells_any fun _ s₄ _ => tells_throwIf fun _ => ?_
  refine tells_throwIf fun _ => tells_any fun passwordHash s₅ _ => tells_any fun _ s₆ _ => ?_
  refine tells_any fun acceptedAt s₇ _ => tells_any fun _ s₈ _ => ?_
  refine tells_bind tells_getUser fun user s₉ _ huser => ?_
  exact tells_startSession (fun user db => KnownUser D db user) fun db hdb => (huser db hdb).1

theorem tells_refreshSession {input : RefreshSessionInput} :
    Tells D fires i (AuthService.refreshSession x config input)
      (fun output db => KnownUser D db output.user) s := by
  unfold AuthService.refreshSession
  refine tells_any fun record s₁ _ => tells_getUserRecord fun s₂ r _ hr _ => ?_
  refine tells_throwIf fun _ => tells_bind (tells_knownUser hr) fun user s₃ _ huser => ?_
  refine tells_any fun _ s₄ h₄ => tells_any fun refreshToken s₅ h₅ => ?_
  refine tells_any fun revokedAt s₆ h₆ => ?_
  refine tells_any fun _ s₇ h₇ => tells_any fun _ s₈ h₈ => tells_any fun token s₉ h₉ => ?_
  refine tells_pure fun db hdb => (huser db ?_).1
  exact Layout.Later.trans h₄ (Layout.Later.trans h₅ (Layout.Later.trans h₆ (Layout.Later.trans h₇
    (Layout.Later.trans h₈ (Layout.Later.trans h₉ hdb)))))

/-! ## Accounts -/

theorem tells_updateUserStatus {id : Uuid} {status : UserStatus} :
    Tells D fires i (updateUserStatus id status)
      (fun user db => KnownUser D db user ∧ user.id = id) s := by
  unfold updateUserStatus
  exact tells_any fun _ s₁ _ => tells_getUser

theorem tells_disableUser {id : Uuid} : Tells D fires i (AuthService.disableUser id)
    (fun user db => KnownUser D db user ∧ user.id = id) s := by
  unfold AuthService.disableUser
  refine tells_getUserRecord fun s₁ r _ hr hid => ?_
  split
  · exact (tells_knownUser hr).mono fun user db _ h => ⟨h.1, h.2.1.trans hid⟩
  · exact tells_any fun last s₂ _ => tells_throwIf fun _ => tells_updateUserStatus

theorem tells_reactivateUser {id : Uuid} : Tells D fires i (AuthService.reactivateUser id)
    (fun user db => KnownUser D db user ∧ user.id = id) s := by
  unfold AuthService.reactivateUser
  exact tells_any fun r s₁ _ => tells_throwIf fun _ => tells_throwIf fun _ => tells_updateUserStatus

theorem tells_changeUserRole {input : ChangeUserRoleInput} :
    Tells D fires i (AuthService.changeUserRole input)
      (fun user db => KnownUser D db user ∧ user.id = input.userId) s := by
  unfold AuthService.changeUserRole
  refine tells_any fun r s₁ _ => tells_any fun last s₂ _ => tells_throwIf fun _ => ?_
  exact tells_any fun _ s₃ _ => tells_getUser

theorem tells_authenticateBearer {token : String} :
    Tells D fires i (authenticateBearer x config token) (fun user db => KnownUser D db user) s := by
  refine ⟨fun hD => ends_authenticateBearer calm_watched.toTame ?_ ?_⟩
  · intro s₁ _ _ h₁ _ _ s₂ u h₂ hu _ _
    have hD₂ : D s₂.db := h₂.within (h₁.within hD)
    exact ((tells_knownUser (.of_mem hD₂ hu)).mono fun user _ _ h => h.1).ends hD₂
  · intro s₁ _ h₁ _ _ _ _ s₂ u h₂ hu _ _
    have hD₂ : D s₂.db := h₂.within (h₁.within hD)
    refine ends_any calm_watched fun now s₃ h₃ => ends_any calm_watched fun _ s₄ h₄ => ?_
    have h₂₄ : s₂.db.Later D s₄.db := h₃.trans h₄
    have hr : Recorded D s₄.db .users u := .mono (.of_mem hD₂ hu) h₂₄
    exact ((tells_knownUser hr).mono fun user _ _ h => h.1).ends (h₂₄.within hD₂)

end rules

end Wara
