import Wara.Auth.Specs
import Wara.Platform.Secrets
import Wara.Service.Loops
import Wara.Store.References

/-!
# Coherence of the stored workspaces

The schema has no foreign keys. `Coherent` says what the rows of a database rely
on; a call that keeps it is `Linked`: whatever the others do, its inserts find
what they need at the moment they are done.
-/

namespace Wara

open Interleave Store Service AuthService WorkspaceService AppServiceService DomainService
  DeploymentService WorkspaceTemplateService CredentialService ServerService

/-! ## What a row needs -/

structure Coherent (db : Db) : Prop where
  workspaces : ∀ w ∈ (db.rows .workspaces : List Workspace),
    ∃ e ∈ (db.rows .environments : List Environment), e.workspaceId = w.id
  environments : ∀ e ∈ (db.rows .environments : List Environment),
    ∃ w ∈ (db.rows .workspaces : List Workspace), w.id = e.workspaceId
  appServices : ∀ s ∈ (db.rows .appServices : List AppServiceRecord),
    ∃ e ∈ (db.rows .environments : List Environment),
      e.id = s.environmentId ∧ e.workspaceId = s.workspaceId
  dockerCredentials : ∀ c ∈ (db.rows .dockerCredentials : List DockerCredentialRecord),
    ∃ w ∈ (db.rows .workspaces : List Workspace), w.id = c.workspaceId
  envVarWorkspaces : ∀ v ∈ (db.rows .envVars : List EnvVarRecord),
    ∃ w ∈ (db.rows .workspaces : List Workspace), w.id = v.workspaceId
  envVarEnvironments : ∀ v ∈ (db.rows .envVars : List EnvVarRecord), ∀ id,
    v.environmentId = some id → ∃ e ∈ (db.rows .environments : List Environment),
      e.id = id ∧ e.workspaceId = v.workspaceId
  envVarServices : ∀ v ∈ (db.rows .envVars : List EnvVarRecord), ∀ id,
    v.serviceId = some id → ∃ s ∈ (db.rows .appServices : List AppServiceRecord),
      s.id = id ∧ s.workspaceId = v.workspaceId
  domains : ∀ d ∈ (db.rows .domains : List DomainRecord),
    ∃ s ∈ (db.rows .appServices : List AppServiceRecord), s.id = d.serviceId
  deployments : ∀ d ∈ (db.rows .deployments : List DeploymentRecord),
    ∃ s ∈ (db.rows .appServices : List AppServiceRecord), s.id = d.serviceId
  workspaceTemplates : ∀ m ∈ (db.rows .workspaceTemplates : List WorkspaceTemplateRecord),
    ∃ w ∈ (db.rows .workspaces : List Workspace), w.id = m.sourceWorkspaceId
  userInvites : ∀ i ∈ (db.rows .userInvites : List UserInviteRecord),
    ∃ u ∈ (db.rows .users : List UserRecord), u.id = i.userId
  userApiTokens : ∀ a ∈ (db.rows .userApiTokens : List UserApiTokenRecord),
    ∃ u ∈ (db.rows .users : List UserRecord), u.id = a.userId
  userRefreshTokens : ∀ a ∈ (db.rows .userRefreshTokens : List UserRefreshTokenRecord),
    ∃ u ∈ (db.rows .users : List UserRecord), u.id = a.userId
  roleUsers : ∀ r ∈ (db.rows .workspaceUserRoles : List WorkspaceUserRoleRecord),
    ∃ u ∈ (db.rows .users : List UserRecord), u.id = r.userId
  roleWorkspaces : ∀ r ∈ (db.rows .workspaceUserRoles : List WorkspaceUserRoleRecord),
    ∃ w ∈ (db.rows .workspaces : List Workspace), w.id = r.workspaceId

/-- The same, row by row. -/
def needs (has : (t : Table) → (Row t → Prop) → Prop) : {t : Table} → Row t → Prop
  | .workspaces, r => has .environments fun e : Environment => e.workspaceId = r.id
  | .environments, r => has .workspaces fun w : Workspace => w.id = r.workspaceId
  | .appServices, r => has .environments fun e : Environment =>
      e.id = r.environmentId ∧ e.workspaceId = r.workspaceId
  | .dockerCredentials, r => has .workspaces fun w : Workspace => w.id = r.workspaceId
  | .envVars, r => (has .workspaces fun w : Workspace => w.id = r.workspaceId) ∧
      (∀ id, r.environmentId = some id → has .environments fun e : Environment =>
        e.id = id ∧ e.workspaceId = r.workspaceId) ∧
      ∀ id, r.serviceId = some id → has .appServices fun s : AppServiceRecord =>
        s.id = id ∧ s.workspaceId = r.workspaceId
  | .domains, r => has .appServices fun s : AppServiceRecord => s.id = r.serviceId
  | .deployments, r => has .appServices fun s : AppServiceRecord => s.id = r.serviceId
  | .workspaceTemplates, r => has .workspaces fun w : Workspace => w.id = r.sourceWorkspaceId
  | .userInvites, r => has .users fun u : UserRecord => u.id = r.userId
  | .userApiTokens, r => has .users fun u : UserRecord => u.id = r.userId
  | .userRefreshTokens, r => has .users fun u : UserRecord => u.id = r.userId
  | .workspaceUserRoles, r => (has .users fun u : UserRecord => u.id = r.userId) ∧
      has .workspaces fun w : Workspace => w.id = r.workspaceId
  | .servers, _ | .users, _ | .jwtPublicKeys, _ => True

section stable

variable {t : Table}

theorem length_rowCols (r : Row t) : (rowCols r).length ≤ 14 := by
  cases t <;> simp [rowCols]

/-- Where no column ever changes, no row does. -/
theorem eq_of_fixed (ht : fixedCols t = List.range 14) {r r' : Row t}
    (h : ∀ c ∈ fixedCols t, layout.col c r' = layout.col c r) : r' = r := by
  refine Layout.eq_of_cols (L := layout) (List.ext_getElem? fun c => ?_)
  by_cases hc : c < 14
  · exact h c (ht ▸ List.mem_range.mpr hc)
  · have hr := length_rowCols r
    have hr' := length_rowCols r'
    show (rowCols r')[c]? = (rowCols r)[c]?
    rw [List.getElem?_eq_none (by omega), List.getElem?_eq_none (by omega)]

theorem stable_of_fixed (ht : fixedCols t = List.range 14) (p : Row t → Prop) :
    layout.Stable fixedCols p :=
  fun _ _ h hp => eq_of_fixed ht h ▸ hp

theorem stable_userId (id : Uuid) :
    layout.Stable fixedCols (t := .users) fun u : UserRecord => u.id = id :=
  fun _ _ h hp => (uuid_of_col (h 0 (by decide))).trans hp

end stable

def references : References layout fixedCols where
  needs := needs
  mono {has has' t r} h hr := by
    have henv := fun p => h .environments p (stable_of_fixed rfl p)
    have hws := fun p => h .workspaces p (stable_of_fixed rfl p)
    have happ := fun p => h .appServices p (stable_of_fixed rfl p)
    have huser := fun id => h .users _ (stable_userId id)
    cases t with
    | workspaces | appServices => exact henv _ hr
    | environments | dockerCredentials | workspaceTemplates => exact hws _ hr
    | domains | deployments => exact happ _ hr
    | userInvites | userApiTokens | userRefreshTokens => exact huser _ hr
    | envVars =>
      exact ⟨hws _ hr.1, fun id hid => henv _ (hr.2.1 id hid), fun id hid => happ _ (hr.2.2 id hid)⟩
    | workspaceUserRoles => exact ⟨huser _ hr.1, hws _ hr.2⟩
    | servers | users | jwtPublicKeys => trivial
  stable {has t} r r' h hr := by
    -- a token or an invite keeps its user, any other row that needs something stays as it is
    have huser : ∀ {a b : Uuid}, some (Value.uuid a) = some (.uuid b) →
        (has .users fun u : UserRecord => u.id = b) → has .users fun u : UserRecord => u.id = a := by
      intro a b hab hb
      rw [uuid_of_col hab]
      exact hb
    cases t with
    | servers | users | jwtPublicKeys => trivial
    | userInvites | userApiTokens | userRefreshTokens => exact huser (h 1 (by decide)) hr
    | _ => exact eq_of_fixed rfl h ▸ hr

theorem coherent_iff {db : Db} : Coherent db ↔ references.Integral db := by
  constructor
  · intro h t r hr
    cases t with
    | workspaces => exact h.workspaces r hr
    | environments => exact h.environments r hr
    | appServices => exact h.appServices r hr
    | dockerCredentials => exact h.dockerCredentials r hr
    | envVars =>
      exact ⟨h.envVarWorkspaces r hr, h.envVarEnvironments r hr, h.envVarServices r hr⟩
    | domains => exact h.domains r hr
    | deployments => exact h.deployments r hr
    | workspaceTemplates => exact h.workspaceTemplates r hr
    | userInvites => exact h.userInvites r hr
    | userApiTokens => exact h.userApiTokens r hr
    | userRefreshTokens => exact h.userRefreshTokens r hr
    | workspaceUserRoles => exact ⟨h.roleUsers r hr, h.roleWorkspaces r hr⟩
    | servers | users | jwtPublicKeys => trivial
  · intro h
    constructor
    case workspaces => exact fun w hw => h .workspaces w hw
    case environments => exact fun e he => h .environments e he
    case appServices => exact fun s hs => h .appServices s hs
    case dockerCredentials => exact fun c hc => h .dockerCredentials c hc
    case envVarWorkspaces => exact fun v hv => (h .envVars v hv).1
    case envVarEnvironments => exact fun v hv => (h .envVars v hv).2.1
    case envVarServices => exact fun v hv => (h .envVars v hv).2.2
    case domains => exact fun d hd => h .domains d hd
    case deployments => exact fun d hd => h .deployments d hd
    case workspaceTemplates => exact fun m hm => h .workspaceTemplates m hm
    case userInvites => exact fun i hi => h .userInvites i hi
    case userApiTokens => exact fun a ha => h .userApiTokens a ha
    case userRefreshTokens => exact fun a ha => h .userRefreshTokens a ha
    case roleUsers => exact fun r hr => (h .workspaceUserRoles r hr).1
    case roleWorkspaces => exact fun r hr => (h .workspaceUserRoles r hr).2

/-! ## Calls that keep it -/

/-- The writes of the operation change no fixed column. -/
def Op.Tidy (o : Op) : Prop := ∀ w ∈ o.writes, ∀ c ∈ w.sets, c ∉ fixedCols w.table

/-- Rows stay, and what is inserted finds what it needs. -/
def linking : Rules Res World where
  rely := World.Keeps
  rely_refl := World.Keeps.refl
  rely_trans := @World.Keeps.trans
  step o s r s' := ∃ i a, exec i o a s = some (r, s')
  guar o s _ _ := o.Tidy ∧ references.Supported o.writes s.db

theorem exec_keeps {o : Op} (ho : o.Tidy) {i : Nat} {a : Ans} {r : Res o} {s s' : World}
    (h : exec i o a s = some (r, s')) : s.Keeps s' := by
  rcases exec_db h with hdb | ⟨-, hdb⟩
  · rw [World.Keeps, hdb]
    exact Layout.Keeps.refl _
  · exact Layout.applyAll_keeps hdb ho

/-- A row of a table whose rows never change was there before, or the operation has stored it. -/
theorem exec_origin {o : Op} (ho : o.Tidy) {i : Nat} {a : Ans} {res : Res o} {s s' : World}
    (h : exec i o a s = some (res, s')) {t : Table} (ht : fixedCols t = List.range 14) {r : Row t}
    (hr : r ∈ s'.db.rows t) :
    r ∈ s.db.rows t ∨ o.succeeded res = true ∧ .insert t r ∈ o.writes := by
  rcases exec_db h with hdb | ⟨hs, hdb⟩
  · rw [hdb] at hr
    exact .inl hr
  · rcases Layout.applyAll_origin hdb ho hr with ⟨r₁, hr₁, hc⟩ | ⟨r₁, hr₁, hc⟩
    · rw [eq_of_fixed ht hc]
      exact .inl hr₁
    · rw [eq_of_fixed ht hc]
      exact .inr ⟨hs, hr₁⟩

theorem Op.tidy_of_reads {o : Op} (h : o.writes = []) : o.Tidy := by
  intro w hw
  rw [h] at hw
  cases hw

theorem supported_of_reads {o : Op} (h : o.writes = []) (db : Db) :
    references.Supported o.writes db :=
  References.supported_of_no_insert fun t r hr => by rw [h] at hr; cases hr

theorem close_linking : Close linking where
  exec h := h
  reads {o s r s'} ho h := by
    obtain ⟨i, a, ha⟩ := h
    exact ⟨⟨Op.tidy_of_reads ho, supported_of_reads ho s.db⟩, exec_keeps (Op.tidy_of_reads ho) ha⟩
  within {o s r s'} h hg := by
    obtain ⟨i, a, ha⟩ := h
    exact exec_keeps hg.1 ha

abbrev tame_linking : Tame linking := close_linking.toTame

/-- A call that keeps the coherence, from any state. -/
def Linked {α : Type} (y : Service α) : Prop := ∀ s, Ends linking y (fun _ _ => True) s

/-- Operations that need no row. -/
def Op.Free (o : Op) : Prop := o.Tidy ∧ ∀ db, references.Supported o.writes db

section free

variable {t : Table} {f : Filter} {sets : List (Nat × Value)} {w : Write}

theorem Op.free_of_reads {o : Op} (h : o.writes = []) : o.Free :=
  ⟨Op.tidy_of_reads h, supported_of_reads h⟩

instance : AboutWrites Op.Free := ⟨fun _ => Op.free_of_reads⟩

theorem free_update (h : ∀ p ∈ sets, p.1 ∉ fixedCols t) : Op.Free (.write (.update t f sets)) := by
  constructor
  · intro w hw c hc
    obtain rfl := List.mem_singleton.mp hw
    obtain ⟨p, hp, rfl⟩ := List.mem_map.mp hc
    exact h p hp
  · exact fun db => References.supported_of_no_insert fun t r hr => by
      cases List.mem_singleton.mp hr

end free

section linked

variable {α β : Type} {y : Service α} {f : α → Service β} {s : World} {t : Table}

theorem linked_pure (a : α) : Linked (pure a : Service α) := fun _ => ends_pure fun _ _ => trivial

theorem Linked.bind (h : Linked y) (hf : ∀ a, Linked (f a)) : Linked (y >>= f) :=
  fun s => Ends.bind close_linking (h s) fun a s' _ _ => hf a s'

theorem Linked.map (h : Linked y) (g : α → β) : Linked (g <$> y) :=
  fun s => ends_map (Ends.mono (h s) fun _ _ _ _ _ => trivial)

theorem linked_attempt (h : Linked y) : Linked (attempt y) :=
  fun s => ends_attempt (Ends.mono (h s) fun _ _ _ _ _ => trivial) fun _ _ => trivial

theorem ends_free {Q : α → Prop} {ok : β → World → Prop} (h : Flow.All Op.Free y Q)
    (hf : ∀ a s', Q a → s.Keeps s' → Ends linking (f a) ok s') : Ends linking (y >>= f) ok s := by
  refine ends_all h (fun o ho s₁ r s₂ hs => ?_) hf
  have hg : linking.guar o s₁ r s₂ := ⟨ho.1, ho.2 s₁.db⟩
  exact ⟨hg, close_linking.within hs hg⟩

theorem linked_free (h : Flow.All Op.Free y fun _ => True) : Linked y := by
  intro s
  rw [← bind_pure y]
  exact ends_free h fun a s' _ _ => ends_pure fun _ _ => trivial

theorem linked_mapM {g : α → Service β} (h : ∀ a, Linked (g a)) (as : List α) :
    Linked (as.mapM g) := by
  intro s
  have hends := ends_mapM (s := s) close_linking (P := fun _ _ _ => True)
    (fun _ _ _ _ _ h => h) fun a (_ : a ∈ as) s' _ => h a s'
  exact Ends.mono hends fun _ _ _ => trivial

theorem tidy_insert {r : Row t} : Op.Tidy (.write (.insert t r)) := by
  intro w hw c hc
  obtain rfl := List.mem_singleton.mp hw
  cases hc

/-- An insert of a row that finds what it needs, and the rest of the call. -/
theorem ends_insert {r : Row t} {f : Row t → Service β} {ok : β → World → Prop}
    (h : ∀ s₁, s.Keeps s₁ → needs s₁.db.Has r)
    (hf : ∀ s₂, s.Keeps s₂ → Ends linking (f r) ok s₂) :
    Ends linking (create .handle r >>= f) ok s := by
  have hg : ∀ s₁, s.Keeps s₁ → Op.Tidy (.write (.insert t r)) ∧
      references.Supported (Op.writes (.write (.insert t r))) s₁.db := by
    refine fun s₁ h₁ => ⟨tidy_insert, References.supported_of_has fun u r' hr' => ?_⟩
    cases List.mem_singleton.mp hr'
    exact h s₁ h₁
  refine ends_create (fun s₁ r' s₂ h₁ _ => hg s₁ h₁) fun s₁ s₂ h₁ hs => hf s₂ ?_
  exact Layout.Keeps.trans h₁ (close_linking.within hs (hg s₁ h₁))

end linked

end Wara
