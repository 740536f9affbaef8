import Wara.Api.Composed
import Wara.Api.Jobs
import Wara.Api.Writes
import Wara.External.Symbolic

/-!
# The bounds of a workspace

`create_workspace` takes a name and a description that its body was validated
for; `create_workspaces_from_template` takes the description of a stored
template and names that nobody has looked at. So the bounds are an invariant of
the runs in which those names are within them.
-/

namespace Wara

open Interleave Store Service AuthService WorkspaceService AppServiceService DomainService
  DeploymentService WorkspaceTemplateService CredentialService ServerService

/-! ## What is stored -/

def NameInBounds (name : String) : Prop := 1 ≤ name.toList.length ∧ name.toList.length ≤ 120

def DescriptionInBounds (description : Option String) : Prop :=
  ∀ text, description = some text → text.toList.length ≤ 500

def WorkspacesInBounds (db : Db) : Prop :=
  ∀ w : Workspace, w ∈ db.rows .workspaces → NameInBounds w.name ∧ DescriptionInBounds w.description

/-- What a workspace may be made from as well. -/
def TemplatesInBounds (db : Db) : Prop :=
  ∀ t : WorkspaceTemplateRecord, t ∈ db.rows .workspaceTemplates → DescriptionInBounds t.description

structure InBounds (db : Db) : Prop where
  workspaces : WorkspacesInBounds db
  templates : TemplatesInBounds db

/-- The write is elsewhere, or adds a row within the bounds. -/
inductive Write.InBounds : Write → Prop
  | elsewhere {w : Write} (hw : w.table ≠ .workspaces) (ht : w.table ≠ .workspaceTemplates) :
    InBounds w
  | workspace {r : Workspace} (hn : NameInBounds r.name) (hd : DescriptionInBounds r.description) :
    InBounds (.insert .workspaces r)
  | template {r : WorkspaceTemplateRecord} (hd : DescriptionInBounds r.description) :
    InBounds (.insert .workspaceTemplates r)

/-- All writes of the operation are within the bounds. -/
def Op.InBounds (o : Op) : Prop := ∀ w ∈ o.writes, w.InBounds

theorem InBounds.apply {db db' : Db} {w : Write} (h : InBounds db) (hw : w.InBounds)
    (ha : layout.apply w db = some db') : InBounds db' := by
  cases hw with
  | elsewhere hw ht =>
    refine ⟨?_, ?_⟩
    · intro r hr
      rw [Layout.apply_frame ha hw.symm] at hr
      exact h.workspaces r hr
    · intro r hr
      rw [Layout.apply_frame ha ht.symm] at hr
      exact h.templates r hr
  | @workspace row hn hd =>
    refine ⟨fun r hr => ?_, fun r hr => ?_⟩
    · rw [Layout.apply_insert ha] at hr
      rcases List.mem_append.mp hr with hr | hr
      · exact h.workspaces r hr
      · cases List.mem_singleton.mp hr
        exact ⟨hn, hd⟩
    · rw [Layout.apply_frame ha (by nofun)] at hr
      exact h.templates r hr
  | @template row hd =>
    refine ⟨fun r hr => ?_, fun r hr => ?_⟩
    · rw [Layout.apply_frame ha (by nofun)] at hr
      exact h.workspaces r hr
    · rw [Layout.apply_insert ha] at hr
      rcases List.mem_append.mp hr with hr | hr
      · exact h.templates r hr
      · cases List.mem_singleton.mp hr
        exact hd

theorem InBounds.applyAll {db db' : Db} {ws : List Write} (h : InBounds db)
    (hws : ∀ w ∈ ws, w.InBounds) (ha : layout.applyAll ws db = some db') : InBounds db' := by
  induction ws generalizing db with
  | nil =>
    rw [← Layout.applyAll_nil.mp ha]
    exact h
  | cons w ws ih =>
    obtain ⟨db₁, h1, h2⟩ := Layout.applyAll_cons.mp ha
    exact ih (h.apply (hws w List.mem_cons_self) h1)
      (fun w' hw' => hws w' (List.mem_cons_of_mem _ hw')) h2

/-- **One step** keeps the bounds. -/
theorem InBounds.exec {s s' : World} {o : Op} {i : Nat} {a : Ans} {r : Res o} (h : InBounds s.db)
    (ho : o.InBounds) (ha : exec i o a s = some (r, s')) : InBounds s'.db := by
  rcases exec_db ha with hdb | ⟨-, hdb⟩
  · rw [hdb]
    exact h
  · exact h.applyAll ho hdb

/-! ## Promises -/

/-- Everybody keeps to the bounds. -/
def bounding : Rules Res World where
  rely s s' := InBounds s.db → InBounds s'.db
  rely_refl _ := id
  rely_trans h h' := h' ∘ h
  step o s r s' := ∃ i a, exec i o a s = some (r, s')
  guar o _ _ _ := o.InBounds

theorem Op.inBounds_of_reads {o : Op} (h : o.writes = []) : o.InBounds := by
  intro w hw
  rw [h] at hw
  cases hw

theorem close_bounding : Close bounding where
  exec h := h
  reads {o s r s'} ho h := by
    obtain ⟨i, a, ha⟩ := h
    exact ⟨Op.inBounds_of_reads ho, fun hs => hs.exec (Op.inBounds_of_reads ho) ha⟩
  within {o s r s'} h hg := by
    obtain ⟨i, a, ha⟩ := h
    exact fun hs => hs.exec hg ha

/-- Calls that keep to the bounds, when the state does. -/
abbrev Keeps (α : Type) (y : Service α) : Prop := KeepsFrom bounding (fun s => InBounds s.db) α y

theorem composes_keeps : Composes Keeps := composes_keepsFrom close_bounding fun _ _ h hs => h hs

section operations

variable {x : Ext} {config : Config} {secretKey : String} {q : AuthRequest} {α β : Type}
  {y : Service α}

/-- Calls whose operations all do, whatever they read. -/
theorem keeps_all (h : Flow.All Op.InBounds y fun _ => True) : Keeps α y :=
  keepsFrom_all close_bounding h fun _ ho _ _ _ _ => ho

instance : AboutWrites Op.InBounds := ⟨fun _ => Op.inBounds_of_reads⟩

theorem inBounds_write {w : Write} (h : w.InBounds) : Op.InBounds (.write w) := by
  intro w' hw'
  rw [List.mem_singleton.mp hw']
  exact h

theorem Op.inBounds_of_tables {o : Op}
    (h : ∀ w ∈ o.writes, w.table ≠ .workspaces ∧ w.table ≠ .workspaceTemplates) : o.InBounds :=
  fun w hw => .elsewhere (h w hw).1 (h w hw).2

/-- The authentication service writes elsewhere. -/
theorem inBounds_of_canIssue {o : Op} (h : q.CanIssue x o) : o.InBounds := by
  rcases h with h | h
  · exact Op.inBounds_of_reads h
  · cases h <;> exact Op.inBounds_of_tables (by simp [Op.writes, Write.table])

theorem keeps_covers (h : q.Covers x y) : Keeps α y :=
  keeps_all (Flow.All.mono h (fun _ ho => inBounds_of_canIssue ho) fun _ h => h)

/-- The services that write elsewhere. -/
theorem keeps_into (h : WritesInto platformTables α y) : Keeps α y := by
  have helsewhere : ∀ t ∈ platformTables, t ≠ .workspaces ∧ t ≠ .workspaceTemplates := by decide
  exact keeps_all (Flow.All.mono h.all (fun o ho => Op.inBounds_of_tables fun w hw =>
    helsewhere _ (ho w hw)) fun _ h => h)

theorem accounts_keep (user : User) : AccountWritersSatisfy Keeps x config user where
  createApiToken name := keeps_covers (q := .createApiToken ⟨user, name⟩) (covers_createApiToken _)
  revokeApiToken id := keeps_covers (q := .revokeApiToken user id) (covers_revokeApiToken user id)
  inviteUser input _ := keeps_covers (covers_inviteUser input)
  disableUser id _ := keeps_covers (x := x) (q := .disableUser id) (covers_disableUser id)
  reactivateUser id _ := keeps_covers (x := x) (q := .reactivateUser id) (covers_reactivateUser id)
  changeUserRole input _ := keeps_covers (x := x) (q := .changeUserRole input)
    (covers_changeUserRole input)

/-! ## Workspaces and templates -/

theorem lengthIn_iff {text : String} {min max : Nat} :
    lengthIn text min max = true ↔ min ≤ text.toList.length ∧ text.toList.length ≤ max := by
  simp [lengthIn]

theorem descriptionInBounds_of_valid {description : Option String}
    (h : ifSome (lengthIn · 0 500) description = true) : DescriptionInBounds description := by
  rintro text rfl
  have htext : lengthIn text 0 500 = true := h
  exact (lengthIn_iff.mp htext).2

theorem keeps_createWorkspace {name : String} {description : Option String}
    (hn : NameInBounds name) (hd : DescriptionInBounds description) :
    Keeps _ (createWorkspace name description) := by
  have hcommit : ∀ u e, Op.InBounds (.commit [.insert .workspaces ⟨u, name, description⟩,
      .insert .environments e]) := by
    intro u e w hw
    rcases List.mem_cons.mp hw with rfl | hw
    · exact .workspace hn hd
    · rw [List.mem_singleton.mp hw]
      exact .elsewhere nofun nofun
  exact keeps_all (by simp [createWorkspace, hcommit])

theorem keeps_createTemplate {input : CreateTemplateInput}
    (hd : DescriptionInBounds input.description) : Keeps _ (createTemplate input) := by
  have hinsert : ∀ u, Op.InBounds (.write (.insert .workspaceTemplates
      ⟨u, input.workspaceId, input.name, input.description⟩)) :=
    fun u => inBounds_write (.template hd)
  exact keeps_all (by simp [createTemplate, WorkspaceService.getWorkspace, Executor.op, hinsert])

/-- The description is one that is stored, the names are as they come. -/
theorem keeps_createWorkspacesFromTemplate {input : CreateWorkspacesFromTemplateInput}
    (hn : ∀ name ∈ input.names, NameInBounds name) :
    Keeps _ (createWorkspacesFromTemplate input) := by
  unfold createWorkspacesFromTemplate getTemplate
  intro s hs
  rw [bind_assoc]
  refine ends_first close_bounding.toTame fun s₁ h₁ => ends_okOr fun template htemplate => ?_
  obtain ⟨record, hrecord, rfl⟩ := Option.map_eq_some_iff.mp htemplate
  have hd := (h₁ hs).templates record (Layout.mem_of_head?_select hrecord).1
  refine Ends.mono (ends_mapM close_bounding (P := fun _ _ _ => True) (fun _ _ _ _ _ h => h)
    fun name hname s₂ h₂ => ?_) fun _ _ _ => trivial
  exact keeps_createWorkspace (hn name hname) hd s₂ (h₂ (h₁ hs))

/-! ## Routes -/

theorem keeps_validated {valid : Bool} {y : Service ApiReply} (h : valid = true → Keeps _ y) :
    Keeps _ (validated valid y) := by
  unfold validated
  split
  · next hvalid => exact h hvalid
  · exact composes_keeps.pure _

/-- The names for workspaces from a template are within the bounds, which nobody checks. -/
def UserRoute.NamesInBounds : UserRoute → Prop
  | .createWorkspacesFromTemplate _ payload => ∀ name ∈ payload.names, NameInBounds name
  | _ => True

theorem keeps_userRoute {route : UserRoute} (h : route.NamesInBounds) (user : User) :
    Keeps _ (route.handle x config user) := by
  cases route with
  | createWorkspace payload =>
    refine keeps_validated fun hvalid => composes_keeps.superAdmin fun _ => ?_
    obtain ⟨hn, hd⟩ := Bool.and_eq_true_iff.mp hvalid
    exact composes_keeps.reply (keeps_createWorkspace (lengthIn_iff.mp hn)
      (descriptionInBounds_of_valid hd)) _
  | createTemplate workspaceId payload =>
    refine keeps_validated fun hvalid => composes_keeps.access fun _ => ?_
    obtain ⟨-, hd⟩ := Bool.and_eq_true_iff.mp hvalid
    exact composes_keeps.reply (keeps_createTemplate (descriptionInBounds_of_valid hd)) _
  | createWorkspacesFromTemplate id payload =>
    refine composes_keeps.validated (composes_keeps.superAdmin fun _ => composes_keeps.after
      (by simp [Reads, getTemplate, Op.writes]) fun _ => composes_keeps.access fun _ => ?_)
    have hn : ∀ name ∈ payload.names, NameInBounds name := h
    exact composes_keeps.reply (keeps_createWorkspacesFromTemplate hn) _
  | _ => exact composes_keeps.handle_ordinary (.of_into keeps_into (accounts_keep user)) trivial

theorem public_keeps : PublicWritersSatisfy Keeps x config where
  login input := keeps_covers (covers_login input)
  refreshSession input := keeps_covers (covers_refreshSession input)
  logout input := keeps_covers (x := x) (covers_logout input)
  acceptInvite input := keeps_covers (covers_acceptInvite input)

/-! ## Jobs -/

def Job.NamesInBounds : Job → Prop
  | .request (.user _ route) => route.NamesInBounds
  | _ => True

theorem keeps_job {job : Job} (h : job.NamesInBounds) : Keeps _ (job.serve x config) := by
  refine composes_keeps.job (keeps_covers covers_bootstrapAdmin) public_keeps
    (fun token => keeps_covers (covers_authenticateBearer token)) ?_
    (keeps_into (into_checkAllServers.mono (by decide)))
  rintro authorization route rfl user
  exact keeps_userRoute h user

/-- **The bounds hold in every run whose names for templates are within them.** Whatever the jobs
are and in whatever order their statements are done: all workspaces that are ever stored have a
name of 1 to 120 characters and a description of at most 500. -/
theorem workspaces_bounded {jobs : List (Config × Job)} {w : World} {P' : JobPool}
    {es : List (Event Res World)} (h0 : InBounds w.db) (hnames : ∀ j ∈ jobs, j.2.NamesInBounds)
    (hr : Runs exec (JobPool.of x jobs w) es P') :
    WorkspacesInBounds P'.state.db ∧
      ∀ e ∈ es, WorkspacesInBounds e.pre.db ∧ WorkspacesInBounds e.post.db := by
  have hsafe : (JobPool.of x jobs w).AllSafe (fun _ => bounding) fun _ _ _ => True := by
    intro i p hp
    simp only [JobPool.of, List.getElem?_map, Option.map_eq_some_iff] at hp
    obtain ⟨j, hj, rfl⟩ := hp
    have hjob := hnames j (List.mem_of_getElem? hj)
    exact Prog.Safe.mono (keeps_job hjob w h0) fun _ _ _ => trivial
  have hstep : ∀ e ∈ es, bounding.step e.op e.pre e.res e.post :=
    fun e he => ⟨e.tid, hr.handled e he⟩
  obtain ⟨hevents, hend, -⟩ := hr.safe (I := fun s => InBounds s.db) h0 hsafe
    (fun e he _ => hstep e he)
    fun _ _ _ _ _ hI hs hg => ⟨close_bounding.within hs hg hI, fun _ _ => close_bounding.within hs hg⟩
  refine ⟨hend.workspaces, fun e he => ?_⟩
  obtain ⟨hpre, hg⟩ := hevents e he
  exact ⟨hpre.workspaces, (close_bounding.within (hstep e he) hg hpre).workspaces⟩

end operations

namespace Symbolic

/-- A platform admin with an API token, a workspace and a template of it. -/
def shopTemplate : World := .start {
  rows := fun
    | .users => [⟨2, "ada@wara.local", "Ada", "super_admin", "active", "$argon2id$password"⟩]
    | .userApiTokens => [⟨6, 2, "ci", hashApiToken ext "wara_t", "wara_t", seconds 0, none, none⟩]
    | .workspaces => [⟨9, "Shop", none⟩]
    | .workspaceTemplates => [⟨4, 9, "Base", some "Shops"⟩]
    | _ => []
  unique := fun t _ _ => by
    cases t <;> first | exact List.nodup_nil | exact List.nodup_singleton _ }

theorem shopTemplate_inBounds : InBounds shopTemplate.db where
  workspaces w hw := by
    cases List.mem_singleton.mp hw
    exact ⟨⟨by decide, by decide⟩, nofun⟩
  templates t ht := by
    cases List.mem_singleton.mp ht
    rintro text htext
    cases htext
    decide

/-- A workspace from the template. -/
def fromTemplate (name : String) : List (Config × Job) :=
  [(config "A", .request (.user (some "Bearer wara_t")
    (.createWorkspacesFromTemplate 4 ⟨[name], .empty⟩)))]

/-- The extractor, the template read twice, and the transaction. -/
def fromTemplateSteps : List (Nat × Ans) :=
  [.done, .done, .time ⟨10000000000⟩, .done, .done, .done, .done, .done, .uuid 20, .done, .uuid 21,
    .done, .done].map fun a => (0, a)

def stored (P : JobPool) : List Workspace := P.state.db.rows .workspaces

theorem annex_stored : ((JobPool.of ext (fromTemplate "Annex") shopTemplate).run exec
    fromTemplateSteps).map stored = some [⟨9, "Shop", none⟩, ⟨20, "Annex", some "Shops"⟩] := by
  decide +kernel

theorem workspaces_bounded_annex : ∃ P' : JobPool,
    Runs exec (JobPool.of ext (fromTemplate "Annex") shopTemplate)
      ((JobPool.of ext (fromTemplate "Annex") shopTemplate).trace exec fromTemplateSteps) P' ∧
    stored P' = [⟨9, "Shop", none⟩, ⟨20, "Annex", some "Shops"⟩] ∧
    WorkspacesInBounds P'.state.db := by
  obtain ⟨P', hrun, hstored⟩ := Option.map_eq_some_iff.mp annex_stored
  have hnames : ∀ j ∈ fromTemplate "Annex", j.2.NamesInBounds := by
    intro j hj
    rw [List.mem_singleton.mp hj]
    intro name hname
    rw [List.mem_singleton.mp hname]
    exact ⟨by decide, by decide⟩
  have hruns := Pool.run_runs hrun
  exact ⟨P', hruns, hstored, (workspaces_bounded shopTemplate_inBounds hnames hruns).1⟩

theorem empty_stored : ((JobPool.of ext (fromTemplate "") shopTemplate).run exec
    fromTemplateSteps).map stored = some [⟨9, "Shop", none⟩, ⟨20, "", some "Shops"⟩] := by
  decide +kernel

/-- A workspace without a name. -/
theorem workspaces_unbounded : ¬ ∀ (x : Ext) (jobs : List (Config × Job)) (w : World)
    (P' : JobPool) (es : List (Event Res World)), InBounds w.db →
    Runs exec (JobPool.of x jobs w) es P' → WorkspacesInBounds P'.state.db := by
  intro hclaim
  obtain ⟨P', hrun, hstored⟩ := Option.map_eq_some_iff.mp empty_stored
  have hbounds := hclaim ext _ shopTemplate P' _ shopTemplate_inBounds (Pool.run_runs hrun)
  have hmem : ⟨20, "", some "Shops"⟩ ∈ stored P' := by
    rw [hstored]
    exact List.mem_cons_of_mem _ List.mem_cons_self
  exact absurd (hbounds _ hmem).1.1 (by decide)

end Symbolic

end Wara
