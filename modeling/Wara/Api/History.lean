import Wara.Api.Coherence
import Wara.Api.Writes
import Wara.External.Symbolic
import Wara.Interleave.Movers

/-!
# Deployment records are honest

A deployment is recorded after its commands have been run, with other tasks in
between, and never changes. So each record that a run of tasks leaves was stored
by a task that deploys or restarts the service of its `service_id`, and tells of
the commands that the configuration of that task's instance plans for the stored
service, and of what the task's executor did with them.
-/

namespace Wara

open Interleave Store Service Docker AuthService WorkspaceService AppServiceService DomainService
  DeploymentService WorkspaceTemplateService CredentialService ServerService

/-- The commands for a service that is deployed or restarted. -/
inductive Commanded (x : Ext) (config : Config) (service : AppService) :
    ServiceCommand → List RemoteCommand → Prop
  | deploy {commands : List RemoteCommand} (h : plannedCommands x service config = .ok commands) :
    Commanded x config service .deploy commands
  | restart (h : validateServiceName service.name = .ok ()) :
    Commanded x config service .restart [restartCommand service.name]

/-- The record tells what the executor did with the commands for its service. -/
def Documented (x : Ext) (config : Config) (command : ServiceCommand) (executor : DeployExecutor)
    (db : Db) (r : DeploymentRecord) : Prop :=
  ∃ service ∈ (db.rows .appServices : List AppServiceRecord), service.id = r.serviceId ∧
    ∃ commands, Commanded x config (AppService.from service) command commands ∧
      ∃ run, executor commands = .ok run ∧ r.status = (deployStatus run).asStr ∧
        r.output = run.toOutput []

theorem Documented.mono {x : Ext} {config : Config} {command : ServiceCommand}
    {executor : DeployExecutor} {db db' : Db} {r : DeploymentRecord} (h : Documented x config command executor db r)
    (hdb : db.Keeps db') : Documented x config command executor db' r := by
  obtain ⟨service, hservice, hrest⟩ := h
  obtain ⟨service', hservice', hc⟩ := hdb .appServices service hservice
  obtain rfl : service' = service := eq_of_fixed rfl hc
  exact ⟨service', hservice', hrest⟩

/-! ## Promises -/

/-- Rows stay, and the deployments that are stored are documented: their service was to be deployed
or restarted by one of the executors. -/
def documenting (x : Ext) (config : Config) (E : ServiceCommand → DeployExecutor → Uuid → Prop) :
    Rules Res World where
  rely := World.Keeps
  rely_refl := World.Keeps.refl
  rely_trans := @World.Keeps.trans
  step o s r s' := (∃ i a, exec i o a s = some (r, s')) ∧ o.Tidy
  guar o s _ _ := ∀ r, .insert .deployments r ∈ o.writes →
    ∃ command executor, E command executor r.serviceId ∧
      Documented x config command executor s.db r

section promises

variable {x : Ext} {config : Config} {E : ServiceCommand → DeployExecutor → Uuid → Prop}
  {command : ServiceCommand} {executor : DeployExecutor} {α β : Type} {y : Service α} {s : World}
  {q : AuthRequest}

/-- The operation stores no deployment. -/
def Op.Elsewhere (o : Op) : Prop := ∀ r, .insert .deployments r ∉ o.writes

theorem close_documenting : Close (documenting x config E) where
  exec h := h.1
  reads {o s r s'} ho h := by
    obtain ⟨⟨i, a, ha⟩, htidy⟩ := h
    refine ⟨fun r hr => ?_, exec_keeps htidy ha⟩
    rw [ho] at hr
    cases hr
  within {o s r s'} h _ := by
    obtain ⟨⟨i, a, ha⟩, htidy⟩ := h
    exact exec_keeps htidy ha

abbrev Documenting (x : Ext) (config : Config) (E : ServiceCommand → DeployExecutor → Uuid → Prop)
    (α : Type) (y : Service α) : Prop :=
  KeepsFrom (documenting x config E) (fun _ => True) α y

theorem composes_documenting : Composes (Documenting x config E) :=
  composes_keepsFrom close_documenting fun _ _ _ _ => trivial

theorem documenting_elsewhere (h : Flow.All Op.Elsewhere y fun _ => True) :
    Documenting x config E α y :=
  keepsFrom_all close_documenting h fun _ ho _ _ _ _ r hr => (ho r hr).elim

theorem documenting_into {ts : List Table} (h : WritesInto ts α y) (hts : .deployments ∉ ts) :
    Documenting x config E α y :=
  documenting_elsewhere (Flow.All.mono h.all (fun _ ho _ hr => hts (ho _ hr)) fun _ h => h)

theorem elsewhere_of_canIssue {o : Op} (h : q.CanIssue x o) : o.Elsewhere := by
  intro r hr
  rcases h with h | h
  · rw [h] at hr
    cases hr
  · cases h <;> simp [Op.writes] at hr

theorem documenting_covers (h : q.Covers x y) : Documenting x config E α y :=
  documenting_elsewhere (Flow.All.mono h (fun _ ho => elsewhere_of_canIssue ho) fun _ h => h)

theorem elsewhere_deploymentFrom (record : DeploymentRecord) :
    Flow.All Op.Elsewhere (Deployment.from x record) fun _ => True :=
  Flow.All.mono (reads_deploymentFrom record) (fun _ ho _ hr => by rw [ho] at hr; cases hr)
    fun _ h => h

/-- What is recorded is documented at that moment. -/
theorem ends_recorded {serviceId : Uuid} {status : DeploymentStatus} {output : String}
    (h : ∀ s₁, s.Keeps s₁ → ∀ r : DeploymentRecord, r.serviceId = serviceId →
      r.status = status.asStr → r.output = output →
        ∃ command executor, E command executor r.serviceId ∧
          Documented x config command executor s₁.db r) :
    Ends (documenting x config E) (createDeployment x serviceId status output) (fun _ _ => True) s := by
  unfold createDeployment
  have hreads : ∀ {γ : Type} {z : Service γ} {f : γ → Service Deployment} {s' : World},
      Reads z → (∀ a s'', s'.Keeps s'' → Ends (documenting x config E) (f a) (fun _ _ => True) s'') →
      Ends (documenting x config E) (z >>= f) (fun _ _ => True) s' :=
    fun hz hf => ends_reads close_documenting.toTame hz fun a s'' _ hs => hf a s'' hs
  refine hreads (by simp [Reads, Op.writes]) fun id s₁ h₁ => ?_
  refine hreads (by simp [Reads, Op.writes]) fun workflowId s₂ h₂ => ?_
  refine hreads (by simp [Reads, Op.writes]) fun createdAt s₃ h₃ => ?_
  refine ends_create (fun s₄ _ _ h₄ _ r hr => ?_) fun _ s₄ _ _ => ?_
  · cases List.mem_singleton.mp hr
    exact h s₄ (h₁.trans (h₂.trans (h₃.trans h₄))) _ rfl rfl rfl
  · exact documenting_elsewhere (elsewhere_deploymentFrom _) s₄ trivial

/-- Commands for a stored service, run and recorded. -/
theorem ends_runAndRecorded {serviceId : Uuid} {commands : List RemoteCommand}
    {service : AppServiceRecord} (hE : E command executor serviceId)
    (hservice : service ∈ (s.db.rows .appServices : List AppServiceRecord))
    (hid : service.id = serviceId)
    (hcommands : Commanded x config (AppService.from service) command commands) :
    Ends (documenting x config E) (runAndRecord x executor serviceId commands) (fun _ _ => True) s := by
  unfold runAndRecord
  refine ends_orThrow fun run hrun => ends_recorded fun s₁ h₁ r hr hstatus houtput => ?_
  have hexecuted : executor commands = .ok run := by
    cases hresult : executor commands with
    | error e => rw [hresult] at hrun; cases hrun
    | ok run' => rw [hresult] at hrun; cases hrun; rfl
  refine ⟨command, executor, hr ▸ hE, Documented.mono ?_ h₁⟩
  exact ⟨service, hservice, hid.trans hr.symm, commands, hcommands, run, hexecuted, hstatus, houtput⟩

theorem ends_storedService {id : Uuid} {f : AppService → Service β} {ok : β → World → Prop}
    (h : ∀ s' service, service ∈ (s'.db.rows .appServices : List AppServiceRecord) →
      service.id = id → Ends (documenting x config E) (f (AppService.from service)) ok s') :
    Ends (documenting x config E) (AppServiceService.getService id >>= f) ok s := by
  unfold AppServiceService.getService
  rw [bind_assoc]
  refine ends_first close_documenting.toTame fun s' _ => ends_okOr fun service hservice => ?_
  obtain ⟨r, hr, rfl⟩ := Option.map_eq_some_iff.mp hservice
  obtain ⟨hm, hid⟩ := Layout.mem_of_head?_select hr
  exact h s' r hm (uuid_of_col (holds_byId hid))

theorem documenting_triggerDeploy {serviceId : Uuid} (hE : E .deploy executor serviceId) :
    Documenting x config E _ (triggerDeploy x config executor serviceId) := by
  unfold triggerDeploy
  refine fun s _ => ends_storedService fun s₁ service hservice hid => ?_
  exact ends_orThrow fun commands hplanned => ends_runAndRecorded hE hservice hid (.deploy hplanned)

theorem documenting_restartService {serviceId : Uuid} (hE : E .restart executor serviceId) :
    Documenting x config E _ (restartService x executor serviceId) := by
  unfold restartService
  refine fun s _ => ends_storedService fun s₁ service hservice hid => ?_
  refine ends_orThrow fun _ hvalid => ends_runAndRecorded hE hservice hid (.restart ?_)
  cases hname : validateServiceName (AppService.from service).name with
  | error e => rw [hname] at hvalid; cases hvalid
  | ok u => rfl

/-! ## All of them -/

theorem creators_documenting : CreatorsSatisfy (Documenting x config E) E x config where
  createWorkspace name description :=
    documenting_into (into_createWorkspace name description) (by decide)
  createEnvironment workspaceId name :=
    documenting_into (into_createEnvironment workspaceId name) (by decide)
  createService input := documenting_into (into_createService input) (by decide)
  createDomain input := documenting_into (into_createDomain input) (by decide)
  triggerDeploy _ _ hE := documenting_triggerDeploy hE
  restartService _ _ hE := documenting_restartService hE
  createTemplate input := documenting_into (into_createTemplate input) (by decide)
  createWorkspacesFromTemplate input :=
    documenting_into (into_createWorkspacesFromTemplate input) (by decide)
  createCredential input := documenting_into (into_createCredential input) (by decide)
  createEnvVar input := documenting_into (into_createEnvVar input) (by decide)
  createEnvVars inputs := documenting_into (into_createEnvVars inputs) (by decide)
  createServer payload := documenting_into (into_createServer payload) (by decide)
  login input := documenting_covers (covers_login input)
  inviteUser input := documenting_covers (covers_inviteUser input)
  acceptInvite input := documenting_covers (covers_acceptInvite input)
  refreshSession input := documenting_covers (covers_refreshSession input)

theorem updaters_documenting : UpdatersSatisfy (Documenting x config E) x config where
  bootstrapAdmin := documenting_covers covers_bootstrapAdmin
  createApiToken input := documenting_covers (covers_createApiToken input)
  revokeApiToken user id := documenting_covers (covers_revokeApiToken user id)
  authenticateBearer token := documenting_covers (covers_authenticateBearer token)
  logout input := documenting_covers (x := x) (covers_logout input)
  disableUser id := documenting_covers (x := x) (covers_disableUser id)
  reactivateUser id := documenting_covers (x := x) (covers_reactivateUser id)
  changeUserRole input := documenting_covers (x := x) (covers_changeUserRole input)
  checkServer id := documenting_into (into_checkServer id) (by decide)
  checkAllServers := documenting_into into_checkAllServers (by decide)

theorem documenting_task (t : Task) : Documenting x config t.Commands _ (t.serve x config) :=
  composes_documenting.task creators_documenting updaters_documenting fun _ _ _ h => h

end promises

/-! ## Runs -/

section runs

variable {x : Ext} {tasks : List (Config × Task)} {w : World} {P' : JobPool}
  {es : List (Event Res World)}

/-- An event of the run has stored the record, and belongs to a task that deploys or restarts its
service; the record tells what the task's executor did with the commands. -/
def Accounted (x : Ext) (tasks : List (Config × Task)) (es : List (Event Res World)) (db : Db)
    (r : DeploymentRecord) : Prop :=
  ∃ e ∈ es, e.op.succeeded e.res = true ∧ .insert .deployments r ∈ e.op.writes ∧
    ∃ config task, tasks[e.tid]? = some (config, task) ∧ ∃ command executor,
      task.Commands command executor r.serviceId ∧ Documented x config command executor db r

theorem Accounted.mono {db db' : Db} {r : DeploymentRecord} (h : Accounted x tasks es db r)
    (hdb : db.Keeps db') : Accounted x tasks es db' r := by
  obtain ⟨e, he, hs, hins, config, task, ht, command, executor, hcommands, hdocumented⟩ := h
  exact ⟨e, he, hs, hins, config, task, ht, command, executor, hcommands, hdocumented.mono hdb⟩

/-- What an event stores is documented at that moment, by the task that it belongs to. -/
theorem documented_of_runs (hr : Runs exec (TaskPool.of x tasks w) es P')
    {e : Event Res World} (he : e ∈ es) {r : DeploymentRecord}
    (hins : .insert .deployments r ∈ e.op.writes) :
    ∃ config task, tasks[e.tid]? = some (config, task) ∧ ∃ command executor,
      task.Commands command executor r.serviceId ∧
        Documented x config command executor e.pre.db r := by
  have hlt : e.tid < tasks.length := by
    simpa only [TaskPool.of, List.length_map] using hr.tid_lt he
  have ht : tasks[e.tid]? = some (tasks[e.tid].1, tasks[e.tid].2) := List.getElem?_eq_getElem hlt
  have hstep : ∀ e' ∈ es, (documenting x tasks[e.tid].1 tasks[e.tid].2.Commands).step
      e'.op e'.pre e'.res e'.post :=
    fun e' he' => ⟨⟨e'.tid, hr.handled e' he'⟩, tidy_of_runs hr e' he'⟩
  have hpromise := hr.guards (TaskPool.thread_of ht) (documenting_task tasks[e.tid].2 w trivial)
    (fun e' he' _ => keeps_of_runs hr e' he') (fun e' he' _ => hstep e' he') e he rfl
  exact ⟨_, _, ht, hpromise r hins⟩

/-- **Deployment records are honest.** Tasks run in any order of their statements: in every state,
each deployment that was not stored at the start is accounted for by what has happened. -/
theorem deployments_documented (hr : Runs exec (TaskPool.of x tasks w) es P') :
    ∀ r ∈ (P'.state.db.rows .deployments : List DeploymentRecord),
      r ∈ (w.db.rows .deployments : List DeploymentRecord) ∨ Accounted x tasks es P'.state.db r := by
  refine (hr.keeps (I := fun s => ∀ r ∈ (s.db.rows .deployments : List DeploymentRecord),
    r ∈ (w.db.rows .deployments : List DeploymentRecord) ∨ Accounted x tasks es s.db r)
    (fun r hmem => .inl hmem) fun e he hpre r hpost => ?_).2
  obtain ⟨a, ha⟩ := hr.handled e he
  have hdb : e.pre.Keeps e.post := keeps_of_runs hr e he
  rcases exec_origin (tidy_of_runs hr e he) ha rfl hpost with hold | ⟨hs, hins⟩
  · exact (hpre r hold).imp_right fun h => h.mono hdb
  · obtain ⟨config, task, ht, command, executor, hcommands, hdocumented⟩ :=
      documented_of_runs hr he hins
    exact .inr ⟨e, he, hs, hins, config, task, ht, command, executor, hcommands,
      hdocumented.mono hdb⟩

end runs

namespace Symbolic

/-- A service that runs an image. -/
def webService : Db where
  rows := fun
    | .workspaces => [⟨9, "Shop", none⟩]
    | .environments => [⟨8, 9, "production"⟩]
    | .appServices => [⟨5, 9, 8, "web", "docker_image", some "nginx", none, none, none⟩]
    | _ => []
  unique := fun t => by cases t <;> decide

/-- An executor on whose host nothing works. -/
def brokenHost : DeployExecutor := fun commands =>
  .ok ⟨commands.map fun command => ⟨command.render, "", "no such host", 255⟩, true, false⟩

/-- It restarts the service, while another task adds an environment. -/
def restartAndAdd : List (Config × Task) :=
  [(config "A", .create (.restartService brokenHost 5)),
    (config "A", .create (.createEnvironment 9 "staging"))]

def restartAndAddPool : JobPool := TaskPool.of ext restartAndAdd (.start webService)

def restartAndAddSteps : List (Nat × Ans) :=
  [(0, .done), (1, .done), (0, .uuid 11), (0, .uuid 12), (1, .uuid 21), (1, .done),
    (0, .time ⟨10000000000⟩), (0, .done)]

theorem restartAndAdd_statuses : (restartAndAddPool.run exec restartAndAddSteps).map
    (fun P' : JobPool => (P'.state.db.rows .deployments).map (DeploymentRecord.status ·)) =
      some ["failed"] := by decide +kernel

theorem deployments_documented_restart : ∃ P' : JobPool, ∃ es : List (Event Res World),
    Runs exec restartAndAddPool es P' ∧
      (P'.state.db.rows .deployments).map (DeploymentRecord.status ·) = ["failed"] ∧
        ∀ r ∈ (P'.state.db.rows .deployments : List DeploymentRecord),
          r ∈ (webService.rows .deployments : List DeploymentRecord) ∨
            Accounted ext restartAndAdd es P'.state.db r := by
  obtain ⟨P', hrun, hrows⟩ := Option.map_eq_some_iff.mp restartAndAdd_statuses
  have hr := Pool.run_runs hrun
  exact ⟨P', _, hr, hrows, deployments_documented hr⟩

end Symbolic

end Wara
