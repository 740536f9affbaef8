import Wara.Api.Coherence
import Wara.Api.Writes

/-!
# The scope of an environment variable

`validate_env_var_scope` looks up the environment and the service of a variable
one by one, each in the workspace of the variable. So both are of its workspace
in every state; that the service runs in the environment is left to who asks.
-/

namespace Wara

open Interleave Store Service AuthService WorkspaceService AppServiceService CredentialService

/-! ## Scopes -/

/-- Every variable that names an environment and a service names a service that runs there. -/
def ScopesConsistent (db : Db) : Prop :=
  ∀ v ∈ (db.rows .envVars : List EnvVarRecord), ∀ e id, v.environmentId = some e →
    v.serviceId = some id → ∃ service ∈ (db.rows .appServices : List AppServiceRecord),
      service.id = id ∧ service.environmentId = e

/-- The environment and the service are of the variable's workspace, and the service runs in some
environment of it. -/
def ScopesOwned (db : Db) : Prop :=
  ∀ v ∈ (db.rows .envVars : List EnvVarRecord), ∀ e id, v.environmentId = some e →
    v.serviceId = some id →
      (∃ environment ∈ (db.rows .environments : List Environment),
        environment.id = e ∧ environment.workspaceId = v.workspaceId) ∧
      ∃ service ∈ (db.rows .appServices : List AppServiceRecord),
        (service.id = id ∧ service.workspaceId = v.workspaceId) ∧
        ∃ environment ∈ (db.rows .environments : List Environment),
          environment.id = service.environmentId ∧ environment.workspaceId = v.workspaceId

theorem Coherent.scopesOwned {db : Db} (h : Coherent db) : ScopesOwned db := by
  intro v hv e id he hid
  obtain ⟨service, hservice, hs⟩ := h.envVarServices v hv id hid
  obtain ⟨environment, henvironment, hin, hws⟩ := h.appServices service hservice
  exact ⟨h.envVarEnvironments v hv e he, service, hservice, hs, environment, henvironment, hin,
    hws.trans hs.2⟩

/-- The service that a variable needs, once more, now with its environment. -/
def scopes : References layout fixedCols where
  needs has {t} r := match t, r with
    | .envVars, r => ∀ e id, r.environmentId = some e → r.serviceId = some id →
        has .appServices fun s : AppServiceRecord => s.id = id ∧ s.environmentId = e
    | _, _ => True
  mono {has has' t r} h hr := by
    cases t with
    | envVars =>
      exact fun e id he hid => h .appServices _ (stable_of_fixed rfl _) (hr e id he hid)
    | _ => trivial
  stable {has t} r r' h hr := by
    cases t with
    | envVars => exact eq_of_fixed rfl h ▸ hr
    | _ => trivial

theorem scopesConsistent_iff {db : Db} : ScopesConsistent db ↔ scopes.Integral db := by
  constructor
  · intro h t r hr
    cases t with
    | envVars => exact h r hr
    | _ => trivial
  · exact fun h v hv => h .envVars v hv

/-! ## Calls -/

/-- If the service that the input names is stored, it runs in the environment that it names. -/
def CreateEnvVarInput.Fits (input : CreateEnvVarInput) (db : Db) : Prop :=
  ∀ e id, input.environmentId = some e → input.serviceId = some id →
    ∀ service ∈ (db.rows .appServices : List AppServiceRecord), service.id = id →
      service.environmentId = e

/-- The variables that the task asks for. -/
def Task.envVars : Task → List CreateEnvVarInput
  | .create (.createEnvVar input) => [input]
  | .create (.createEnvVars inputs) => inputs
  | _ => []

/-- Tasks that make workspaces and what scopes refer to, or the variables. -/
def Task.Scoping : Task → Prop
  | .create (.createWorkspace ..) | .create (.createEnvironment ..) | .create (.createService _)
  | .create (.createEnvVar _) | .create (.createEnvVars _) => True
  | _ => False

/-- The operation stores no variables, or only some of the inputs. -/
inductive Op.StoresOf (inputs : List CreateEnvVarInput) : Op → Prop
  | elsewhere {o : Op} (h : ∀ w ∈ o.writes, w.table ≠ .envVars) : StoresOf inputs o
  | envVars {o : Op} (h : ∀ w ∈ o.writes, ∃ v : EnvVarRecord, w = .insert .envVars v ∧
      ∃ input ∈ inputs, v.environmentId = input.environmentId ∧ v.serviceId = input.serviceId) :
    StoresOf inputs o

section calls

variable {x : Ext} {secretKey : String} {inputs : List CreateEnvVarInput} {t : Table}

theorem Op.storesOf_of_reads {o : Op} (h : o.writes = []) : o.StoresOf inputs :=
  .elsewhere fun w hw => by rw [h] at hw; cases hw

theorem all_of_reads {α : Type} {y : Service α} (h : Reads y) :
    Flow.All (Op.StoresOf inputs) y fun _ => True :=
  Flow.All.mono h (fun _ ho => Op.storesOf_of_reads ho) fun _ h => h

instance : AboutWrites (Op.StoresOf inputs) := ⟨fun _ => Op.storesOf_of_reads⟩

/-- The record of an input. -/
theorem all_createEnvVarRecord {executor : Executor} {input : CreateEnvVarInput}
    (h : ∀ r : EnvVarRecord, r.environmentId = input.environmentId →
      r.serviceId = input.serviceId → Op.StoresOf inputs (executor.op (.insert .envVars r))) :
    Flow.All (Op.StoresOf inputs) (createEnvVarRecord x secretKey executor input) fun r =>
      r.environmentId = input.environmentId ∧ r.serviceId = input.serviceId := by
  simp [createEnvVarRecord, h]

theorem all_createEnvVar (input : CreateEnvVarInput) :
    Flow.All (Op.StoresOf [input]) (createEnvVar x secretKey input) fun _ => True := by
  unfold createEnvVar
  refine Flow.all_bind.mpr (Flow.All.mono (all_of_reads (reads_validateEnvVarScope input))
    (fun _ h => h) fun _ _ => Flow.all_bind.mpr (Flow.All.mono (all_createEnvVarRecord ?_)
      (fun _ h => h) fun _ _ => Flow.all_pure.mpr trivial))
  intro r he hid
  refine .envVars fun w hw => ⟨r, List.mem_singleton.mp hw, input, List.mem_singleton_self _, he, hid⟩

theorem all_createEnvVars (inputs : List CreateEnvVarInput) :
    Flow.All (Op.StoresOf inputs) (createEnvVars x secretKey inputs) fun _ => True := by
  unfold createEnvVars
  have hscopes : Reads (inputs.forM validateEnvVarScope) :=
    all_forM fun input _ => reads_validateEnvVarScope input
  have hcreated : Flow.All (Op.StoresOf inputs)
      (inputs.mapM (createEnvVarRecord x secretKey .transaction))
      (List.Forall₂ (fun input r => EnvVarRecord.environmentId r = input.environmentId ∧
        r.serviceId = input.serviceId) inputs) :=
    all_mapM fun input _ => all_createEnvVarRecord fun _ _ _ => Op.storesOf_of_reads rfl
  refine Flow.all_bind.mpr (Flow.All.mono (all_of_reads hscopes) (fun _ h => h) fun _ _ => ?_)
  rw [Flow.all_bind, all_transaction_of_writes]
  refine Flow.all_bind.mpr (Flow.All.mono hcreated (fun _ h => h) ?_)
  intro created hcreated
  rw [Flow.all_bind, all_commit]
  refine ⟨.envVars fun w hw => ?_, Flow.all_pure.mpr trivial⟩
  obtain ⟨record, hrecord, rfl⟩ := List.mem_map.mp hw
  obtain ⟨input, hinput, he, hid⟩ := exists_of_forall₂ hcreated hrecord
  exact ⟨record, rfl, input, hinput, he, hid⟩

/-- What is written elsewhere stores no variables. -/
theorem all_into {α : Type} {ts : List Table} {inputs : List CreateEnvVarInput} {y : Service α}
    (h : WritesInto ts α y) (hts : .envVars ∉ ts) :
    Flow.All (Op.StoresOf inputs) y fun _ => True :=
  Flow.All.mono h.all (fun _ ho => .elsewhere fun w hw he => hts (he ▸ ho w hw)) fun _ h => h

theorem all_scoping {config : Config} {task : Task} (h : task.Scoping) :
    Flow.All (Op.StoresOf task.envVars) (task.serve x config) fun _ => True := by
  cases task with
  | job job => cases h
  | create call =>
    refine Flow.all_map.mpr ?_
    cases call with
    | createWorkspace name description =>
      exact Flow.all_map.mpr (all_into (into_createWorkspace name description) (by decide))
    | createEnvironment workspaceId name =>
      exact Flow.all_map.mpr (all_into (into_createEnvironment workspaceId name) (by decide))
    | createService input =>
      exact Flow.all_map.mpr (all_into (into_createService input) (by decide))
    | createEnvVar input => exact Flow.all_map.mpr (all_createEnvVar input)
    | createEnvVars inputs => exact Flow.all_map.mpr (all_createEnvVars inputs)
    | _ => cases h

end calls

/-! ## Runs -/

section runs

variable {x : Ext} {tasks : List (Config × Task)} {w : World} {P' : JobPool}
  {es : List (Event Res World)}

/-- **One step**: the service that a stored variable needs is one that was there, as nothing but
variables is stored along with it. -/
theorem supported_of_fits {o : Op} {inputs : List CreateEnvVarInput} {db : Db}
    (ho : o.StoresOf inputs) (hs : references.Supported o.writes db)
    (hfits : ∀ input ∈ inputs, input.Fits db) : scopes.Supported o.writes db := by
  intro t r hr
  cases t with
  | envVars =>
    intro e id he hid
    cases ho with
    | elsewhere h => exact absurd rfl (h _ hr)
    | envVars h =>
      obtain ⟨v, hv, input, hinput, henv, hsvc⟩ := h _ hr
      cases hv
      obtain ⟨-, -, hservices⟩ := hs .envVars r hr
      rcases hservices id hid with ⟨service, hm, hsid, -⟩ | ⟨service, hm, -⟩
      · have hin := hfits input hinput e id (henv ▸ he) (hsvc ▸ hid) service hm hsid
        exact .inl ⟨service, hm, hsid, hin⟩
      · obtain ⟨v, hv, -⟩ := h _ hm
        cases hv
  | _ => trivial

/-- **Scopes in every reachable state.** Whatever tasks there are and in whatever order their
statements are done, a variable that names an environment and a service names two of its own
workspace. If the tasks are those that scopes come from, and ask only for variables whose service
runs in their environment, then so does the service of every variable that is ever stored. -/
theorem envVarScopes_reachable (h0 : Coherent w.db)
    (hr : Runs exec (TaskPool.of x tasks w) es P') :
    (ScopesOwned P'.state.db ∧ ∀ e ∈ es, ScopesOwned e.pre.db ∧ ScopesOwned e.post.db) ∧
    (ScopesConsistent w.db → (∀ task ∈ tasks, task.2.Scoping) →
      (∀ e ∈ es, ∀ task, tasks[e.tid]? = some task → ∀ input ∈ task.2.envVars,
        input.Fits e.pre.db) →
      ScopesConsistent P'.state.db ∧
        ∀ e ∈ es, ScopesConsistent e.pre.db ∧ ScopesConsistent e.post.db) := by
  obtain ⟨hend, hevents⟩ := coherent_reachable h0 hr
  refine ⟨⟨hend.scopesOwned, fun e he => ?_⟩, fun hw hscoping hfits => ?_⟩
  · exact ⟨(hevents e he).1.scopesOwned, (hevents e he).2.scopesOwned⟩
  have hstores : ∀ e ∈ es, ∃ task, tasks[e.tid]? = some task ∧ e.op.StoresOf task.2.envVars := by
    refine (hr.all (φ := fun i o => ∃ task, tasks[i]? = some task ∧ o.StoresOf task.2.envVars)
      (Q := fun _ _ => True) fun i p hp => ?_).1
    obtain ⟨task, htask, rfl⟩ := TaskPool.task_of hp
    have hall : Flow.All (Op.StoresOf task.2.envVars) (task.2.serve x task.1) fun _ => True :=
      all_scoping (hscoping task (List.mem_of_getElem? htask))
    exact Prog.All.mono hall (fun o ho => ⟨task, htask, ho⟩) fun _ _ => trivial
  have hstep : ∀ e ∈ es, ScopesConsistent e.pre.db → ScopesConsistent e.post.db := by
    intro e he hpre
    obtain ⟨task, htask, hop⟩ := hstores e he
    obtain ⟨htidy, hsupported⟩ := linked_of_runs hr e he
    obtain ⟨a, ha⟩ := hr.handled e he
    rcases exec_db ha with hdb | ⟨-, hdb⟩
    · rw [hdb]
      exact hpre
    · rw [scopesConsistent_iff] at hpre ⊢
      exact hpre.applyAll hdb htidy (supported_of_fits hop hsupported (hfits e he task htask))
  obtain ⟨hall, hlast⟩ := hr.keeps (I := fun s => ScopesConsistent s.db) hw hstep
  exact ⟨hlast, hall⟩

end runs

namespace Symbolic

/-- A workspace with two environments. -/
def twoStages : World := .start {
  rows := fun
    | .workspaces => [⟨9, "Shop", none⟩]
    | .environments => [⟨2, 9, "production"⟩, ⟨3, 9, "staging"⟩]
    | _ => []
  unique := fun t => by cases t <;> decide }

theorem twoStages_coherent : Coherent twoStages.db := by
  rw [coherent_iff]
  intro t r hr
  cases t with
  | workspaces =>
    cases List.mem_singleton.mp hr
    exact ⟨⟨2, 9, "production"⟩, List.mem_cons_self, rfl⟩
  | environments =>
    refine ⟨⟨9, "Shop", none⟩, List.mem_singleton_self _, ?_⟩
    rcases List.mem_cons.mp hr with rfl | hr
    · rfl
    · cases List.mem_singleton.mp hr
      rfl
  | _ => cases hr

theorem twoStages_consistent : ScopesConsistent twoStages.db := fun _ hv => by cases hv

/-- A service is created in staging, and a variable for it in the given environment. -/
def staged (environmentId : Uuid) : List (Config × Task) :=
  [(config "A", .create (.createService
      ⟨9, 3, "web", .dockerImage, some "nginx", none, none, none⟩)),
    (config "A", .create (.createEnvVar ⟨9, some environmentId, some 5, "REGION", "north"⟩))]

def stagedSteps : List (Nat × Ans) :=
  [(0, .done), (0, .done), (0, .uuid 5), (0, .done), (1, .done), (1, .done), (1, .done),
    (1, .uuid 6), (1, .done)]

/-- What the scopes refer to in the end. -/
def scopesOf (P' : JobPool) : List (Option Uuid × Option Uuid) × List (Uuid × Uuid) :=
  ((P'.state.db.rows .envVars : List EnvVarRecord).map fun v => (v.environmentId, v.serviceId),
    (P'.state.db.rows .appServices : List AppServiceRecord).map fun s => (s.id, s.environmentId))

theorem staged_runs :
    ((TaskPool.of ext (staged 2) twoStages).run exec stagedSteps).map scopesOf =
      some ([(some 2, some 5)], [(5, 3)]) ∧
    ((TaskPool.of ext (staged 3) twoStages).run exec stagedSteps).map scopesOf =
      some ([(some 3, some 5)], [(5, 3)]) ∧
    ∀ e ∈ (TaskPool.of ext (staged 3) twoStages).trace exec stagedSteps,
      ∀ service ∈ (e.pre.db.rows .appServices : List AppServiceRecord),
        service.environmentId = 3 := by decide +kernel

theorem staged_scoping (environmentId : Uuid) : ∀ task ∈ staged environmentId, task.2.Scoping := by
  intro task htask
  rcases List.mem_cons.mp htask with rfl | htask
  · trivial
  · cases List.mem_singleton.mp htask
    trivial

/-- A variable for production and a service in staging, each of the variable's workspace. -/
theorem envVarScopes_inconsistent : ¬ ∀ (x : Ext) (tasks : List (Config × Task)) (w : World)
    (P' : JobPool) (es : List (Event Res World)), Coherent w.db → ScopesConsistent w.db →
    (∀ task ∈ tasks, task.2.Scoping) → Runs exec (TaskPool.of x tasks w) es P' →
    ScopesConsistent P'.state.db := by
  intro h
  obtain ⟨P', hrun, hscopes⟩ := Option.map_eq_some_iff.mp staged_runs.1
  obtain ⟨hvars, hservices⟩ := Prod.mk.inj hscopes
  have hconsistent := h ext _ _ P' _ twoStages_coherent twoStages_consistent (staged_scoping 2)
    (Pool.run_runs hrun)
  have hvar : (some 2, some 5) ∈ (P'.state.db.rows .envVars : List EnvVarRecord).map
      fun v => (v.environmentId, v.serviceId) := hvars ▸ List.mem_singleton_self _
  obtain ⟨v, hv, hnames⟩ := List.mem_map.mp hvar
  obtain ⟨he, hid⟩ := Prod.mk.inj hnames
  obtain ⟨service, hmem, hsid, hin⟩ := hconsistent v hv 2 5 he hid
  have hservice := List.mem_map_of_mem (f := fun s : AppServiceRecord => (s.id, s.environmentId)) hmem
  rw [hservices, hsid, hin] at hservice
  revert hservice
  decide

theorem envVarScopes_reachable_staging : ∃ P' : JobPool,
    scopesOf P' = ([(some 3, some 5)], [(5, 3)]) ∧
    ScopesOwned P'.state.db ∧ ScopesConsistent P'.state.db := by
  obtain ⟨-, hrun, hstaging⟩ := staged_runs
  obtain ⟨P', hrun, hscopes⟩ := Option.map_eq_some_iff.mp hrun
  obtain ⟨⟨howned, -⟩, hconsistent⟩ :=
    envVarScopes_reachable twoStages_coherent (Pool.run_runs hrun)
  refine ⟨P', hscopes, howned, (hconsistent twoStages_consistent (staged_scoping 3) ?_).1⟩
  intro e he task htask input hinput environmentId id henv _ service hm _
  obtain rfl : environmentId = 3 := by
    rcases List.mem_cons.mp (List.mem_of_getElem? htask) with rfl | htask
    · cases hinput
    · cases List.mem_singleton.mp htask
      cases List.mem_singleton.mp hinput
      exact (Option.some.inj henv).symm
  exact hstaging e he service hm

end Symbolic

end Wara
