import Wara.Api.Coherence
import Wara.Docker.Resources
import Wara.Service.Solo

/-!
# Services that can be deployed, side by side

`planned_commands` checks the name of a service, and the image of a
`docker_image` one. `create_service` checks neither, and lets two services have
one name.
-/

namespace Wara

open Interleave Store Service Docker AppServiceService DeploymentService

/-! ## The commands of a service -/

/-- The image that a `docker_image` service pulls. -/
def AppService.pulledImage (service : AppService) : String := service.image.getD "missing-image"

/-- What `planned_commands` returns when its checks pass. -/
def AppService.commands (service : AppService) (config : Config) : List RemoteCommand :=
  match service.deployKind with
  | .dockerImage => imageDeployCommands service.pulledImage service.name
  | .dockerCompose => composeDeployCommands service.name
    ⟨config.remoteServicesRoot, config.dockerfileContextDir⟩
  | .dockerfile => dockerfileDeployCommands service.name
    ⟨config.remoteServicesRoot, config.dockerfileContextDir⟩

/-- The checks of `planned_commands`. -/
def AppService.Sound (service : AppService) : Prop :=
  validateServiceName service.name = .ok () ∧
    (service.deployKind = .dockerImage → validateImageReference service.pulledImage = .ok ())

instance (service : AppService) : Decidable service.Sound :=
  inferInstanceAs (Decidable (_ ∧ (_ → _)))

section planned

variable {service a b : AppService} {config : Config} {commands : List RemoteCommand}

theorem plannedCommands_ok :
    plannedCommands x service config = .ok commands ↔
      service.Sound ∧ commands = service.commands config := by
  unfold plannedCommands AppService.Sound AppService.commands AppService.pulledImage
  cases validateServiceName service.name with
  | error e => exact ⟨nofun, fun h => nomatch h.1.1⟩
  | ok =>
    cases service.deployKind with
    | dockerImage =>
      dsimp only
      cases validateImageReference (service.image.getD "missing-image") with
      | error e => exact ⟨nofun, fun h => nomatch h.1.2 rfl⟩
      | ok => exact ⟨fun h => ⟨⟨rfl, fun _ => rfl⟩, (Except.ok.inj h).symm⟩, fun h => by rw [h.2]; rfl⟩
    | dockerCompose =>
      exact ⟨fun h => ⟨⟨rfl, nofun⟩, (Except.ok.inj h).symm⟩, fun h => by rw [h.2]; rfl⟩
    | dockerfile =>
      exact ⟨fun h => ⟨⟨rfl, nofun⟩, (Except.ok.inj h).symm⟩, fun h => by rw [h.2]; rfl⟩

/-- Everything that deploying and restarting a service executes. -/
def AppService.allCommands (service : AppService) (config : Config) : List RemoteCommand :=
  service.commands config ++ [restartCommand service.name]

/-- The image that a service runs, if it runs one. -/
def AppService.runImage (service : AppService) : Option String :=
  match service.deployKind with
  | .dockerImage => some service.pulledImage
  | .dockerCompose => none
  | .dockerfile => some (builtImageName service.name)

/-- The image that a service builds, if it builds one. -/
def AppService.builtImage (service : AppService) : Option String :=
  match service.deployKind with
  | .dockerfile => some (builtImageName service.name)
  | .dockerImage | .dockerCompose => none

/-- What the commands name: the service's container, its directory, and the image that it runs. -/
theorem flatMap_touched : (service.allCommands config).flatMap RemoteCommand.touched =
    (service.commands config).flatMap RemoteCommand.touched ++
      [.container (containerName service.name)] := by
  unfold AppService.allCommands
  rw [List.flatMap_append, List.flatMap_singleton, touched_restart]

theorem container_touched {name : String} :
    .container name ∈ (service.allCommands config).flatMap RemoteCommand.touched ↔
      name = containerName service.name := by
  rw [flatMap_touched]
  unfold AppService.commands
  cases service.deployKind <;> simp [touched_image, touched_compose, touched_dockerfile]

theorem image_touched {image : String} :
    .image image ∈ (service.allCommands config).flatMap RemoteCommand.touched ↔
      service.runImage = some image := by
  rw [flatMap_touched]
  unfold AppService.commands AppService.runImage
  cases service.deployKind <;> simp [touched_image, touched_compose, touched_dockerfile, eq_comm]

theorem directory_touched (h : service.Sound) {path : String}
    (hpath : .directory path ∈ (service.allCommands config).flatMap RemoteCommand.touched) :
    Within config.remoteServicesRoot service.name path := by
  obtain ⟨hname, hslash⟩ := validateServiceName_ok h.1
  rw [flatMap_touched] at hpath
  revert hpath
  unfold AppService.commands
  cases service.deployKind with
  | dockerImage => simp [touched_image]
  | dockerCompose =>
    intro hpath
    have hpath : path = serviceDir config.remoteServicesRoot service.name := by
      simpa [touched_compose] using hpath
    rw [hpath]
    exact within_serviceDir hname hslash
  | dockerfile =>
    intro hpath
    have hpath : path = pathJoin (serviceDir config.remoteServicesRoot service.name)
      config.dockerfileContextDir := by simpa [touched_dockerfile] using hpath
    rw [hpath]
    exact within_contextDir hname hslash _

theorem image_built {image : String} :
    .image image ∈ (service.allCommands config).flatMap RemoteCommand.built ↔
      service.builtImage = some image := by
  unfold AppService.allCommands
  rw [List.flatMap_append, List.flatMap_singleton, built_restart, List.append_nil]
  unfold AppService.commands AppService.builtImage
  cases service.deployKind <;> simp [built_image, built_compose, built_dockerfile, eq_comm]

/-- A service runs what it builds. -/
theorem runImage_of_built {image : String} (h : service.builtImage = some image) :
    service.runImage = some image := by
  revert h
  unfold AppService.builtImage AppService.runImage
  cases service.deployKind with
  | dockerImage | dockerCompose => nofun
  | dockerfile => exact id

/-- The two services have different names, and neither runs the image that the other builds. -/
def Unlike (a b : AppService) : Prop :=
  a.name ≠ b.name ∧ (a.builtImage = none ∨ a.builtImage ≠ b.runImage) ∧
    (b.builtImage = none ∨ b.builtImage ≠ a.runImage)

instance : Decidable (Unlike a b) := inferInstanceAs (Decidable (_ ∧ _ ∧ _))

theorem Unlike.symm (h : Unlike a b) : Unlike b a := ⟨h.1.symm, h.2.2, h.2.1⟩

/-- **When two services keep apart**, under every configuration. -/
theorem apart_iff (ha : a.Sound) (hb : b.Sound) :
    Apart (a.allCommands config) (b.allCommands config) ↔ Unlike a b := by
  constructor
  · intro h
    refine ⟨fun hname => ?_, ?_, ?_⟩
    · obtain ⟨⟨image, himage⟩, -⟩ := h (.container (containerName a.name))
        (container_touched.mpr rfl) (container_touched.mpr (congrArg containerName hname))
      cases himage
    · cases hbuilt : a.builtImage with
      | none => exact .inl rfl
      | some image =>
        refine .inr fun hrun => ?_
        have hown := runImage_of_built hbuilt
        exact (h _ (image_touched.mpr hown) (image_touched.mpr hrun.symm)).2.1
          (image_built.mpr hbuilt)
    · cases hbuilt : b.builtImage with
      | none => exact .inl rfl
      | some image =>
        refine .inr fun hrun => ?_
        have hown := runImage_of_built hbuilt
        exact (h _ (image_touched.mpr hrun.symm) (image_touched.mpr hown)).2.2
          (image_built.mpr hbuilt)
  · rintro ⟨hname, hab, hba⟩ r hra hrb
    cases r with
    | container name =>
      have hsame := (container_touched.mp hra).symm.trans (container_touched.mp hrb)
      exact absurd (containerName_injective hsame) hname
    | directory path =>
      obtain ⟨-, hslash⟩ := validateServiceName_ok ha.1
      obtain ⟨-, hslash'⟩ := validateServiceName_ok hb.1
      exact absurd ((directory_touched ha hra).eq hslash hslash' (directory_touched hb hrb)) hname
    | image image =>
      have hra := image_touched.mp hra
      have hrb := image_touched.mp hrb
      refine ⟨⟨image, rfl⟩, fun hbuilt => ?_, fun hbuilt => ?_⟩
      · have hbuilt := image_built.mp hbuilt
        rcases hab with hnone | hab
        · cases hnone.symm.trans hbuilt
        · exact hab (hbuilt.trans hrb.symm)
      · have hbuilt := image_built.mp hbuilt
        rcases hba with hnone | hba
        · cases hnone.symm.trans hbuilt
        · exact hba (hbuilt.trans hra.symm)

end planned

/-! ## Services side by side -/

section runs

variable {x : Ext} {config : Config} {db db' : Db}

/-- The commands of any two services that can be deployed keep apart. -/
def KeepApart (x : Ext) (config : Config) (db : Db) : Prop :=
  ∀ r ∈ (db.rows .appServices : List AppServiceRecord),
    ∀ r' ∈ (db.rows .appServices : List AppServiceRecord), r.id ≠ r'.id →
    ∀ commands commands', plannedCommands x (AppService.from r) config = .ok commands →
      plannedCommands x (AppService.from r') config = .ok commands' →
      Apart (commands ++ [restartCommand r.name]) (commands' ++ [restartCommand r'.name])

/-- Two records are of one service, or one of them cannot be deployed, or they are unlike. -/
def AppServiceRecord.Clear (r r' : AppServiceRecord) : Prop :=
  r.id = r'.id ∨ ¬ (AppService.from r).Sound ∨ ¬ (AppService.from r').Sound ∨
    Unlike (AppService.from r) (AppService.from r')

instance (r r' : AppServiceRecord) : Decidable (r.Clear r') :=
  inferInstanceAs (Decidable (_ ∨ _ ∨ _ ∨ _))

theorem AppServiceRecord.Clear.symm {r r' : AppServiceRecord} (h : r.Clear r') : r'.Clear r := by
  rcases h with h | h | h | h
  · exact .inl h.symm
  · exact .inr (.inr (.inl h))
  · exact .inr (.inl h)
  · exact .inr (.inr (.inr h.symm))

theorem keepApart_iff : KeepApart x config db ↔
    ∀ r ∈ (db.rows .appServices : List AppServiceRecord),
      ∀ r' ∈ (db.rows .appServices : List AppServiceRecord), r.Clear r' := by
  constructor
  · intro h r hr r' hr'
    by_cases hid : r.id = r'.id
    · exact .inl hid
    by_cases hsound : (AppService.from r).Sound
    · by_cases hsound' : (AppService.from r').Sound
      · have hapart := h r hr r' hr' hid _ _ (plannedCommands_ok.mpr ⟨hsound, rfl⟩)
          (plannedCommands_ok.mpr ⟨hsound', rfl⟩)
        exact .inr (.inr (.inr ((apart_iff hsound hsound').mp hapart)))
      · exact .inr (.inr (.inl hsound'))
    · exact .inr (.inl hsound)
  · intro h r hr r' hr' hid commands commands' hplan hplan'
    obtain ⟨hsound, rfl⟩ := plannedCommands_ok.mp hplan
    obtain ⟨hsound', rfl⟩ := plannedCommands_ok.mp hplan'
    rcases h r hr r' hr' with h | h | h | h
    · exact absurd h hid
    · exact absurd hsound h
    · exact absurd hsound' h
    · exact (apart_iff hsound hsound').mpr h

/-- The services that the writes insert. -/
def newServices (ws : List Write) : List AppServiceRecord :=
  ws.filterMap fun
    | .insert .appServices r => some r
    | _ => none

theorem mem_newServices {ws : List Write} {r : AppServiceRecord}
    (h : .insert .appServices r ∈ ws) : r ∈ newServices ws :=
  List.mem_filterMap.mpr ⟨_, h, rfl⟩

/-- A service that the operation stores is clear of those that are there and of the others that it
stores. -/
def StoresClear (e : Event Res World) : Prop :=
  ∀ r ∈ newServices e.op.writes,
    ∀ r' ∈ (e.pre.db.rows .appServices : List AppServiceRecord) ++ newServices e.op.writes, r.Clear r'

instance (e : Event Res World) : Decidable (StoresClear e) :=
  inferInstanceAs (Decidable (∀ r ∈ _, ∀ r' ∈ _, _))

/-- A service that is there after an operation was there before, or the operation has stored it. -/
theorem services_origin {o : Op} (ho : o.Tidy) {i : Nat} {a : Ans} {res : Res o} {s s' : World}
    (h : exec i o a s = some (res, s')) {r : AppServiceRecord}
    (hr : r ∈ (s'.db.rows .appServices : List AppServiceRecord)) :
    r ∈ (s.db.rows .appServices : List AppServiceRecord) ∨ r ∈ newServices o.writes :=
  (exec_origin ho h rfl hr).imp_right fun hstored => mem_newServices hstored.2

/-- **One step.** -/
theorem keepApart_step {o : Op} (ho : o.Tidy) {i : Nat} {a : Ans} {res : Res o} {s s' : World}
    (h : exec i o a s = some (res, s')) (hnew : StoresClear ⟨i, o, res, s, s'⟩)
    (hs : KeepApart x config s.db) : KeepApart x config s'.db := by
  rw [keepApart_iff] at hs ⊢
  intro r hr r' hr'
  rcases services_origin ho h hr with hold | hadd
  · rcases services_origin ho h hr' with hold' | hadd'
    · exact hs r hold r' hold'
    · exact (hnew r' hadd' r (List.mem_append_left _ hold)).symm
  · refine hnew r hadd r' ?_
    rcases services_origin ho h hr' with hold' | hadd'
    · exact List.mem_append_left _ hold'
    · exact List.mem_append_right _ hadd'

/-- **Deployments keep apart** in every state of a run whose new services are clear of the stored
ones. -/
theorem keepApart_reachable {tasks : List (Config × Task)} {w : World} {P' : JobPool}
    {es : List (Event Res World)} (h0 : ∀ config, KeepApart x config w.db)
    (hr : Runs exec (TaskPool.of x tasks w) es P') (hnew : ∀ e ∈ es, StoresClear e) :
    (∀ config, KeepApart x config P'.state.db) ∧
      ∀ e ∈ es, ∀ config, KeepApart x config e.pre.db ∧ KeepApart x config e.post.db := by
  have hstep : ∀ e ∈ es, (∀ config, KeepApart x config e.pre.db) →
      ∀ config, KeepApart x config e.post.db := by
    intro e he hpre config
    obtain ⟨a, ha⟩ := hr.handled e he
    exact keepApart_step (tidy_of_runs hr e he) ha (hnew e he) (hpre config)
  obtain ⟨hevents, hend⟩ := hr.keeps (I := fun s => ∀ config, KeepApart x config s.db) h0 hstep
  exact ⟨hend, fun e he config => ⟨(hevents e he).1 config, (hevents e he).2 config⟩⟩

end runs

/-! ## Services that are created -/

section created

variable {x : Ext} {config : Config} {user : User} {i : Nat} {s : World}

/-- The service is what `get_service` reads. -/
def Stored (s : World) (service : AppService) : Prop :=
  (layout.select s.db .appServices (byId service.id)).head?.map AppService.from = some service

/-- What a created service and its request promise: its commands can be planned under every
configuration, those of a `docker_image` service pull and run an image of the request, and wherever
it is stored a restart does not reject it. -/
structure Deployable (x : Ext) (payload : CreateServiceRequest) (service : AppService) : Prop where
  planned : ∀ config, ∃ commands, plannedCommands x service config = .ok commands ∧
    (payload.deployKind = .dockerImage → ∃ image, payload.image = some image ∧
      (∃ c ∈ commands, c.Pulls image) ∧ ∃ c ∈ commands, c.RunsImage image)
  restarts : ∀ executor i s, Stored s service →
    Yields i (restartService x executor service.id)
      (fun _ r _ => ∀ message, r ≠ .error (.api (.badRequest message))) s

theorem yields_createService (input : CreateAppServiceInput) :
    Yields i (createService input) (fun _ r s' => ∀ service, r = .ok service →
      Stored s' service ∧ service.name = input.name ∧ service.deployKind = input.deployKind ∧
        service.image = input.image) s := by
  unfold createService WorkspaceService.getWorkspace ensureEnvironment
    WorkspaceService.listEnvironments
  simp only [bind_assoc]
  refine yields_first (fun _ _ h => by cases h) ?_
  refine yields_okOr (fun _ _ h => by cases h) fun w _ => ?_
  refine yields_query (fun _ _ h => by cases h) ?_
  refine yields_throwIf (fun _ _ h => by cases h) fun _ => yields_nowV7 fun u hu => ?_
  refine yields_create (fun _ _ h => by cases h) (fun _ _ h => by cases h) fun db hdb => ?_
  refine yields_pure fun service hservice => ?_
  cases hservice
  refine ⟨?_, rfl, DeployKind.from_asStr _, rfl⟩
  have hmem : (⟨u, input.workspaceId, input.environmentId, input.name, input.deployKind.asStr,
      input.image, input.composeFile, input.dockerfile, input.internalPort⟩ : AppServiceRecord) ∈
      db.rows .appServices := by
    rw [Layout.apply_insert hdb]
    exact List.mem_append_right _ (List.mem_singleton_self _)
  exact congrArg (Option.map AppService.from)
    (Layout.head?_select (t := Table.appServices) (c := 0) (by decide) hmem rfl)

theorem yields_runAndRecord (executor : DeployExecutor) (serviceId : Uuid)
    (commands : List RemoteCommand) :
    Yields i (runAndRecord x executor serviceId commands)
      (fun _ r _ => ∀ message, r ≠ .error (.api (.badRequest message))) s := by
  unfold runAndRecord createDeployment Deployment.from
  refine yields_orThrow (fun e he message hr => ?_) fun run _ => ?_
  · cases hr
    cases hrun : executor commands with
    | ok run => rw [hrun] at he; cases he
    | error error => rw [hrun] at he; cases he
  · refine yields_nowV7 fun id _ => yields_nowV7 fun workflow _ => yields_now fun createdAt => ?_
    refine yields_create (fun _ _ => nofun) (fun _ _ => nofun) fun db _ => ?_
    cases x.dateTimeFromStr (x.toRfc3339 createdAt) with
    | some time => exact yields_bind (yields_pure (yields_pure fun _ => nofun))
    | none => exact yields_now fun _ => yields_pure fun _ => nofun

/-- A restart rejects nothing but the name. -/
theorem yields_restartService {service : AppService} (h : Stored s service)
    (hname : validateServiceName service.name = .ok ()) (executor : DeployExecutor) :
    Yields i (restartService x executor service.id)
      (fun _ r _ => ∀ message, r ≠ .error (.api (.badRequest message))) s := by
  unfold restartService getService
  rw [bind_assoc]
  refine yields_first (fun _ _ => nofun) (yields_okOr (fun _ _ => nofun) fun found hfound => ?_)
  obtain rfl : service = found := Option.some.inj (h.symm.trans hfound)
  refine yields_orThrow (fun e he => ?_) fun _ _ => ?_
  · rw [hname] at he
    cases he
  · exact Yields.mono (yields_runAndRecord executor service.id _) fun _ _ _ hr => hr

/-- A service and the request it was created for. -/
theorem deployable_iff (config : Config) {payload : CreateServiceRequest} {service : AppService}
    (hname : service.name = payload.name) (hkind : service.deployKind = payload.deployKind)
    (himage : service.image = payload.image) : Deployable x payload service ↔
      validateServiceName payload.name = .ok () ∧ (payload.deployKind = .dockerImage →
        ∃ image, payload.image = some image ∧ validateImageReference image = .ok ()) := by
  constructor
  · intro h
    obtain ⟨commands, hplan, hpull⟩ := h.planned config
    obtain ⟨⟨hvalid, href⟩, -⟩ := plannedCommands_ok.mp hplan
    refine ⟨hname ▸ hvalid, fun hdocker => ?_⟩
    obtain ⟨image, hsome, -⟩ := hpull hdocker
    have href := href (hkind.trans hdocker)
    unfold AppService.pulledImage at href
    rw [himage, hsome] at href
    exact ⟨image, hsome, href⟩
  · rintro ⟨hvalid, href⟩
    have hvalid : validateServiceName service.name = .ok () := hname ▸ hvalid
    refine ⟨fun config => ⟨service.commands config, plannedCommands_ok.mpr ⟨⟨hvalid, ?_⟩, rfl⟩, ?_⟩,
      fun executor i s hs => yields_restartService hs hvalid executor⟩
    · intro hdocker
      obtain ⟨image, hsome, href⟩ := href (hkind.symm.trans hdocker)
      unfold AppService.pulledImage
      rw [himage, hsome]
      exact href
    · intro hdocker
      obtain ⟨image, hsome, -⟩ := href hdocker
      refine ⟨image, hsome, ?_⟩
      unfold AppService.commands AppService.pulledImage
      rw [hkind.trans hdocker, himage, hsome]
      exact ⟨⟨_, List.mem_cons_self, rfl⟩, _, List.mem_of_getElem? (i := 2) rfl, _, rfl⟩

/-- **When a created service can be deployed.** -/
theorem createService_deployable_iff {payload : CreateServiceRequest} {workspaceId : Uuid}
    {xs : List Ans} {service : AppService} {s' : World}
    (h : Prog.run exec i ((UserRoute.createService workspaceId payload).handle x config user) xs s =
      some (.ok (.service service), s')) :
    Stored s' service ∧ (Deployable x payload service ↔
      validateServiceName payload.name = .ok () ∧ (payload.deployKind = .dockerImage →
        ∃ image, payload.image = some image ∧ validateImageReference image = .ok ())) := by
  have hyields : Yields i ((UserRoute.createService workspaceId payload).handle x config user)
      (fun _ r s' => ∀ service, r = .ok (.service service) → Stored s' service ∧
        service.name = payload.name ∧ service.deployKind = payload.deployKind ∧
        service.image = payload.image) s := by
    simp only [UserRoute.handle, validated, ensureWorkspaceAccess]
    split
    · split
      · refine yields_bind (yields_pure (yields_bind ?_))
        refine Yields.mono (yields_createService _) fun xs r s₁ hr => ?_
        cases r with
        | error e => exact fun _ => nofun
        | ok created =>
          refine yields_pure fun service hservice => ?_
          exact hr service (congrArg Except.ok (ApiReply.service.inj (Except.ok.inj hservice)))
      · exact yields_bind (yields_throwApi fun _ => nofun)
    · exact yields_pure fun _ => nofun
  obtain ⟨hstored, hname, hkind, himage⟩ := hyields xs _ s' h service rfl
  exact ⟨hstored, deployable_iff config hname hkind himage⟩

end created

namespace Symbolic

/-- A workspace with its production environment. -/
def opened : World := .start {
  rows := fun
    | .workspaces => [⟨9, "Shop", none⟩]
    | .environments => [⟨2, 9, "production"⟩]
    | _ => []
  unique := fun t => by cases t <;> decide }

def admin : User := ⟨1, "admin@wara.local", "Wara Admin", .superAdmin, .active, []⟩

def nginxNamed (name : String) : CreateServiceRequest :=
  ⟨2, name, .dockerImage, some "nginx:latest", none, none, none⟩

/-- The request, the service that is stored for it, and the answers of the run. -/
def nginxService (name : String) : AppService :=
  ⟨3, 9, 2, name, .dockerImage, some "nginx:latest", none, none, none⟩

def createAnswers : List Ans := [.done, .done, .uuid 3, .done]

theorem create_nginx : ∀ name ∈ ["My Shop", "web"], (Prog.run exec 0
    ((UserRoute.createService 9 (nginxNamed name)).handle ext (config "A") admin) createAnswers
      opened).map Prod.fst = some (.ok (.service (nginxService name))) := by decide +kernel

theorem createService_undeployable : ¬ ∀ (x : Ext) (config : Config) (user : User)
    (workspaceId : Uuid) (payload : CreateServiceRequest) (service : AppService) (i : Nat)
    (xs : List Ans) (s s' : World), payload.valid = true →
    Prog.run exec i ((UserRoute.createService workspaceId payload).handle x config user) xs s =
      some (.ok (.service service), s') → Deployable x payload service := by
  intro hclaim
  obtain ⟨⟨r, s'⟩, hrun, hr⟩ := Option.map_eq_some_iff.mp (create_nginx "My Shop" (by decide))
  rw [show r = .ok (.service (nginxService "My Shop")) from hr] at hrun
  have hdeploy := hclaim ext (config "A") admin 9 (nginxNamed "My Shop") _ 0 _ opened s'
    (by decide) hrun
  have hvalid := ((deployable_iff (config "A") rfl rfl rfl).mp hdeploy).1
  exact absurd hvalid (by decide)

theorem createService_deployable_web : ∃ s', Prog.run exec 0
    ((UserRoute.createService 9 (nginxNamed "web")).handle ext (config "A") admin) createAnswers
      opened = some (.ok (.service (nginxService "web")), s') ∧
    Deployable ext (nginxNamed "web") (nginxService "web") := by
  obtain ⟨⟨r, s'⟩, hrun, hr⟩ := Option.map_eq_some_iff.mp (create_nginx "web" (by decide))
  rw [show r = .ok (.service (nginxService "web")) from hr] at hrun
  exact ⟨s', hrun, (createService_deployable_iff hrun).2.mpr
    ⟨by decide, fun _ => ⟨"nginx:latest", rfl, by decide⟩⟩⟩

/-- Two workspaces, and a service in each. -/
def twoShopsWith (first second : String) : JobPool := TaskPool.of ext
  [(config "A", .create (.createWorkspace "North" none)),
    (config "A", .create (.createWorkspace "South" none)),
    (config "A", .create (.createService
      ⟨1, 2, first, .dockerImage, some "nginx:latest", none, none, none⟩)),
    (config "A", .create (.createService
      ⟨3, 4, second, .dockerCompose, none, some "compose.yaml", none, none⟩))]
  (.start (Db.empty layout))

def twoShopsSchedule : List (Nat × Ans) :=
  [(0, .done), (0, .uuid 1), (0, .done), (0, .uuid 2), (0, .done), (0, .done),
    (1, .done), (1, .uuid 3), (1, .done), (1, .uuid 4), (1, .done), (1, .done),
    (2, .done), (2, .done), (2, .uuid 5), (2, .done),
    (3, .done), (3, .done), (3, .uuid 6), (3, .done)]

theorem twoShops_services : ∀ second ∈ ["web", "api"],
    ((twoShopsWith "web" second).run exec twoShopsSchedule).map (fun P' : JobPool =>
      (P'.state.db.rows .appServices : List AppServiceRecord)) = some
        [⟨5, 1, 2, "web", "docker_image", some "nginx:latest", none, none, none⟩,
          ⟨6, 3, 4, second, "docker_compose", none, some "compose.yaml", none, none⟩] := by
  decide +kernel

theorem deployments_collide : ¬ ∀ (x : Ext) (tasks : List (Config × Task)) (P' : JobPool)
    (es : List (Event Res World)),
    Runs exec (TaskPool.of x tasks (.start (Db.empty layout))) es P' →
    ∀ config, KeepApart x config P'.state.db := by
  intro hclaim
  obtain ⟨P', hrun, hrows⟩ := Option.map_eq_some_iff.mp (twoShops_services "web" (by decide))
  have happly := keepApart_iff.mp (hclaim ext _ P' _ (Pool.run_runs hrun) (config "A"))
  rw [hrows] at happly
  exact absurd (happly _ List.mem_cons_self _ (List.mem_cons_of_mem _ List.mem_cons_self))
    (by decide)

theorem keepApart_two : ∃ P' : JobPool,
    (P'.state.db.rows .appServices : List AppServiceRecord).map (·.name) = ["web", "api"] ∧
    ∀ config, KeepApart ext config P'.state.db := by
  obtain ⟨P', hrun, hrows⟩ := Option.map_eq_some_iff.mp (twoShops_services "api" (by decide))
  have hclear : ∀ e ∈ (twoShopsWith "web" "api").trace exec twoShopsSchedule, StoresClear e := by
    decide +kernel
  refine ⟨P', ?_, (keepApart_reachable (fun _ => keepApart_iff.mpr fun r hr =>
    (List.not_mem_nil hr).elim) (Pool.run_runs hrun) hclear).1⟩
  rw [hrows]
  rfl

end Symbolic

end Wara
