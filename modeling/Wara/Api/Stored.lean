import Wara.Api.Jobs
import Wara.Api.Writes
import Wara.Crypto
import Wara.Platform.Checks
import Wara.Store.Rows

/-!
# What is stored can be read back

Kinds, statuses and roles are stored as texts, secrets in encrypted form, and
the parsers of the texts have a branch for anything else. `RowSound` says that a
row needs none of these: its texts are those of the values they are read as, its
secrets decrypt, the outcome of its last check is all of one check. The create
operations store such rows only, and what the updates set makes no other.
-/

namespace Wara

open Interleave Store Service Docker AuthService WorkspaceService AppServiceService DomainService
  DeploymentService WorkspaceTemplateService CredentialService ServerService

/-! ## Rows -/

/-- Docker status, Docker version, time and error of the last check: no check yet, a version and no
error, or no version. -/
inductive CheckRecorded : String → String → String → String → Prop
  | unchecked : CheckRecorded "unchecked" "" "" ""
  | available {version checkedAt : String} : version ≠ "" → checkedAt ≠ "" →
    CheckRecorded "available" version checkedAt ""
  | unavailable {checkedAt error : String} : checkedAt ≠ "" →
    CheckRecorded "unavailable" "" checkedAt error

structure ServerSound (x : Ext) (secretKey : String) (r : ServerRecord) : Prop where
  publicKey : Rust.startsWith (Rust.trimStart r.publicKey) "ssh-" = true
  fingerprint : r.privateKeyFingerprint = fingerprintPublicKey x r.publicKey
  privateKey : ∃ privateKey, decryptSecret x secretKey r.encryptedPrivateKey = .ok privateKey ∧
    Rust.contains privateKey "PRIVATE KEY" = true
  passphrase : ∀ ciphertext, r.encryptedPrivateKeyPassphrase = some ciphertext →
    ∃ passphrase, decryptSecret x secretKey ciphertext = .ok passphrase
  proxy : (ProxyKind.from r.defaultProxy).asStr = r.defaultProxy
  checked : CheckRecorded r.dockerStatus r.dockerVersion r.lastCheckAt r.lastCheckError

structure UserSound (r : UserRecord) : Prop where
  role : (Role.from r.role).asStr = r.role
  status : (UserStatus.from r.status).asStr = r.status

structure KeySound (r : JwtPublicKeyRecord) : Prop where
  keyType : r.keyType = "RSA"
  keyUse : r.keyUse = "sig"
  algorithm : r.algorithm = "RS256"

/-- A token is stored as its hash, next to its first characters. -/
structure TokenSound (x : Ext) (r : UserApiTokenRecord) : Prop where
  token : ∃ token, r.tokenHash = hashApiToken x token ∧ r.tokenPrefix = tokenPrefix token

def RowSound (x : Ext) (secretKey : String) : (t : Table) → Row t → Prop
  | .servers, r => ServerSound x secretKey r
  | .appServices, r => (DeployKind.from r.deployKind).asStr = r.deployKind
  | .dockerCredentials, r => ∃ password, decryptSecret x secretKey r.encryptedPassword = .ok password
  | .envVars, r => ∃ value, decryptSecret x secretKey r.encryptedValue = .ok value
  | .domains, r => (ProxyKind.from r.proxy).asStr = r.proxy
  | .deployments, r => (DeploymentStatus.from r.status).asStr = r.status
  | .users, r => UserSound r
  | .userInvites, r => ∃ token, r.tokenHash = hashInviteToken x token
  | .userApiTokens, r => TokenSound x r
  | .workspaceUserRoles, r => (Role.from r.role).asStr = r.role ∧ Role.from r.role ≠ .superAdmin
  | .jwtPublicKeys, r => KeySound r
  | .workspaces, _ | .environments, _ | .workspaceTemplates, _ | .userRefreshTokens, _ => True

theorem DeploymentStatus.from_asStr (status : DeploymentStatus) :
    DeploymentStatus.from status.asStr = status := by
  cases status <;> decide

/-- What the operation writes leaves sound rows sound. -/
def Op.Sound (x : Ext) (secretKey : String) (o : Op) : Prop :=
  ∀ w ∈ o.writes, layout.Preserves (RowSound x secretKey) w

/-- A structure, so that the call is not unfolded where this is used. -/
structure WritesSound (x : Ext) (secretKey : String) (α : Type) (y : Service α) : Prop where
  all : Flow.All (Op.Sound x secretKey) y fun _ => True

section sound

variable {x : Ext} {secretKey : String} {config : Config} {t : Table} {α : Type} {y : Service α}

theorem Op.sound_of_reads {o : Op} (h : o.writes = []) : o.Sound x secretKey := by
  intro w hw
  rw [h] at hw
  cases hw

instance : AboutWrites (Op.Sound x secretKey) := ⟨fun _ => Op.sound_of_reads⟩

@[simp] theorem sound_write {w : Write} :
    Op.Sound x secretKey (.write w) ↔ layout.Preserves (RowSound x secretKey) w := by
  unfold Op.Sound
  exact List.forall_mem_singleton

@[simp] theorem sound_commit {ws : List Write} :
    Op.Sound x secretKey (.commit ws) ↔ ∀ w ∈ ws, layout.Preserves (RowSound x secretKey) w :=
  Iff.rfl

theorem composes_sound : Composes (WritesSound x secretKey) where
  reads h := ⟨Flow.All.mono h (fun _ ho => Op.sound_of_reads ho) fun _ h => h⟩
  bind h hf := ⟨Flow.all_bind.mpr (Flow.All.mono h.all (fun _ h => h) fun a _ => (hf a).all)⟩

/-- **One step.** -/
theorem every_exec {s s' : World} {o : Op} {i : Nat} {a : Ans} {r : Res o}
    (h : Layout.Every (RowSound x secretKey) s.db) (ho : o.Sound x secretKey)
    (ha : exec i o a s = some (r, s')) : Layout.Every (RowSound x secretKey) s'.db := by
  rcases exec_db ha with hdb | ⟨-, hdb⟩
  · rw [hdb]
    exact h
  · exact h.applyAll ho hdb

/-- Operations on tables whose rows are sound anyhow. -/
theorem sound_into {ts : List Table} (h : WritesInto ts α y)
    (hts : ∀ t ∈ ts, ∀ r : Row t, RowSound x secretKey t r) : WritesSound x secretKey α y := by
  refine ⟨Flow.All.mono h.all (fun o ho w hw => ?_) fun _ h => h⟩
  have ht := ho w hw
  cases w with
  | insert t r => exact hts t ht r
  | update t f sets => exact fun r _ _ => hts t ht _

/-! ## The platform -/

theorem sound_createServer (hx : x.Canonical) (payload : CreateServerInput) :
    WritesSound x secretKey _ (createServer x secretKey payload) := by
  constructor
  unfold createServer validateSshKeyPair
  simp only [Flow.all_bind, all_throwIf, not_not]
  intro hpublic hprivate
  have hrow : ∀ id, ServerSound x secretKey ⟨id, payload.name, payload.host, payload.port.getD 22,
      payload.username, payload.publicKey, fingerprintPublicKey x payload.publicKey,
      encryptSecret x secretKey payload.privateKey,
      payload.privateKeyPassphrase.map (encryptSecret x secretKey),
      (payload.defaultProxy.getD .nginx).asStr, "unchecked", "", "", ""⟩ := by
    intro id
    refine ⟨hpublic, rfl, ⟨_, decryptSecret_encryptSecret hx, hprivate⟩, fun ciphertext h => ?_, ?_,
      .unchecked⟩
    · obtain ⟨passphrase, -, rfl⟩ := Option.map_eq_some_iff.mp h
      exact ⟨passphrase, decryptSecret_encryptSecret hx⟩
    · exact congrArg ProxyKind.asStr (ProxyKind.from_asStr _)
  simp only [all_nowV7_of_writes, all_create, Executor.op, sound_write]
  exact fun id => ⟨hrow id, Flow.all_pure.mpr trivial⟩

/-- A version of the Docker that answered, and no error; or no version. -/
theorem checkRecorded_of_outcome (target : SshTarget) {checkedAt : String} (h : checkedAt ≠ "") :
    CheckRecorded (checkOutcome target).1 (checkOutcome target).2.1 checkedAt
      (checkOutcome target).2.2 := by
  unfold checkOutcome
  split
  · split
    · next version hversion =>
      have hne := ne_empty_of_probeLines
        (List.mem_of_getElem? (parseServerCheckOutput_ok_iff.mp hversion).2)
      refine .available (fun hempty => ?_) h
      obtain rfl : version = "" := hempty
      cases hne
    · exact .unavailable h
  · exact .unavailable h

theorem sound_checkServer (hx : x.Lawful) (id : Uuid) :
    WritesSound x secretKey _ (checkServer x secretKey id) := by
  have hupdate : ∀ target time, Op.Sound x secretKey (.write (.update .servers (byId id)
      [(10, .text (checkOutcome target).1), (11, .text (checkOutcome target).2.1),
        (12, .text (x.toRfc3339 time)), (13, .text (checkOutcome target).2.2)])) := by
    intro target time
    refine sound_write.mpr fun r _ h => ?_
    exact ⟨h.publicKey, h.fingerprint, h.privateKey, h.passphrase, h.proxy,
      checkRecorded_of_outcome target (hx.rfc3339_nonempty time)⟩
  constructor
  simp [checkServer, getServer, updateCheckMetadata, hupdate]

theorem sound_checkAllServers (hx : x.Lawful) :
    WritesSound x secretKey _ (checkAllServers x secretKey) := by
  unfold checkAllServers
  refine composes_sound.after (by simp [Reads, listServers, Op.writes]) fun servers => ?_
  refine composes_sound.bind ⟨Flow.All.mono (all_mapM (P := fun _ _ => True) fun server _ => ?_)
    (fun _ h => h) fun _ _ => trivial⟩ fun _ => composes_sound.pure _
  rw [Flow.all_bind, all_attempt fun _ => Flow.all_pure.mpr trivial]
  exact Flow.All.mono (sound_checkServer hx server.id).all (fun _ h => h)
    fun _ _ => Flow.all_pure.mpr trivial

theorem sound_createService (input : CreateAppServiceInput) :
    WritesSound x secretKey _ (AppServiceService.createService input) := by
  unfold AppServiceService.createService
  refine composes_sound.after (by simp [Reads, getWorkspace, Op.writes]) fun _ =>
    composes_sound.after (reads_ensureEnvironment _ _) fun _ => ⟨?_⟩
  simp [Executor.op, Layout.Preserves, RowSound]

theorem sound_createCredential (hx : x.Canonical) (input : CreateCredentialInput) :
    WritesSound x secretKey _ (createCredential x secretKey input) := by
  have hpassword := decryptSecret_encryptSecret hx (k := secretKey) (p := input.password)
  unfold createCredential
  refine composes_sound.after (by simp [Reads, getWorkspace, Op.writes]) fun _ => ⟨?_⟩
  simp [Executor.op, Layout.Preserves, RowSound, hpassword]

theorem envVar_sound (hx : x.Canonical) (id : Uuid) (input : CreateEnvVarInput) :
    RowSound x secretKey .envVars ⟨id, input.workspaceId, input.environmentId, input.serviceId,
      input.key, encryptSecret x secretKey input.value⟩ :=
  ⟨input.value, decryptSecret_encryptSecret hx⟩

theorem sound_createEnvVar (hx : x.Canonical) (input : CreateEnvVarInput) :
    WritesSound x secretKey _ (createEnvVar x secretKey input) := by
  unfold createEnvVar
  refine composes_sound.after (reads_validateEnvVarScope input) fun _ => ⟨?_⟩
  have hrow (id : Uuid) : RowSound x secretKey .envVars _ := envVar_sound hx id input
  simp [createEnvVarRecord, Executor.op, Layout.Preserves, hrow]

/-- All rows of the bulk are. -/
theorem sound_createEnvVars (hx : x.Canonical) (inputs : List CreateEnvVarInput) :
    WritesSound x secretKey _ (createEnvVars x secretKey inputs) := by
  have hcreated : Flow.All (Op.Sound x secretKey)
      (inputs.mapM (createEnvVarRecord x secretKey .transaction))
      (List.Forall₂ (fun _ record => RowSound x secretKey .envVars record) inputs) := by
    refine all_mapM fun input _ => ?_
    simp only [createEnvVarRecord, Flow.all_bind, all_nowV7_of_writes, all_create_of_writes]
    exact fun id => envVar_sound hx id input
  unfold createEnvVars
  have hscopes : Reads (inputs.forM validateEnvVarScope) :=
    all_forM fun input _ => reads_validateEnvVarScope input
  refine composes_sound.after hscopes fun _ => ⟨?_⟩
  rw [Flow.all_bind, all_transaction_of_writes]
  refine Flow.all_bind.mpr (Flow.All.mono hcreated (fun _ h => h) ?_)
  intro created hrows
  rw [Flow.all_bind, all_commit]
  refine ⟨sound_commit.mpr fun w hw => ?_, Flow.all_pure.mpr trivial⟩
  obtain ⟨record, hrecord, rfl⟩ := List.mem_map.mp hw
  obtain ⟨_, -, hrow⟩ := exists_of_forall₂ hrows hrecord
  exact hrow

theorem sound_createDomain (input : CreateDomainInput) :
    WritesSound x secretKey _ (DomainService.createDomain input) := by
  unfold DomainService.createDomain
  refine composes_sound.after (reads_getService _) fun _ => ⟨?_⟩
  simp [Executor.op, Layout.Preserves, RowSound]

theorem sound_runAndRecord (executor : DeployExecutor) (serviceId : Uuid)
    (commands : List RemoteCommand) :
    WritesSound x secretKey _ (runAndRecord x executor serviceId commands) := by
  constructor
  have hstatus : ∀ status : DeploymentStatus,
      (DeploymentStatus.from status.asStr).asStr = status.asStr :=
    fun status => congrArg DeploymentStatus.asStr (DeploymentStatus.from_asStr status)
  simp [runAndRecord, createDeployment, Deployment.from, Executor.op, Layout.Preserves, RowSound,
    hstatus]

theorem sound_triggerDeploy (executor : DeployExecutor) (serviceId : Uuid) :
    WritesSound x secretKey _ (triggerDeploy x config executor serviceId) := by
  unfold triggerDeploy
  exact composes_sound.after (reads_getService _) fun service =>
    composes_sound.after (by simp [Reads]) fun commands => sound_runAndRecord executor serviceId _

theorem sound_restartService (executor : DeployExecutor) (serviceId : Uuid) :
    WritesSound x secretKey _ (restartService x executor serviceId) := by
  unfold restartService
  exact composes_sound.after (reads_getService _) fun service =>
    composes_sound.after (by simp [Reads]) fun _ => sound_runAndRecord executor serviceId _

/-! ## Accounts -/

variable {q : AuthRequest}

/-- The statements of the authentication service. -/
theorem sound_of_canIssue {o : Op} (h : q.CanIssue x o) : o.Sound x secretKey := by
  rcases h with h | h
  · exact Op.sound_of_reads h
  · cases h with
    | deactivateKeys => exact sound_write.mpr fun r _ h => ⟨h.keyType, h.keyUse, h.algorithm⟩
    | activateKey => exact sound_write.mpr fun r _ _ => ⟨rfl, rfl, rfl⟩
    | createKey => exact sound_write.mpr ⟨rfl, rfl, rfl⟩
    | createAdmin => exact sound_write.mpr ⟨rfl, rfl⟩
    | invite input hrole _ _ _ _ raw =>
      refine sound_commit.mpr fun w hw => ?_
      rcases List.mem_cons.mp hw with rfl | hw
      · exact ⟨rfl, rfl⟩
      rcases List.mem_cons.mp hw with rfl | hw
      · exact ⟨_, rfl⟩
      · obtain rfl := List.mem_singleton.mp hw
        exact ⟨congrArg Role.asStr (Role.from_asStr _), (Role.from_asStr input.role).symm ▸ hrole⟩
    | login | acceptLogin => exact sound_write.mpr trivial
    | refresh =>
      refine sound_commit.mpr fun w hw => ?_
      rcases List.mem_cons.mp hw with rfl | hw
      · trivial
      · obtain rfl := List.mem_singleton.mp hw
        exact fun _ _ _ => trivial
    | logout => exact sound_write.mpr fun _ _ _ => trivial
    | acceptUser | reactivate =>
      exact sound_write.mpr fun r _ h =>
        ⟨h.role, congrArg UserStatus.asStr (UserStatus.from_asStr .active)⟩
    | disable =>
      exact sound_write.mpr fun r _ h =>
        ⟨h.role, congrArg UserStatus.asStr (UserStatus.from_asStr .disabled)⟩
    | changeRole input =>
      exact sound_write.mpr fun r _ h => ⟨congrArg Role.asStr (Role.from_asStr _), h.status⟩
    | acceptInvite => exact sound_write.mpr fun r _ h => h
    | useApiToken | revokeApiToken => exact sound_write.mpr fun r _ h => ⟨h.token⟩
    | createApiToken input id raw => exact sound_write.mpr ⟨_, rfl, rfl⟩

theorem sound_covers (h : q.Covers x y) : WritesSound x secretKey α y :=
  ⟨Flow.All.mono h (fun _ ho => sound_of_canIssue ho) fun _ h => h⟩

/-! ## All of them -/

theorem creators_sound (hx : x.Canonical) :
    CreatorsSatisfy (WritesSound x config.secretKey) (fun _ _ _ => True) x config where
  createWorkspace name description :=
    sound_into (into_createWorkspace name description) (by simp [RowSound])
  createEnvironment workspaceId name :=
    sound_into (into_createEnvironment workspaceId name) (by simp [RowSound])
  createService := sound_createService
  createDomain := sound_createDomain
  triggerDeploy executor serviceId _ := sound_triggerDeploy executor serviceId
  restartService executor serviceId _ := sound_restartService executor serviceId
  createTemplate input := sound_into (into_createTemplate input) (by simp [RowSound])
  createWorkspacesFromTemplate input :=
    sound_into (into_createWorkspacesFromTemplate input) (by simp [RowSound])
  createCredential := sound_createCredential hx
  createEnvVar := sound_createEnvVar hx
  createEnvVars := sound_createEnvVars hx
  createServer := sound_createServer hx
  login input := sound_covers (covers_login input)
  inviteUser input := sound_covers (covers_inviteUser input)
  acceptInvite input := sound_covers (covers_acceptInvite input)
  refreshSession input := sound_covers (covers_refreshSession input)

theorem updaters_sound (hx : x.Lawful) :
    UpdatersSatisfy (WritesSound x config.secretKey) x config where
  bootstrapAdmin := sound_covers covers_bootstrapAdmin
  createApiToken input := sound_covers (covers_createApiToken input)
  revokeApiToken user id := sound_covers (covers_revokeApiToken user id)
  authenticateBearer token := sound_covers (covers_authenticateBearer token)
  logout input := sound_covers (x := x) (covers_logout input)
  disableUser id := sound_covers (x := x) (covers_disableUser id)
  reactivateUser id := sound_covers (x := x) (covers_reactivateUser id)
  changeUserRole input := sound_covers (x := x) (covers_changeUserRole input)
  checkServer := sound_checkServer hx
  checkAllServers := sound_checkAllServers hx

end sound

/-! ## Runs -/

section runs

variable {x : Ext} {secretKey : String} {tasks : List (Config × Task)} {w : World} {P' : JobPool}
  {es : List (Event Res World)}

theorem sound_of_runs (hx : x.Lawful) (hc : x.Canonical)
    (hkey : ∀ t ∈ tasks, t.1.secretKey = secretKey)
    (h0 : Layout.Every (RowSound x secretKey) w.db)
    (hr : Runs exec (TaskPool.of x tasks w) es P') :
    (∀ e ∈ es, Layout.Every (RowSound x secretKey) e.pre.db) ∧
      Layout.Every (RowSound x secretKey) P'.state.db := by
  have hall := hr.all (φ := fun _ o => o.Sound x secretKey) (Q := fun _ _ => True) ?_
  · have hkeeps := hr.keeps (I := fun s => Layout.Every (RowSound x secretKey) s.db) h0
      fun e he h => by
        obtain ⟨a, ha⟩ := hr.handled e he
        exact every_exec h (hall.1 e he) ha
    exact ⟨fun e he => (hkeeps.1 e he).1, hkeeps.2⟩
  · intro i p hp
    obtain ⟨⟨config, task⟩, ht, rfl⟩ := TaskPool.task_of hp
    obtain rfl : config.secretKey = secretKey := hkey _ (List.mem_of_getElem? ht)
    have hsound : WritesSound x config.secretKey _ (task.serve x config) :=
      composes_sound.task (creators_sound hc) (updaters_sound hx) fun _ _ _ _ => trivial
    exact Prog.All.mono hsound.all (fun _ h => h) fun _ _ => trivial

/-- **What is stored can be read back.** Tasks of any kind, on instances with one secret key, run in
any order of their statements: from a database with sound rows, every state has sound rows. -/
theorem stored_sound (hx : x.Lawful) (hc : x.Canonical)
    (hkey : ∀ t ∈ tasks, t.1.secretKey = secretKey)
    (h0 : Layout.Every (RowSound x secretKey) w.db)
    (hr : Runs exec (TaskPool.of x tasks w) es P') :
    Layout.Every (RowSound x secretKey) P'.state.db ∧
      ∀ e ∈ es, Layout.Every (RowSound x secretKey) e.pre.db :=
  (sound_of_runs hx hc hkey h0 hr).symm

theorem sshTarget_of_sound {row : ServerRecord} (h : ServerSound x secretKey row) :
    ∃ target, sshTarget x secretKey (Server.from row) = .ok target := by
  obtain ⟨privateKey, hprivate, -⟩ := h.privateKey
  have hserver : decryptSecret x secretKey (Server.from row).encryptedPrivateKey = .ok privateKey :=
    hprivate
  unfold sshTarget
  rw [hserver]
  cases hpass : row.encryptedPrivateKeyPassphrase with
  | none =>
    have hnone : (Server.from row).encryptedPrivateKeyPassphrase = none := hpass
    rw [hnone]
    exact ⟨_, rfl⟩
  | some ciphertext =>
    obtain ⟨passphrase, hdecrypts⟩ := h.passphrase ciphertext hpass
    have hsome : (Server.from row).encryptedPrivateKeyPassphrase = some ciphertext := hpass
    rw [hsome]
    simp only [Option.mapM_some, hdecrypts]
    exact ⟨_, rfl⟩

/-- **Servers stay checkable.** A stored server, in any state that such a run leaves, is checked with
a response, over any transport, unless the database fails. -/
theorem servers_checkable (hx : x.Lawful) (hc : x.Canonical)
    (hkey : ∀ t ∈ tasks, t.1.secretKey = secretKey)
    (h0 : Layout.Every (RowSound x secretKey) w.db)
    (hr : Runs exec (TaskPool.of x tasks w) es P') (transport : Transport) (i : Nat) :
    ∀ row ∈ (P'.state.db.rows .servers : List ServerRecord),
      Yields i (checkServerVia x secretKey transport row.id) (fun xs r s' => NoFailure xs →
        ∃ response, r = .ok response ∧
          Checked x secretKey transport row.id P'.state xs response s') P'.state := by
  intro row hrow
  refine Yields.mono yields_checkServerVia fun xs r s' hends hxs => ?_
  rcases hends with hchecked | ⟨-, -, hfailed⟩
  · exact hchecked
  · have hsound := (sound_of_runs hx hc hkey h0 hr).2 .servers row hrow
    obtain ⟨target, htarget⟩ := sshTarget_of_sound hsound
    have hat : serverAt P'.state.db row.id = some row :=
      Layout.head?_select (c := 0) (by decide) hrow rfl
    obtain ⟨e, he⟩ := (hfailed hxs).2 row hat
    rw [htarget] at he
    cases he

end runs

namespace Symbolic

theorem sealing_lawful : sealing.Lawful :=
  have hlawful {x : Ext} (h : x.Lawful) (digest : String → List UInt8)
      (decode : String → Except String (List UInt8)) :
      Ext.Lawful { x with sha256 := digest, standardDecode := decode } := { h with }
  hlawful ext_lawful digest32 canonicalDecode

/-- A server is registered, while another instance checks all servers. -/
def register : List (Config × Task) :=
  [(config "A", .create (.createServer ⟨"web", "10.0.0.1", none, "deploy", "ssh-ed25519 AAAA",
      "PRIVATE KEY", some "passphrase", some .traefik⟩)),
    (config "A", .job .checkServers)]

def registerPool : JobPool := TaskPool.of sealing register (.start (.empty layout))

def registerSteps : List (Nat × Ans) :=
  [(0, .uuid 5), (0, .done), (1, .done), (1, .done), (1, .time ⟨10000000000⟩), (1, .done)]

theorem register_status : (registerPool.run exec registerSteps).map (fun P' : JobPool =>
    (P'.state.db.rows .servers).map fun r : ServerRecord => (r.id, r.dockerStatus, r.lastCheckAt)) =
      some [(5, "available", seconds 10)] := by decide +kernel

theorem every_empty {key : String} :
    Layout.Every (RowSound sealing key) (World.start (.empty layout)).db :=
  fun _ _ hr => (List.not_mem_nil hr).elim

theorem stored_sound_register : ∃ P' : JobPool,
    (P'.state.db.rows .servers).map (fun r : ServerRecord => (r.id, r.dockerStatus, r.lastCheckAt)) =
      [(5, "available", seconds 10)] ∧
    Layout.Every (RowSound sealing (config "A").secretKey) P'.state.db := by
  obtain ⟨P', hrun, hrows⟩ := Option.map_eq_some_iff.mp register_status
  exact ⟨P', hrows, (stored_sound sealing_lawful sealing_canonical (by decide) every_empty
    (Pool.run_runs hrun)).1⟩

/-- The server is checked once more, by Docker's next version. -/
theorem servers_checkable_register : ∃ P' : JobPool,
    (P'.state.db.rows .servers).map (fun r : ServerRecord => (r.id, r.dockerStatus, r.lastCheckAt)) =
      [(5, "available", seconds 10)] ∧
    ∀ row ∈ (P'.state.db.rows .servers : List ServerRecord), Yields 2
      (checkServerVia sealing (config "A").secretKey (fun _ _ => .ok "wara-ssh-ok\n26.1.0") row.id)
      (fun xs r s' => NoFailure xs → ∃ response, r = .ok response ∧ Checked sealing
        (config "A").secretKey (fun _ _ => .ok "wara-ssh-ok\n26.1.0") row.id P'.state xs response s')
      P'.state := by
  obtain ⟨P', hrun, hrows⟩ := Option.map_eq_some_iff.mp register_status
  exact ⟨P', hrows, servers_checkable sealing_lawful sealing_canonical (by decide) every_empty
    (Pool.run_runs hrun) _ 2⟩

end Symbolic

end Wara
