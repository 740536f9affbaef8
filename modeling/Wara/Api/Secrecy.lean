import Wara.Api.Compared
import Wara.Crypto

/-!
# Secrets do not show

Two runs of the endpoints that deal with secrets, with other secrets. What is
stored of a secret is related by `Sealed`: the same text, or encryptions under
the one key. Everything else that is stored, and every reply, is the same; the
key of a server is decrypted by its check, and decryption succeeds on both sides.
-/

namespace Wara

open Interleave Store Service Docker AuthService WorkspaceService AppServiceService
  CredentialService ServerService

/-- What two runs store of a secret. -/
def Sealed (x : Ext) (secretKey c c' : String) : Prop :=
  c' = c ∨ ∃ p p', c = encryptSecret x secretKey p ∧ c' = encryptSecret x secretKey p'

/-- The rows differ only in what is encrypted. -/
def SealedRows (x : Ext) (secretKey : String) : {t : Table} → Row t → Row t → Prop
  | .servers, r, r' => ∃ key passphrase,
      r' = { r with encryptedPrivateKey := key, encryptedPrivateKeyPassphrase := passphrase } ∧
      Sealed x secretKey r.encryptedPrivateKey key ∧
      Option.Rel (Sealed x secretKey) r.encryptedPrivateKeyPassphrase passphrase
  | .dockerCredentials, r, r' => ∃ password, r' = { r with encryptedPassword := password } ∧
      Sealed x secretKey r.encryptedPassword password
  | .envVars, r, r' => ∃ value, r' = { r with encryptedValue := value } ∧
      Sealed x secretKey r.encryptedValue value
  | _, r, r' => r' = r

/-- The tables without secrets. -/
def Table.isOpen : Table → Bool
  | .servers | .dockerCredentials | .envVars => false
  | _ => true

section rows

variable {x : Ext} {secretKey : String} {t : Table}

theorem sealedRows_iff (ht : t.isOpen = true) {r r' : Row t} :
    SealedRows x secretKey r r' ↔ r' = r := by
  cases t <;> first | exact Iff.rfl | cases ht

theorem sealedRows_col {r r' : Row t} (h : SealedRows x secretKey r r') {c : Nat}
    (hc : c ∈ layout.unique t) : layout.col c r' = layout.col c r := by
  cases t
  case servers =>
    obtain rfl : c = 0 := List.mem_singleton.mp hc
    obtain ⟨key, passphrase, rfl, -, -⟩ := h
    rfl
  case dockerCredentials =>
    obtain rfl : c = 0 := List.mem_singleton.mp hc
    obtain ⟨password, rfl, -⟩ := h
    rfl
  case envVars =>
    obtain rfl : c = 0 := List.mem_singleton.mp hc
    obtain ⟨value, rfl, -⟩ := h
    rfl
  all_goals rw [(sealedRows_iff rfl).mp h]

end rows

def sealedLikeness (x : Ext) (secretKey : String) : Likeness layout where
  rel := SealedRows x secretKey
  unique h _ hc := sealedRows_col h hc

def secrecy (x : Ext) (secretKey : String) : Comparison :=
  ⟨sealedLikeness x secretKey, fun _ => True, fun _ => True⟩

/-! ## Requests -/

/-- The same request to an endpoint that deals with secrets, but for the secrets in it, which pass
the same checks. -/
inductive SameButSecrets : UserRoute → UserRoute → Prop
  | listServers : SameButSecrets .listServers .listServers
  | getServer (id : Uuid) : SameButSecrets (.getServer id) (.getServer id)
  | checkServer (id : Uuid) : SameButSecrets (.checkServer id) (.checkServer id)
  | createServer (payload : CreateServerRequest) (key : String) (passphrase : Option String)
      (hvalid : { payload with privateKey := key, privateKeyPassphrase := passphrase }.valid =
        payload.valid)
      (hkey : Rust.contains key "PRIVATE KEY" = Rust.contains payload.privateKey "PRIVATE KEY")
      (hpassphrase : passphrase.isSome = payload.privateKeyPassphrase.isSome) :
      SameButSecrets (.createServer payload)
        (.createServer { payload with privateKey := key, privateKeyPassphrase := passphrase })
  | listCredentials (workspaceId : Uuid) :
      SameButSecrets (.listCredentials workspaceId) (.listCredentials workspaceId)
  | createCredential (workspaceId : Uuid) (payload : CreateCredentialRequest) (password : String)
      (hvalid : { payload with password := password }.valid = payload.valid) :
      SameButSecrets (.createCredential workspaceId payload)
        (.createCredential workspaceId { payload with password := password })
  | listEnvVars (workspaceId : Uuid) :
      SameButSecrets (.listEnvVars workspaceId) (.listEnvVars workspaceId)
  | createEnvVar (workspaceId : Uuid) (payload : CreateEnvVarRequest) (value : String)
      (hvalid : { payload with value := value }.valid = payload.valid) :
      SameButSecrets (.createEnvVar workspaceId payload)
        (.createEnvVar workspaceId { payload with value := value })
  | createEnvVars (workspaceId : Uuid) (payload payload' : CreateEnvVarsRequest)
      (hvars : List.Forall₂ (fun v v' => ∃ value, v' = { v with value := value }) payload.envVars
        payload'.envVars) (hvalid : payload'.valid = payload.valid) :
      SameButSecrets (.createEnvVars workspaceId payload) (.createEnvVars workspaceId payload')

/-- Both are served under the key, by instances with one configuration. -/
inductive SameRequest (secretKey : String) : Config × ApiRequest → Config × ApiRequest → Prop
  | mk (config : Config) (hkey : config.secretKey = secretKey) (authorization : Option String)
      (route route' : UserRoute) (hroute : SameButSecrets route route') :
      SameRequest secretKey (config, .user authorization route) (config, .user authorization route')

/-! ## Blind operations -/

section secrecy

variable {x : Ext} {secretKey : String} {t : Table} {f : Filter}

theorem sees_open (ht : t.isOpen = true) : (sealedLikeness x secretKey).Sees t f := by
  intro r r' hr
  rw [(sealedRows_iff ht).mp hr]
  exact ⟨rfl, fun _ => rfl⟩

theorem isOpen_of_isAccount (ht : t.isAccount = true) : t.isOpen = true := by
  cases t <;> first | rfl | cases ht

theorem sameAccounts_secrecy : SameAccounts (secrecy x secretKey) where
  rows ht _ _ := sealedRows_iff (isOpen_of_isAccount ht)
  keeps _ _ _ := trivial

/-- A call that reads tables without secrets and writes nothing. -/
def Op.ReadsOpen : Op → Prop
  | .select t _ => t.isOpen = true
  | .write _ | .txWrite _ | .commit _ | .caller _ => False
  | _ => True

theorem same_readsOpen {α : Type} {y : Service α} (h : Flow.All Op.ReadsOpen y fun _ => True) :
    Same (secrecy x secretKey) y := by
  refine same_blind (Flow.All.mono h (fun o ho => ?_) fun _ h => h)
  cases o with
  | select t f => exact sees_open ho
  | write | txWrite | commit | caller => exact ho.elim
  | _ => trivial

theorem same_getWorkspace (id : Uuid) : Same (secrecy x secretKey) (getWorkspace id) :=
  same_readsOpen (by simp [getWorkspace, Op.ReadsOpen, Table.isOpen])

theorem same_ensureEnvironment (workspaceId environmentId : Uuid) :
    Same (secrecy x secretKey) (ensureEnvironment workspaceId environmentId) :=
  same_readsOpen (by simp [ensureEnvironment, listEnvironments, Op.ReadsOpen, Table.isOpen])

theorem same_nowV7 : Same (secrecy x secretKey) nowV7 :=
  same_readsOpen (by simp [Op.ReadsOpen])

theorem same_validateEnvVarScope (input : CreateEnvVarInput) :
    Same (secrecy x secretKey) (validateEnvVarScope input) := by
  have hservice : Same (secrecy x secretKey) (validateServiceScope input) := by
    unfold validateServiceScope
    split
    · exact same_readsOpen (by simp [AppServiceService.getService, Op.ReadsOpen, Table.isOpen])
    · exact same_pure _
  unfold validateEnvVarScope
  refine (same_getWorkspace _).bind fun _ => ?_
  cases input.environmentId with
  | none => exact hservice
  | some environmentId => exact (same_ensureEnvironment _ _).bind fun _ => hservice

/-! ## Credentials and environment variables -/

theorem respects_secrecy {c : Nat} {v : Value} (hc : ∀ {r r' : Row t},
    SealedRows x secretKey r r' → layout.col c r' = layout.col c r) :
    (sealedLikeness x secretKey).Respects t (.eq c v) := by
  intro r r' hr
  show (layout.col c r' == some v) = (layout.col c r == some v)
  rw [hc hr]

theorem respects_byId (ht : layout.unique t = [0]) (id : Uuid) :
    (sealedLikeness x secretKey).Respects t (byId id) :=
  respects_secrecy fun hr => sealedRows_col hr (ht ▸ List.mem_singleton.mpr rfl)

theorem parallel_insert {r r' : Row t} (h : SealedRows x secretKey r r') :
    Parallel (secrecy x secretKey) [.insert t r] [.insert t r'] :=
  ⟨.cons (.insert h) .nil, fun _ _ _ _ => trivial⟩

/-- Records of which the response shows the same. -/
theorem map_eq_of_sealed {α : Type} {g : Row t → α}
    (hg : ∀ {r r'}, SealedRows x secretKey r r' → g r' = g r) {rs rs' : List (Row t)}
    (h : List.Forall₂ (SealedRows x secretKey) rs rs') : rs'.map g = rs.map g := by
  induction h with
  | nil => rfl
  | cons hr _ ih => rw [List.map_cons, List.map_cons, hg hr, ih]

theorem credentialResponse_eq {r r' : DockerCredentialRecord}
    (h : SealedRows (t := .dockerCredentials) x secretKey r r') :
    credentialResponse r' = credentialResponse r := by
  obtain ⟨password, rfl, -⟩ := h
  rfl

theorem envVarResponse_eq {r r' : EnvVarRecord} (h : SealedRows (t := .envVars) x secretKey r r') :
    envVarResponse r' = envVarResponse r := by
  obtain ⟨value, rfl, -⟩ := h
  rfl

theorem same_listCredentials (workspaceId : Uuid) :
    Same (secrecy x secretKey) (listCredentials workspaceId) := by
  have hfilter : (sealedLikeness x secretKey).Respects .dockerCredentials
      (.eq 1 (.uuid workspaceId)) :=
    respects_secrecy fun hr => by obtain ⟨password, rfl, -⟩ := hr; rfl
  exact (agree_query hfilter).reply fun _ _ h => map_eq_of_sealed credentialResponse_eq h.1

theorem agree_createCredential {input input' : CreateCredentialInput} {password : String}
    (hinput : input' = { input with password := password }) :
    Agree (secrecy x secretKey) (createCredential x secretKey input)
      (createCredential x secretKey input') fun r r' => r' = r := by
  subst hinput
  unfold createCredential
  refine Agree.bind (same_getWorkspace _) fun _ _ _ => Agree.bind same_nowV7 fun id id' hid => ?_
  rw [hid]
  have hrow : SealedRows (t := .dockerCredentials) x secretKey
      ⟨id, input.workspaceId, input.registry, input.username,
        encryptSecret x secretKey input.password⟩
      ⟨id, input.workspaceId, input.registry, input.username, encryptSecret x secretKey password⟩ :=
    ⟨_, rfl, .inr ⟨_, _, rfl, rfl⟩⟩
  exact (agree_create .handle (parallel_insert hrow) hrow).reply fun _ _ h => credentialResponse_eq h

theorem same_listEnvVars (workspaceId : Uuid) :
    Same (secrecy x secretKey) (listEnvVars workspaceId) := by
  have hfilter : (sealedLikeness x secretKey).Respects .envVars (.eq 1 (.uuid workspaceId)) :=
    respects_secrecy fun hr => by obtain ⟨value, rfl, -⟩ := hr; rfl
  exact (agree_query hfilter).reply fun _ _ h => map_eq_of_sealed envVarResponse_eq h.1

/-- Inputs that differ only in the value. -/
def SameVar (input input' : CreateEnvVarInput) : Prop :=
  ∃ value, input' = { input with value := value }

theorem agree_createEnvVarRecord (e : Executor) {input input' : CreateEnvVarInput}
    (h : SameVar input input') :
    Agree (secrecy x secretKey) (createEnvVarRecord x secretKey e input)
      (createEnvVarRecord x secretKey e input') (SealedRows (t := .envVars) x secretKey) := by
  obtain ⟨value, rfl⟩ := h
  unfold createEnvVarRecord
  refine Agree.bind same_nowV7 fun id id' hid => ?_
  rw [hid]
  have hrow : SealedRows (t := .envVars) x secretKey
      ⟨id, input.workspaceId, input.environmentId, input.serviceId, input.key,
        encryptSecret x secretKey input.value⟩
      ⟨id, input.workspaceId, input.environmentId, input.serviceId, input.key,
        encryptSecret x secretKey value⟩ := ⟨_, rfl, .inr ⟨_, _, rfl, rfl⟩⟩
  exact agree_create e (parallel_insert hrow) hrow

theorem agree_validateEnvVarScope {input input' : CreateEnvVarInput} (h : SameVar input input') :
    Agree (secrecy x secretKey) (validateEnvVarScope input) (validateEnvVarScope input')
      fun _ _ => True := by
  obtain ⟨value, rfl⟩ := h
  exact Agree.mono (same_validateEnvVarScope input) fun _ _ _ => trivial

theorem agree_createEnvVar {input input' : CreateEnvVarInput} (h : SameVar input input') :
    Agree (secrecy x secretKey) (createEnvVar x secretKey input) (createEnvVar x secretKey input')
      fun r r' => r' = r := by
  unfold createEnvVar
  refine (agree_validateEnvVarScope h).bind fun _ _ _ => ?_
  exact (agree_createEnvVarRecord .handle h).reply fun _ _ hr => envVarResponse_eq hr

theorem agree_createEnvVars {inputs inputs' : List CreateEnvVarInput}
    (h : List.Forall₂ SameVar inputs inputs') :
    Agree (secrecy x secretKey) (createEnvVars x secretKey inputs)
      (createEnvVars x secretKey inputs') fun r r' => r' = r := by
  unfold createEnvVars
  refine (agree_forM h fun _ _ hv => agree_validateEnvVarScope hv).bind fun _ _ _ => ?_
  have hbegin : Same (secrecy x secretKey) transaction :=
    same_readsOpen (by simp [Op.ReadsOpen])
  refine Agree.bind hbegin fun _ _ _ => ?_
  refine (agree_mapM h fun _ _ hv => agree_createEnvVarRecord .transaction hv).bind
    fun created created' hcreated => ?_
  have hcommit : Parallel (secrecy x secretKey) (created.map fun r => .insert .envVars r)
      (created'.map fun r => .insert .envVars r) := by
    refine ⟨?_, fun _ _ _ _ => trivial⟩
    rw [List.forall₂_map_left_iff, List.forall₂_map_right_iff]
    exact hcreated.imp fun _ _ hr => .insert hr
  exact (agree_commit hcommit).reply fun _ _ _ => map_eq_of_sealed envVarResponse_eq hcreated

/-! ## Servers -/

theorem serialize_eq {r r' : ServerRecord} (h : SealedRows (t := .servers) x secretKey r r') :
    (Server.from r').serialize = (Server.from r).serialize := by
  obtain ⟨key, passphrase, rfl, -, -⟩ := h
  rfl

/-- Servers of records that differ only in what is encrypted. -/
def SealedServers (x : Ext) (secretKey : String) (server server' : Server) : Prop :=
  ∃ r r', SealedRows (t := .servers) x secretKey r r' ∧ server = Server.from r ∧
    server' = Server.from r'

theorem agree_listServers : Agree (secrecy x secretKey) listServers listServers
    fun servers servers' => servers'.map Server.serialize = servers.map Server.serialize := by
  unfold listServers
  refine (agree_query fun _ _ _ => rfl).bind fun rs rs' h => agree_pure ?_
  rw [List.map_map, List.map_map]
  exact map_eq_of_sealed serialize_eq h.1

theorem agree_getServer (id : Uuid) :
    Agree (secrecy x secretKey) (getServer id) (getServer id) (SealedServers x secretKey) := by
  unfold getServer
  refine (agree_first (respects_byId rfl id)).bind fun o o' h => agree_okOr ?_
  cases h.1 with
  | none => exact .none
  | some hr => exact .some ⟨_, _, hr, rfl, rfl⟩

theorem agree_createServer (payload payload' : CreateServerInput) {key : String}
    {passphrase : Option String}
    (hpayload : payload' = { payload with privateKey := key, privateKeyPassphrase := passphrase })
    (hkey : Rust.contains key "PRIVATE KEY" = Rust.contains payload.privateKey "PRIVATE KEY")
    (hpassphrase : passphrase.isSome = payload.privateKeyPassphrase.isSome) :
    Agree (secrecy x secretKey) (createServer x secretKey payload)
      (createServer x secretKey payload')
      fun server server' => server'.serialize = server.serialize := by
  subst hpayload
  unfold createServer
  have hpair : Agree (secrecy x secretKey) (validateSshKeyPair payload)
      (validateSshKeyPair { payload with privateKey := key, privateKeyPassphrase := passphrase })
      fun _ _ => True := by
    unfold validateSshKeyPair
    refine Agree.bind (agree_throwIf Iff.rfl) fun _ _ _ => ?_
    refine Agree.mono (agree_throwIf ?_) fun _ _ _ => trivial
    show ¬ Rust.contains key "PRIVATE KEY" = true ↔ _
    rw [hkey]
  refine hpair.bind fun _ _ _ => Agree.bind same_nowV7 fun id id' hid => ?_
  rw [hid]
  have hpass : Option.Rel (Sealed x secretKey)
      (payload.privateKeyPassphrase.map (encryptSecret x secretKey))
      (passphrase.map (encryptSecret x secretKey)) := by
    cases hp : payload.privateKeyPassphrase <;> cases passphrase <;> rw [hp] at hpassphrase
    case none.none => exact .none
    case some.some => exact .some (.inr ⟨_, _, rfl, rfl⟩)
    all_goals cases hpassphrase
  have hrow : SealedRows (t := .servers) x secretKey
      ⟨id, payload.name, payload.host, payload.port.getD 22, payload.username, payload.publicKey,
        fingerprintPublicKey x payload.publicKey, encryptSecret x secretKey payload.privateKey,
        payload.privateKeyPassphrase.map (encryptSecret x secretKey),
        (payload.defaultProxy.getD .nginx).asStr, "unchecked", "", "", ""⟩
      ⟨id, payload.name, payload.host, payload.port.getD 22, payload.username, payload.publicKey,
        fingerprintPublicKey x payload.publicKey, encryptSecret x secretKey key,
        passphrase.map (encryptSecret x secretKey), (payload.defaultProxy.getD .nginx).asStr,
        "unchecked", "", "", ""⟩ :=
    ⟨_, _, rfl, .inr ⟨_, _, rfl, rfl⟩, hpass⟩
  exact Agree.bind (agree_create .handle (parallel_insert hrow) hrow) fun _ _ h =>
    agree_pure (serialize_eq h)

/-! ## The server check -/

theorem decryptSecret_sealed (hx : x.Canonical) {c c' : String} (h : Sealed x secretKey c c') :
    Flow.SameExit (fun _ _ => True) (decryptSecret x secretKey c)
      (decryptSecret x secretKey c') := by
  rcases h with rfl | ⟨p, p', rfl, rfl⟩
  · exact Flow.sameExit_refl fun _ => trivial
  · rw [decryptSecret_encryptSecret hx, decryptSecret_encryptSecret hx]
    trivial

/-- A target is found on both sides, or the same error. -/
theorem sshTarget_sealed (hx : x.Canonical) {server server' : Server}
    (h : SealedServers x secretKey server server') :
    Flow.SameExit (fun _ _ => True) (sshTarget x secretKey server)
      (sshTarget x secretKey server') := by
  obtain ⟨r, r', ⟨key, passphrase, rfl, hkey, hpassphrase⟩, rfl, rfl⟩ := h
  unfold sshTarget
  refine (decryptSecret_sealed hx hkey).mapError.bind fun _ _ _ => ?_
  refine Flow.SameExit.bind (R := fun _ _ => True) ?_ fun _ _ _ => trivial
  show Flow.SameExit _ (r.encryptedPrivateKeyPassphrase.mapM _) (passphrase.mapM _)
  generalize r.encryptedPrivateKeyPassphrase = passphrase₀ at hpassphrase
  cases hpassphrase with
  | none => exact trivial
  | some hc => exact (decryptSecret_sealed hx hc).mapError.bind fun _ _ _ => trivial

theorem serverCheck_output :
    parseServerCheckOutput (mockControlledOutput serverCheckCommands) = .ok "25.0.0" := by
  decide +kernel

/-- Nothing of the target is in the outcome. -/
theorem checkOutcome_eq (target : SshTarget) :
    checkOutcome target = ("available", "25.0.0", "") := by
  have hrun : runControlledCommands target serverCheckCommands =
      .ok (mockControlledOutput serverCheckCommands) := rfl
  unfold checkOutcome
  rw [hrun]
  simp only [serverCheck_output]

theorem agree_updateCheckMetadata (id : Uuid)
    (dockerStatus dockerVersion checkedAt lastCheckError : String) :
    Agree (secrecy x secretKey)
      (updateCheckMetadata id dockerStatus dockerVersion checkedAt lastCheckError)
      (updateCheckMetadata id dockerStatus dockerVersion checkedAt lastCheckError)
      fun _ _ => True := by
  refine agree_execute .handle ⟨.cons (.update (respects_byId rfl id) fun r r' hr => ?_) .nil,
    fun _ _ _ _ => trivial⟩
  obtain ⟨key, passphrase, rfl, hkey, hpassphrase⟩ := hr
  exact ⟨key, passphrase, rfl, hkey, hpassphrase⟩

theorem same_checkServer (hx : x.Canonical) (id : Uuid) :
    Same (secrecy x secretKey) (checkServer x secretKey id) := by
  unfold checkServer
  refine (agree_getServer id).bind fun server server' hserver => ?_
  refine (agree_orThrow (sshTarget_sealed hx hserver)).bind fun target target' _ => ?_
  have hnow : Same (secrecy x secretKey) now := same_readsOpen (by simp [Op.ReadsOpen])
  refine Agree.bind hnow fun time time' htime => ?_
  rw [htime, checkOutcome_eq target, checkOutcome_eq target']
  exact Agree.bind (agree_updateCheckMetadata id _ _ _ _) fun _ _ _ => agree_pure rfl

/-! ## Routes -/

theorem agree_route (hx : x.Canonical) {config : Config} (hk : config.secretKey = secretKey)
    (user : User) {route route' : UserRoute} (h : SameButSecrets route route') :
    Agree (secrecy x secretKey) (route.handle x config user) (route'.handle x config user)
      fun r r' => r' = r := by
  subst hk
  cases h with
  | listServers =>
    exact agree_ensureSuperAdmin fun _ => agree_listServers.reply fun _ _ h => congrArg _ h
  | getServer id =>
    refine agree_ensureSuperAdmin fun _ => (agree_getServer id).reply ?_
    rintro _ _ ⟨r, r', hr, rfl, rfl⟩
    exact congrArg _ (serialize_eq hr)
  | checkServer id => exact agree_ensureSuperAdmin fun _ => (same_checkServer hx id).reply _
  | createServer payload key passphrase hvalid hkey hpassphrase =>
    let payload' := { payload with privateKey := key, privateKeyPassphrase := passphrase }
    have hserver : Agree (secrecy x config.secretKey)
        (ServerService.createServer x config.secretKey (.from payload))
        (ServerService.createServer x config.secretKey (.from payload')) fun server server' =>
          server'.serialize = server.serialize :=
      agree_createServer (.from payload) (.from payload') rfl hkey hpassphrase
    refine agree_validated hvalid (agree_ensureSuperAdmin fun _ => ?_)
    exact hserver.reply fun _ _ h => congrArg _ h
  | listCredentials workspaceId =>
    exact agree_ensureWorkspaceAccess fun _ => (same_listCredentials workspaceId).reply _
  | createCredential workspaceId payload password hvalid =>
    refine agree_validated hvalid (agree_ensureWorkspaceAccess fun _ => ?_)
    exact (agree_createCredential rfl).reply fun _ _ h => congrArg _ h
  | listEnvVars workspaceId =>
    exact agree_ensureWorkspaceAccess fun _ => (same_listEnvVars workspaceId).reply _
  | createEnvVar workspaceId payload value hvalid =>
    refine agree_validated hvalid (agree_ensureWorkspaceAccess fun _ => ?_)
    have hvar : SameVar (payload.toInput workspaceId)
        (CreateEnvVarRequest.toInput workspaceId { payload with value := value }) := ⟨value, rfl⟩
    exact (agree_createEnvVar hvar).reply fun _ _ h => congrArg _ h
  | createEnvVars workspaceId payload payload' hvars hvalid =>
    refine agree_validated hvalid (agree_ensureWorkspaceAccess fun _ => ?_)
    have hinputs : List.Forall₂ SameVar
        (payload.envVars.map (CreateEnvVarRequest.toInput workspaceId))
        (payload'.envVars.map (CreateEnvVarRequest.toInput workspaceId)) := by
      rw [List.forall₂_map_left_iff, List.forall₂_map_right_iff]
      refine hvars.imp fun v v' hv => ?_
      obtain ⟨value, rfl⟩ := hv
      exact ⟨value, rfl⟩
    exact (agree_createEnvVars hinputs).reply fun _ _ h => congrArg _ h

/-- **Secrets do not show.** Two databases that differ only in what is encrypted, and requests
that differ only in secrets, served in one order of the statements, with one clock and the same
generated identifiers: the replies are the same, and the databases still differ only there. -/
theorem secrets_unobservable (hx : x.Canonical) {requests requests' : List (Config × ApiRequest)}
    {schedule : List (Nat × Ans)} {db db' : Db} {P : RequestPool}
    (hq : List.Forall₂ (SameRequest secretKey) requests requests')
    (hdb : (sealedLikeness x secretKey).Alike db db')
    (hr : (RequestPool.of x requests (.start db)).run exec schedule = some P) :
    ∃ P' : RequestPool, (RequestPool.of x requests' (.start db')).run exec schedule = some P' ∧
      (∀ (i : Nat) (r : Except Abort ApiReply),
        P'.threads[i]? = some (.ret r) ↔ P.threads[i]? = some (.ret r)) ∧
      (sealedLikeness x secretKey).Alike P.state.db P'.state.db := by
  have hagree : List.Forall₂ (fun q q' => Agree (secrecy x secretKey) (q.2.serve x q.1)
      (q'.2.serve x q'.1) fun r r' => r' = r) requests requests' := by
    refine hq.imp fun q q' h => ?_
    obtain ⟨config, hk, authorization, route, route', hroute⟩ := h
    exact agree_serve sameAccounts_secrecy config fun user _ => agree_route hx hk user hroute
  have hstart : Twins (secrecy x secretKey) (.start db) (.start db') := ⟨hdb, rfl, rfl, trivial⟩
  obtain ⟨P', hr', hreplies, htwins⟩ :=
    requests_agree hagree hstart hr fun _ _ _ _ => trivial
  exact ⟨P', hr', hreplies, htwins.db⟩

end secrecy

namespace Symbolic

/-- A platform admin with an API token, a workspace, and a server with the given private key. -/
def vault (key : String) : Db where
  rows := fun
    | .users => [⟨2, "ada@wara.local", "Ada", "super_admin", "active", "$argon2id$password"⟩]
    | .userApiTokens =>
      [⟨6, 2, "ci", hashApiToken sealing "wara_t", "wara_t", seconds 0, none, none⟩]
    | .workspaces => [⟨9, "Shop", none⟩]
    | .servers => [⟨5, "web", "10.0.0.1", 22, "deploy", "ssh-ed25519 AAAA", "SHA256:AAAA",
        encryptSecret sealing (config "A").secretKey key, none, "nginx", "unchecked", "", "", ""⟩]
    | _ => []
  unique := fun t _ _ => by
    cases t <;> first | exact List.nodup_nil | exact List.nodup_singleton _

/-- The server is checked, and a registry password stored. -/
def deposit (password : String) : List (Config × ApiRequest) :=
  [(config "A", .user (some "Bearer wara_t") (.checkServer 5)),
    (config "A", .user (some "Bearer wara_t")
      (.createCredential 9 ⟨"ghcr.io", "bot", password⟩))]

def depositSteps : List (Nat × Ans) :=
  ([.done, .done, .time ⟨10000000000⟩, .done, .done, .done, .time ⟨11000000000⟩, .done].map
    fun a => (0, a)) ++
  [.done, .done, .time ⟨12000000000⟩, .done, .done, .done, .uuid 11, .done].map fun a => (1, a)

theorem deposit_runs : ((RequestPool.of sealing (deposit "alpha") (.start (vault "first"))).run
    exec depositSteps).isSome = true := by decide +kernel

/-- Other secrets, the same replies. -/
theorem secrets_unobservable_deposit : ∃ P P' : RequestPool,
    (RequestPool.of sealing (deposit "alpha") (.start (vault "first"))).run exec depositSteps =
      some P ∧
    (RequestPool.of sealing (deposit "beta") (.start (vault "second"))).run exec depositSteps =
      some P' ∧
    (∀ (i : Nat) (r : Except Abort ApiReply),
      P'.threads[i]? = some (.ret r) ↔ P.threads[i]? = some (.ret r)) ∧
    (sealedLikeness sealing (config "A").secretKey).Alike P.state.db P'.state.db := by
  obtain ⟨P, hrun⟩ := Option.isSome_iff_exists.mp deposit_runs
  have hrequests : List.Forall₂ (SameRequest (config "A").secretKey) (deposit "alpha")
      (deposit "beta") :=
    .cons (.mk (config "A") rfl _ _ _ (.checkServer 5))
      (.cons (.mk (config "A") rfl _ _ _
        (.createCredential 9 ⟨"ghcr.io", "bot", "alpha"⟩ "beta" (by decide))) .nil)
  have hvault : (sealedLikeness sealing (config "A").secretKey).Alike (vault "first")
      (vault "second") := by
    intro t
    cases t
    case servers => exact .cons ⟨_, _, rfl, .inr ⟨"first", "second", rfl, rfl⟩, .none⟩ .nil
    case dockerCredentials => exact .nil
    case envVars => exact .nil
    all_goals exact List.forall₂_same.mpr fun _ _ => rfl
  obtain ⟨P', hrest⟩ := secrets_unobservable sealing_canonical hrequests hvault hrun
  exact ⟨P, P', hrun, hrest⟩

end Symbolic

end Wara
