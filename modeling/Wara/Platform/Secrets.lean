import Wara.Crypto
import Wara.Platform.Services

/-!
# Credentials, environment variables and servers

`backend/src/services/credentials.rs`, `servers.rs` and `libs/ssh.rs`: what is
stored of a secret is its encryption, and what is returned in its place is a
mark.
-/

namespace Wara

open Interleave Service Docker WorkspaceService AppServiceService

/-- `crypto::redact`. -/
def redact (value : String) : String := if value.toList.isEmpty then "" else "********"

/-! ## Credentials and environment variables -/

structure CredentialResponse where
  id : Uuid
  workspaceId : Uuid
  registry : String
  username : String
  password : String
  deriving DecidableEq, Repr

structure EnvVarResponse where
  id : Uuid
  workspaceId : Uuid
  environmentId : Option Uuid
  serviceId : Option Uuid
  key : String
  value : String
  deriving DecidableEq, Repr

structure CreateCredentialInput where
  workspaceId : Uuid
  registry : String
  username : String
  password : String
  deriving DecidableEq, Repr

structure CreateEnvVarInput where
  workspaceId : Uuid
  environmentId : Option Uuid
  serviceId : Option Uuid
  key : String
  value : String
  deriving DecidableEq, Repr

namespace CredentialService

variable (x : Ext) (secretKey : String)

def credentialResponse (record : DockerCredentialRecord) : CredentialResponse :=
  ⟨record.id, record.workspaceId, record.registry, record.username, redact "secret"⟩

def envVarResponse (record : EnvVarRecord) : EnvVarResponse :=
  ⟨record.id, record.workspaceId, record.environmentId, record.serviceId, record.key,
    redact "secret"⟩

def listCredentials (workspaceId : Uuid) : Service (List CredentialResponse) := do
  let records ← query .dockerCredentials (.eq 1 (.uuid workspaceId))
  return records.map credentialResponse

def createCredential (input : CreateCredentialInput) : Service CredentialResponse := do
  let _ ← getWorkspace input.workspaceId
  let record ← create (t := .dockerCredentials) .handle ⟨← nowV7, input.workspaceId,
    input.registry, input.username, encryptSecret x secretKey input.password⟩
  return credentialResponse record

def listEnvVars (workspaceId : Uuid) : Service (List EnvVarResponse) := do
  let records ← query .envVars (.eq 1 (.uuid workspaceId))
  return records.map envVarResponse

/-- The last step of `validate_env_var_scope`. -/
def validateServiceScope (input : CreateEnvVarInput) : Service Unit := do
  match input.serviceId with
  | some serviceId =>
    let service ← getService serviceId
    throwIf (service.workspaceId ≠ input.workspaceId) (.notFound "service")
  | none => pure ()

def validateEnvVarScope (input : CreateEnvVarInput) : Service Unit := do
  let _ ← getWorkspace input.workspaceId
  match input.environmentId with
  | some environmentId => ensureEnvironment input.workspaceId environmentId
  | none => pure ()
  validateServiceScope input

/-- The record of an input, in the workspace's own table. -/
def createEnvVarRecord (executor : Executor) (input : CreateEnvVarInput) : Service EnvVarRecord := do
  create (t := .envVars) executor ⟨← nowV7, input.workspaceId, input.environmentId,
    input.serviceId, input.key, encryptSecret x secretKey input.value⟩

def createEnvVar (input : CreateEnvVarInput) : Service EnvVarResponse := do
  validateEnvVarScope input
  let record ← createEnvVarRecord x secretKey .handle input
  return envVarResponse record

def createEnvVars (inputs : List CreateEnvVarInput) : Service (List EnvVarResponse) := do
  inputs.forM validateEnvVarScope
  transaction
  let created ← inputs.mapM (createEnvVarRecord x secretKey .transaction)
  commit (created.map fun record => .insert .envVars record)
  return created.map envVarResponse

end CredentialService

/-! ## SSH -/

structure SshTarget where
  host : String
  port : UInt16
  username : String
  publicKey : String
  privateKey : String
  privateKeyPassphrase : Option String
  deriving DecidableEq, Repr

def sshConnectivityCheckCommand : String := "printf 'wara-ssh-ok\\n'"

def dockerVersionCheckCommand : String := "docker version --format '\x7b\x7b.Server.Version\x7d\x7d'"

def serverCheckCommands : List String := [sshConnectivityCheckCommand, dockerVersionCheckCommand]

def validateAllowedCommands (commands : List String) : Except WaraError Unit :=
  if commands.all fun command =>
      command = sshConnectivityCheckCommand || command = dockerVersionCheckCommand
  then .ok () else .error (.ssh "SSH command is not allowlisted")

def mockControlledOutput (commands : List String) : String :=
  "\n".intercalate (commands.map fun command =>
    if command = sshConnectivityCheckCommand then "wara-ssh-ok"
    else if command = dockerVersionCheckCommand then "25.0.0"
    else "")

/-- Nothing is sent to the target yet. -/
def runControlledCommands (_target : SshTarget) (commands : List String) :
    Except WaraError String := do
  validateAllowedCommands commands
  return mockControlledOutput commands

def parseServerCheckOutput (output : String) : Except WaraError String :=
  let lines := ((Rust.lines output).map Rust.trim).filter fun line => ¬ line.toList.isEmpty
  if lines.head? ≠ some "wara-ssh-ok" then
    .error (.ssh "SSH connectivity probe did not return expected marker")
  else
    match lines[1]? with
    | some version => .ok version
    | none => .error (.ssh "Docker version output is missing")

def redactError (error : String) (target : SshTarget) : String :=
  let redacted := Rust.replace (Rust.replace error target.privateKey "[redacted-private-key]")
    target.publicKey "[redacted-public-key]"
  let redacted := match target.privateKeyPassphrase with
    | some passphrase => Rust.replace redacted passphrase "[redacted-private-key-passphrase]"
    | none => redacted
  String.ofList (redacted.toList.take 500)

def fingerprintPublicKey (x : Ext) (publicKey : String) : String :=
  "SHA256:" ++ x.standardEncode (x.sha256 (Rust.trim publicKey))

/-! ## Servers -/

structure CreateServerInput where
  name : String
  host : String
  port : Option UInt16
  username : String
  publicKey : String
  privateKey : String
  privateKeyPassphrase : Option String
  defaultProxy : Option ProxyKind
  deriving DecidableEq, Repr

structure ServerCheckResponse where
  serverId : Uuid
  sshStatus : String
  dockerStatus : String
  dockerVersion : Option String
  checkedAt : String
  error : Option String
  deriving DecidableEq, Repr

def nonEmpty (value : String) : Option String := if value.toList.isEmpty then none else some value

def validateSshKeyPair (payload : CreateServerInput) : Service Unit := do
  throwIf (¬ Rust.startsWith (Rust.trimStart payload.publicKey) "ssh-")
    (.badRequest "public_key must be an OpenSSH public key")
  throwIf (¬ Rust.contains payload.privateKey "PRIVATE KEY")
    (.badRequest "private_key must be a PEM/OpenSSH private key")

namespace ServerService

variable (x : Ext) (secretKey : String)

def listServers : Service (List Server) := do
  let records ← query .servers .all
  return records.map Server.from

def createServer (payload : CreateServerInput) : Service Server := do
  validateSshKeyPair payload
  let record ← create (t := .servers) .handle ⟨← nowV7, payload.name, payload.host,
    payload.port.getD 22, payload.username, payload.publicKey,
    fingerprintPublicKey x payload.publicKey, encryptSecret x secretKey payload.privateKey,
    payload.privateKeyPassphrase.map (encryptSecret x secretKey),
    (payload.defaultProxy.getD .nginx).asStr, "unchecked", "", "", ""⟩
  return Server.from record

def getServer (id : Uuid) : Service Server := do
  let record ← first .servers (byId id)
  okOr (.notFound "server") (record.map Server.from)

def sshTarget (server : Server) : Except ApiError SshTarget := do
  let privateKey ← (decryptSecret x secretKey server.encryptedPrivateKey).mapError fun error =>
    .internal ("failed to decrypt server private key: " ++ error.toString)
  let passphrase ← server.encryptedPrivateKeyPassphrase.mapM fun value =>
    (decryptSecret x secretKey value).mapError fun error =>
      .internal ("failed to decrypt server private key passphrase: " ++ error.toString)
  return ⟨server.host, server.port, server.username, server.publicKey, privateKey, passphrase⟩

/-- Docker status, Docker version and error of a check. -/
def checkOutcome (target : SshTarget) : String × String × String :=
  match runControlledCommands target serverCheckCommands with
  | .ok output =>
    match parseServerCheckOutput output with
    | .ok version => ("available", version, "")
    | .error error => ("unavailable", "", redactError error.toString target)
  | .error error => ("unavailable", "", redactError error.toString target)

def updateCheckMetadata (id : Uuid) (dockerStatus dockerVersion checkedAt lastCheckError : String) :
    Service Unit :=
  update .servers (byId id) [(10, .text dockerStatus), (11, .text dockerVersion),
    (12, .text checkedAt), (13, .text lastCheckError)]

def checkServer (id : Uuid) : Service ServerCheckResponse := do
  let server ← getServer id
  let target ← orThrow (sshTarget x secretKey server)
  let checkedAt := x.toRfc3339 (← now)
  let (dockerStatus, dockerVersion, lastCheckError) := checkOutcome target
  updateCheckMetadata id dockerStatus dockerVersion checkedAt lastCheckError
  return ⟨id, if dockerStatus = "available" then "connected" else "failed", dockerStatus,
    nonEmpty dockerVersion, checkedAt, nonEmpty lastCheckError⟩

/-- A server whose check fails is left out. -/
def checkAllServers : Service (List ServerCheckResponse) := do
  let servers ← listServers
  let checks ← servers.mapM fun server => do
    return (← attempt (checkServer x secretKey server.id)).toOption
  return checks.reduceOption

end ServerService

end Wara
