import Wara.Docker.Command

/-!
# Records and API structs

`backend/src/models`: the rows of each table, field by field in column order,
and the structs the API returns with their `From` conversions.
-/

namespace Wara

open Docker

abbrev Uuid := BitVec 128

/-- A `chrono::DateTime<Utc>`, in nanoseconds since the epoch. -/
structure DateTime where
  nanos : Int
  deriving DecidableEq, Repr

/-- Whole seconds since the epoch, rounded down. -/
def DateTime.timestamp (t : DateTime) : Int := t.nanos / 1000000000

/-! ## Users -/

inductive UserStatus where
  | invited
  | active
  | disabled
  deriving DecidableEq, Repr

def UserStatus.asStr : UserStatus → String
  | .invited => "invited"
  | .active => "active"
  | .disabled => "disabled"

def UserStatus.from (value : String) : UserStatus :=
  if value = "active" then .active else if value = "disabled" then .disabled else .invited

inductive Role where
  | superAdmin
  | admin
  | operator
  | viewer
  deriving DecidableEq, Repr

def Role.asStr : Role → String
  | .superAdmin => "super_admin"
  | .admin => "admin"
  | .operator => "operator"
  | .viewer => "viewer"

def Role.from (value : String) : Role :=
  if value = "super_admin" then .superAdmin
  else if value = "admin" then .admin
  else if value = "operator" then .operator
  else .viewer

structure UserRecord where
  id : Uuid
  email : String
  name : String
  role : String
  status : String
  passwordHash : String
  deriving DecidableEq, Repr

structure UserInviteRecord where
  id : Uuid
  userId : Uuid
  tokenHash : String
  expiresAt : String
  acceptedAt : String
  createdAt : String
  deriving DecidableEq, Repr

structure WorkspaceUserRoleRecord where
  id : Uuid
  userId : Uuid
  workspaceId : Uuid
  role : String
  deriving DecidableEq, Repr

structure UserApiTokenRecord where
  id : Uuid
  userId : Uuid
  name : String
  tokenHash : String
  tokenPrefix : String
  createdAt : String
  revokedAt : Option String
  lastUsedAt : Option String
  deriving DecidableEq, Repr

structure UserRefreshTokenRecord where
  id : Uuid
  userId : Uuid
  createdAt : String
  expiresAt : String
  revokedAt : Option String
  deriving DecidableEq, Repr

structure JwtPublicKeyRecord where
  id : Uuid
  keyType : String
  keyUse : String
  algorithm : String
  modulus : String
  exponent : String
  isActive : Bool
  createdAt : String
  deriving DecidableEq, Repr

structure WorkspaceRole where
  workspaceId : Uuid
  role : Role
  deriving DecidableEq, Repr

structure User where
  id : Uuid
  email : String
  name : String
  role : Role
  status : UserStatus
  workspaceRoles : List WorkspaceRole
  deriving DecidableEq, Repr

def User.from (record : UserRecord) : User where
  id := record.id
  email := record.email
  name := record.name
  role := Role.from record.role
  status := UserStatus.from record.status
  workspaceRoles := []

def WorkspaceRole.from (record : WorkspaceUserRoleRecord) : WorkspaceRole where
  workspaceId := record.workspaceId
  role := Role.from record.role

structure JwtPublicKey where
  kty : String
  keyUse : String
  alg : String
  kid : String
  n : String
  e : String
  deriving DecidableEq, Repr

@[simp] theorem Role.from_asStr (r : Role) : Role.from r.asStr = r := by cases r <;> decide

@[simp] theorem UserStatus.from_asStr (s : UserStatus) : UserStatus.from s.asStr = s := by
  cases s <;> decide

theorem Role.asStr_inj {r s : Role} (h : r.asStr = s.asStr) : r = s := by
  rw [← Role.from_asStr r, h, Role.from_asStr]

/-- Only the stored string `super_admin` reads back as that role. -/
theorem Role.from_eq_superAdmin {value : String} :
    Role.from value = .superAdmin ↔ value = Role.superAdmin.asStr := by
  unfold Role.from Role.asStr
  split
  · next h => simp [h]
  · next h => simp only [h, iff_false]; split <;> (try split) <;> decide

/-! ## Workspaces and what belongs to them -/

structure Workspace where
  id : Uuid
  name : String
  description : Option String
  deriving DecidableEq, Repr

structure Environment where
  id : Uuid
  workspaceId : Uuid
  name : String
  deriving DecidableEq, Repr

structure AppServiceRecord where
  id : Uuid
  workspaceId : Uuid
  environmentId : Uuid
  name : String
  deployKind : String
  image : Option String
  composeFile : Option String
  dockerfile : Option String
  internalPort : Option UInt16
  deriving DecidableEq, Repr

structure AppService where
  id : Uuid
  workspaceId : Uuid
  environmentId : Uuid
  name : String
  deployKind : DeployKind
  image : Option String
  composeFile : Option String
  dockerfile : Option String
  internalPort : Option UInt16
  deriving DecidableEq, Repr

def AppService.from (record : AppServiceRecord) : AppService where
  id := record.id
  workspaceId := record.workspaceId
  environmentId := record.environmentId
  name := record.name
  deployKind := DeployKind.from record.deployKind
  image := record.image
  composeFile := record.composeFile
  dockerfile := record.dockerfile
  internalPort := record.internalPort

structure DockerCredentialRecord where
  id : Uuid
  workspaceId : Uuid
  registry : String
  username : String
  encryptedPassword : String
  deriving DecidableEq, Repr

structure EnvVarRecord where
  id : Uuid
  workspaceId : Uuid
  environmentId : Option Uuid
  serviceId : Option Uuid
  key : String
  encryptedValue : String
  deriving DecidableEq, Repr

structure DomainRecord where
  id : Uuid
  serviceId : Uuid
  hostname : String
  proxy : String
  tlsEnabled : Bool
  deriving DecidableEq, Repr

structure Domain where
  id : Uuid
  serviceId : Uuid
  hostname : String
  proxy : ProxyKind
  tlsEnabled : Bool
  deriving DecidableEq, Repr

def Domain.from (record : DomainRecord) : Domain where
  id := record.id
  serviceId := record.serviceId
  hostname := record.hostname
  proxy := ProxyKind.from record.proxy
  tlsEnabled := record.tlsEnabled

inductive DeploymentStatus where
  | queued
  | running
  | succeeded
  | failed
  deriving DecidableEq, Repr

def DeploymentStatus.asStr : DeploymentStatus → String
  | .queued => "queued"
  | .running => "running"
  | .succeeded => "succeeded"
  | .failed => "failed"

def DeploymentStatus.from (value : String) : DeploymentStatus :=
  if value = "running" then .running
  else if value = "succeeded" then .succeeded
  else if value = "failed" then .failed
  else .queued

structure DeploymentRecord where
  id : Uuid
  serviceId : Uuid
  status : String
  workflowId : String
  output : String
  createdAt : String
  deriving DecidableEq, Repr

structure Deployment where
  id : Uuid
  serviceId : Uuid
  status : DeploymentStatus
  workflowId : String
  output : String
  createdAt : DateTime
  deriving DecidableEq, Repr

structure WorkspaceTemplateRecord where
  id : Uuid
  sourceWorkspaceId : Uuid
  name : String
  description : Option String
  deriving DecidableEq, Repr

structure WorkspaceTemplate where
  id : Uuid
  sourceWorkspaceId : Uuid
  name : String
  description : Option String
  deriving DecidableEq, Repr

def WorkspaceTemplate.from (record : WorkspaceTemplateRecord) : WorkspaceTemplate where
  id := record.id
  sourceWorkspaceId := record.sourceWorkspaceId
  name := record.name
  description := record.description

/-! ## Servers -/

structure ServerRecord where
  id : Uuid
  name : String
  host : String
  port : UInt16
  username : String
  publicKey : String
  privateKeyFingerprint : String
  encryptedPrivateKey : String
  encryptedPrivateKeyPassphrase : Option String
  defaultProxy : String
  dockerStatus : String
  dockerVersion : String
  lastCheckAt : String
  lastCheckError : String
  deriving DecidableEq, Repr

structure Server where
  id : Uuid
  name : String
  host : String
  port : UInt16
  username : String
  publicKey : String
  privateKeyFingerprint : String
  encryptedPrivateKey : String
  encryptedPrivateKeyPassphrase : Option String
  defaultProxy : ProxyKind
  dockerStatus : String
  dockerVersion : String
  lastCheckAt : String
  lastCheckError : String
  deriving DecidableEq, Repr

def Server.from (record : ServerRecord) : Server where
  id := record.id
  name := record.name
  host := record.host
  port := record.port
  username := record.username
  publicKey := record.publicKey
  privateKeyFingerprint := record.privateKeyFingerprint
  encryptedPrivateKey := record.encryptedPrivateKey
  encryptedPrivateKeyPassphrase := record.encryptedPrivateKeyPassphrase
  defaultProxy := ProxyKind.from record.defaultProxy
  dockerStatus := record.dockerStatus
  dockerVersion := record.dockerVersion
  lastCheckAt := record.lastCheckAt
  lastCheckError := record.lastCheckError

end Wara
