import Wara.Service.Monad

/-!
# The authentication service

`backend/src/services/auth.rs`, one definition per function. `x` stands for the
third-party crates, `config` for the configuration of the instance that runs
the call. `self.db.handle()?` is always available here, so it is left out.
-/

namespace Wara

open Interleave Service

structure LoginInput where
  email : String
  password : String
  deriving DecidableEq, Repr

structure LoginOutput where
  token : String
  refreshToken : String
  user : User
  deriving DecidableEq, Repr

structure InviteUserInput where
  inviter : User
  workspaceId : Uuid
  email : String
  name : String
  role : Role
  deriving DecidableEq, Repr

structure InviteUserOutput where
  user : User
  inviteLink : String
  expiresAt : DateTime
  deriving DecidableEq, Repr

structure AcceptInviteInput where
  token : String
  password : String
  deriving DecidableEq, Repr

structure RefreshSessionInput where
  refreshToken : String
  deriving DecidableEq, Repr

structure LogoutInput where
  refreshToken : String
  deriving DecidableEq, Repr

structure CreateApiTokenInput where
  user : User
  name : String
  deriving DecidableEq, Repr

structure CreateApiTokenOutput where
  token : String
  apiToken : UserApiTokenRecord
  deriving DecidableEq, Repr

structure ChangeUserRoleInput where
  userId : Uuid
  role : Role
  deriving DecidableEq, Repr

structure Claims where
  jti : String
  ret : String
  sub : String
  email : String
  role : String
  iss : String
  aud : String
  iat : UInt64
  exp : UInt64
  deriving DecidableEq, Repr

structure RefreshClaims where
  jti : String
  sub : String
  typ : String
  iss : String
  aud : String
  iat : UInt64
  exp : UInt64
  deriving DecidableEq, Repr

structure RefreshTokenIssue where
  token : String
  record : UserRefreshTokenRecord
  deriving DecidableEq, Repr

/-! ## Claim sets -/

/-- A required string field of a deserialised struct. -/
def Payload.str (p : Payload) (field : String) : Option String :=
  match p.lookup field with
  | some (.str s) => some s
  | _ => none

/-- A required `u64` field of a deserialised struct. -/
def Payload.num (p : Payload) (field : String) : Option UInt64 :=
  match p.lookup field with
  | some (.num n) => some n
  | _ => none

def Claims.serialize (c : Claims) : Payload :=
  [("jti", .str c.jti), ("ret", .str c.ret), ("sub", .str c.sub), ("email", .str c.email),
    ("role", .str c.role), ("iss", .str c.iss), ("aud", .str c.aud), ("iat", .num c.iat),
    ("exp", .num c.exp)]

def Claims.deserialize (p : Payload) : Option Claims := do
  return {
    jti := ← p.str "jti"
    ret := ← p.str "ret"
    sub := ← p.str "sub"
    email := ← p.str "email"
    role := ← p.str "role"
    iss := ← p.str "iss"
    aud := ← p.str "aud"
    iat := ← p.num "iat"
    exp := ← p.num "exp" }

def RefreshClaims.serialize (c : RefreshClaims) : Payload :=
  [("jti", .str c.jti), ("sub", .str c.sub), ("typ", .str c.typ), ("iss", .str c.iss),
    ("aud", .str c.aud), ("iat", .num c.iat), ("exp", .num c.exp)]

def RefreshClaims.deserialize (p : Payload) : Option RefreshClaims := do
  return {
    jti := ← p.str "jti"
    sub := ← p.str "sub"
    typ := ← p.str "typ"
    iss := ← p.str "iss"
    aud := ← p.str "aud"
    iat := ← p.num "iat"
    exp := ← p.num "exp" }

@[simp] theorem Claims.deserialize_serialize (c : Claims) :
    Claims.deserialize c.serialize = some c := rfl

@[simp] theorem RefreshClaims.deserialize_serialize (c : RefreshClaims) :
    RefreshClaims.deserialize c.serialize = some c := rfl

/-- A refresh token is no access token: `ret`, `email` and `role` are missing. -/
theorem Claims.deserialize_refresh (c : RefreshClaims) :
    Claims.deserialize c.serialize = none := rfl

/-- An access token is no refresh token: `typ` is missing. -/
theorem RefreshClaims.deserialize_access (c : Claims) :
    RefreshClaims.deserialize c.serialize = none := rfl

/-! ## Access checks -/

def canAccessWorkspace (user : User) (workspaceId : Uuid) : Bool :=
  user.role = .superAdmin ||
    user.workspaceRoles.any fun role => role.workspaceId = workspaceId

def canAdministerWorkspace (user : User) (workspaceId : Uuid) : Bool :=
  user.role = .superAdmin ||
    user.workspaceRoles.any fun role => role.workspaceId = workspaceId && role.role = .admin

def ensureWorkspaceAccess (user : User) (workspaceId : Uuid) : Service Unit :=
  if canAccessWorkspace user workspaceId then pure () else throwApi .forbidden

def ensureSuperAdmin (user : User) : Service Unit :=
  if user.role = .superAdmin then pure () else throwApi .forbidden

namespace AuthService

variable (x : Ext) (config : Config)

/-! ## Hashing and tokens -/

def hashPassword (password : String) : Service String := do
  let salt ← randomBytes 16
  mapErr (fun error => .internal ("failed to hash password: " ++ error))
    (x.argon2Hash password salt.val)

def verifyPassword (password passwordHash : String) : Service Unit :=
  if x.argon2Verify password passwordHash then pure () else throwApi .unauthorized

def generateInviteToken : Service String := do
  return x.urlSafeEncode (← randomBytes 32).val

def generateApiToken : Service String := do
  return "wara_" ++ x.urlSafeEncode (← randomBytes 32).val

def hashInviteToken (token : String) : String := x.urlSafeEncode (x.sha256 token)

def hashApiToken (token : String) : String := x.urlSafeEncode (x.sha256 token)

def rsaPublicKeyComponents (publicKeyPem : String) : Except ApiError (String × String) :=
  match x.rsaPublicKeyFromPem publicKeyPem with
  | .ok (n, e) => .ok (x.urlSafeEncode n, x.urlSafeEncode e)
  | .error error => .error (.internal ("invalid JWT public key PEM: " ++ error))

def tokenPrefix (token : String) : String := String.ofList (token.toList.take 12)

def inviteLink (appBaseUrl token : String) : String :=
  Rust.trimEndMatches appBaseUrl '/' ++ "/accept-invite?token=" ++ token

def parseRfc3339 (value : String) : Service DateTime :=
  mapErr (fun error => .internal ("invalid timestamp: " ++ error)) (x.parseFromRfc3339 value)

/-- `now + Duration::seconds(ttl as i64)`. -/
def afterSeconds (now : DateTime) (ttl : UInt64) : Service DateTime := do
  let duration ← orPanic (durationSeconds ttl.toInt64.toInt)
  orPanic (now.add duration)

/-! ## Lookups -/

def getUserRecord (id : Uuid) : Service UserRecord := do
  okOr .unauthorized (← first .users (byId id))

def findUserByEmail (email : String) : Service UserRecord := do
  okOr .unauthorized (← first .users (.eq 1 (.text email)))

def ensureWorkspaceExists (id : Uuid) : Service Unit := do
  let _ ← okOr (.notFound "workspace") (← first .workspaces (byId id))

def userFromRecord (record : UserRecord) : Service User := do
  let user := User.from record
  if user.role = .superAdmin then
    return user
  else
    let roles ← query .workspaceUserRoles (.eq 1 (.uuid record.id))
    return { user with workspaceRoles := roles.map WorkspaceRole.from }

def getUser (id : Uuid) : Service User := do
  userFromRecord (← getUserRecord id)

def findOpenInvite (tokenHash : String) : Service UserInviteRecord := do
  let invite ← okOr .unauthorized (← first .userInvites (.eq 2 (.text tokenHash)))
  throwIf (invite.acceptedAt ≠ "") .unauthorized
  return invite

def activeSuperAdminCount : Service Nat := do
  let records ← query .users (.eq 3 (.text Role.superAdmin.asStr))
  return (records.filter fun record => record.status = UserStatus.active.asStr).length

/-- `c && self.active_super_admin_count().await? <= 1`: counted only when `c` holds. -/
def atMostOneActive (c : Prop) [Decidable c] : Service Bool :=
  if c then do return (← activeSuperAdminCount) ≤ 1 else pure false

/-! ## Keys -/

def jwtPublicKeyRecord (keyId : Uuid) : Service JwtPublicKeyRecord := do
  let record ← okOr .unauthorized (← first .jwtPublicKeys (byId keyId))
  throwIf (record.keyType ≠ "RSA" ∨ record.keyUse ≠ "sig" ∨ record.algorithm ≠ "RS256")
    .unauthorized
  return record

/-- `max_by` on `created_at`: the later one of equals. -/
def laterKey (best : Option JwtPublicKeyRecord) (record : JwtPublicKeyRecord) :
    Option JwtPublicKeyRecord :=
  match best with
  | none => some record
  | some b => if record.createdAt < b.createdAt then some b else some record

def latestActive (records : List JwtPublicKeyRecord) : Option JwtPublicKeyRecord :=
  (records.filter (·.isActive)).foldl laterKey none

def activeJwtPublicKeyRecord : Service JwtPublicKeyRecord := do
  let records ← query .jwtPublicKeys .all
  let record ← okOr (.internal "active JWT public key is missing") (latestActive records)
  throwIf (record.keyType ≠ "RSA" ∨ record.keyUse ≠ "sig" ∨ record.algorithm ≠ "RS256")
    (.internal "active JWT public key has invalid JWK metadata")
  return record

def decodingKeyForToken (token : String) : Service DecodingKey := do
  let header ← okOr .unauthorized (x.decodeHeader token)
  let keyId ← okOr .unauthorized header.kid
  let keyId ← okOr .unauthorized (x.uuidParseStr keyId)
  let record ← jwtPublicKeyRecord keyId
  mapErr (fun error => .internal
      ("invalid JWT public key components for " ++ x.uuidToString keyId ++ ": " ++ error))
    (x.decodingKeyFromRsaComponents record.modulus record.exponent)

def syncActiveJwtPublicKey : Service Unit := do
  let key ← orThrow (rsaPublicKeyComponents x config.jwtPublicKey)
  let records ← query .jwtPublicKeys .all
  let matching := records.find? fun record => record.modulus = key.1 && record.exponent = key.2
  let activeKeyId ← unwrapOrElse nowV7 (matching.map (·.id))
  update .jwtPublicKeys (.eq 6 (.bool true)) [(6, .bool false)]
  let existing ← first .jwtPublicKeys (byId activeKeyId)
  if existing.isSome then
    update .jwtPublicKeys (byId activeKeyId) [(1, .text "RSA"), (2, .text "sig"),
      (3, .text "RS256"), (4, .text key.1), (5, .text key.2), (6, .bool true)]
  else
    let createdAt ← now
    let _ ← create (t := .jwtPublicKeys) .handle
      ⟨activeKeyId, "RSA", "sig", "RS256", key.1, key.2, true, x.toRfc3339 createdAt⟩

/-! ## Signing -/

/-- Sign with the configured private key, under the `kid` of the active record. -/
def signWithActiveKey (what : String) (payload : Payload) : Service String := do
  let key ← mapErr (fun error => .internal ("invalid JWT private key: " ++ error))
    (x.encodingKeyFromRsaPem config.jwtPrivateKeyPem)
  let activeKey ← activeJwtPublicKeyRecord
  let header : Header := ⟨some (x.uuidToString activeKey.id)⟩
  mapErr (fun error => .internal ("failed to sign " ++ what ++ ": " ++ error))
    (x.encode header payload key)

def signAccessToken (user : User) (refreshTokenId : Uuid) : Service String := do
  let now ← getCurrentTimestamp
  let jti ← nowV7
  let claims : Claims := {
    jti := x.uuidToString jti
    ret := x.uuidToString refreshTokenId
    sub := x.uuidToString user.id
    email := user.email
    role := user.role.asStr
    iss := config.jwtIssuer
    aud := config.jwtAudience
    iat := now
    exp := now + config.jwtAccessTokenTtlSeconds }
  signWithActiveKey x config "JWT" claims.serialize

def signRefreshToken (refreshTokenId userId : Uuid) (issuedAt expiresAt : DateTime) :
    Service String := do
  let claims : RefreshClaims := {
    jti := x.uuidToString refreshTokenId
    sub := x.uuidToString userId
    typ := "refresh"
    iss := config.jwtIssuer
    aud := config.jwtAudience
    iat := UInt64.ofInt issuedAt.timestamp
    exp := UInt64.ofInt expiresAt.timestamp }
  signWithActiveKey x config "refresh JWT" claims.serialize

def issueRefreshToken (executor : Executor) (userId : Uuid) : Service RefreshTokenIssue := do
  let id ← nowV7
  let now ← now
  let expiresAt ← afterSeconds now config.refreshTokenTtlSeconds
  let record ← create (t := .userRefreshTokens) executor
    ⟨id, userId, x.toRfc3339 now, x.toRfc3339 expiresAt, none⟩
  let token ← signRefreshToken x config id userId now expiresAt
  return ⟨token, record⟩

/-! ## Verifying -/

def validation (required : List String) : Validation :=
  ⟨config.jwtAudience, config.jwtIssuer, required⟩

def verifyAccessToken (token : String) : Service Claims := do
  let key ← decodingKeyForToken x token
  let now ← getCurrentTimestamp
  let payload ← mapErr (fun _ => .unauthorized)
    (x.decode now token key (validation config ["exp", "iss", "aud", "sub"]))
  okOr .unauthorized (Claims.deserialize payload)

def verifyRefreshToken (token : String) : Service RefreshClaims := do
  let key ← decodingKeyForToken x token
  let now ← getCurrentTimestamp
  let payload ← mapErr (fun _ => .unauthorized)
    (x.decode now token key (validation config ["exp", "iss", "aud", "sub", "jti"]))
  let claims ← okOr .unauthorized (RefreshClaims.deserialize payload)
  throwIf (claims.typ ≠ "refresh") .unauthorized
  return claims

def activeRefreshTokenRecord (token : String) : Service UserRefreshTokenRecord := do
  let claims ← verifyRefreshToken x config token
  let tokenId ← okOr .unauthorized (x.uuidParseStr claims.jti)
  let userId ← okOr .unauthorized (x.uuidParseStr claims.sub)
  let record ← okOr .unauthorized (← first .userRefreshTokens (byId tokenId))
  throwIf (record.userId ≠ userId) .unauthorized
  throwIf record.revokedAt.isSome .unauthorized
  let expiresAt ← parseRfc3339 x record.expiresAt
  let now ← now
  throwIf (expiresAt.nanos ≤ now.nanos) .unauthorized
  return record

def authenticateApiToken (token : String) : Service User := do
  throwIf (¬ Rust.startsWith token "wara_") .unauthorized
  let record ← okOr .unauthorized
    (← first .userApiTokens (.eq 3 (.text (hashApiToken x token))))
  throwIf record.revokedAt.isSome .unauthorized
  let userRecord ← getUserRecord record.userId
  throwIf (userRecord.status ≠ UserStatus.active.asStr) .unauthorized
  let now ← now
  update .userApiTokens (byId record.id) [(7, .optText (some (x.toRfc3339 now)))]
  userFromRecord userRecord

def updateUserStatus (userId : Uuid) (status : UserStatus) : Service User := do
  update .users (byId userId) [(4, .text status.asStr)]
  getUser userId

/-! ## Operations -/

def bootstrapAdmin : Service Unit := do
  syncActiveJwtPublicKey x config
  let users ← query .users .all
  if users ≠ [] then
    return
  else
    let passwordHash ← hashPassword x config.bootstrapAdminPassword
    let id ← nowV7
    let _ ← create (t := .users) .handle ⟨id, config.bootstrapAdminEmail,
      config.bootstrapAdminName, Role.superAdmin.asStr, UserStatus.active.asStr, passwordHash⟩

def jwks : Service (List JwtPublicKey) := do
  let records ← query .jwtPublicKeys .all
  let sorted := records.mergeSort fun left right => left.createdAt ≤ right.createdAt
  return sorted.map fun record =>
    ⟨record.keyType, record.keyUse, record.algorithm, x.uuidToString record.id, record.modulus,
      record.exponent⟩

/-- What `login` and `accept_invite` end with. -/
def startSession (user : User) : Service LoginOutput := do
  let refreshToken ← issueRefreshToken x config .handle user.id
  let token ← signAccessToken x config user refreshToken.record.id
  return ⟨token, refreshToken.token, user⟩

def login (input : LoginInput) : Service LoginOutput := do
  let userRecord ← findUserByEmail input.email
  throwIf (userRecord.status ≠ UserStatus.active.asStr) .unauthorized
  throwIf (userRecord.passwordHash = "") .unauthorized
  verifyPassword x input.password userRecord.passwordHash
  let user ← userFromRecord userRecord
  startSession x config user

def inviteUser (input : InviteUserInput) : Service InviteUserOutput := do
  throwIf (input.role = .superAdmin) (.badRequest "super_admin is a global bootstrap-only role")
  throwIf (¬ canAdministerWorkspace input.inviter input.workspaceId) .forbidden
  let found ← attempt (findUserByEmail input.email)
  throwIf found.isOk (.badRequest "user already exists")
  ensureWorkspaceExists input.workspaceId
  let now ← now
  let expiresAt ← afterSeconds now config.inviteTokenTtlSeconds
  let rawToken ← generateInviteToken x
  transaction
  let userRecord ← create (t := .users) .transaction
    ⟨← nowV7, input.email, input.name, Role.viewer.asStr, UserStatus.invited.asStr, ""⟩
  let invite ← create (t := .userInvites) .transaction
    ⟨← nowV7, userRecord.id, hashInviteToken x rawToken, x.toRfc3339 expiresAt, "", x.toRfc3339 now⟩
  let workspaceRole ← create (t := .workspaceUserRoles) .transaction
    ⟨← nowV7, userRecord.id, input.workspaceId, input.role.asStr⟩
  commit [.insert .users userRecord, .insert .userInvites invite,
    .insert .workspaceUserRoles workspaceRole]
  return {
    user := { User.from userRecord with workspaceRoles := [WorkspaceRole.from workspaceRole] }
    inviteLink := inviteLink config.appBaseUrl rawToken
    expiresAt := expiresAt }

def acceptInvite (input : AcceptInviteInput) : Service LoginOutput := do
  let invite ← findOpenInvite (hashInviteToken x input.token)
  let expiresAt ← parseRfc3339 x invite.expiresAt
  let time ← now
  throwIf (expiresAt.nanos < time.nanos) .unauthorized
  let user ← getUserRecord invite.userId
  throwIf (user.status = UserStatus.active.asStr)
    (.badRequest "invite has already been accepted")
  throwIf (user.status = UserStatus.disabled.asStr) .unauthorized
  let passwordHash ← hashPassword x input.password
  update .users (byId invite.userId)
    [(4, .text UserStatus.active.asStr), (5, .text passwordHash)]
  let acceptedAt ← now
  update .userInvites (byId invite.id) [(4, .text (x.toRfc3339 acceptedAt))]
  let user ← getUser invite.userId
  startSession x config user

def refreshSession (input : RefreshSessionInput) : Service LoginOutput := do
  let record ← activeRefreshTokenRecord x config input.refreshToken
  let userRecord ← getUserRecord record.userId
  throwIf (userRecord.status ≠ UserStatus.active.asStr) .unauthorized
  let user ← userFromRecord userRecord
  transaction
  let refreshToken ← issueRefreshToken x config .transaction user.id
  let revokedAt ← now
  let revoke : Write :=
    .update .userRefreshTokens (byId record.id) [(4, .optText (some (x.toRfc3339 revokedAt)))]
  execute revoke .transaction
  commit [.insert .userRefreshTokens refreshToken.record, revoke]
  let token ← signAccessToken x config user refreshToken.record.id
  return ⟨token, refreshToken.token, user⟩

def logout (input : LogoutInput) : Service Unit := do
  let record ← activeRefreshTokenRecord x config input.refreshToken
  let revokedAt ← now
  update .userRefreshTokens (byId record.id) [(4, .optText (some (x.toRfc3339 revokedAt)))]

def authenticateBearer (token : String) : Service User := do
  match ← attempt (verifyAccessToken x config token) with
  | .ok claims =>
    let userId ← okOr .unauthorized (x.uuidParseStr claims.sub)
    let userRecord ← getUserRecord userId
    throwIf (userRecord.status ≠ UserStatus.active.asStr) .unauthorized
    userFromRecord userRecord
  | .error .unauthorized => authenticateApiToken x token
  | .error error => throwApi error

def listUsers : Service (List User) := do
  (← query .users .all).mapM userFromRecord

def disableUser (userId : Uuid) : Service User := do
  let record ← getUserRecord userId
  if record.status = UserStatus.disabled.asStr then
    userFromRecord record
  else
    let last ← atMostOneActive (record.role = Role.superAdmin.asStr)
    throwIf last (.badRequest "cannot disable the last active platform admin")
    updateUserStatus userId .disabled

def reactivateUser (userId : Uuid) : Service User := do
  let record ← getUserRecord userId
  throwIf (record.status ≠ UserStatus.disabled.asStr)
    (.badRequest "only disabled users can be reactivated")
  throwIf (record.passwordHash = "")
    (.badRequest "invited users must accept their invite before reactivation")
  updateUserStatus userId .active

def changeUserRole (input : ChangeUserRoleInput) : Service User := do
  let record ← getUserRecord input.userId
  let last ← atMostOneActive (record.role = Role.superAdmin.asStr ∧ input.role ≠ .superAdmin ∧
    record.status = UserStatus.active.asStr)
  throwIf last (.badRequest "cannot remove the last active platform admin")
  update .users (byId input.userId) [(3, .text input.role.asStr)]
  getUser input.userId

def createApiToken (input : CreateApiTokenInput) : Service CreateApiTokenOutput := do
  let rawToken ← generateApiToken x
  let time ← now
  let id ← nowV7
  let record ← create (t := .userApiTokens) .handle ⟨id, input.user.id, input.name,
    hashApiToken x rawToken, tokenPrefix rawToken, x.toRfc3339 time, none, none⟩
  return ⟨rawToken, record⟩

def listApiTokens (user : User) : Service (List UserApiTokenRecord) := do
  let records ← query .userApiTokens (.eq 1 (.uuid user.id))
  return records.mergeSort fun left right => right.createdAt ≤ left.createdAt

def revokeApiToken (user : User) (tokenId : Uuid) : Service UserApiTokenRecord := do
  let record ← okOr (.notFound "api token") (← first .userApiTokens (byId tokenId))
  throwIf (record.userId ≠ user.id) (.notFound "api token")
  let revokedAt ← unwrapOrElse (x.toRfc3339 <$> now) record.revokedAt
  update .userApiTokens (byId tokenId) [(6, .optText (some revokedAt))]
  okOr (.notFound "api token") (← first .userApiTokens (byId tokenId))

/-! ## Extractors -/

/-- `CurrentUser::from_request_parts`, given the `authorization` header if it is a text. -/
def currentUser (authorization : Option String) : Service User := do
  let token ← okOr .unauthorized (authorization.bind fun value => Rust.stripPrefix value "Bearer ")
  authenticateBearer x config token

/-- `AdminUser::from_request_parts`. -/
def adminUser (authorization : Option String) : Service User := do
  let user ← currentUser x config authorization
  throwIf (user.role ≠ .superAdmin) .forbidden
  return user

end AuthService

end Wara
