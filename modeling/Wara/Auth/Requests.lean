import Wara.Auth.Service
import Wara.Service.Rules

/-!
# Requests of the authentication service

The public operations as one type, a call of any of them by an instance with its
own configuration, and a pool of calls. `Changes` lists the statements of
`auth.rs` that change the database, one constructor per statement, with the
request they belong to; `AuthRequest.serve_issues` says that there are no others.
-/

namespace Wara

open Interleave Service AuthService

inductive AuthRequest where
  | bootstrapAdmin
  | jwks
  | login (input : LoginInput)
  | inviteUser (input : InviteUserInput)
  | acceptInvite (input : AcceptInviteInput)
  | refreshSession (input : RefreshSessionInput)
  | logout (input : LogoutInput)
  | authenticateBearer (token : String)
  | listUsers
  | disableUser (userId : Uuid)
  | reactivateUser (userId : Uuid)
  | changeUserRole (input : ChangeUserRoleInput)
  | createApiToken (input : CreateApiTokenInput)
  | listApiTokens (user : User)
  | revokeApiToken (user : User) (tokenId : Uuid)
  deriving DecidableEq, Repr

inductive AuthReply where
  | done
  | jwks (keys : List JwtPublicKey)
  | session (output : LoginOutput)
  | invited (output : InviteUserOutput)
  | user (user : User)
  | users (users : List User)
  | apiToken (output : CreateApiTokenOutput)
  | apiTokens (tokens : List UserApiTokenRecord)
  | apiTokenRecord (token : UserApiTokenRecord)
  deriving DecidableEq, Repr

def AuthRequest.serve (x : Ext) (config : Config) : AuthRequest → Service AuthReply
  | .bootstrapAdmin => (fun _ => .done) <$> AuthService.bootstrapAdmin x config
  | .jwks => .jwks <$> AuthService.jwks x
  | .login input => .session <$> AuthService.login x config input
  | .inviteUser input => .invited <$> AuthService.inviteUser x config input
  | .acceptInvite input => .session <$> AuthService.acceptInvite x config input
  | .refreshSession input => .session <$> AuthService.refreshSession x config input
  | .logout input => (fun _ => .done) <$> AuthService.logout x config input
  | .authenticateBearer token => .user <$> AuthService.authenticateBearer x config token
  | .listUsers => .users <$> AuthService.listUsers
  | .disableUser userId => .user <$> AuthService.disableUser userId
  | .reactivateUser userId => .user <$> AuthService.reactivateUser userId
  | .changeUserRole input => .user <$> AuthService.changeUserRole input
  | .createApiToken input => .apiToken <$> AuthService.createApiToken x input
  | .listApiTokens user => .apiTokens <$> AuthService.listApiTokens user
  | .revokeApiToken user tokenId =>
    .apiTokenRecord <$> AuthService.revokeApiToken x user tokenId

/-- A request and the configuration of the instance that serves it. -/
structure Call where
  config : Config
  request : AuthRequest
  deriving DecidableEq, Repr

abbrev Call.prog (x : Ext) (c : Call) : Prog Res (Except Abort AuthReply) :=
  c.request.serve x c.config

abbrev AuthPool := Pool Res World (Except Abort AuthReply)

def AuthPool.of (x : Ext) (calls : List Call) (w : World) : AuthPool :=
  ⟨calls.map (Call.prog x), w⟩

/-- The request of thread `i` has been served with a reply. -/
def AuthPool.Succeeded (P : AuthPool) (i : Nat) : Prop :=
  ∃ reply, P.threads[i]? = some (.ret (.ok reply))

instance (P : AuthPool) (i : Nat) : Decidable (P.Succeeded i) :=
  match h : P.threads[i]? with
  | some (.ret (.ok reply)) => .isTrue ⟨reply, h⟩
  | some (.ret (.error _)) => .isFalse fun ⟨_, hr⟩ => by rw [h] at hr; cases hr
  | some (.op _ _) => .isFalse fun ⟨_, hr⟩ => by rw [h] at hr; cases hr
  | none => .isFalse fun ⟨_, hr⟩ => by rw [h] at hr; cases hr

/-- The session of thread `i`, if it ended with one. -/
def AuthPool.sessionOf (P : AuthPool) (i : Nat) : Option LoginOutput :=
  match P.threads[i]? with
  | some (.ret (.ok (.session output))) => some output
  | _ => none

theorem AuthPool.ended_of_sessionOf {P : AuthPool} {i : Nat} {output : LoginOutput}
    (h : P.sessionOf i = some output) :
    P.threads[i]? = some (.ret (.ok (.session output))) := by
  unfold sessionOf at h
  split at h
  · next ht => cases h; exact ht
  · cases h

/-! ## The statements that change the database -/

abbrev disableWrite (userId : Uuid) : Write :=
  .update .users (byId userId) [(4, .text UserStatus.disabled.asStr)]

abbrev reactivateWrite (userId : Uuid) : Write :=
  .update .users (byId userId) [(4, .text UserStatus.active.asStr)]

abbrev changeRoleWrite (userId : Uuid) (role : Role) : Write :=
  .update .users (byId userId) [(3, .text role.asStr)]

abbrev acceptWrite (userId : Uuid) (passwordHash : String) : Write :=
  .update .users (byId userId) [(4, .text UserStatus.active.asStr), (5, .text passwordHash)]

abbrev revokeWrite (id : Uuid) (revokedAt : String) : Write :=
  .update .userRefreshTokens (byId id) [(4, .optText (some revokedAt))]

/-- The platform admin as bootstrapped. -/
abbrev newAdmin (id : Uuid) (email name passwordHash : String) : UserRecord :=
  ⟨id, email, name, Role.superAdmin.asStr, UserStatus.active.asStr, passwordHash⟩

/-- A user as invited, without a password. -/
abbrev newInvited (id : Uuid) (input : InviteUserInput) : UserRecord :=
  ⟨id, input.email, input.name, Role.viewer.asStr, UserStatus.invited.asStr, ""⟩

/-- A refresh token as it is issued, not revoked. -/
abbrev newRefreshToken (id userId : Uuid) (createdAt expiresAt : String) : UserRefreshTokenRecord :=
  ⟨id, userId, createdAt, expiresAt, none⟩

/-- `passwordHash` is what hashing the password gives under some salt. -/
def IsHash (x : Ext) (password passwordHash : String) : Prop :=
  ∃ salt : Bytes 16, x.argon2Hash password salt.val = .ok passwordHash

inductive Changes (x : Ext) : AuthRequest → Op → Prop
  | deactivateKeys : Changes x .bootstrapAdmin
      (.write (.update .jwtPublicKeys (.eq 6 (.bool true)) [(6, .bool false)]))
  | activateKey (id : Uuid) (modulus exponent : String) : Changes x .bootstrapAdmin
      (.write (.update .jwtPublicKeys (byId id) [(1, .text "RSA"), (2, .text "sig"),
        (3, .text "RS256"), (4, .text modulus), (5, .text exponent), (6, .bool true)]))
  | createKey (id : Uuid) (modulus exponent createdAt : String) : Changes x .bootstrapAdmin
      (.write (.insert .jwtPublicKeys
        ⟨id, "RSA", "sig", "RS256", modulus, exponent, true, createdAt⟩))
  | createAdmin (id : Uuid) (email name password passwordHash : String)
      (hash : IsHash x password passwordHash) : Changes x .bootstrapAdmin
      (.write (.insert .users (newAdmin id email name passwordHash)))
  | login (input : LoginInput) (id userId : Uuid) (createdAt expiresAt : String) :
      Changes x (.login input)
        (.write (.insert .userRefreshTokens (newRefreshToken id userId createdAt expiresAt)))
  | invite (input : InviteUserInput) (hrole : input.role ≠ .superAdmin)
      (hadmin : canAdministerWorkspace input.inviter input.workspaceId = true)
      (userId inviteId roleId : Uuid) (raw : Bytes 32) (expiresAt createdAt : String) :
      Changes x (.inviteUser input) (.commit [
        .insert .users (newInvited userId input),
        .insert .userInvites ⟨inviteId, userId, hashInviteToken x (x.urlSafeEncode raw.val),
          expiresAt, "", createdAt⟩,
        .insert .workspaceUserRoles ⟨roleId, userId, input.workspaceId, input.role.asStr⟩])
  | acceptUser (input : AcceptInviteInput) (userId : Uuid) (passwordHash : String)
      (hash : IsHash x input.password passwordHash) :
      Changes x (.acceptInvite input) (.write (acceptWrite userId passwordHash))
  | acceptInvite (input : AcceptInviteInput) (id : Uuid) (acceptedAt : DateTime) :
      Changes x (.acceptInvite input)
        (.write (.update .userInvites (byId id) [(4, .text (x.toRfc3339 acceptedAt))]))
  | acceptLogin (input : AcceptInviteInput) (id userId : Uuid) (createdAt expiresAt : String) :
      Changes x (.acceptInvite input)
        (.write (.insert .userRefreshTokens (newRefreshToken id userId createdAt expiresAt)))
  | refresh (input : RefreshSessionInput) (id userId old : Uuid)
      (createdAt expiresAt revokedAt : String) :
      Changes x (.refreshSession input) (.commit [
        .insert .userRefreshTokens (newRefreshToken id userId createdAt expiresAt),
        revokeWrite old revokedAt])
  | logout (input : LogoutInput) (id : Uuid) (revokedAt : String) :
      Changes x (.logout input) (.write (revokeWrite id revokedAt))
  | useApiToken (token : String) (id : Uuid) (lastUsedAt : String) :
      Changes x (.authenticateBearer token)
        (.write (.update .userApiTokens (byId id) [(7, .optText (some lastUsedAt))]))
  | disable (userId : Uuid) : Changes x (.disableUser userId) (.write (disableWrite userId))
  | reactivate (userId : Uuid) :
      Changes x (.reactivateUser userId) (.write (reactivateWrite userId))
  | changeRole (input : ChangeUserRoleInput) :
      Changes x (.changeUserRole input) (.write (changeRoleWrite input.userId input.role))
  | createApiToken (input : CreateApiTokenInput) (id : Uuid) (raw : Bytes 32)
      (createdAt : String) :
      Changes x (.createApiToken input) (.write (.insert .userApiTokens
        ⟨id, input.user.id, input.name, hashApiToken x ("wara_" ++ x.urlSafeEncode raw.val),
          tokenPrefix ("wara_" ++ x.urlSafeEncode raw.val), createdAt, none, none⟩))
  | revokeApiToken (user : User) (id : Uuid) (revokedAt : String) :
      Changes x (.revokeApiToken user id)
        (.write (.update .userApiTokens (byId id) [(6, .optText (some revokedAt))]))

/-! ## There are no others -/

/-- An operation of the request that writes is one of its statements. -/
def AuthRequest.CanIssue (x : Ext) (q : AuthRequest) (o : Op) : Prop :=
  o.writes = [] ∨ Changes x q o

theorem Changes.canIssue {x : Ext} {q : AuthRequest} {o : Op} (h : Changes x q o) :
    q.CanIssue x o := .inr h

section issues

variable {x : Ext} {config : Config} {q : AuthRequest}

instance : AboutWrites (q.CanIssue x) := ⟨fun _ => .inl⟩

/-- `y` only issues what `q` can issue. -/
abbrev AuthRequest.Covers (x : Ext) (q : AuthRequest) {α : Type} (y : Service α) : Prop :=
  Flow.All (q.CanIssue x) y fun _ => True

-- The functions that only read, for every request that calls them.

@[simp] theorem covers_getUserRecord (id : Uuid) : q.Covers x (getUserRecord id) := by
  simp [getUserRecord]

@[simp] theorem covers_findUserByEmail (email : String) : q.Covers x (findUserByEmail email) := by
  simp [findUserByEmail]

@[simp] theorem covers_ensureWorkspaceExists (id : Uuid) :
    q.Covers x (ensureWorkspaceExists id) := by
  simp [ensureWorkspaceExists]

@[simp] theorem covers_userFromRecord (record : UserRecord) :
    q.Covers x (userFromRecord record) := by
  simp [userFromRecord]

@[simp] theorem covers_getUser (id : Uuid) : q.Covers x (getUser id) := by
  simp [getUser]

@[simp] theorem covers_findOpenInvite (tokenHash : String) :
    q.Covers x (findOpenInvite tokenHash) := by
  simp [findOpenInvite]

@[simp] theorem covers_atMostOneActive (c : Prop) [Decidable c] :
    q.Covers x (atMostOneActive c) := by
  simp [atMostOneActive, activeSuperAdminCount]

@[simp] theorem covers_afterSeconds (t : DateTime) (ttl : UInt64) :
    q.Covers x (afterSeconds t ttl) := by
  simp [afterSeconds]

@[simp] theorem covers_parseRfc3339 (value : String) : q.Covers x (parseRfc3339 x value) := by
  simp [parseRfc3339]

@[simp] theorem covers_verifyPassword (password passwordHash : String) :
    q.Covers x (verifyPassword x password passwordHash) := by
  simp [verifyPassword]

@[simp] theorem all_hashPassword (password : String) {Q : String → Prop} :
    Flow.All (q.CanIssue x) (hashPassword x password) Q ↔
      ∀ hash, IsHash x password hash → Q hash := by
  simp only [hashPassword, Flow.all_bind, all_randomBytes_of_writes, all_mapErr, IsHash]
  exact ⟨fun h hash hh => by obtain ⟨salt, hh⟩ := hh; exact h salt hash hh,
    fun h salt hash hh => h hash ⟨salt, hh⟩⟩

@[simp] theorem covers_getCurrentTimestamp : q.Covers x getCurrentTimestamp := by
  simp [getCurrentTimestamp]

@[simp] theorem covers_decodingKeyForToken (token : String) :
    q.Covers x (decodingKeyForToken x token) := by
  simp [decodingKeyForToken, jwtPublicKeyRecord]

@[simp] theorem covers_verifyAccessToken (token : String) :
    q.Covers x (verifyAccessToken x config token) := by
  simp [verifyAccessToken]

@[simp] theorem covers_activeRefreshTokenRecord (token : String) :
    q.Covers x (activeRefreshTokenRecord x config token) := by
  simp [activeRefreshTokenRecord, verifyRefreshToken]

@[simp] theorem covers_signWithActiveKey (what : String) (payload : Payload) :
    q.Covers x (signWithActiveKey x config what payload) := by
  simp [signWithActiveKey, activeJwtPublicKeyRecord]

@[simp] theorem covers_signAccessToken (user : User) (id : Uuid) :
    q.Covers x (signAccessToken x config user id) := by
  simp [signAccessToken]

@[simp] theorem covers_signRefreshToken (id userId : Uuid) (issuedAt expiresAt : DateTime) :
    q.Covers x (signRefreshToken x config id userId issuedAt expiresAt) := by
  simp [signRefreshToken]

theorem covers_mapM {α β : Type} {f : α → Service β} (h : ∀ a, q.Covers x (f a)) (as : List α) :
    q.Covers x (as.mapM f) := by
  induction as with
  | nil => simp
  | cons a as ih => simp [h, ih]

/-- A token is recorded as it is issued, and signed for the record. -/
theorem all_issueRefreshToken {e : Executor} {userId : Uuid} {Q : RefreshTokenIssue → Prop}
    (hw : ∀ id createdAt expiresAt, q.CanIssue x
      (e.op (.insert .userRefreshTokens (newRefreshToken id userId createdAt expiresAt))))
    (hQ : ∀ token id createdAt expiresAt, Q ⟨token, newRefreshToken id userId createdAt expiresAt⟩) :
    Flow.All (q.CanIssue x) (issueRefreshToken x config e userId) Q := by
  unfold issueRefreshToken
  simp only [Flow.all_bind, all_nowV7_of_writes, all_now_of_writes, all_create]
  intro id t
  refine (covers_afterSeconds t _).mono (fun _ h => h) fun expiresAt _ => ⟨hw .., ?_⟩
  exact (covers_signRefreshToken id userId t expiresAt).mono (fun _ h => h) fun token _ =>
    Flow.all_pure.mpr (hQ ..)

theorem covers_startSession {user : User} (hw : ∀ id createdAt expiresAt, q.CanIssue x
      (.write (.insert .userRefreshTokens (newRefreshToken id user.id createdAt expiresAt)))) :
    q.Covers x (startSession x config user) := by
  unfold startSession
  rw [AuthRequest.Covers, Flow.all_bind]
  exact all_issueRefreshToken hw fun _ _ _ _ => by simp

@[simp] theorem covers_attempt {α : Type} {y : Service α} (h : q.Covers x y) :
    q.Covers x (attempt y) :=
  (all_attempt fun _ => trivial).mpr h

theorem covers_bootstrapAdmin :
    AuthRequest.bootstrapAdmin.Covers x (bootstrapAdmin x config) := by
  have hd := (Changes.deactivateKeys (x := x)).canIssue
  have ha := fun id m e => (Changes.activateKey (x := x) id m e).canIssue
  have hk := fun id m e t => (Changes.createKey (x := x) id m e t).canIssue
  have hu := fun id m e h hash =>
    (Changes.createAdmin (x := x) id m e config.bootstrapAdminPassword h hash).canIssue
  simp +contextual [bootstrapAdmin, syncActiveJwtPublicKey, Executor.op, hd, ha, hk, hu]

theorem covers_login (input : LoginInput) :
    (AuthRequest.login input).Covers x (login x config input) := by
  have hs : ∀ user, (AuthRequest.login input).Covers x (startSession x config user) :=
    fun user => covers_startSession fun _ _ _ => (Changes.login ..).canIssue
  simp [login, hs]

theorem covers_inviteUser (input : InviteUserInput) :
    (AuthRequest.inviteUser input).Covers x (inviteUser x config input) := by
  unfold inviteUser
  simp only [AuthRequest.Covers, Flow.all_bind, all_throwIf, not_not]
  intro hrole hadmin
  have hw := fun u i r h e c => (Changes.invite (x := x) input hrole hadmin u i r h e c).canIssue
  simp [generateInviteToken, hw]

theorem covers_acceptInvite (input : AcceptInviteInput) :
    (AuthRequest.acceptInvite input).Covers x (acceptInvite x config input) := by
  have hs : ∀ user, (AuthRequest.acceptInvite input).Covers x (startSession x config user) :=
    fun user => covers_startSession fun _ _ _ => (Changes.acceptLogin ..).canIssue
  have hu := fun u h hash => (Changes.acceptUser (x := x) input u h hash).canIssue
  have hi := fun i t => (Changes.acceptInvite (x := x) input i t).canIssue
  simp +contextual [acceptInvite, hs, hu, hi]

theorem covers_refreshSession (input : RefreshSessionInput) :
    (AuthRequest.refreshSession input).Covers x (refreshSession x config input) := by
  have hi : ∀ userId Q, (∀ token id createdAt expiresAt,
      Q ⟨token, newRefreshToken id userId createdAt expiresAt⟩) →
      Flow.All ((AuthRequest.refreshSession input).CanIssue x)
        (issueRefreshToken x config .transaction userId) Q :=
    fun userId Q hQ => all_issueRefreshToken (fun _ _ _ => .inl rfl) hQ
  have hw := fun i u o c e r => (Changes.refresh (x := x) input i u o c e r).canIssue
  simp [refreshSession, hi, hw]

theorem covers_logout (input : LogoutInput) :
    (AuthRequest.logout input).Covers x (logout x config input) := by
  have hw := fun i r => (Changes.logout (x := x) input i r).canIssue
  simp [logout, hw]

theorem covers_authenticateBearer (token : String) :
    (AuthRequest.authenticateBearer token).Covers x (authenticateBearer x config token) := by
  have hw := fun i t => (Changes.useApiToken (x := x) token i t).canIssue
  have ht : (AuthRequest.authenticateBearer token).Covers x (authenticateApiToken x token) := by
    simp [authenticateApiToken, hw]
  unfold authenticateBearer
  rw [AuthRequest.Covers, Flow.all_bind]
  refine (covers_attempt (covers_verifyAccessToken token)).mono (fun _ h => h) fun r _ => ?_
  split
  · simp
  · exact ht
  · simp

theorem covers_updateUserStatus {userId : Uuid} {status : UserStatus}
    (hw : q.CanIssue x (.write (.update .users (byId userId) [(4, .text status.asStr)]))) :
    q.Covers x (updateUserStatus userId status) := by
  simp [updateUserStatus, hw]

theorem covers_disableUser (userId : Uuid) :
    (AuthRequest.disableUser userId).Covers x (disableUser userId) := by
  simp [disableUser, covers_updateUserStatus (Changes.disable userId).canIssue]

theorem covers_reactivateUser (userId : Uuid) :
    (AuthRequest.reactivateUser userId).Covers x (reactivateUser userId) := by
  simp [reactivateUser, covers_updateUserStatus (Changes.reactivate userId).canIssue]

theorem covers_changeUserRole (input : ChangeUserRoleInput) :
    (AuthRequest.changeUserRole input).Covers x (changeUserRole input) := by
  simp [changeUserRole, (Changes.changeRole (x := x) input).canIssue]

theorem covers_createApiToken (input : CreateApiTokenInput) :
    (AuthRequest.createApiToken input).Covers x (createApiToken x input) := by
  have hw := fun i k t => (Changes.createApiToken (x := x) input i k t).canIssue
  simp [createApiToken, generateApiToken, Executor.op, hw]

theorem covers_revokeApiToken (user : User) (tokenId : Uuid) :
    (AuthRequest.revokeApiToken user tokenId).Covers x (revokeApiToken x user tokenId) := by
  have hw := fun t => (Changes.revokeApiToken (x := x) user tokenId t).canIssue
  simp [revokeApiToken, hw]

/-- **Completeness of `Changes`.** A request writes by its listed statements only. -/
theorem AuthRequest.covers_serve (q : AuthRequest) : q.Covers x (q.serve x config) := by
  cases q with
  | bootstrapAdmin => simpa [serve] using covers_bootstrapAdmin
  | jwks => simp [serve, AuthService.jwks]
  | login input => simpa [serve] using covers_login input
  | inviteUser input => simpa [serve] using covers_inviteUser input
  | acceptInvite input => simpa [serve] using covers_acceptInvite input
  | refreshSession input => simpa [serve] using covers_refreshSession input
  | logout input => simpa [serve] using covers_logout input
  | authenticateBearer token => simpa [serve] using covers_authenticateBearer token
  | listUsers => simp [serve, AuthService.listUsers, covers_mapM covers_userFromRecord]
  | disableUser userId => simpa [serve] using covers_disableUser userId
  | reactivateUser userId => simpa [serve] using covers_reactivateUser userId
  | changeUserRole input => simpa [serve] using covers_changeUserRole input
  | createApiToken input => simpa [serve] using covers_createApiToken input
  | listApiTokens user => simp [serve, AuthService.listApiTokens]
  | revokeApiToken user tokenId => simpa [serve] using covers_revokeApiToken user tokenId

end issues

end Wara
