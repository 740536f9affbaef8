import Wara.Service.Twins
import Wara.Api.Routes

/-!
# What the authentication service touches

Its calls read and write the tables of accounts; none but an invitation writes a
workspace role. So two states that differ in other tables answer them alike.
-/

namespace Wara

open Interleave Store Service AuthService

def Table.isAccount : Table → Bool
  | .users | .userInvites | .userApiTokens | .workspaceUserRoles | .userRefreshTokens
  | .jwtPublicKeys => true
  | _ => false

/-- A write to an account that gives nobody a role. -/
def Write.OnAccounts (w : Write) : Prop :=
  w.table.isAccount = true ∧ w.table ≠ .workspaceUserRoles

def Op.OnAccounts : Op → Prop
  | .select t _ => t.isAccount = true
  | .write w | .txWrite w => Write.OnAccounts w
  | .commit ws => ∀ w ∈ ws, Write.OnAccounts w
  | _ => True

section accounts

variable {x : Ext} {config : Config}

/-- `y` only issues operations on accounts. -/
abbrev OnAccounts {α : Type} (y : Service α) : Prop := Flow.All Op.OnAccounts y fun _ => True

@[simp] theorem onAccounts_select {t : Table} {f : Filter} :
    Op.OnAccounts (.select t f) ↔ t.isAccount = true := Iff.rfl

@[simp] theorem onAccounts_write {w : Write} :
    Op.OnAccounts (.write w) ↔ w.table.isAccount = true ∧ w.table ≠ .workspaceUserRoles := Iff.rfl

@[simp] theorem onAccounts_txWrite {w : Write} :
    Op.OnAccounts (.txWrite w) ↔ w.table.isAccount = true ∧ w.table ≠ .workspaceUserRoles := Iff.rfl

@[simp] theorem onAccounts_commit {ws : List Write} : Op.OnAccounts (.commit ws) ↔
    ∀ w ∈ ws, w.table.isAccount = true ∧ w.table ≠ .workspaceUserRoles := Iff.rfl

@[simp] theorem onAccounts_begin : Op.OnAccounts .begin := trivial

@[simp] theorem onAccounts_now : Op.OnAccounts .now := trivial

@[simp] theorem onAccounts_newUuid : Op.OnAccounts .newUuid := trivial

@[simp] theorem onAccounts_randomBytes {n : Nat} : Op.OnAccounts (.randomBytes n) := trivial

@[simp] theorem onAccounts_caller {user : User} : Op.OnAccounts (.caller user) := trivial

@[simp] theorem onAccounts_getUserRecord (id : Uuid) : OnAccounts (getUserRecord id) := by
  simp [getUserRecord, Table.isAccount]

@[simp] theorem onAccounts_userFromRecord (record : UserRecord) :
    OnAccounts (userFromRecord record) := by
  simp [userFromRecord, Table.isAccount]

@[simp] theorem onAccounts_hashPassword (password : String) :
    OnAccounts (hashPassword x password) := by
  simp [hashPassword]

@[simp] theorem onAccounts_afterSeconds (t : DateTime) (ttl : UInt64) :
    OnAccounts (afterSeconds t ttl) := by
  simp [afterSeconds]

@[simp] theorem onAccounts_parseRfc3339 (value : String) : OnAccounts (parseRfc3339 x value) := by
  simp [parseRfc3339]

@[simp] theorem onAccounts_getCurrentTimestamp : OnAccounts getCurrentTimestamp := by
  simp [getCurrentTimestamp]

@[simp] theorem onAccounts_decodingKeyForToken (token : String) :
    OnAccounts (decodingKeyForToken x token) := by
  simp [decodingKeyForToken, jwtPublicKeyRecord, Table.isAccount]

@[simp] theorem onAccounts_activeRefreshTokenRecord (token : String) :
    OnAccounts (activeRefreshTokenRecord x config token) := by
  simp [activeRefreshTokenRecord, verifyRefreshToken, Table.isAccount]

@[simp] theorem onAccounts_signWithActiveKey (what : String) (payload : Payload) :
    OnAccounts (signWithActiveKey x config what payload) := by
  simp [signWithActiveKey, activeJwtPublicKeyRecord, Table.isAccount]

@[simp] theorem onAccounts_signAccessToken (user : User) (id : Uuid) :
    OnAccounts (signAccessToken x config user id) := by
  simp [signAccessToken]

@[simp] theorem onAccounts_signRefreshToken (id userId : Uuid) (issuedAt expiresAt : DateTime) :
    OnAccounts (signRefreshToken x config id userId issuedAt expiresAt) := by
  simp [signRefreshToken]

@[simp] theorem onAccounts_issueRefreshToken (e : Executor) (userId : Uuid) :
    OnAccounts (issueRefreshToken x config e userId) := by
  cases e <;> simp [issueRefreshToken, Executor.op, Write.table, Table.isAccount]

@[simp] theorem onAccounts_startSession (user : User) :
    OnAccounts (startSession x config user) := by
  simp [startSession]

/-! ## Operations -/

@[simp] theorem onAccounts_authenticateApiToken (token : String) :
    OnAccounts (authenticateApiToken x token) := by
  simp [authenticateApiToken, Write.table, Table.isAccount]

@[simp] theorem onAccounts_authenticateBearer (token : String) :
    OnAccounts (authenticateBearer x config token) := by
  have hclaims : OnAccounts (attempt (verifyAccessToken x config token)) :=
    (all_attempt fun _ => trivial).mpr (by simp [verifyAccessToken])
  unfold authenticateBearer
  refine Flow.all_bind.mpr (hclaims.mono (fun _ h => h) fun r _ => ?_)
  split <;> simp

theorem onAccounts_jwks : OnAccounts (jwks x) := by
  simp [jwks, Table.isAccount]

theorem onAccounts_login (input : LoginInput) : OnAccounts (login x config input) := by
  simp [login, findUserByEmail, verifyPassword, Table.isAccount]

theorem onAccounts_acceptInvite (input : AcceptInviteInput) :
    OnAccounts (acceptInvite x config input) := by
  simp [acceptInvite, findOpenInvite, getUser, Write.table, Table.isAccount]

theorem onAccounts_refreshSession (input : RefreshSessionInput) :
    OnAccounts (refreshSession x config input) := by
  simp [refreshSession, Executor.op, Write.table, Table.isAccount]

theorem onAccounts_logout (input : LogoutInput) : OnAccounts (logout x config input) := by
  simp [logout, Write.table, Table.isAccount]

theorem onAccounts_createApiToken (input : CreateApiTokenInput) :
    OnAccounts (createApiToken x input) := by
  simp [createApiToken, generateApiToken, Executor.op, Write.table, Table.isAccount]

theorem onAccounts_listApiTokens (user : User) : OnAccounts (listApiTokens user) := by
  simp [listApiTokens, Table.isAccount]

theorem onAccounts_revokeApiToken (user : User) (tokenId : Uuid) :
    OnAccounts (revokeApiToken x user tokenId) := by
  simp [revokeApiToken, Write.table, Table.isAccount]

end accounts

/-! ## Alike on accounts -/

section blind

variable {K : Comparison}

/-- Rows of accounts are alike if they are the same, and writing them keeps what is known. -/
structure SameAccounts (K : Comparison) : Prop where
  rows : ∀ {t : Table}, t.isAccount = true → ∀ {r r' : Row t}, K.likeness.rel r r' ↔ r' = r
  keeps : ∀ {ws : List Write} {db d : Db}, (∀ w ∈ ws, Write.OnAccounts w) →
    layout.applyAll ws db = some d → K.known db → K.known d

theorem SameAccounts.writes (h : SameAccounts K) {w : Write} (hw : w.table.isAccount = true) :
    K.likeness.Writes w w := by
  cases w with
  | insert t r => exact .insert ((h.rows hw).mpr rfl)
  | update t f sets =>
    refine .update (fun r r' hr => ?_) fun r r' hr => ?_
    · rw [(h.rows hw).mp hr]
    · rw [(h.rows hw).mp hr]
      exact (h.rows hw).mpr rfl

theorem SameAccounts.blind (h : SameAccounts K) {o : Op} (ho : o.OnAccounts) : o.Blind K := by
  have hws : ∀ ws : List Write, (∀ w ∈ ws, Write.OnAccounts w) → Parallel K ws ws :=
    fun ws hall => ⟨List.forall₂_same.mpr fun w hw => h.writes (hall w hw).1,
      fun _ _ => h.keeps hall⟩
  cases o with
  | select t f =>
    intro r r' hr
    obtain rfl := (h.rows ho).mp hr
    exact ⟨rfl, fun _ => rfl⟩
  | write w => exact hws [w] fun w' hw' => List.mem_singleton.mp hw' ▸ ho
  | txWrite w => exact h.writes ho.1
  | commit ws => exact hws ws ho
  | _ => trivial

/-- A call on accounts does not tell such states apart. -/
theorem SameAccounts.agree (h : SameAccounts K) {α : Type} {y : Service α} (hy : OnAccounts y) :
    Agree K y y fun a a' => a' = a :=
  (agree_blind (Flow.All.mono hy (fun _ ho => h.blind ho) fun _ h => h)).mono fun _ _ h => h.1

end blind

end Wara
