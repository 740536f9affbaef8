import Wara.Models
import Wara.Store.Table
import Wara.Interleave.Prog

/-!
# The database and its statements

The Toasty schema as a `Store.Layout` (columns in struct order, so positional
updates mean what they mean in the source), and the operations a service call
issues: statements, transactions, and reads of the clock, the identifier
generator and the random source. `exec` is one atomic operation, read committed:
writes of a transaction take effect together at `commit`, on the rows that are
there then.
-/

namespace Wara

open Store Interleave

inductive Table where
  | workspaces
  | environments
  | servers
  | appServices
  | dockerCredentials
  | envVars
  | domains
  | deployments
  | workspaceTemplates
  | users
  | userInvites
  | userApiTokens
  | workspaceUserRoles
  | userRefreshTokens
  | jwtPublicKeys
  deriving DecidableEq, Repr

abbrev Row : Table → Type
  | .workspaces => Workspace
  | .environments => Environment
  | .servers => ServerRecord
  | .appServices => AppServiceRecord
  | .dockerCredentials => DockerCredentialRecord
  | .envVars => EnvVarRecord
  | .domains => DomainRecord
  | .deployments => DeploymentRecord
  | .workspaceTemplates => WorkspaceTemplateRecord
  | .users => UserRecord
  | .userInvites => UserInviteRecord
  | .userApiTokens => UserApiTokenRecord
  | .workspaceUserRoles => WorkspaceUserRoleRecord
  | .userRefreshTokens => UserRefreshTokenRecord
  | .jwtPublicKeys => JwtPublicKeyRecord

inductive Value where
  | uuid (u : Uuid)
  | text (s : String)
  | bool (b : Bool)
  | u16 (n : UInt16)
  | optText (s : Option String)
  | optUuid (u : Option Uuid)
  | optU16 (n : Option UInt16)
  deriving DecidableEq, Repr

def rowCols : {t : Table} → Row t → List Value
  | .workspaces, r => [.uuid r.id, .text r.name, .optText r.description]
  | .environments, r => [.uuid r.id, .uuid r.workspaceId, .text r.name]
  | .servers, r => [.uuid r.id, .text r.name, .text r.host, .u16 r.port, .text r.username,
      .text r.publicKey, .text r.privateKeyFingerprint, .text r.encryptedPrivateKey,
      .optText r.encryptedPrivateKeyPassphrase, .text r.defaultProxy, .text r.dockerStatus,
      .text r.dockerVersion, .text r.lastCheckAt, .text r.lastCheckError]
  | .appServices, r => [.uuid r.id, .uuid r.workspaceId, .uuid r.environmentId, .text r.name,
      .text r.deployKind, .optText r.image, .optText r.composeFile, .optText r.dockerfile,
      .optU16 r.internalPort]
  | .dockerCredentials, r => [.uuid r.id, .uuid r.workspaceId, .text r.registry, .text r.username,
      .text r.encryptedPassword]
  | .envVars, r => [.uuid r.id, .uuid r.workspaceId, .optUuid r.environmentId,
      .optUuid r.serviceId, .text r.key, .text r.encryptedValue]
  | .domains, r => [.uuid r.id, .uuid r.serviceId, .text r.hostname, .text r.proxy,
      .bool r.tlsEnabled]
  | .deployments, r => [.uuid r.id, .uuid r.serviceId, .text r.status, .text r.workflowId,
      .text r.output, .text r.createdAt]
  | .workspaceTemplates, r => [.uuid r.id, .uuid r.sourceWorkspaceId, .text r.name,
      .optText r.description]
  | .users, r => [.uuid r.id, .text r.email, .text r.name, .text r.role, .text r.status,
      .text r.passwordHash]
  | .userInvites, r => [.uuid r.id, .uuid r.userId, .text r.tokenHash, .text r.expiresAt,
      .text r.acceptedAt, .text r.createdAt]
  | .userApiTokens, r => [.uuid r.id, .uuid r.userId, .text r.name, .text r.tokenHash,
      .text r.tokenPrefix, .text r.createdAt, .optText r.revokedAt, .optText r.lastUsedAt]
  | .workspaceUserRoles, r => [.uuid r.id, .uuid r.userId, .uuid r.workspaceId, .text r.role]
  | .userRefreshTokens, r => [.uuid r.id, .uuid r.userId, .text r.createdAt, .text r.expiresAt,
      .optText r.revokedAt]
  | .jwtPublicKeys, r => [.uuid r.id, .text r.keyType, .text r.keyUse, .text r.algorithm,
      .text r.modulus, .text r.exponent, .bool r.isActive, .text r.createdAt]

def rowOfCols : {t : Table} → List Value → Option (Row t)
  | .workspaces, vs => match vs with
    | [.uuid id, .text name, .optText description] => some ⟨id, name, description⟩
    | _ => none
  | .environments, vs => match vs with
    | [.uuid id, .uuid workspaceId, .text name] => some ⟨id, workspaceId, name⟩
    | _ => none
  | .servers, vs => match vs with
    | [.uuid id, .text name, .text host, .u16 port, .text username, .text publicKey,
        .text privateKeyFingerprint, .text encryptedPrivateKey,
        .optText encryptedPrivateKeyPassphrase, .text defaultProxy, .text dockerStatus,
        .text dockerVersion, .text lastCheckAt, .text lastCheckError] =>
      some ⟨id, name, host, port, username, publicKey, privateKeyFingerprint,
        encryptedPrivateKey, encryptedPrivateKeyPassphrase, defaultProxy, dockerStatus,
        dockerVersion, lastCheckAt, lastCheckError⟩
    | _ => none
  | .appServices, vs => match vs with
    | [.uuid id, .uuid workspaceId, .uuid environmentId, .text name, .text deployKind,
        .optText image, .optText composeFile, .optText dockerfile, .optU16 internalPort] =>
      some ⟨id, workspaceId, environmentId, name, deployKind, image, composeFile, dockerfile,
        internalPort⟩
    | _ => none
  | .dockerCredentials, vs => match vs with
    | [.uuid id, .uuid workspaceId, .text registry, .text username, .text encryptedPassword] =>
      some ⟨id, workspaceId, registry, username, encryptedPassword⟩
    | _ => none
  | .envVars, vs => match vs with
    | [.uuid id, .uuid workspaceId, .optUuid environmentId, .optUuid serviceId, .text key,
        .text encryptedValue] =>
      some ⟨id, workspaceId, environmentId, serviceId, key, encryptedValue⟩
    | _ => none
  | .domains, vs => match vs with
    | [.uuid id, .uuid serviceId, .text hostname, .text proxy, .bool tlsEnabled] =>
      some ⟨id, serviceId, hostname, proxy, tlsEnabled⟩
    | _ => none
  | .deployments, vs => match vs with
    | [.uuid id, .uuid serviceId, .text status, .text workflowId, .text output,
        .text createdAt] =>
      some ⟨id, serviceId, status, workflowId, output, createdAt⟩
    | _ => none
  | .workspaceTemplates, vs => match vs with
    | [.uuid id, .uuid sourceWorkspaceId, .text name, .optText description] =>
      some ⟨id, sourceWorkspaceId, name, description⟩
    | _ => none
  | .users, vs => match vs with
    | [.uuid id, .text email, .text name, .text role, .text status, .text passwordHash] =>
      some ⟨id, email, name, role, status, passwordHash⟩
    | _ => none
  | .userInvites, vs => match vs with
    | [.uuid id, .uuid userId, .text tokenHash, .text expiresAt, .text acceptedAt,
        .text createdAt] =>
      some ⟨id, userId, tokenHash, expiresAt, acceptedAt, createdAt⟩
    | _ => none
  | .userApiTokens, vs => match vs with
    | [.uuid id, .uuid userId, .text name, .text tokenHash, .text tokenPrefix, .text createdAt,
        .optText revokedAt, .optText lastUsedAt] =>
      some ⟨id, userId, name, tokenHash, tokenPrefix, createdAt, revokedAt, lastUsedAt⟩
    | _ => none
  | .workspaceUserRoles, vs => match vs with
    | [.uuid id, .uuid userId, .uuid workspaceId, .text role] =>
      some ⟨id, userId, workspaceId, role⟩
    | _ => none
  | .userRefreshTokens, vs => match vs with
    | [.uuid id, .uuid userId, .text createdAt, .text expiresAt, .optText revokedAt] =>
      some ⟨id, userId, createdAt, expiresAt, revokedAt⟩
    | _ => none
  | .jwtPublicKeys, vs => match vs with
    | [.uuid id, .text keyType, .text keyUse, .text algorithm, .text modulus, .text exponent,
        .bool isActive, .text createdAt] =>
      some ⟨id, keyType, keyUse, algorithm, modulus, exponent, isActive, createdAt⟩
    | _ => none

theorem rowOfCols_rowCols {t : Table} (r : Row t) : rowOfCols (rowCols r) = some r := by
  cases t <;> rfl

theorem rowCols_rowOfCols {t : Table} {vs : List Value} {r : Row t}
    (h : rowOfCols vs = some r) : rowCols r = vs := by
  cases t <;> simp only [rowOfCols] at h <;> split at h <;> cases h <;> rfl

/-- Unique columns of each table, the key first. -/
def uniqueCols : Table → List Nat
  | .users => [0, 1]
  | .userInvites => [0, 2]
  | .userApiTokens => [0, 3]
  | _ => [0]

def layout : Layout Row Value where
  cols := rowCols
  ofCols := rowOfCols
  ofCols_cols := rowOfCols_rowCols
  cols_ofCols := rowCols_rowOfCols
  unique := uniqueCols

abbrev Db := Store.Db layout
abbrev Filter := Store.Filter Value
abbrev Write := Store.Write Row Value

/-- `fields().id().eq(id)`. -/
def byId (id : Uuid) : Filter := .eq 0 (.uuid id)

/-! ## Operations -/

abbrev DbError := String

inductive Op where
  | select (t : Table) (f : Filter)
  | write (w : Write)
  | begin
  /-- A statement inside a transaction, seen by nobody before the commit. -/
  | txWrite (w : Write)
  | commit (ws : List Write)
  | now
  | newUuid
  | randomBytes (n : Nat)
  /-- No statement: records the user that the extractor hands to the handler. -/
  | caller (user : User)

/-- `n` random bytes. -/
abbrev Bytes (n : Nat) := { bs : List UInt8 // bs.length = n }

abbrev Res : Op → Type
  | .select t _ => Except DbError (List (Row t))
  | .write _ | .begin | .txWrite _ | .commit _ => Except DbError Unit
  | .now => DateTime
  | .newUuid => Uuid
  | .randomBytes n => Bytes n
  | .caller _ => Unit

/-- What the outside decides for one operation. -/
inductive Ans where
  | done
  | fail (e : DbError)
  | time (t : DateTime)
  | uuid (u : Uuid)
  | bytes (bs : List UInt8)
  deriving DecidableEq, Repr

/-- The database, and two records of the run so far: the identifiers generated and the callers
authenticated, each with the thread it belongs to. -/
structure World where
  db : Db
  issued : List (Nat × Uuid)
  callers : List (Nat × User)
  distinct : (issued.map Prod.snd).Nodup

/-- A database before any request. -/
def World.start (db : Db) : World := ⟨db, [], [], List.nodup_nil⟩

def Table.all : List Table :=
  [.workspaces, .environments, .servers, .appServices, .dockerCredentials, .envVars, .domains,
    .deployments, .workspaceTemplates, .users, .userInvites, .userApiTokens, .workspaceUserRoles,
    .userRefreshTokens, .jwtPublicKeys]

/-- `u` was not generated before and is the key of no row. -/
def World.fresh (w : World) (u : Uuid) : Bool :=
  w.issued.all (fun p => p.2 != u) &&
    Table.all.all fun t => (w.db.rows t).all fun r => layout.col 0 r != some (.uuid u)

theorem World.notMem_of_fresh {w : World} {u : Uuid} (h : w.fresh u = true) :
    u ∉ w.issued.map Prod.snd := by
  intro hmem
  obtain ⟨p, hp, rfl⟩ := List.mem_map.mp hmem
  simp only [fresh, Bool.and_eq_true, List.all_eq_true] at h
  simpa using h.1 p hp

theorem Table.mem_all (t : Table) : t ∈ Table.all := by cases t <;> decide

theorem World.key_of_fresh {w : World} {u : Uuid} (h : w.fresh u = true) {t : Table} {r : Row t}
    (hr : r ∈ w.db.rows t) : layout.col 0 r ≠ some (.uuid u) := by
  simp only [fresh, Bool.and_eq_true, List.all_eq_true] at h
  simpa using h.2 t t.mem_all r hr

/-- Thread `i` gets the identifier `u`. -/
def World.issue (w : World) (i : Nat) (u : Uuid) (h : w.fresh u = true) : World where
  db := w.db
  issued := (i, u) :: w.issued
  callers := w.callers
  distinct := List.nodup_cons.mpr ⟨w.notMem_of_fresh h, w.distinct⟩

def duplicateKey : DbError := "duplicate key value violates unique constraint"

/-- Write statements that take effect together: all their changes, or an error and none. -/
def World.commit (w : World) (ws : List Write) : Except DbError Unit × World :=
  match layout.applyAll ws w.db with
  | some db => (.ok (), { w with db := db })
  | none => (.error duplicateKey, w)

def exec : Handler Res Ans World
  | _, .select t f, .done, w => some (.ok (layout.select w.db t f), w)
  | _, .select _ _, .fail e, w => some (.error e, w)
  | _, .write s, .done, w => some (w.commit [s])
  | _, .write _, .fail e, w => some (.error e, w)
  | _, .begin, .done, w => some (.ok (), w)
  | _, .begin, .fail e, w => some (.error e, w)
  | _, .txWrite s, .done, w => some ((w.commit [s]).1, w)
  | _, .txWrite _, .fail e, w => some (.error e, w)
  | _, .commit ws, .done, w => some (w.commit ws)
  | _, .commit _, .fail e, w => some (.error e, w)
  | _, .now, .time t, w => some (t, w)
  | i, .newUuid, .uuid u, w =>
    if h : w.fresh u = true then some (u, w.issue i u h) else none
  | _, .randomBytes n, .bytes bs, w => if h : bs.length = n then some (⟨bs, h⟩, w) else none
  | i, .caller user, .done, w => some ((), { w with callers := (i, user) :: w.callers })
  | _, _, _, _ => none

end Wara
