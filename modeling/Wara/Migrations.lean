import Wara.Db
import Wara.Sql.Script

/-!
# Migrations

`backend/toasty`: the scripts of `migrations/` in the order of `history.toml`, run
against the tables that the models declare. A database of any version is brought to
the current one with everything that it holds, and the admins of the baseline become
platform admins.
-/

namespace Wara

open Store Sql

namespace Migrations

/-! ## Scripts -/

/-- `NOT NULL`. -/
def required (name : String) (type : ColumnType) : Column := ⟨name, type, true⟩

def optional (name : String) (type : ColumnType) : Column := ⟨name, type, false⟩

/-- `0000_baseline.sql`. -/
def baseline : List Stmt := [
  .createTable "domain_records" [required "id" .uuid, required "service_id" .uuid,
    required "hostname" .text, required "proxy" .text, required "tls_enabled" .boolean] "id",
  .createIndex false "index_domain_records_by_service_id" "domain_records" "service_id",
  .createTable "app_service_records" [required "id" .uuid, required "project_id" .uuid,
    required "environment_id" .uuid, required "name" .text, required "deploy_kind" .text,
    optional "image" .text, optional "compose_file" .text, optional "dockerfile" .text,
    optional "internal_port" .integer] "id",
  .createIndex false "index_app_service_records_by_project_id" "app_service_records" "project_id",
  .createIndex false "index_app_service_records_by_environment_id" "app_service_records"
    "environment_id",
  .createTable "projects" [required "id" .uuid, required "name" .text,
    optional "description" .text] "id",
  .createTable "docker_credential_records" [required "id" .uuid, required "project_id" .uuid,
    required "registry" .text, required "username" .text, required "encrypted_password" .text] "id",
  .createIndex false "index_docker_credential_records_by_project_id" "docker_credential_records"
    "project_id",
  .createTable "env_var_records" [required "id" .uuid, required "project_id" .uuid,
    optional "environment_id" .uuid, optional "service_id" .uuid, required "key" .text,
    required "encrypted_value" .text] "id",
  .createIndex false "index_env_var_records_by_project_id" "env_var_records" "project_id",
  .createTable "project_template_records" [required "id" .uuid, required "source_project_id" .uuid,
    required "name" .text, optional "description" .text] "id",
  .createIndex false "index_project_template_records_by_source_project_id"
    "project_template_records" "source_project_id",
  .createTable "server_records" [required "id" .uuid, required "name" .text, required "host" .text,
    required "port" .integer, required "username" .text, required "public_key" .text,
    required "private_key_fingerprint" .text, required "encrypted_private_key" .text,
    optional "encrypted_private_key_passphrase" .text, required "default_proxy" .text,
    required "docker_status" .text] "id",
  .createTable "environments" [required "id" .uuid, required "project_id" .uuid,
    required "name" .text] "id",
  .createIndex false "index_environments_by_project_id" "environments" "project_id",
  .createTable "deployment_records" [required "id" .uuid, required "service_id" .uuid,
    required "status" .text, required "workflow_id" .text, required "output" .text,
    required "created_at" .text] "id",
  .createIndex false "index_deployment_records_by_service_id" "deployment_records" "service_id",
  .createTable "user_records" [required "id" .uuid, required "email" .text, required "name" .text,
    required "role" .text, required "status" .text, required "password_hash" .text] "id",
  .createIndex true "index_user_records_by_email" "user_records" "email",
  .createTable "user_invite_records" [required "id" .uuid, required "user_id" .uuid,
    required "token_hash" .text, required "expires_at" .text, required "accepted_at" .text,
    required "created_at" .text] "id",
  .createIndex false "index_user_invite_records_by_user_id" "user_invite_records" "user_id",
  .createIndex true "index_user_invite_records_by_token_hash" "user_invite_records" "token_hash"]

/-- `0001_workspaces.sql`. -/
def workspaces : List Stmt := [
  .renameTable "projects" "workspaces",
  .renameColumn "environments" "project_id" "workspace_id",
  .renameIndex "index_environments_by_project_id" "index_environments_by_workspace_id",
  .renameColumn "app_service_records" "project_id" "workspace_id",
  .renameIndex "index_app_service_records_by_project_id"
    "index_app_service_records_by_workspace_id",
  .renameColumn "docker_credential_records" "project_id" "workspace_id",
  .renameIndex "index_docker_credential_records_by_project_id"
    "index_docker_credential_records_by_workspace_id",
  .renameColumn "env_var_records" "project_id" "workspace_id",
  .renameIndex "index_env_var_records_by_project_id" "index_env_var_records_by_workspace_id",
  .renameTable "project_template_records" "workspace_template_records",
  .renameColumn "workspace_template_records" "source_project_id" "source_workspace_id",
  .renameIndex "index_project_template_records_by_source_project_id"
    "index_workspace_template_records_by_source_workspace_id",
  .createTable "workspace_user_role_records" [required "id" .uuid, required "user_id" .uuid,
    required "workspace_id" .uuid, required "role" .text] "id",
  .createIndex false "index_workspace_user_role_records_by_user_id" "workspace_user_role_records"
    "user_id",
  .createIndex false "index_workspace_user_role_records_by_workspace_id"
    "workspace_user_role_records" "workspace_id",
  .update "user_records" "role" (.text "super_admin") "role" (.text "admin")]

/-- `0002_api_tokens.sql`. -/
def apiTokens : List Stmt := [
  .createTable "user_api_token_records" [required "id" .uuid, required "user_id" .uuid,
    required "name" .text, required "token_hash" .text, required "token_prefix" .text,
    required "created_at" .text, optional "revoked_at" .text, optional "last_used_at" .text] "id",
  .createIndex false "index_user_api_token_records_by_user_id" "user_api_token_records" "user_id",
  .createIndex true "index_user_api_token_records_by_token_hash" "user_api_token_records"
    "token_hash"]

/-- `0003_refresh_tokens.sql`. -/
def refreshTokens : List Stmt := [
  .createTable "user_refresh_token_records" [required "id" .uuid, required "user_id" .uuid,
    required "created_at" .text, required "expires_at" .text, optional "revoked_at" .text] "id",
  .createIndex false "index_user_refresh_token_records_by_user_id" "user_refresh_token_records"
    "user_id"]

/-- `0004_jwt_public_keys.sql`. -/
def jwtPublicKeys : List Stmt := [
  .createTable "jwt_public_key_records" [required "id" .uuid, required "key_type" .text,
    required "key_use" .text, required "algorithm" .text, required "modulus" .text,
    required "exponent" .text, required "is_active" .boolean, required "created_at" .text] "id"]

/-- `0005_server_checks.sql`. -/
def serverChecks : List Stmt := [
  .addColumns "server_records" [(required "docker_version" .text, .text ""),
    (required "last_check_at" .text, .text ""), (required "last_check_error" .text, .text "")]]

/-- `history.toml`. -/
def history : List (List Stmt) :=
  [baseline, workspaces, apiTokens, refreshTokens, jwtPublicKeys, serverChecks]

def script (n : Nat) : List Stmt := (history[n]?).getD []

/-! ## Models -/

/-- The table of each model, its columns in struct order; the key is the field with `#[key]`. -/
def schema : Table → Relation
  | .workspaces => ⟨"workspaces", [required "id" .uuid, required "name" .text,
      optional "description" .text], "id"⟩
  | .environments => ⟨"environments", [required "id" .uuid, required "workspace_id" .uuid,
      required "name" .text], "id"⟩
  | .servers => ⟨"server_records", [required "id" .uuid, required "name" .text,
      required "host" .text, required "port" .integer, required "username" .text,
      required "public_key" .text, required "private_key_fingerprint" .text,
      required "encrypted_private_key" .text, optional "encrypted_private_key_passphrase" .text,
      required "default_proxy" .text, required "docker_status" .text,
      required "docker_version" .text, required "last_check_at" .text,
      required "last_check_error" .text], "id"⟩
  | .appServices => ⟨"app_service_records", [required "id" .uuid, required "workspace_id" .uuid,
      required "environment_id" .uuid, required "name" .text, required "deploy_kind" .text,
      optional "image" .text, optional "compose_file" .text, optional "dockerfile" .text,
      optional "internal_port" .integer], "id"⟩
  | .dockerCredentials => ⟨"docker_credential_records", [required "id" .uuid,
      required "workspace_id" .uuid, required "registry" .text, required "username" .text,
      required "encrypted_password" .text], "id"⟩
  | .envVars => ⟨"env_var_records", [required "id" .uuid, required "workspace_id" .uuid,
      optional "environment_id" .uuid, optional "service_id" .uuid, required "key" .text,
      required "encrypted_value" .text], "id"⟩
  | .domains => ⟨"domain_records", [required "id" .uuid, required "service_id" .uuid,
      required "hostname" .text, required "proxy" .text, required "tls_enabled" .boolean], "id"⟩
  | .deployments => ⟨"deployment_records", [required "id" .uuid, required "service_id" .uuid,
      required "status" .text, required "workflow_id" .text, required "output" .text,
      required "created_at" .text], "id"⟩
  | .workspaceTemplates => ⟨"workspace_template_records", [required "id" .uuid,
      required "source_workspace_id" .uuid, required "name" .text,
      optional "description" .text], "id"⟩
  | .users => ⟨"user_records", [required "id" .uuid, required "email" .text, required "name" .text,
      required "role" .text, required "status" .text, required "password_hash" .text], "id"⟩
  | .userInvites => ⟨"user_invite_records", [required "id" .uuid, required "user_id" .uuid,
      required "token_hash" .text, required "expires_at" .text, required "accepted_at" .text,
      required "created_at" .text], "id"⟩
  | .userApiTokens => ⟨"user_api_token_records", [required "id" .uuid, required "user_id" .uuid,
      required "name" .text, required "token_hash" .text, required "token_prefix" .text,
      required "created_at" .text, optional "revoked_at" .text,
      optional "last_used_at" .text], "id"⟩
  | .workspaceUserRoles => ⟨"workspace_user_role_records", [required "id" .uuid,
      required "user_id" .uuid, required "workspace_id" .uuid, required "role" .text], "id"⟩
  | .userRefreshTokens => ⟨"user_refresh_token_records", [required "id" .uuid,
      required "user_id" .uuid, required "created_at" .text, required "expires_at" .text,
      optional "revoked_at" .text], "id"⟩
  | .jwtPublicKeys => ⟨"jwt_public_key_records", [required "id" .uuid, required "key_type" .text,
      required "key_use" .text, required "algorithm" .text, required "modulus" .text,
      required "exponent" .text, required "is_active" .boolean, required "created_at" .text], "id"⟩

/-- The fields with `#[index]`, and with `#[unique]`. -/
def indexed : Table → List (String × Bool)
  | .environments => [("workspace_id", false)]
  | .appServices => [("workspace_id", false), ("environment_id", false)]
  | .dockerCredentials => [("workspace_id", false)]
  | .envVars => [("workspace_id", false)]
  | .domains => [("service_id", false)]
  | .deployments => [("service_id", false)]
  | .workspaceTemplates => [("source_workspace_id", false)]
  | .users => [("email", true)]
  | .userInvites => [("user_id", false), ("token_hash", true)]
  | .userApiTokens => [("user_id", false), ("token_hash", true)]
  | .workspaceUserRoles => [("user_id", false), ("workspace_id", false)]
  | .userRefreshTokens => [("user_id", false)]
  | _ => []

/-- Toasty's name for the index of a field. -/
def indexes (t : Table) : List Index :=
  (indexed t).map fun p =>
    ⟨"index_" ++ (schema t).name ++ "_by_" ++ p.1, (schema t).name, p.1, p.2⟩

/-- How a field is stored. -/
def cell : Value → Cell
  | .uuid u => some (.uuid u)
  | .text s => some (.text s)
  | .bool b => some (.boolean b)
  | .u16 n => some (.integer n.toNat)
  | .optText s => s.map .text
  | .optUuid u => u.map .uuid
  | .optU16 n => n.map fun n => .integer n.toNat

def tuple {t : Table} (r : Row t) : Tuple := (rowCols r).map cell

/-- The database has the tables and the indexes of the models, and holds these rows. -/
structure Current (sql : Database) (db : Db) : Prop where
  tables : sql.catalog.tables.Perm (Table.all.map schema)
  indexes : sql.catalog.indexes.Perm (Table.all.flatMap indexes)
  unique : ∀ t, sql.catalog.uniquePositions (schema t).name = layout.unique t
  rows : ∀ t, sql.rows (schema t).name = (db.rows t).map tuple
  fits : ∀ t, ∀ row ∈ sql.rows (schema t).name, (schema t).Fits row

@[simp] theorem admits_optText (name : String) (s : Option String) :
    (optional name .text).admits (cell (.optText s)) = true := by
  cases s <;> rfl

@[simp] theorem admits_optUuid (name : String) (u : Option Uuid) :
    (optional name .uuid).admits (cell (.optUuid u)) = true := by
  cases u <;> rfl

@[simp] theorem admits_optU16 (name : String) (n : Option UInt16) :
    (optional name .integer).admits (cell (.optU16 n)) = true := by
  cases n <;> rfl

/-- Every row of a model fits its table. -/
theorem fits_tuple {t : Table} (r : Row t) : (schema t).Fits (tuple r) := by
  have htext (name s : String) : (required name .text).admits (cell (.text s)) = true := rfl
  have huuid (name : String) (u : Uuid) :
      (required name .uuid).admits (cell (.uuid u)) = true := rfl
  have hbool (name : String) (b : Bool) :
      (required name .boolean).admits (cell (.bool b)) = true := rfl
  have hu16 (name : String) (n : UInt16) :
      (required name .integer).admits (cell (.u16 n)) = true := rfl
  cases t <;> simp [Relation.Fits, schema, tuple, rowCols, htext, huuid, hbool, hu16]

/-! ## Versions -/

/-- The catalog after the first `n` scripts. -/
def catalogAt : Nat → Catalog
  | 0 => ⟨[], []⟩
  | n + 1 => (defineAll (script n) (catalogAt n)).getD (catalogAt n)

/-- The number of scripts after which the table is there. -/
def since : Table → Nat
  | .workspaceUserRoles => 2
  | .userApiTokens => 3
  | .userRefreshTokens => 4
  | .jwtPublicKeys => 5
  | _ => 1

/-- What the table is called after `n` scripts. -/
def nameAt (n : Nat) (t : Table) : String :=
  if n < 2 ∧ t = .workspaces then "projects"
  else if n < 2 ∧ t = .workspaceTemplates then "project_template_records"
  else (schema t).name

/-- The columns that the table has after `n` scripts. -/
def tupleAt (n : Nat) {t : Table} (r : Row t) : Tuple :=
  if n < 6 ∧ t = .servers then (tuple r).take 11 else tuple r

/-- A database after the first `n` scripts that holds the rows: what it has no table or column for
is empty. -/
structure HoldsAt (n : Nat) (sql : Database) (db : Db) : Prop where
  catalog : sql.catalog = catalogAt n
  rows : ∀ t, since t ≤ n → sql.rows (nameAt n t) = (db.rows t).map (tupleAt n)
  later : ∀ t, n < since t → db.rows t = []
  unchecked : n < 6 → ∀ r ∈ (db.rows .servers : List ServerRecord),
    r.dockerVersion = "" ∧ r.lastCheckAt = "" ∧ r.lastCheckError = ""

/-- The admins of the baseline may do everything. -/
def promote (r : UserRecord) : UserRecord :=
  if r.role = Role.admin.asStr then { r with role := Role.superAdmin.asStr } else r

theorem col_promote {c : Nat} (hc : c ∈ layout.unique .users) (r : UserRecord) :
    layout.col (t := .users) c (promote r) = layout.col (t := .users) c r := by
  have h : c = 0 ∨ c = 1 := by simpa [layout, uniqueCols] using hc
  unfold promote
  split
  · rcases h with rfl | rfl <;> rfl
  · rfl

def promoted (db : Db) : Db where
  rows t := match t with
    | .users => (db.rows .users : List UserRecord).map promote
    | t => db.rows t
  unique t := by
    cases t with
    | users =>
      intro c hc
      have hcols : (layout.col (t := .users) c ∘ promote) = layout.col (t := .users) c :=
        funext (col_promote hc)
      show (((db.rows .users : List UserRecord).map promote).map
        (layout.col (t := .users) c)).Nodup
      rw [List.map_map, hcols]
      exact db.unique .users c hc
    | _ => exact db.unique _

/-! ## Each script -/

section upgrade

variable {n : Nat} {sql : Database} {db : Db}

theorem catalog_step : ∀ n, n < 6 →
    defineAll (script n) (catalogAt n) = some (catalogAt (n + 1)) := by decide +kernel

theorem catalog_current : (catalogAt 6).tables.Perm (Table.all.map schema) ∧
    (catalogAt 6).indexes.Perm (Table.all.flatMap indexes) ∧
    (Table.all.map fun t => (catalogAt 6).uniquePositions (schema t).name) =
      Table.all.map layout.unique := by decide +kernel

theorem tupleAt_step (hn : n + 1 < 6) {t : Table} (r : Row t) :
    tupleAt (n + 1) r = tupleAt n r := by
  have hn' : n < 6 := Nat.lt_of_succ_lt hn
  simp only [tupleAt, hn, hn', true_and]

/-- What the scripts that only create do to the tables of the models. -/
theorem created_names : ∀ n ∈ [0, 2, 3, 4], Unrefused [] (script n) = true ∧
    (script n).all Stmt.creates = true ∧ ∀ t ∈ Table.all,
      (since t = n + 1 → nameAt (n + 1) t ∈ (script n).filterMap Stmt.made?) ∧
      (since t ≤ n → nameAt (n + 1) t ∉ (script n).filterMap Stmt.made? ∧
        nameAt (n + 1) t = nameAt n t) := by decide +kernel

/-- New tables are empty, the others are as they were. -/
theorem holds_created (hn : n ∈ [0, 2, 3, 4]) (h : HoldsAt n sql db) :
    ∃ sql', run (script n) sql = some sql' ∧ HoldsAt (n + 1) sql' db := by
  obtain ⟨hss, hcreates, hnames⟩ := created_names n hn
  have hlt : n + 1 < 6 := by
    simp only [List.mem_cons, List.not_mem_nil, or_false] at hn
    omega
  have hdef := catalog_step n (Nat.lt_of_succ_lt hlt)
  refine ⟨⟨catalogAt (n + 1), carry (script n) sql.rows⟩, ?_, rfl, fun t ht => ?_,
    fun t ht => h.later t (Nat.lt_of_succ_lt ht), fun _ => h.unchecked (Nat.lt_of_succ_lt hlt)⟩
  · rw [← h.catalog] at hdef
    exact run_of_define hss hdef
  · show carry (script n) sql.rows (nameAt (n + 1) t) = _
    rw [carry_creates hcreates]
    rcases Nat.lt_or_eq_of_le ht with hold | hnew
    · obtain ⟨hkept, hname⟩ := (hnames t t.mem_all).2 (Nat.le_of_lt_succ hold)
      rw [if_neg hkept, hname, h.rows t (Nat.le_of_lt_succ hold)]
      exact List.map_congr_left fun r _ => (tupleAt_step hlt r).symm
    · rw [if_pos ((hnames t t.mem_all).1 hnew), h.later t (hnew ▸ Nat.lt_succ_self n)]
      rfl

theorem name_servers : ∀ t ∈ Table.all, nameAt 6 t = "server_records" ↔ t = .servers := by
  decide +kernel

theorem nameAt_six : ∀ t ∈ Table.all, nameAt 6 t = nameAt 5 t := by decide +kernel

theorem take_tuple {r : ServerRecord}
    (h : r.dockerVersion = "" ∧ r.lastCheckAt = "" ∧ r.lastCheckError = "") :
    (tuple (t := .servers) r).take 11 ++ [some (.text ""), some (.text ""), some (.text "")] =
      tuple (t := .servers) r := by
  obtain ⟨hversion, hat, herror⟩ := h
  simp [tuple, rowCols, cell, hversion, hat, herror]

/-- Every server gets the columns of the checks, blank. -/
theorem holds_serverChecks (h : HoldsAt 5 sql db) :
    ∃ sql', run serverChecks sql = some sql' ∧ HoldsAt 6 sql' db := by
  have hdef := catalog_step 5 (by decide)
  refine ⟨⟨catalogAt 6, carry serverChecks sql.rows⟩, ?_, rfl, fun t _ => ?_,
    fun t ht => h.later t (Nat.lt_of_succ_lt ht), fun hn => absurd hn (by decide)⟩
  · rw [← h.catalog] at hdef
    exact run_of_define rfl hdef
  · have hold : sql.rows (nameAt 5 t) = (db.rows t).map (tupleAt 5) :=
      h.rows t (by cases t <;> decide)
    show Function.update sql.rows "server_records" _ (nameAt 6 t) = _
    by_cases ht : t = .servers
    · subst ht
      rw [(name_servers .servers (Table.mem_all _)).mpr rfl, Function.update_self]
      rw [← nameAt_six .servers (Table.mem_all _),
        (name_servers .servers (Table.mem_all _)).mpr rfl] at hold
      rw [hold, List.map_map]
      exact List.map_congr_left fun r hr => take_tuple (h.unchecked (by decide) r hr)
    · rw [Function.update_of_ne fun he => ht ((name_servers t t.mem_all).mp he),
        nameAt_six t t.mem_all, hold]
      refine List.map_congr_left fun r _ => ?_
      simp only [tupleAt, ht, and_false]

/-- The renames, as far as the update of the roles. -/
def renames : List Stmt := workspaces.dropLast

theorem catalog_renames : defineAll renames (catalogAt 1) = some (catalogAt 2) ∧
    (Stmt.update "user_records" "role" (.text "super_admin") "role" (.text "admin")).define
      (catalogAt 2) = some (catalogAt 2) ∧
    (catalogAt 2).position "user_records" "role" = some 3 ∧
    (catalogAt 2).uniquePositions "user_records" = layout.unique .users := by decide +kernel

/-- Tables that are renamed keep their rows. -/
theorem carry_renames (rows : String → List Tuple) {t : Table} (ht : since t ≤ 1) :
    carry renames rows (nameAt 2 t) = rows (nameAt 1 t) := by
  cases t
  case workspaceUserRoles | userApiTokens | userRefreshTokens | jwtPublicKeys =>
    exact absurd ht (by decide)
  all_goals rfl

theorem assign_tuple (r : UserRecord) :
    assign 3 (.text "super_admin") 3 (.text "admin") (tuple (t := .users) r) =
      tuple (t := .users) (promote r) := by
  by_cases hr : r.role = "admin"
  · simp [assign, tuple, rowCols, cell, promote, Role.asStr, hr]
  · simp [assign, tuple, rowCols, cell, promote, Role.asStr, hr]

/-- The update does to the rows of the accounts what is meant by it. -/
theorem assign_users (db : Db) : ((db.rows .users : List UserRecord).map (tuple (t := .users))).map
    (assign 3 (.text "super_admin") 3 (.text "admin")) =
      ((promoted db).rows .users : List UserRecord).map (tuple (t := .users)) := by
  show _ = ((db.rows .users : List UserRecord).map promote).map (tuple (t := .users))
  rw [List.map_map, List.map_map]
  exact List.map_congr_left fun r _ => assign_tuple r

/-- Accounts differ in their key and in their address. -/
theorem distinct_users {u : Nat} (hu : u ∈ layout.unique .users) (db : Db) :
    Distinct u ((db.rows .users : List UserRecord).map (tuple (t := .users))) := by
  have hunique : layout.Unique (t := .users) (db.rows .users) := db.unique .users
  refine distinct_map ((hunique u hu).of_map _) fun r hr r' hr' he => hunique.eq hu hr hr' ?_
  have h : u = 0 ∨ u = 1 := by simpa [layout, uniqueCols] using hu
  rcases h with rfl | rfl
  · have hid : r.id = r'.id := by simpa [tuple, rowCols, cell] using he
    exact congrArg (fun id => some (Value.uuid id)) hid
  · have hemail : r.email = r'.email := by simpa [tuple, rowCols, cell] using he
    exact congrArg (fun email => some (Value.text email)) hemail

theorem workspaces_eq : workspaces = renames ++
    [.update "user_records" "role" (.text "super_admin") "role" (.text "admin")] := rfl

theorem name_users : ∀ t ∈ Table.all, nameAt 2 t = "user_records" ↔ t = .users := by
  decide +kernel

theorem promoted_rows {t : Table} (ht : t ≠ .users) : (promoted db).rows t = db.rows t := by
  cases t with
  | users => exact absurd rfl ht
  | _ => rfl

/-- Projects become workspaces, and admins platform admins. -/
theorem holds_workspaces (h : HoldsAt 1 sql db) :
    ∃ sql', run workspaces sql = some sql' ∧ HoldsAt 2 sql' (promoted db) := by
  obtain ⟨hdef, hupdate, hposition, hunique⟩ := catalog_renames
  have hrenames : run renames sql = some ⟨catalogAt 2, carry renames sql.rows⟩ := by
    rw [← h.catalog] at hdef
    exact run_of_define rfl hdef
  have hold : ∀ t, since t ≤ 1 →
      carry renames sql.rows (nameAt 2 t) = (db.rows t).map (tupleAt 1) :=
    fun t ht => (carry_renames sql.rows ht).trans (h.rows t ht)
  have husers : (carry renames sql.rows "user_records").map
      (assign 3 (.text "super_admin") 3 (.text "admin")) =
        ((promoted db).rows .users : List UserRecord).map (tuple (t := .users)) := by
    have hrows : carry renames sql.rows "user_records" =
        (db.rows .users : List UserRecord).map (tuple (t := .users)) := hold .users (by decide)
    rw [hrows, assign_users]
  have hdistinct : ∀ u ∈ (catalogAt 2).uniquePositions "user_records",
      Distinct u ((carry renames sql.rows "user_records").map
        (assign 3 (.text "super_admin") 3 (.text "admin"))) :=
    fun u hu => husers ▸ distinct_users (hunique ▸ hu) (promoted db)
  have hexec := exec_update hupdate hposition hposition hdistinct
  refine ⟨_, by rw [workspaces_eq, run_append, hrenames, Option.bind_some, run_cons, hexec,
    Option.bind_some, run_nil], rfl, fun t ht => ?_, fun t ht => ?_, fun hn r hr => ?_⟩
  · show Function.update (carry renames sql.rows) "user_records" _ (nameAt 2 t) = _
    by_cases hother : t = .users
    · subst hother
      exact (Function.update_self ..).trans husers
    · rw [Function.update_of_ne fun he => hother ((name_users t t.mem_all).mp he),
        promoted_rows hother]
      rcases Nat.lt_or_eq_of_le ht with hsince | hsince
      · exact (hold t (Nat.le_of_lt_succ hsince)).trans
          (List.map_congr_left fun r _ => (tupleAt_step (by decide) r).symm)
      · rw [h.later t (hsince ▸ Nat.lt_succ_self 1)]
        cases t
        case workspaceUserRoles => rfl
        all_goals exact absurd hsince (by decide)
  · rw [promoted_rows fun he => absurd (he ▸ ht) (by decide)]
    exact h.later t (Nat.lt_of_succ_lt ht)
  · exact h.unchecked (by decide) r hr

/-! ## The rest of the history -/

/-- The rows that a database of version `n` ends up with. -/
def upgraded (n : Nat) (db : Db) : Db := if n ≤ 1 then promoted db else db

theorem holds_step (hn : n < 6) (h : HoldsAt n sql db) : ∃ sql', run (script n) sql = some sql' ∧
    HoldsAt (n + 1) sql' (if n = 1 then promoted db else db) := by
  by_cases h1 : n = 1
  · subst h1
    exact holds_workspaces h
  · rw [if_neg h1]
    by_cases h5 : n = 5
    · subst h5
      exact holds_serverChecks h
    · exact holds_created (by simp only [List.mem_cons, List.not_mem_nil, or_false]; omega) h

theorem holds_rest (hn : n ≤ 6) (h : HoldsAt n sql db) :
    ∃ sql', run (history.drop n).flatten sql = some sql' ∧ HoldsAt 6 sql' (upgraded n db) := by
  induction hk : 6 - n generalizing n sql db with
  | zero =>
    obtain rfl : n = 6 := by omega
    exact ⟨sql, rfl, h⟩
  | succ k ih =>
    have hlt : n < 6 := by omega
    obtain ⟨sql₁, hrun, h₁⟩ := holds_step hlt h
    obtain ⟨sql', hrest, h'⟩ := ih hlt h₁ (by omega)
    have hdrop : history.drop n = script n :: history.drop (n + 1) := by
      have hlength : n < history.length := hlt
      rw [List.drop_eq_getElem_cons hlength, script, List.getElem?_eq_getElem hlength]
      rfl
    refine ⟨sql', by rw [hdrop, List.flatten_cons, run_append, hrun, Option.bind_some, hrest], ?_⟩
    have hupgraded : upgraded (n + 1) (if n = 1 then promoted db else db) = upgraded n db := by
      unfold upgraded
      split_ifs <;> first | rfl | omega
    rwa [hupgraded] at h'

/-- **Upgrades.** A database of any version, from an empty one to the current one, is brought by the
rest of the scripts to the tables and indexes of the models, with the rows that it holds; the admins
of the first versions become platform admins. -/
theorem upgrade_keeps (hn : n ≤ 6) (h : HoldsAt n sql db) :
    ∃ sql', run (history.drop n).flatten sql = some sql' ∧ Current sql' (upgraded n db) := by
  obtain ⟨sql', hrun, h'⟩ := holds_rest hn h
  obtain ⟨htables, hindexes, hunique⟩ := catalog_current
  have hrows : ∀ t, sql'.rows (schema t).name = ((upgraded n db).rows t).map tuple := by
    intro t
    have hat := h'.rows t (by cases t <;> decide)
    cases t <;> exact hat
  refine ⟨sql', hrun, ?_, ?_, fun t => ?_, hrows, fun t row hrow => ?_⟩
  · rw [h'.catalog]
    exact htables
  · rw [h'.catalog]
    exact hindexes
  · rw [h'.catalog]
    exact List.map_inj_left.mp hunique t t.mem_all
  · rw [hrows] at hrow
    obtain ⟨r, -, rfl⟩ := List.mem_map.mp hrow
    exact fits_tuple r

end upgrade

/-- What a first version holds: a workspace, then called a project, and its admin. -/
def shop : Db where
  rows t := match t with
    | .workspaces => [⟨9, "shop", none⟩]
    | .users => [⟨2, "bob@wara.dev", "Bob", "admin", "active", "hash"⟩]
    | _ => []
  unique t := by cases t <;> decide

def shopProjects : Database where
  catalog := catalogAt 1
  rows name :=
    if name = "projects" then [[some (.uuid 9), some (.text "shop"), none]]
    else if name = "user_records" then [[some (.uuid 2), some (.text "bob@wara.dev"),
      some (.text "Bob"), some (.text "admin"), some (.text "active"), some (.text "hash")]]
    else []

theorem holdsAt_shop : HoldsAt 1 shopProjects shop where
  catalog := rfl
  rows t _ := by cases t <;> rfl
  later t ht := by
    cases t
    case workspaceUserRoles | userApiTokens | userRefreshTokens | jwtPublicKeys => rfl
    all_goals exact absurd ht (by decide)
  unchecked _ r hr := absurd hr List.not_mem_nil

theorem upgrade_keeps_shop : ∃ sql', run (history.drop 1).flatten shopProjects = some sql' ∧
    sql'.rows "workspaces" = [[some (.uuid 9), some (.text "shop"), none]] ∧
    sql'.rows "user_records" = [[some (.uuid 2), some (.text "bob@wara.dev"), some (.text "Bob"),
      some (.text "super_admin"), some (.text "active"), some (.text "hash")]] := by
  obtain ⟨sql', hrun, hcurrent⟩ := upgrade_keeps (n := 1) (by decide) holdsAt_shop
  exact ⟨sql', hrun, hcurrent.rows .workspaces, hcurrent.rows .users⟩

end Migrations

end Wara
