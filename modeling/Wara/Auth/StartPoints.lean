import Wara.Auth.KeyStore
import Wara.Interleave.Control
import Wara.Store.Insert

/-!
# The points of a start-up

`bootstrap_admin` cut at its operations: `Point` says where a call is,
`Point.Moves` where an operation leads, `Effect` what it does to the database,
and `Knows` what the call can rely on whatever the others do.
-/

namespace Wara

open Interleave Store Service AuthService

namespace StartUp

/-! ## Where a call is -/

/-- The next operation of a call, with what the call has read so far. -/
inductive Point where
  /-- `Query::<List<JwtPublicKeyRecord>>::all()`. -/
  | list
  /-- `Uuid::now_v7` for a key that is not there. -/
  | mintKey
  | deactivate (id : Uuid)
  /-- The query for `existing`. -/
  | find (id : Uuid)
  | activate (id : Uuid)
  /-- `Utc::now` for `created_at`. -/
  | clock (id : Uuid)
  | createKey (id : Uuid) (createdAt : DateTime)
  /-- `Query::<List<UserRecord>>::all()`. -/
  | users
  | salt
  | mintAdmin (passwordHash : String)
  | createAdmin (passwordHash : String) (id : Uuid)
  | done (result : Except Abort Unit)

section programs

variable (x : Ext) (config : Config) (key : String × String)

def adminRow (passwordHash : String) (id : Uuid) : UserRecord :=
  ⟨id, config.bootstrapAdminEmail, config.bootstrapAdminName, Role.superAdmin.asStr,
    UserStatus.active.asStr, passwordHash⟩

def keyRow (id : Uuid) (createdAt : DateTime) : JwtPublicKeyRecord :=
  ⟨id, "RSA", "sig", "RS256", key.1, key.2, true, x.toRfc3339 createdAt⟩

def deactivateWrite : Write := .update .jwtPublicKeys (.eq 6 (.bool true)) [(6, .bool false)]

def activateWrite (id : Uuid) : Write :=
  .update .jwtPublicKeys (byId id) [(1, .text "RSA"), (2, .text "sig"), (3, .text "RS256"),
    (4, .text key.1), (5, .text key.2), (6, .bool true)]

def matching (records : List JwtPublicKeyRecord) : Option JwtPublicKeyRecord :=
  records.find? fun record => record.modulus = key.1 && record.exponent = key.2

/-! The rest of a call, from each point on. -/

def createAdmin (passwordHash : String) (id : Uuid) : Service Unit := do
  let _ ← create (t := .users) .handle (adminRow config passwordHash id)

def mintAdmin (passwordHash : String) : Service Unit := do
  createAdmin config passwordHash (← nowV7)

def salt : Service Unit := do
  mintAdmin config (← hashPassword x config.bootstrapAdminPassword)

def users : Service Unit := do
  let users ← query .users .all
  if users ≠ [] then return else salt x config

def createKey (id : Uuid) (createdAt : DateTime) : Service Unit := do
  let _ ← create (t := .jwtPublicKeys) .handle (keyRow x key id createdAt)
  users x config

def clock (id : Uuid) : Service Unit := do createKey x config key id (← now)

def activate (id : Uuid) : Service Unit := do
  execute (activateWrite key id) .handle
  users x config

def find (id : Uuid) : Service Unit := do
  let existing ← first .jwtPublicKeys (byId id)
  if existing.isSome then activate x config key id else clock x config key id

def deactivate (id : Uuid) : Service Unit := do
  execute deactivateWrite .handle
  find x config key id

def mintKey : Service Unit := do deactivate x config key (← nowV7)

def list : Service Unit := do
  match matching key (← query .jwtPublicKeys .all) with
  | some record => deactivate x config key record.id
  | none => mintKey x config key

def Point.prog : Point → Service Unit
  | .list => StartUp.list x config key
  | .mintKey => StartUp.mintKey x config key
  | .deactivate id => StartUp.deactivate x config key id
  | .find id => StartUp.find x config key id
  | .activate id => StartUp.activate x config key id
  | .clock id => StartUp.clock x config key id
  | .createKey id createdAt => StartUp.createKey x config key id createdAt
  | .users => StartUp.users x config
  | .salt => StartUp.salt x config
  | .mintAdmin passwordHash => StartUp.mintAdmin config passwordHash
  | .createAdmin passwordHash id => StartUp.createAdmin config passwordHash id
  | .done result => Prog.ret result

/-- A start-up begins by listing the keys. -/
theorem bootstrapAdmin_eq {x : Ext} {config : Config} {key : String × String}
    (hkey : rsaPublicKeyComponents x config.jwtPublicKey = .ok key) :
    bootstrapAdmin x config = StartUp.list x config key := by
  -- from the query for `existing` on, both branches go on with the users
  have hfind : ∀ id, (first .jwtPublicKeys (byId id) >>= fun existing =>
      (if existing.isSome then update .jwtPublicKeys (byId id) [(1, .text "RSA"), (2, .text "sig"),
          (3, .text "RS256"), (4, .text key.1), (5, .text key.2), (6, .bool true)]
        else now >>= fun createdAt =>
          create (t := .jwtPublicKeys) .handle (keyRow x key id createdAt) >>= fun _ => pure ())
      >>= fun _ => StartUp.users x config) = StartUp.find x config key id := by
    intro id
    unfold StartUp.find
    refine bind_congr fun existing => ?_
    split
    · rfl
    · unfold clock createKey
      simp only [bind_assoc, pure_bind]
  unfold bootstrapAdmin syncActiveJwtPublicKey
  rw [hkey]
  simp only [orThrow, pure_bind, bind_assoc]
  unfold StartUp.list
  refine bind_congr fun records => ?_
  show unwrapOrElse nowV7 ((matching key records).map (·.id)) >>= (fun id =>
    execute deactivateWrite .handle >>= fun _ => _) = _
  cases matching key records with
  | some record => exact bind_congr fun _ => hfind record.id
  | none => exact bind_congr fun id => bind_congr fun _ => hfind id

/-! ## One operation -/

variable {x config key}

variable (x config key) in
/-- The operation at a point. -/
def Point.op : Point → Option Op
  | .list => some (.select .jwtPublicKeys .all)
  | .mintKey => some .newUuid
  | .deactivate _ => some (.write deactivateWrite)
  | .find id => some (.select .jwtPublicKeys (byId id))
  | .activate id => some (.write (activateWrite key id))
  | .clock _ => some .now
  | .createKey id createdAt => some (.write (.insert .jwtPublicKeys (keyRow x key id createdAt)))
  | .users => some (.select .users .all)
  | .salt => some (.randomBytes 16)
  | .mintAdmin _ => some .newUuid
  | .createAdmin passwordHash id =>
    some (.write (.insert .users (adminRow config passwordHash id)))
  | .done _ => none

variable (x config key) in
/-- Where an operation and its result lead. -/
inductive Point.Moves : Point → (o : Op) → Res o → Point → Prop
  | list_some {rows : List JwtPublicKeyRecord} {r : JwtPublicKeyRecord} :
      matching key rows = some r →
      Moves .list (.select .jwtPublicKeys .all) (.ok rows) (.deactivate r.id)
  | list_none {rows : List JwtPublicKeyRecord} : matching key rows = none →
      Moves .list (.select .jwtPublicKeys .all) (.ok rows) .mintKey
  | mintKey (id : Uuid) : Moves .mintKey .newUuid id (.deactivate id)
  | deactivate (id : Uuid) : Moves (.deactivate id) (.write deactivateWrite) (.ok ()) (.find id)
  | find_some {id : Uuid} {rows : List JwtPublicKeyRecord} : rows ≠ [] →
      Moves (.find id) (.select .jwtPublicKeys (byId id)) (.ok rows) (.activate id)
  | find_none (id : Uuid) :
      Moves (.find id) (.select .jwtPublicKeys (byId id)) (.ok []) (.clock id)
  | activate (id : Uuid) : Moves (.activate id) (.write (activateWrite key id)) (.ok ()) .users
  | clock (id : Uuid) (t : DateTime) : Moves (.clock id) .now t (.createKey id t)
  | createKey (id : Uuid) (t : DateTime) : Moves (.createKey id t)
      (.write (.insert .jwtPublicKeys (keyRow x key id t))) (.ok ()) .users
  | users_some {rows : List UserRecord} : rows ≠ [] →
      Moves .users (.select .users .all) (.ok rows) (.done (.ok ()))
  | users_none : Moves .users (.select .users .all) (.ok []) .salt
  | salt {bs : Bytes 16} {passwordHash : String} :
      x.argon2Hash config.bootstrapAdminPassword bs.val = .ok passwordHash →
      Moves .salt (.randomBytes 16) bs (.mintAdmin passwordHash)
  | unhashed {bs : Bytes 16} {message : String} {e : Abort} :
      x.argon2Hash config.bootstrapAdminPassword bs.val = .error message →
      Moves .salt (.randomBytes 16) bs (.done (.error e))
  | mintAdmin (passwordHash : String) (id : Uuid) :
      Moves (.mintAdmin passwordHash) .newUuid id (.createAdmin passwordHash id)
  | createAdmin (passwordHash : String) (id : Uuid) : Moves (.createAdmin passwordHash id)
      (.write (.insert .users (adminRow config passwordHash id))) (.ok ()) (.done (.ok ()))
  | failed {pc : Point} {o : Op} {r : Res o} {e : Abort} :
      pc.op x config key = some o → o.succeeded r = false → Moves pc o r (.done (.error e))

variable (x config key) in
/-- The points of `bootstrap_admin`. -/
def control : Control Res (Except Abort Unit) Point where
  prog := Point.prog x config key
  moves := Point.Moves x config key
  step pc := by
    cases pc with
    | list =>
      refine .inr ⟨_, _, rfl, fun r => ?_⟩
      cases r with
      | error e => exact ⟨_, .failed rfl rfl, rfl⟩
      | ok rows =>
        let listed : Option JwtPublicKeyRecord → Service Unit
          | some record => StartUp.deactivate x config key record.id
          | none => StartUp.mintKey x config key
        show ∃ pc', _ ∧ listed (matching key rows) = _
        cases hm : matching key rows with
        | some r => exact ⟨_, .list_some hm, rfl⟩
        | none => exact ⟨_, .list_none hm, rfl⟩
    | mintKey => exact .inr ⟨_, _, rfl, fun id => ⟨_, .mintKey id, rfl⟩⟩
    | deactivate id =>
      refine .inr ⟨_, _, rfl, fun r => ?_⟩
      cases r with
      | error e => exact ⟨_, .failed rfl rfl, rfl⟩
      | ok => exact ⟨_, .deactivate id, rfl⟩
    | find id =>
      refine .inr ⟨_, _, rfl, fun r => ?_⟩
      cases r with
      | error e => exact ⟨_, .failed rfl rfl, rfl⟩
      | ok rows =>
        cases rows with
        | nil => exact ⟨_, .find_none id, rfl⟩
        | cons r rows => exact ⟨_, .find_some (List.cons_ne_nil r rows), rfl⟩
    | activate id =>
      refine .inr ⟨_, _, rfl, fun r => ?_⟩
      cases r with
      | error e => exact ⟨_, .failed rfl rfl, rfl⟩
      | ok => exact ⟨_, .activate id, rfl⟩
    | clock id => exact .inr ⟨_, _, rfl, fun t => ⟨_, .clock id t, rfl⟩⟩
    | createKey id t =>
      refine .inr ⟨_, _, rfl, fun r => ?_⟩
      cases r with
      | error e => exact ⟨_, .failed rfl rfl, rfl⟩
      | ok => exact ⟨_, .createKey id t, rfl⟩
    | users =>
      refine .inr ⟨_, _, rfl, fun r => ?_⟩
      cases r with
      | error e => exact ⟨_, .failed rfl rfl, rfl⟩
      | ok rows =>
        cases rows with
        | nil => exact ⟨_, .users_none, rfl⟩
        | cons r rows => exact ⟨_, .users_some (List.cons_ne_nil r rows), rfl⟩
    | salt =>
      refine .inr ⟨_, _, rfl, fun bs => ?_⟩
      let hashed (hash : Except String String) : Service Unit :=
        mapErr (fun error => .internal ("failed to hash password: " ++ error)) hash >>=
          StartUp.mintAdmin config
      show ∃ pc', _ ∧ hashed (x.argon2Hash config.bootstrapAdminPassword bs.val) = _
      cases hhash : x.argon2Hash config.bootstrapAdminPassword bs.val with
      | error message => exact ⟨_, .unhashed hhash, rfl⟩
      | ok passwordHash => exact ⟨_, .salt hhash, rfl⟩
    | mintAdmin passwordHash =>
      exact .inr ⟨_, _, rfl, fun id => ⟨_, .mintAdmin passwordHash id, rfl⟩⟩
    | createAdmin passwordHash id =>
      refine .inr ⟨_, _, rfl, fun r => ?_⟩
      cases r with
      | error e => exact ⟨_, .failed rfl rfl, rfl⟩
      | ok => exact ⟨_, .createAdmin passwordHash id, rfl⟩
    | done result => exact .inl ⟨result, rfl⟩

/-! ## What an operation does -/

variable (x config) in
/-- The administrator's password is not hashed, with the salt that this event draws. -/
def Unhashed (e : Event Res World) : Prop :=
  ∃ (i : Nat) (bs : Bytes 16) (w w' : World) (message : String),
    e = ⟨i, .randomBytes 16, bs, w, w'⟩ ∧
      x.argon2Hash config.bootstrapAdminPassword bs.val = .error message

variable (x config key) in
/-- A step on the database, from one point to the next. -/
inductive Effect (e : Event Res World) : Point → Point → Prop
  | list_some {r : JwtPublicKeyRecord} (hr : r ∈ e.pre.keys) (hs : e.post = e.pre) :
      Effect e .list (.deactivate r.id)
  | list_none (hs : e.post = e.pre) : Effect e .list .mintKey
  | mintKey {id : Uuid} (hid : e.pre.fresh id = true) (hs : e.post = e.pre.issue e.tid id hid) :
      Effect e .mintKey (.deactivate id)
  | deactivate {id : Uuid} (hop : e.op = .write deactivateWrite)
      (hkeys : e.post.keys = e.pre.keys.map JwtPublicKeyRecord.deactivated)
      (husers : e.post.db.rows .users = e.pre.db.rows .users)
      (hissued : e.post.issued = e.pre.issued) : Effect e (.deactivate id) (.find id)
  | find_some {r : JwtPublicKeyRecord} (hr : r ∈ e.pre.keys) (hs : e.post = e.pre) :
      Effect e (.find r.id) (.activate r.id)
  | find_none {id : Uuid} (hno : ∀ r ∈ e.pre.keys, r.id ≠ id) (hs : e.post = e.pre) :
      Effect e (.find id) (.clock id)
  | activate {id : Uuid} (hop : e.op = .write (activateWrite key id))
      (hkeys : e.post.keys = e.pre.keys.map fun r =>
        if r.id = id then r.activated key.1 key.2 else r)
      (husers : e.post.db.rows .users = e.pre.db.rows .users)
      (hissued : e.post.issued = e.pre.issued) : Effect e (.activate id) .users
  | clock {id : Uuid} {t : DateTime} (hs : e.post = e.pre) : Effect e (.clock id) (.createKey id t)
  | createKey {id : Uuid} {t : DateTime}
      (hop : e.op = .write (.insert .jwtPublicKeys (keyRow x key id t)))
      (hkeys : e.post.keys = e.pre.keys ++ [keyRow x key id t])
      (husers : e.post.db.rows .users = e.pre.db.rows .users)
      (hissued : e.post.issued = e.pre.issued) : Effect e (.createKey id t) .users
  | users_some (hne : e.pre.db.rows .users ≠ []) (hs : e.post = e.pre) :
      Effect e .users (.done (.ok ()))
  | users_none (hs : e.post = e.pre) : Effect e .users .salt
  | salt {passwordHash : String} (hs : e.post = e.pre) : Effect e .salt (.mintAdmin passwordHash)
  | unhashed {err : Abort} (hsalt : Unhashed x config e) (hs : e.post = e.pre) :
      Effect e .salt (.done (.error err))
  | mintAdmin {passwordHash : String} {id : Uuid} (hid : e.pre.fresh id = true)
      (hs : e.post = e.pre.issue e.tid id hid) :
      Effect e (.mintAdmin passwordHash) (.createAdmin passwordHash id)
  | createAdmin {passwordHash : String} {id : Uuid}
      (hop : e.op = .write (.insert .users (adminRow config passwordHash id)))
      (husers : e.post.db.rows .users = e.pre.db.rows .users ++ [adminRow config passwordHash id])
      (hkeys : e.post.keys = e.pre.keys) (hissued : e.post.issued = e.pre.issued) :
      Effect e (.createAdmin passwordHash id) (.done (.ok ()))
  | failed {pc : Point} {err : Abort} (hop : pc.op x config key = some e.op)
      (hfail : e.op.succeeded e.res = false) (hs : e.post = e.pre) :
      Effect e pc (.done (.error err))

theorem rows_of_select {i : Nat} {a : Ans} {w w' : World} {t : Table} {f : Filter}
    {rows : List (Row t)} (ha : exec i (.select t f) a w = some (.ok rows, w')) :
    w' = w ∧ rows = layout.select w.db t f := by
  obtain ⟨hs, ⟨e, he⟩ | hrows⟩ := exec_select ha
  · cases he
  · exact ⟨hs, Except.ok.inj hrows⟩

theorem issued_of_write {i : Nat} {a : Ans} {w w' : World} {s : Write} {r : Res (.write s)}
    (ha : exec i (.write s) a w = some (r, w')) : w'.issued = w.issued := by
  rcases exec_write ha with ⟨e, -, rfl⟩ | ⟨-, db, -, rfl⟩ <;> rfl

theorem world_of_failed {i : Nat} {a : Ans} {w w' : World} {pc : Point} {o : Op} {r : Res o}
    (ha : exec i o a w = some (r, w')) (hop : pc.op x config key = some o)
    (hfail : o.succeeded r = false) : w' = w := by
  have hwrite : ∀ {s : Write} {r : Res (.write s)}, exec i (.write s) a w = some (r, w') →
      Op.succeeded (.write s) r = false → w' = w := by
    intro s r ha hfail
    rcases exec_write ha with ⟨e, -, hs⟩ | ⟨rfl, -⟩
    · exact hs
    · cases hfail
  cases pc <;> cases hop
  case deactivate => exact hwrite ha hfail
  case activate => exact hwrite ha hfail
  case createKey => exact hwrite ha hfail
  case createAdmin => exact hwrite ha hfail
  case mintKey => cases hfail
  case mintAdmin => cases hfail
  all_goals exact exec_idle rfl ha

theorem effect {e : Event Res World} {pc pc' : Point}
    (h : (control x config key).Step exec e pc pc') : Effect x config key e pc pc' := by
  obtain ⟨i, o, r, w, w'⟩ := e
  obtain ⟨hmoves, ha⟩ := h
  have ha : exec i o _ w = some (r, w') := ha
  have hdone : o.succeeded r = true → layout.applyAll o.writes w.db = some w'.db :=
    exec_succeeded ha
  cases hmoves with
  | @list_some rows r hm =>
    obtain ⟨rfl, rfl⟩ := rows_of_select ha
    exact .list_some (List.mem_filter.mp (List.mem_of_find?_eq_some hm)).1 rfl
  | list_none hm => exact .list_none (exec_select ha).1
  | mintKey id =>
    obtain ⟨hid, hs⟩ := exec_newUuid ha
    exact .mintKey hid hs
  | deactivate id =>
    have happ := applyAll_single (hdone rfl)
    exact .deactivate rfl (keys_deactivate happ) (Layout.apply_frame happ nofun)
      (issued_of_write ha)
  | @find_some id rows hne =>
    obtain ⟨rfl, rfl⟩ := rows_of_select ha
    obtain ⟨r, hr⟩ := List.exists_mem_of_ne_nil _ hne
    obtain ⟨hmem, hid⟩ := List.mem_filter.mp hr
    rw [← holds_byId_keys.mp hid]
    exact .find_some hmem rfl
  | find_none id =>
    obtain ⟨hs, hrows⟩ := rows_of_select ha
    refine .find_none (fun r hr hid => ?_) hs
    have hmem : r ∈ layout.select w.db .jwtPublicKeys (byId id) :=
      List.mem_filter.mpr ⟨hr, holds_byId_keys.mpr hid⟩
    rw [← hrows] at hmem
    cases hmem
  | activate id =>
    have happ := applyAll_single (hdone rfl)
    exact .activate rfl (keys_activate happ) (Layout.apply_frame happ nofun) (issued_of_write ha)
  | clock id t => exact .clock (exec_idle rfl ha)
  | createKey id t =>
    have happ := applyAll_single (hdone rfl)
    exact .createKey rfl (Layout.apply_insert happ) (Layout.apply_frame happ nofun)
      (issued_of_write ha)
  | users_some hne =>
    obtain ⟨rfl, rfl⟩ := rows_of_select ha
    obtain ⟨u, hu⟩ := List.exists_mem_of_ne_nil _ hne
    exact .users_some (List.ne_nil_of_mem (List.mem_filter.mp hu).1) rfl
  | users_none => exact .users_none (exec_select ha).1
  | salt hhash => exact .salt (exec_idle rfl ha)
  | unhashed hhash => exact .unhashed ⟨_, _, _, _, _, rfl, hhash⟩ (exec_idle rfl ha)
  | mintAdmin passwordHash id =>
    obtain ⟨hid, hs⟩ := exec_newUuid ha
    exact .mintAdmin hid hs
  | createAdmin passwordHash id =>
    have happ := applyAll_single (hdone rfl)
    exact .createAdmin rfl (Layout.apply_insert happ) (Layout.apply_frame happ nofun)
      (issued_of_write ha)
  | failed hop hfail => exact .failed hop hfail (world_of_failed ha hop hfail)

theorem op_of_step {e : Event Res World} {pc pc' : Point}
    (h : (control x config key).Step exec e pc pc') : pc.op x config key = some e.op := by
  obtain ⟨hmoves, -⟩ := h
  obtain ⟨i, o, r, w, w'⟩ := e
  cases hmoves with
  | failed hop _ => exact hop
  | _ => rfl

/-- A call is over when a statement fails or the password is not hashed. -/
theorem error_of_step {e : Event Res World} {pc pc' : Point}
    (h : (control x config key).Step exec e pc pc')
    (hbad : e.op.succeeded e.res = false ∨ Unhashed x config e) :
    ∃ err, pc' = .done (.error err) := by
  obtain ⟨hmoves, -⟩ := h
  obtain ⟨i, o, r, w, w'⟩ := e
  rcases hbad with hfail | ⟨j, bs, v, v', message, heq, hhash⟩
  · cases hmoves with
    | failed _ _ => exact ⟨_, rfl⟩
    | unhashed _ => exact ⟨_, rfl⟩
    | _ => cases hfail
  · cases heq
    cases hmoves with
    | failed _ _ => exact ⟨_, rfl⟩
    | unhashed _ => exact ⟨_, rfl⟩
    | salt hok =>
      rw [hhash] at hok
      cases hok

/-! ## What a call knows -/

/-- What is true of the key a call is about to use: it is there, or the call has made it up. -/
def Knows (i : Nat) (w : World) : Point → Prop
  | .deactivate id | .find id => (∃ r ∈ w.keys, r.id = id) ∨ (i, id) ∈ w.issued
  | .activate id => ∃ r ∈ w.keys, r.id = id
  | .clock id | .createKey id _ => (i, id) ∈ w.issued ∧ ∀ r ∈ w.keys, r.id ≠ id
  | _ => True

/-- The keys stay, and new ones have identifiers of thread `i`. -/
structure Grows (i : Nat) (w w' : World) : Prop where
  issued : ∀ p ∈ w.issued, p ∈ w'.issued
  old : ∀ r ∈ w.keys, ∃ r' ∈ w'.keys, r'.id = r.id
  new : ∀ r' ∈ w'.keys, (∃ r ∈ w.keys, r.id = r'.id) ∨ (i, r'.id) ∈ w'.issued

theorem Grows.of_ids {i : Nat} {w w' : World} (hissued : ∀ p ∈ w.issued, p ∈ w'.issued)
    (hids : w'.keys.map JwtPublicKeyRecord.id = w.keys.map JwtPublicKeyRecord.id) :
    Grows i w w' where
  issued := hissued
  old r hr := by
    have hmem : r.id ∈ w'.keys.map JwtPublicKeyRecord.id := hids ▸ List.mem_map_of_mem hr
    obtain ⟨r', hr', hid⟩ := List.mem_map.mp hmem
    exact ⟨r', hr', hid⟩
  new r' hr' := by
    have hmem : r'.id ∈ w.keys.map JwtPublicKeyRecord.id := hids ▸ List.mem_map_of_mem hr'
    obtain ⟨r, hr, hid⟩ := List.mem_map.mp hmem
    exact .inl ⟨r, hr, hid⟩

theorem ids_deactivated (rs : List JwtPublicKeyRecord) :
    (rs.map JwtPublicKeyRecord.deactivated).map JwtPublicKeyRecord.id =
      rs.map JwtPublicKeyRecord.id := by
  rw [List.map_map]
  rfl

theorem ids_activated (rs : List JwtPublicKeyRecord) (id : Uuid) :
    (rs.map fun r => if r.id = id then r.activated key.1 key.2 else r).map JwtPublicKeyRecord.id =
      rs.map JwtPublicKeyRecord.id := by
  rw [List.map_map]
  refine List.map_congr_left fun r _ => ?_
  show (if r.id = id then r.activated key.1 key.2 else r).id = r.id
  split <;> rfl

theorem Effect.grows {e : Event Res World} {pc pc' : Point} (h : Effect x config key e pc pc')
    (hknows : Knows e.tid e.pre pc) : Grows e.tid e.pre e.post := by
  have hsame : e.post = e.pre → Grows e.tid e.pre e.post := by
    intro hs
    rw [hs]
    exact .of_ids (fun _ h => h) rfl
  have hissue : ∀ {id : Uuid} (hid : e.pre.fresh id = true), e.post = e.pre.issue e.tid id hid →
      Grows e.tid e.pre e.post := by
    intro id hid hs
    rw [hs]
    exact .of_ids (fun p hp => List.mem_cons_of_mem _ hp) rfl
  cases h with
  | mintKey hid hs | mintAdmin hid hs => exact hissue hid hs
  | deactivate hop hkeys husers hissued =>
    exact .of_ids (by rw [hissued]; exact fun _ h => h) (by rw [hkeys]; exact ids_deactivated _)
  | activate hop hkeys husers hissued =>
    exact .of_ids (by rw [hissued]; exact fun _ h => h) (by rw [hkeys]; exact ids_activated _ _)
  | createAdmin hop husers hkeys hissued =>
    exact .of_ids (by rw [hissued]; exact fun _ h => h) (by rw [hkeys])
  | createKey hop hkeys husers hissued =>
    refine ⟨by rw [hissued]; exact fun _ h => h, fun r hr => ⟨r, ?_, rfl⟩, fun r' hr' => ?_⟩
    · rw [hkeys]
      exact List.mem_append_left _ hr
    · rw [hkeys] at hr'
      rcases List.mem_append.mp hr' with hr' | hr'
      · exact .inl ⟨r', hr', rfl⟩
      · rw [List.mem_singleton.mp hr', hissued]
        exact .inr hknows.1
  | list_none hs | clock hs | users_none hs | salt hs => exact hsame hs
  | list_some _ hs | find_some _ hs | find_none _ hs | users_some _ hs => exact hsame hs
  | unhashed _ hs | failed _ _ hs => exact hsame hs

/-- What a call knows survives the steps of the others. -/
theorem Knows.stable {i j : Nat} {w w' : World} {pc : Point} (h : Knows j w pc)
    (hg : Grows i w w') (hne : i ≠ j) : Knows j w' pc := by
  have hthere : ∀ {id : Uuid}, (∃ r ∈ w.keys, r.id = id) → ∃ r ∈ w'.keys, r.id = id := by
    rintro id ⟨r, hr, rfl⟩
    exact hg.old r hr
  have hmade : ∀ {id : Uuid}, (j, id) ∈ w.issued ∧ (∀ r ∈ w.keys, r.id ≠ id) →
      (j, id) ∈ w'.issued ∧ ∀ r ∈ w'.keys, r.id ≠ id := by
    rintro id ⟨hissued, hno⟩
    refine ⟨hg.issued _ hissued, fun r hr hid => ?_⟩
    rcases hg.new r hr with ⟨r₀, hr₀, h₀⟩ | hnew
    · exact hno r₀ hr₀ (h₀.trans hid)
    · -- an identifier belongs to one thread
      rw [hid] at hnew
      have heq := List.inj_on_of_nodup_map w'.distinct hnew (hg.issued _ hissued) rfl
      exact hne (congrArg Prod.fst heq)
  cases pc with
  | deactivate id => exact h.imp hthere (hg.issued _)
  | find id => exact h.imp hthere (hg.issued _)
  | activate id => exact hthere h
  | clock id => exact hmade h
  | createKey id t => exact hmade h
  | _ => trivial

theorem Effect.knows {e : Event Res World} {pc pc' : Point} (h : Effect x config key e pc pc')
    (hknows : Knows e.tid e.pre pc) : Knows e.tid e.post pc' := by
  cases h with
  | list_some hr hs => exact .inl ⟨_, hs ▸ hr, rfl⟩
  | mintKey hid hs => exact .inr (hs ▸ List.mem_cons_self)
  | deactivate hop hkeys husers hissued =>
    rcases hknows with ⟨r, hr, hid⟩ | hmade
    · refine .inl ⟨r.deactivated, ?_, hid⟩
      rw [hkeys]
      exact List.mem_map_of_mem hr
    · rw [← hissued] at hmade
      exact .inr hmade
  | find_some hr hs => exact ⟨_, hs ▸ hr, rfl⟩
  | find_none hno hs =>
    rcases hknows with ⟨r, hr, hid⟩ | hmade
    · exact absurd hid (hno r hr)
    · rw [← hs] at hmade hno
      exact ⟨hmade, hno⟩
  | clock hs =>
    rw [← hs] at hknows
    exact hknows
  | _ => trivial

variable (config) in
/-- What holds in every state of a run. -/
structure Sound (pcs : List Point) (w : World) : Prop where
  users : ∀ u : UserRecord, u ∈ w.db.rows .users →
    u.email = config.bootstrapAdminEmail ∧ u.role = Role.superAdmin.asStr
  points : ∀ i pc, pcs[i]? = some pc → Knows i w pc

theorem Effect.users_eq {e : Event Res World} {pc pc' : Point} (h : Effect x config key e pc pc') :
    e.post.db.rows .users = e.pre.db.rows .users ∨ ∃ passwordHash id,
      e.post.db.rows .users = e.pre.db.rows .users ++ [adminRow config passwordHash id] ∧
        pc = .createAdmin passwordHash id ∧ pc' = .done (.ok ()) := by
  cases h with
  | deactivate _ _ husers | activate _ _ husers | createKey _ _ husers => exact .inl husers
  | createAdmin hop husers hkeys hissued => exact .inr ⟨_, _, husers, rfl, rfl⟩
  | list_none hs | clock hs | users_none hs | salt hs => rw [hs]; exact .inl rfl
  | mintKey _ hs | mintAdmin _ hs | list_some _ hs | find_some _ hs => rw [hs]; exact .inl rfl
  | find_none _ hs | users_some _ hs | unhashed _ hs => rw [hs]; exact .inl rfl
  | failed _ _ hs => rw [hs]; exact .inl rfl

theorem Sound.step {e : Event Res World} {pcs : List Point} {pc pc' : Point}
    (h : Sound config pcs e.pre) (hpc : pcs[e.tid]? = some pc)
    (hstep : (control x config key).Step exec e pc pc') :
    Sound config (pcs.set e.tid pc') e.post := by
  have heff := effect hstep
  have hknows := h.points _ _ hpc
  refine ⟨fun u hu => ?_, fun j pc₁ hj => ?_⟩
  · rcases heff.users_eq with hsame | ⟨passwordHash, id, hadded, -⟩
    · rw [hsame] at hu
      exact h.users u hu
    · rw [hadded] at hu
      rcases List.mem_append.mp hu with hu | hu
      · exact h.users u hu
      · rw [List.mem_singleton.mp hu]
        exact ⟨rfl, rfl⟩
  · by_cases hji : e.tid = j
    · subst hji
      obtain ⟨hlt, -⟩ := List.getElem?_eq_some_iff.mp hpc
      rw [List.getElem?_set_self hlt] at hj
      cases hj
      exact heff.knows hknows
    · rw [List.getElem?_set_ne hji] at hj
      exact (h.points j pc₁ hj).stable (heff.grows hknows) hji

/-! ## Statements that are not refused -/

theorem applies_of_knows {i : Nat} {w : World} {pc : Point} {o : Op}
    (hop : pc.op x config key = some o) (hknows : Knows i w pc)
    (hadmin : ∀ passwordHash id, pc = .createAdmin passwordHash id → w.db.rows .users = []) :
    ∃ db, layout.applyAll o.writes w.db = some db := by
  have hsingle : ∀ {s : Write}, (∃ db, layout.apply s w.db = some db) →
      ∃ db, layout.applyAll [s] w.db = some db := by
    rintro s ⟨db, hdb⟩
    exact ⟨db, Layout.applyAll_cons.mpr ⟨db, hdb, Layout.applyAll_nil.mpr rfl⟩⟩
  cases pc with
  | deactivate id =>
    cases hop
    exact hsingle (Layout.apply_update_isSome (by decide))
  | activate id =>
    cases hop
    refine hsingle (Layout.apply_update_isSome fun p hp hc => ?_)
    have hzero : p.1 = 0 := List.mem_singleton.mp hc
    simp only [List.mem_cons, List.not_mem_nil, or_false] at hp
    rcases hp with rfl | rfl | rfl | rfl | rfl | rfl <;> cases hzero
  | createKey id t =>
    cases hop
    refine hsingle (Layout.apply_insert_isSome fun c hc r hr hcol => ?_)
    obtain rfl := List.mem_singleton.mp hc
    exact hknows.2 r hr (uuid_of_col hcol)
  | createAdmin passwordHash id =>
    cases hop
    refine hsingle (Layout.apply_insert_isSome fun c hc r hr => ?_)
    rw [hadmin passwordHash id rfl] at hr
    cases hr
  | done result => cases hop
  | _ =>
    cases hop
    exact ⟨w.db, Layout.applyAll_nil.mpr rfl⟩

end programs

end StartUp

end Wara
