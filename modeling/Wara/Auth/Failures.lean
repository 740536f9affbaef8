import Wara.Auth.AcceptInvite
import Wara.Auth.KeyStore
import Wara.Auth.RefreshOnce
import Wara.Auth.Sequential
import Wara.Service.Solo

/-!
# What a failed call leaves behind

`accept_invite`, `refresh_session` and `sync_active_jwt_public_key` when one of
their steps fails. The answers `xs` of a run end with the step that failed, so
their number says which one it was.
-/

namespace Wara

open Interleave Store Service AuthService

section failures

variable {x : Ext} {config : Config} {i : Nat} {s : World}

/-- A call that only reads leaves the database alone, however it ends. -/
theorem yields_reads {α : Type} {y : Service α} {P : α → Prop}
    (h : Flow.All (fun o => o.writes = []) y P) :
    Yields i y (fun _ r s' => s'.db = s.db ∧ ∀ a, r = .ok a → P a) s := by
  refine Yields.mono (Prog.All.yields (R := fun s s' : World => s'.db = s.db) h
    (fun _ => rfl)
    (fun h h' => h'.trans h) fun o ho a s r s' ha => ?_) fun _ r s' hr => ⟨hr.2, hr.1⟩
  rcases exec_db ha with hdb | ⟨-, hdb⟩
  · exact hdb
  · rw [ho] at hdb
    exact (Layout.applyAll_nil.mp hdb).symm

/-! ## Accepting an invite -/

/-- Status and password hash of each user, acceptance of each invite, and the refresh tokens. -/
def Db.accounts (db : Db) :
    List (Uuid × String × String) × List (Uuid × String) × List UserRefreshTokenRecord :=
  ((db.rows .users).map fun u : UserRecord => (u.id, u.status, u.passwordHash),
    (db.rows .userInvites).map fun i : UserInviteRecord => (i.id, i.acceptedAt),
    db.rows .userRefreshTokens)

/-- Past its update of the user, `accept_invite` has changed a status for good. -/
theorem accounts_ne_of_accepted {db db' : Db} {u : UserRecord} {hash : String}
    (hu : u ∈ db.rows .users) (hstatus : u.status ≠ UserStatus.active.asStr)
    (hdb : layout.apply (acceptWrite u.id hash) db = some db') {db'' : Db}
    (hrows : db''.rows .users = db'.rows .users) : db''.accounts ≠ db.accounts := by
  intro heq
  have husers := congrArg Prod.fst heq
  unfold Db.accounts at husers
  simp only [hrows, apply_updateUser (fun _ => rfl) hdb, List.map_map] at husers
  have := List.map_inj_left.mp husers u hu
  simp only [Function.comp, if_true, Prod.mk.injEq] at this
  exact hstatus this.2.1.symm

theorem yields_acceptInvite (input : AcceptInviteInput) :
    Yields i (acceptInvite x config input) (fun xs r s' =>
      ∀ e, r = .error e → (s'.db.accounts = s.db.accounts ↔ xs.length ≤ 5)) s := by
  -- nothing is written before the fifth operation
  have early : ∀ (xs : List Ans) (s' : World), s'.db = s.db → xs.length ≤ 5 →
      (s'.db.accounts = s.db.accounts ↔ xs.length ≤ 5) :=
    fun xs s' hs hlen => ⟨fun _ => hlen, fun _ => by rw [hs]⟩
  unfold acceptInvite findOpenInvite parseRfc3339 getUserRecord hashPassword
  simp only [bind_assoc, pure_bind]
  refine yields_first (fun e _ _ => early [_] _ rfl (by simp)) ?_
  refine yields_okOr (fun _ _ _ => early [_] _ rfl (by simp)) fun invite hinvite => ?_
  refine yields_throwIf (fun _ _ _ => early [_] _ rfl (by simp)) fun hopen => ?_
  refine yields_mapErr (fun _ _ _ _ => early [_] _ rfl (by simp)) fun expiresAt _ => ?_
  refine yields_now fun time => ?_
  refine yields_throwIf (fun _ _ _ => early [_, _] _ rfl (by simp)) fun hexpired => ?_
  refine yields_first (fun e _ _ => early [_, _, _] _ rfl (by simp)) ?_
  refine yields_okOr (fun _ _ _ => early [_, _, _] _ rfl (by simp)) fun user huser => ?_
  refine yields_throwIf (fun _ _ _ => early [_, _, _] _ rfl (by simp)) fun hactive => ?_
  refine yields_throwIf (fun _ _ _ => early [_, _, _] _ rfl (by simp)) fun hdisabled => ?_
  refine yields_randomBytes fun salt => ?_
  refine yields_mapErr (fun _ _ _ _ => early [_, _, _, _] _ rfl (by simp)) fun hash hhash => ?_
  refine yields_update (fun e _ _ => early [_, _, _, _, _] _ rfl (by simp))
    (fun _ _ _ => early [_, _, _, _, _] _ rfl (by simp)) fun db hdb => ?_
  obtain ⟨hmem, hid⟩ := Layout.mem_of_head?_select huser
  rw [← holds_byId_users.mp hid] at hdb ⊢
  refine yields_now fun acceptedAt => ?_
  have hrest : Flow.All Op.sparesUsers (do
      update .userInvites (byId invite.id) [(4, .text (x.toRfc3339 acceptedAt))]
      let user ← getUser user.id
      startSession x config user) fun _ => True := by
    simp [getUser, getUserRecord, userFromRecord, startSession_writes_no_user]
  refine Yields.mono (Prog.All.yields (R := fun s s' : World =>
    s'.db.rows .users = s.db.rows .users) hrest (fun _ => rfl) (fun h h' => h'.trans h)
    fun o ho a s r s' ha => ho.rows_eq ha) fun ys r s' hr e _ => ?_
  have hne := accounts_ne_of_accepted hmem hactive hdb hr.2
  refine ⟨fun heq => (hne heq).elim, fun hlen => ?_⟩
  simp only [List.length_cons] at hlen
  omega

/-- **When a failed `accept_invite` has done nothing.** The update of the user is the fifth
operation: a call that fails there or earlier leaves the accounts as they were, one that fails
later does not. -/
theorem acceptInvite_undone_iff {input : AcceptInviteInput} {xs : List Ans} {e : Abort}
    {s' : World} (h : Prog.run exec i (acceptInvite x config input) xs s = some (.error e, s')) :
    s'.db.accounts = s.db.accounts ↔ xs.length ≤ 5 :=
  yields_acceptInvite input xs _ s' h e rfl

/-! ## Refreshing a session -/

def Ans.isUuid : Ans → Bool
  | .uuid _ => true
  | _ => false

/-- The number of operations of `refresh_session` up to its commit, which is the seventh from the
generation of the new record's identifier on. -/
def upToCommit (xs : List Ans) : Nat := xs.findIdx Ans.isUuid + 7

/-- The record can still be used, and no record has been added. -/
def CanRetry (record : UserRefreshTokenRecord) (s s' : World) : Prop :=
  (∃ r : UserRefreshTokenRecord, r ∈ s'.db.rows .userRefreshTokens ∧ r.id = record.id ∧
    r.revokedAt = none) ∧
  ∀ r : UserRefreshTokenRecord, r ∈ s'.db.rows .userRefreshTokens →
    ∃ r₀ : UserRefreshTokenRecord, r₀ ∈ s.db.rows .userRefreshTokens ∧ r₀.id = r.id

theorem canRetry_of_rows {record : UserRefreshTokenRecord} {s' : World}
    (hr : record ∈ s.db.rows .userRefreshTokens) (hlive : record.revokedAt = none)
    (hs : s'.db = s.db) : CanRetry record s s' := by
  unfold CanRetry
  rw [hs]
  exact ⟨⟨record, hr, rfl, hlive⟩, fun r hr => ⟨r, hr, rfl⟩⟩

/-- What `active_refresh_token_record` returns is in the table and not revoked. -/
theorem yields_activeRefreshTokenRecord (token : String) :
    Yields i (activeRefreshTokenRecord x config token) (fun xs r s' => s' = s ∧
      xs.findIdx Ans.isUuid = xs.length ∧ ∀ record : UserRefreshTokenRecord, r = .ok record →
        record ∈ s.db.rows .userRefreshTokens ∧ record.revokedAt = none) s := by
  have early : ∀ (xs : List Ans) (e : Abort), xs.findIdx Ans.isUuid = xs.length → s = s ∧
      xs.findIdx Ans.isUuid = xs.length ∧ ∀ record : UserRefreshTokenRecord,
        Except.error e = Except.ok record → record ∈ s.db.rows .userRefreshTokens ∧
          record.revokedAt = none := fun xs e hxs => ⟨rfl, hxs, fun _ h => by cases h⟩
  unfold activeRefreshTokenRecord verifyRefreshToken decodingKeyForToken jwtPublicKeyRecord
    getCurrentTimestamp parseRfc3339
  simp only [bind_assoc, pure_bind]
  refine yields_okOr (fun _ => early [] _ rfl) fun header _ => ?_
  refine yields_okOr (fun _ => early [] _ rfl) fun kid _ => ?_
  refine yields_okOr (fun _ => early [] _ rfl) fun keyId _ => ?_
  refine yields_first (fun e => early [_] _ rfl) ?_
  refine yields_okOr (fun _ => early [_] _ rfl) fun key _ => ?_
  refine yields_throwIf (fun _ => early [_] _ rfl) fun _ => ?_
  refine yields_mapErr (fun _ _ => early [_] _ rfl) fun decodingKey _ => ?_
  refine yields_now fun time => ?_
  refine yields_bind ?_
  split
  · exact yields_throw (early [_, _] _ rfl)
  · refine yields_pure ?_
    refine yields_mapErr (fun _ _ => early [_, _] _ rfl) fun payload _ => ?_
    refine yields_okOr (fun _ => early [_, _] _ rfl) fun claims _ => ?_
    refine yields_throwIf (fun _ => early [_, _] _ rfl) fun _ => ?_
    refine yields_okOr (fun _ => early [_, _] _ rfl) fun tokenId _ => ?_
    refine yields_okOr (fun _ => early [_, _] _ rfl) fun userId _ => ?_
    refine yields_first (fun e => early [_, _, _] _ rfl) ?_
    refine yields_okOr (fun _ => early [_, _, _] _ rfl) fun record hrecord => ?_
    refine yields_throwIf (fun _ => early [_, _, _] _ rfl) fun _ => ?_
    refine yields_throwIf (fun _ => early [_, _, _] _ rfl) fun hlive => ?_
    refine yields_mapErr (fun _ _ => early [_, _, _] _ rfl) fun expiresAt _ => ?_
    refine yields_now fun time' => ?_
    refine yields_throwIf (fun _ => early [_, _, _, _] _ rfl) fun _ => ?_
    refine yields_pure ⟨rfl, rfl, fun r hr => ?_⟩
    cases hr
    exact ⟨(Layout.mem_of_head?_select hrecord).1, Option.not_isSome_iff_eq_none.mp hlive⟩

theorem yields_userFromRecord (u : UserRecord) :
    Yields i (userFromRecord u) (fun xs _ s' => s' = s ∧ xs.findIdx Ans.isUuid = xs.length) s := by
  unfold userFromRecord
  dsimp only
  split
  · exact yields_pure ⟨rfl, rfl⟩
  · exact yields_query (fun _ => ⟨rfl, rfl⟩) (yields_pure ⟨rfl, rfl⟩)

theorem length_le_upToCommit {u : Uuid} {ys : List Ans} :
    (Ans.done :: .uuid u :: ys).length ≤ upToCommit (.done :: .uuid u :: ys) ↔ ys.length ≤ 6 := by
  have hfind : (Ans.done :: .uuid u :: ys).findIdx Ans.isUuid = 1 := by
    simp [List.findIdx_cons, Ans.isUuid]
  rw [upToCommit, hfind, List.length_cons, List.length_cons]
  omega

theorem upToCommit_append {xs : List Ans} (h : xs.findIdx Ans.isUuid = xs.length)
    (ys : List Ans) : (xs ++ ys).length ≤ upToCommit (xs ++ ys) ↔ ys.length ≤ upToCommit ys := by
  have hnone : ∀ a ∈ xs, a.isUuid = false := by simpa using List.findIdx_eq_length.mp h
  have happend : (xs ++ ys).findIdx Ans.isUuid = xs.length + ys.findIdx Ans.isUuid := by
    rw [List.findIdx_append, if_neg (by omega), Nat.add_comm]
  unfold upToCommit
  rw [happend, List.length_append]
  omega

/-- The commit adds a record, under an identifier that no record had. -/
theorem not_canRetry_of_committed {record new : UserRefreshTokenRecord} {old : Uuid}
    {revokedAt : String} {db : Db} {s' : World} (hnew : s.fresh new.id = true)
    (hdb : layout.applyAll [.insert .userRefreshTokens new, revokeWrite old revokedAt] s.db =
      some db) (hs : s'.db = db) : ¬ CanRetry record s s' := by
  obtain ⟨db₁, hinsert, hrevoke⟩ := Layout.applyAll_cons.mp hdb
  have hmem : new ∈ db₁.rows .userRefreshTokens := by
    rw [Layout.apply_insert hinsert]
    exact List.mem_append_right _ List.mem_cons_self
  have hkeeps : layout.Keeps (fun _ => [0]) db₁ db :=
    Layout.apply_keeps (applyAll_single hrevoke) (by simp [Write.sets])
  obtain ⟨r, hr, hcol⟩ := hkeeps .userRefreshTokens new hmem
  rintro ⟨-, hold⟩
  obtain ⟨r₀, hr₀, hid⟩ := hold r (hs ▸ hr)
  rw [uuid_of_col (hcol 0 List.mem_cons_self)] at hid
  exact World.key_of_fresh hnew (t := .userRefreshTokens) hr₀
    (congrArg (fun u => some (Value.uuid u)) hid)

/-- `refresh_session` once the record is found. -/
def rotate (x : Ext) (config : Config) (record : UserRefreshTokenRecord) : Service LoginOutput := do
  let userRecord ← getUserRecord record.userId
  throwIf (userRecord.status ≠ UserStatus.active.asStr) .unauthorized
  let user ← userFromRecord userRecord
  transaction
  let refreshToken ← issueRefreshToken x config .transaction user.id
  let revokedAt ← now
  let revoke := revokeWrite record.id (x.toRfc3339 revokedAt)
  execute revoke .transaction
  commit [.insert .userRefreshTokens refreshToken.record, revoke]
  let token ← signAccessToken x config user refreshToken.record.id
  return ⟨token, refreshToken.token, user⟩

theorem refreshSession_eq (input : RefreshSessionInput) : refreshSession x config input =
    activeRefreshTokenRecord x config input.refreshToken >>= rotate x config := rfl

theorem yields_refreshSession {input : RefreshSessionInput} {record : UserRefreshTokenRecord}
    (hrecord : record ∈ s.db.rows .userRefreshTokens) (hlive : record.revokedAt = none) :
    Yields i (refreshSession x config input) (fun xs r s' =>
      ∀ e, r = .error e → (CanRetry record s s' ↔ xs.length ≤ upToCommit xs)) s := by
  have early : ∀ (xs : List Ans) (s' : World), s'.db = s.db → xs.length ≤ upToCommit xs →
      (CanRetry record s s' ↔ xs.length ≤ upToCommit xs) :=
    fun xs s' hs hlen => ⟨fun _ => hlen, fun _ => canRetry_of_rows hrecord hlive hs⟩
  have before : ∀ xs : List Ans, xs.findIdx Ans.isUuid = xs.length →
      (CanRetry record s s ↔ xs.length ≤ upToCommit xs) := fun xs hxs =>
    early xs s rfl (by unfold upToCommit; omega)
  have soon : ∀ (u : Uuid) (ys : List Ans) (s' : World), s'.db = s.db → ys.length ≤ 6 →
      (CanRetry record s s' ↔
        (Ans.done :: .uuid u :: ys).length ≤ upToCommit (.done :: .uuid u :: ys)) :=
    fun u ys s' hs hlen => early _ s' hs (length_le_upToCommit.mpr hlen)
  rw [refreshSession_eq]
  refine yields_bind (Yields.mono (yields_activeRefreshTokenRecord _) fun xs r s' hr => ?_)
  obtain ⟨rfl, hxs, -⟩ := hr
  cases r with
  | error e => exact fun _ _ => before xs hxs
  | ok old =>
  simp only [upToCommit_append hxs]
  unfold rotate getUserRecord
  simp only [bind_assoc]
  refine yields_first (fun e _ _ => before [_] rfl) ?_
  refine yields_okOr (fun _ _ _ => before [_] rfl) fun userRecord _ => ?_
  refine yields_throwIf (fun _ _ _ => before [_] rfl) fun _ => ?_
  refine yields_bind (Yields.mono (yields_userFromRecord _) fun xs r s'' hr => ?_)
  obtain ⟨rfl, hxs⟩ := hr
  have hxs : (Ans.done :: xs).findIdx Ans.isUuid = (Ans.done :: xs).length := by
    simp [List.findIdx_cons, Ans.isUuid, hxs]
  cases r with
  | error e => exact fun _ _ => before (.done :: xs) hxs
  | ok user =>
  simp only [← List.cons_append, upToCommit_append hxs]
  unfold issueRefreshToken afterSeconds signRefreshToken signWithActiveKey activeJwtPublicKeyRecord
  simp only [bind_assoc, pure_bind]
  refine yields_transaction (fun e _ _ => before [_] rfl) ?_
  refine yields_nowV7 fun u hu => yields_now fun time => ?_
  refine yields_orPanic (fun _ _ _ _ => soon _ _ _ rfl (by simp)) fun ttl _ => ?_
  refine yields_orPanic (fun _ _ _ _ => soon _ _ _ rfl (by simp)) fun expiresAt _ => ?_
  refine yields_txCreate (fun e _ _ => soon _ _ _ rfl (by simp))
    (fun _ _ _ => soon _ _ _ rfl (by simp)) ?_
  refine yields_mapErr (fun _ _ _ _ => soon _ _ _ rfl (by simp)) fun key _ => ?_
  refine yields_query (fun e _ _ => soon _ _ _ rfl (by simp)) ?_
  refine yields_okOr (fun _ _ _ => soon _ _ _ rfl (by simp)) fun active _ => ?_
  refine yields_throwIf (fun _ _ _ => soon _ _ _ rfl (by simp)) fun _ => ?_
  refine yields_mapErr (fun _ _ _ _ => soon _ _ _ rfl (by simp)) fun token _ => ?_
  refine yields_now fun revokedAt => ?_
  refine yields_txWrite (fun e _ _ => soon _ _ _ rfl (by simp))
    (fun _ _ _ => soon _ _ _ rfl (by simp)) ?_
  refine yields_commit (fun e _ _ => soon _ _ _ rfl (by simp))
    (fun _ _ _ => soon _ _ _ rfl (by simp)) fun db hdb => ?_
  -- the access token is signed after the commit, and begins with a clock reading
  unfold signAccessToken getCurrentTimestamp
  simp only [bind_assoc]
  refine yields_now fun now =>
    Yields.mono (yields_reads (P := fun _ => True) ?_) fun ys r s' hr => ?_
  · simp [signWithActiveKey, activeJwtPublicKeyRecord, Op.writes]
  · intro e _
    have hno : ¬ CanRetry record s'' s' := not_canRetry_of_committed (s := s'') hu hdb hr.1
    refine ⟨fun h => (hno h).elim, fun hlen => ?_⟩
    rw [length_le_upToCommit] at hlen
    simp only [List.length_cons] at hlen
    omega

/-- **When a failed `refresh_session` leaves the session alive.** A live token can be presented
again, and nothing was issued for it, if and only if the call failed at its commit or earlier. -/
theorem refreshSession_retry_iff {input : RefreshSessionInput} {record : UserRefreshTokenRecord}
    {j : Nat} {ys xs : List Ans} {s₁ s' : World} {e : Abort}
    (hlive : Prog.run exec j (activeRefreshTokenRecord x config input.refreshToken) ys s =
      some (.ok record, s₁))
    (h : Prog.run exec i (refreshSession x config input) xs s = some (.error e, s')) :
    CanRetry record s s' ↔ xs.length ≤ upToCommit xs := by
  obtain ⟨-, -, hr⟩ := yields_activeRefreshTokenRecord _ ys _ s₁ hlive
  obtain ⟨hrecord, hrevoked⟩ := hr record rfl
  exact yields_refreshSession hrecord hrevoked xs _ s' h e rfl

/-! ## Activating a key -/

/-- `latestActive` finds a record, so `active_jwt_public_key_record` does. -/
def HasActiveKey (s : World) : Prop := ∃ r ∈ s.keys, r.isActive = true

variable (x config) in
/-- Which operation of `sync_active_jwt_public_key` deactivates the keys: the second, or the third
when the configured key is new. -/
def deactivation (s : World) : Nat :=
  match rsaPublicKeyComponents x config.jwtPublicKey with
  | .ok key =>
    if s.keys.any fun record => record.modulus = key.1 && record.exponent = key.2 then 1 else 2
  | .error _ => 0

theorem not_hasActiveKey_of_deactivated {s' : World}
    (h : layout.apply (.update .jwtPublicKeys (.eq 6 (.bool true)) [(6, .bool false)]) s.db =
      some s'.db) : ¬ HasActiveKey s' := by
  rintro ⟨r, hr, hactive⟩
  rw [keys_deactivate h] at hr
  obtain ⟨r₀, -, rfl⟩ := List.mem_map.mp hr
  cases hactive

/-- Nothing has changed before the operation numbered `n`, and no key is active right after it. -/
def SwitchesOff (n : Nat) (s : World) (xs : List Ans) (s' : World) : Prop :=
  (xs[n]? ≠ some .done → s'.db = s.db) ∧
    (xs[n]? = some .done → xs.length = n + 1 → ¬ HasActiveKey s')

theorem switchesOff_before {n : Nat} {xs : List Ans} {s' : World} (hlen : xs.length ≤ n)
    (hs : s'.db = s.db) : SwitchesOff n s xs s' :=
  ⟨fun _ => hs, fun h => by rw [List.getElem?_eq_none hlen] at h; cases h⟩

theorem visits_deactivate (pre : List Ans) {s₁ : World} {y : Service Unit}
    (hs₁ : s₁.db = s.db) : Visits i (do
      update .jwtPublicKeys (.eq 6 (.bool true)) [(6, .bool false)]
      y) (fun ys => SwitchesOff pre.length s (pre ++ ys)) s₁ := by
  refine visits_update (switchesOff_before (by simp) hs₁) (fun e => ⟨fun _ => hs₁, fun h => ?_⟩)
    (fun hnone => ?_) fun db hdb => ?_
  · simp at h
  · obtain ⟨db, hdb⟩ : ∃ db, layout.apply (.update .jwtPublicKeys (.eq 6 (.bool true))
        [(6, .bool false)]) s₁.db = some db := Layout.apply_update_isSome (by decide)
    rw [hnone] at hdb
    cases hdb
  · refine Prog.Visits.mono (Prog.visits_now (not_hasActiveKey_of_deactivated hdb))
      fun ys s' hnow => ⟨fun h => by simp at h, fun _ hlen => hnow ?_⟩
    simp only [List.length_append, List.length_cons] at hlen
    exact List.length_eq_zero_iff.mp (by omega)

theorem visits_sync :
    Visits i (syncActiveJwtPublicKey x config) (SwitchesOff (deactivation x config s) s) s := by
  unfold syncActiveJwtPublicKey
  refine visits_orThrow (fun _ _ => switchesOff_before (Nat.zero_le _) rfl) fun key hkey => ?_
  have hall : layout.select s.db .jwtPublicKeys .all = s.keys :=
    List.filter_eq_self.mpr fun _ _ => rfl
  have hpos : 1 ≤ deactivation x config s := by
    unfold deactivation
    rw [hkey]
    dsimp only
    split <;> omega
  refine visits_query (switchesOff_before (Nat.zero_le _) rfl)
    (fun e => switchesOff_before hpos rfl) ?_
  rw [hall]
  cases hfind : s.keys.find?
      fun record : JwtPublicKeyRecord => record.modulus = key.1 && record.exponent = key.2 with
  | some r =>
    have hn : deactivation x config s = 1 := by
      unfold deactivation
      rw [hkey]
      exact if_pos (List.any_eq_true.mpr ⟨r, List.mem_of_find?_eq_some hfind, List.find?_some hfind⟩)
    rw [hn]
    dsimp only
    rw [Option.map_some, unwrapOrElse, pure_bind]
    exact visits_deactivate [Ans.done] rfl
  | none =>
    have hn : deactivation x config s = 2 := by
      unfold deactivation
      rw [hkey]
      refine if_neg fun hany => ?_
      obtain ⟨r, hr, hsame⟩ := List.any_eq_true.mp hany
      exact absurd hsame (List.find?_eq_none.mp hfind r hr)
    rw [hn]
    refine visits_nowV7 (switchesOff_before (by simp) rfl) fun u hu => ?_
    exact visits_deactivate [Ans.done, Ans.uuid u] rfl

/-- **When a cut-off `sync_active_jwt_public_key` leaves a signing key.** From a table with an
active key, every state of a run up to any point has one if and only if the statement that
deactivates all keys has not taken effect. -/
theorem sync_keepsActive_iff {xs : List Ans} {q : Prog Res (Except Abort Unit)} {s' : World}
    (hactive : HasActiveKey s)
    (h : Prog.steps exec i (syncActiveJwtPublicKey x config) xs s = some (q, s')) :
    (∀ ys q₁ s₁, ys <+: xs →
      Prog.steps exec i (syncActiveJwtPublicKey x config) ys s = some (q₁, s₁) → HasActiveKey s₁) ↔
    xs[deactivation x config s]? ≠ some .done := by
  constructor
  · intro hall hdone
    have htake : xs.take (deactivation x config s + 1) ++ xs.drop (deactivation x config s + 1) = xs :=
      List.take_append_drop _ _
    rw [← htake] at h
    obtain ⟨q₁, s₁, h₁, -⟩ := Prog.steps_prefix h
    have hlen : (xs.take (deactivation x config s + 1)).length = deactivation x config s + 1 := by
      obtain ⟨hlt, -⟩ := List.getElem?_eq_some_iff.mp hdone
      rw [List.length_take]
      omega
    refine (visits_sync _ q₁ s₁ h₁).2 ?_ hlen (hall _ q₁ s₁ (List.take_prefix _ _) h₁)
    rw [List.getElem?_take_of_lt (Nat.lt_succ_self _), hdone]
  · intro hdone ys q₁ s₁ hys h₁
    have hdb : s₁.db = s.db := by
      refine (visits_sync ys q₁ s₁ h₁).1 fun hy => hdone ?_
      obtain ⟨zs, rfl⟩ := hys
      obtain ⟨hlt, -⟩ := List.getElem?_eq_some_iff.mp hy
      rw [List.getElem?_append_left hlt, hy]
    unfold HasActiveKey
    rw [World.keys_eq hdb]
    exact hactive

end failures

/-! ## Failures that do harm -/

namespace Symbolic

/-- The update of the user is done, that of the invite fails. -/
def acceptBroken : List Ans :=
  [.done, noon, .done, .bytes (List.replicate 16 0), .done, noon, .fail "connection lost"]

/-- The update of the user fails. -/
def acceptRefused : List Ans :=
  [.done, noon, .done, .bytes (List.replicate 16 0), .fail "connection lost"]

/-- A call that breaks off between its updates, and one that breaks off before. -/
theorem accept_runs :
    (Prog.run exec 0 (acceptInvite ext (config "A") ⟨"token", "password"⟩) acceptBroken
      invited).map (fun r =>
        decide (r.1 = failed "connection lost" ∧ r.2.db.accounts ≠ invited.db.accounts)) =
      some true ∧
    (Prog.run exec 0 (acceptInvite ext (config "A") ⟨"token", "password"⟩) acceptRefused
      invited).map (fun r => decide (r.1 = failed "connection lost")) = some true := by
  decide +kernel

theorem acceptInvite_half_done : ¬ ∀ (x : Ext) (config : Config) (input : AcceptInviteInput)
    (i : Nat) (s s' : World) (xs : List Ans) (e : Abort), x.Lawful →
    Prog.run exec i (acceptInvite x config input) xs s = some (.error e, s') →
    s'.db.accounts = s.db.accounts := by
  intro hclaim
  obtain ⟨⟨r, s'⟩, hrun, hr⟩ := Option.map_eq_some_iff.mp accept_runs.1
  obtain ⟨hr, hne⟩ := of_decide_eq_true hr
  rw [show r = failed "connection lost" from hr] at hrun
  exact hne (hclaim ext _ _ 0 invited s' _ _ ext_lawful hrun)

/-- The same call has done nothing when it fails at the update of the user. -/
theorem acceptInvite_undone_refused : ∃ s', Prog.run exec 0
      (acceptInvite ext (config "A") ⟨"token", "password"⟩) acceptRefused invited =
        some (failed "connection lost", s') ∧ s'.db.accounts = invited.db.accounts := by
  obtain ⟨⟨r, s'⟩, hrun, hr⟩ := Option.map_eq_some_iff.mp accept_runs.2
  rw [show r = failed "connection lost" from of_decide_eq_true hr] at hrun
  exact ⟨s', hrun, (acceptInvite_undone_iff hrun).mpr (by decide)⟩

/-- Bob's refresh token. -/
def bobsToken : UserRefreshTokenRecord := ⟨3, 2, seconds 0, seconds 50, none⟩

/-- Finding the record of the token. -/
def findToken : List Ans := [.done, noon, .done, noon]

theorem bobsToken_live : Prog.run exec 0
    (activeRefreshTokenRecord ext (config "A") refreshToken) findToken session =
      some (.ok bobsToken, session) := by
  have hsome : (Prog.run exec 0 (activeRefreshTokenRecord ext (config "A") refreshToken)
    findToken session).map Prod.fst = some (.ok bobsToken) := by
    rw [activeRefreshTokenRecord_reading parse_refreshToken]
    decide +kernel
  obtain ⟨⟨r, s₁⟩, hrun, hr⟩ := Option.map_eq_some_iff.mp hsome
  obtain rfl : r = .ok bobsToken := hr
  obtain ⟨rfl, -⟩ := yields_activeRefreshTokenRecord _ _ _ s₁ hrun
  exact hrun

theorem run_refresh {zs : List Ans} {r : Except Abort LoginOutput} {s' : World}
    (h : Prog.run exec 0 (rotate ext (config "A") bobsToken) zs session = some (r, s')) :
    Prog.run exec 0 (refreshSession ext (config "A") ⟨refreshToken⟩) (findToken ++ zs) session =
      some (r, s') := by
  rw [refreshSession_eq]
  exact Flow.run_bind_ok bobsToken_live h

/-- The rest up to the commit, with the answer to it. -/
def upToCommitOf (commit : Ans) : List Ans :=
  [.done, .done, .done, .uuid 20, noon, .done, .done, noon, .done, commit]

/-- A call that breaks off after the commit, and one whose commit fails. -/
theorem rotate_runs :
    (Prog.run exec 0 (rotate ext (config "A") bobsToken)
      (upToCommitOf .done ++ [noon, .uuid 21, .fail "connection lost"]) session).map (fun r =>
        decide (r.1 = failed "connection lost" ∧
          ∀ t ∈ (r.2.db.rows .userRefreshTokens : List UserRefreshTokenRecord),
            t.id = 3 → t.revokedAt ≠ none)) = some true ∧
    (Prog.run exec 0 (rotate ext (config "A") bobsToken) (upToCommitOf (.fail "deadlock"))
      session).map Prod.fst = some (failed "deadlock") := by decide +kernel

theorem refreshSession_ended : ¬ ∀ (x : Ext) (config : Config) (input : RefreshSessionInput)
    (i : Nat) (s s₁ s' : World) (ys xs : List Ans) (record : UserRefreshTokenRecord) (e : Abort),
    x.Lawful →
    Prog.run exec i (activeRefreshTokenRecord x config input.refreshToken) ys s =
      some (.ok record, s₁) →
    Prog.run exec i (refreshSession x config input) xs s = some (.error e, s') →
    CanRetry record s s' := by
  intro hclaim
  obtain ⟨⟨r, s'⟩, hrun, hr⟩ := Option.map_eq_some_iff.mp rotate_runs.1
  obtain ⟨hr, hrevoked⟩ := of_decide_eq_true hr
  rw [show r = failed "connection lost" from hr] at hrun
  obtain ⟨⟨t, ht, hid, hnone⟩, -⟩ := hclaim ext _ ⟨refreshToken⟩ 0 session session s' _ _ bobsToken
    _ ext_lawful bobsToken_live (run_refresh hrun)
  exact hrevoked t ht hid hnone

/-- A commit that fails leaves Bob his token. -/
theorem refreshSession_retry_bob : ∃ s', Prog.run exec 0
      (refreshSession ext (config "A") ⟨refreshToken⟩)
        (findToken ++ upToCommitOf (.fail "deadlock")) session = some (failed "deadlock", s') ∧
      CanRetry bobsToken session s' := by
  obtain ⟨⟨r, s'⟩, hrun, hr⟩ := Option.map_eq_some_iff.mp rotate_runs.2
  obtain rfl : r = failed "deadlock" := hr
  have hrun := run_refresh hrun
  exact ⟨s', hrun, (refreshSession_retry_iff bobsToken_live hrun).mpr (by decide)⟩

theorem session_hasActiveKey : HasActiveKey session :=
  ⟨_, List.mem_singleton.mpr rfl, rfl⟩

/-- An instance with a new key stops right after it has deactivated the old one, or before that. -/
theorem sync_runs :
    (Prog.steps exec 0 (syncActiveJwtPublicKey ext (config "B")) [.done, .uuid 30, .done]
      session).map (fun r => decide (∀ key ∈ r.2.keys, key.isActive = false)) = some true ∧
    (Prog.steps exec 0 (syncActiveJwtPublicKey ext (config "B")) [.done] session).isSome = true ∧
    [Ans.done][deactivation ext (config "B") session]? ≠ some .done := by decide +kernel

theorem sync_switches_off : ¬ ∀ (x : Ext) (config : Config) (i : Nat) (s s' : World)
    (xs : List Ans) (q : Prog Res (Except Abort Unit)), x.Lawful → HasActiveKey s →
    Prog.steps exec i (syncActiveJwtPublicKey x config) xs s = some (q, s') → HasActiveKey s' := by
  intro hclaim
  obtain ⟨⟨q, s'⟩, hrun, hoff⟩ := Option.map_eq_some_iff.mp sync_runs.1
  obtain ⟨key, hkey, hactive⟩ :=
    hclaim ext _ 0 session s' _ q ext_lawful session_hasActiveKey hrun
  rw [of_decide_eq_true hoff key hkey] at hactive
  cases hactive

/-- Stopped after its first read it has done no harm. -/
theorem sync_keepsActive_read : ∃ q s', Prog.steps exec 0
      (syncActiveJwtPublicKey ext (config "B")) [.done] session = some (q, s') ∧
    ∀ ys q₁ s₁, ys <+: [Ans.done] → Prog.steps exec 0 (syncActiveJwtPublicKey ext (config "B")) ys
      session = some (q₁, s₁) → HasActiveKey s₁ := by
  obtain ⟨-, hsome, hbefore⟩ := sync_runs
  obtain ⟨⟨q, s'⟩, hrun⟩ := Option.isSome_iff_exists.mp hsome
  exact ⟨q, s', hrun, (sync_keepsActive_iff session_hasActiveKey hrun).mpr hbefore⟩

end Symbolic

end Wara
