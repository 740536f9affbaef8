import Wara.Auth.Tokens
import Wara.External.Symbolic

/-!
# Spending a refresh token

`refresh_session` and `logout` check that the record is not revoked, and later
revoke it whatever has happened since. So two requests with one token can both
get through; they do not in exactly the runs in which every revoking update
finds the record as the check saw it.
-/

namespace Wara

open Interleave Store Service AuthService

section runs

variable {x : Ext} {config : Config} {calls : List Call} {w : World} {P' : AuthPool}
  {es : List (Event Res World)}

/-! ## What success takes -/

/-- The event revokes the record `id`, which exists. -/
def Revokes (id : Uuid) (e : Event Res World) : Prop :=
  e.op.succeeded e.res = true ∧
    (∃ revokedAt, revokeWrite id revokedAt ∈ e.op.writes) ∧
    ∃ r : UserRefreshTokenRecord, r ∈ e.pre.db.rows .userRefreshTokens ∧ r.id = id

/-- The event issues a successor of the record `id`. -/
def IssuesSuccessor (id : Uuid) (e : Event Res World) : Prop :=
  Revokes id e ∧ ∃ r : UserRefreshTokenRecord, .insert .userRefreshTokens r ∈ e.op.writes

def Revoked (id : Uuid) (w : World) : Prop :=
  ∃ r : UserRefreshTokenRecord, r ∈ w.db.rows .userRefreshTokens ∧ r.id = id ∧
    r.revokedAt.isSome = true

theorem Db.Keeps.refreshToken {db db' : Db} (h : db.Keeps db') {r : UserRefreshTokenRecord}
    (hr : r ∈ db.rows .userRefreshTokens) :
    ∃ r' : UserRefreshTokenRecord, r' ∈ db'.rows .userRefreshTokens ∧ r'.id = r.id := by
  obtain ⟨r', hr', hc⟩ := h .userRefreshTokens r hr
  exact ⟨r', hr', uuid_of_col (hc 0 (by decide))⟩

/-- What a request that presents the token of the record `id` goes on with is that record. -/
theorem ends_presented {c : Rules Res World} {β : Type} {ok : β → World → Prop}
    {s : World} (hx : x.Lawful) (hc : Tame c) {token : String} {id userId : Uuid}
    (htoken : IsRefreshToken x token id userId) {f : UserRefreshTokenRecord → Service β}
    (h : ∀ s₁ s₂ r, c.rely s s₁ → c.rely s₁ s₂ → r ∈ s₁.db.rows .userRefreshTokens → r.id = id →
      r.revokedAt = none → Ends c (f r) ok s₂) :
    Ends c (activeRefreshTokenRecord x config token >>= f) ok s := by
  refine ends_activeRefreshTokenRecord hc fun s₁ s₂ claims r h₁ h₂ hreads hjti _ hr hrevoked => ?_
  rw [(htoken.claims_eq hx hreads).1, hx.parse_uuid] at hjti
  exact h s₁ s₂ r h₁ h₂ hr (Option.some.inj hjti).symm hrevoked

/-- Under the rules `sparing (Revokes id)` the record cannot be revoked. -/
theorem not_revoked_of_sparing {i : Nat} {id : Uuid} {o : Op} {s₀ s s' : World} {res : Res o}
    {r : UserRefreshTokenRecord} (hr : r ∈ s₀.db.rows .userRefreshTokens) (hid : r.id = id)
    (hk : s₀.Keeps s) (hstep : (sparing (Revokes id) i).step o s res s')
    (hs : o.succeeded res = true) (revokedAt : String) : revokeWrite id revokedAt ∉ o.writes := by
  intro hmem
  obtain ⟨r', hr', hid'⟩ := Db.Keeps.refreshToken hk hr
  exact hstep.2.2 ⟨hs, ⟨revokedAt, hmem⟩, r', hr', hid'.trans hid⟩

theorem logout_revokes (hx : x.Lawful) {i : Nat} {token : String} {id userId : Uuid}
    (htoken : IsRefreshToken x token id userId) :
    Ends (sparing (Revokes id) i) (AuthRequest.serve x config (.logout ⟨token⟩))
      (fun _ _ => False) w := by
  have hc : Calm (sparing (Revokes id) i) := calm_sparing
  refine ends_map ?_
  unfold logout
  refine ends_presented hx hc.toTame htoken fun s₁ s₂ r _ hk hr hid _ => ?_
  refine ends_any hc fun revokedAt s₃ hk₃ => ?_
  rw [hid, ← bind_pure (update _ _ _)]
  refine ends_update (fun _ _ _ _ _ => trivial) fun s₄ s₅ hk₄ hstep => ?_
  have hmem : revokeWrite id (x.toRfc3339 revokedAt) ∈
    (Op.write (revokeWrite id (x.toRfc3339 revokedAt))).writes := List.mem_singleton_self _
  exact absurd hmem (not_revoked_of_sparing hr hid (hk.trans (hk₃.trans hk₄)) hstep rfl _)

theorem refreshSession_revokes (hx : x.Lawful) {i : Nat} {token : String} {id userId : Uuid}
    (htoken : IsRefreshToken x token id userId) :
    Ends (sparing (Revokes id) i) (AuthRequest.serve x config (.refreshSession ⟨token⟩))
      (fun _ _ => False) w := by
  have hc : Calm (sparing (Revokes id) i) := calm_sparing
  refine ends_map ?_
  unfold refreshSession
  refine ends_presented hx hc.toTame htoken fun s₁ s₂ r _ hk hr hid _ => ?_
  refine ends_any hc fun userRecord s₃ hk₃ => ends_throwIf fun _ => ?_
  refine ends_any hc fun user s₄ hk₄ => ends_any hc fun _ s₅ hk₅ => ?_
  refine ends_any hc fun issue s₆ hk₆ => ends_any hc fun revokedAt s₇ hk₇ => ?_
  refine ends_any hc fun _ s₈ hk₈ => ?_
  rw [hid]
  refine ends_commit (fun _ _ _ _ _ => trivial) fun s₉ s₁₀ hk₉ hstep => ?_
  have hkeep : s₁.Keeps s₉ := hk.trans (hk₃.trans (hk₄.trans (hk₅.trans (hk₆.trans
    (hk₇.trans (hk₈.trans hk₉))))))
  have hmem : revokeWrite id (x.toRfc3339 revokedAt) ∈ (Op.commit [
      .insert .userRefreshTokens issue.record, revokeWrite id (x.toRfc3339 revokedAt)]).writes :=
    List.mem_cons_of_mem _ (List.mem_singleton_self _)
  exact absurd hmem (not_revoked_of_sparing hr hid hkeep hstep rfl _)

/-! ## Single use -/

/-- **One step**: a revoked record stays revoked. -/
theorem Revoked.step {id : Uuid} {q : AuthRequest} {o : Op} {w w' : World} (h : Revoked id w)
    (hch : Changes x q o) (ha : layout.applyAll o.writes w.db = some w'.db) : Revoked id w' := by
  obtain ⟨r, hr, hid, hrev⟩ := h
  obtain ⟨r', hr', hid', hrev'⟩ := Layout.applyAll_mem
    (P := fun r : UserRefreshTokenRecord => r.id = id ∧ r.revokedAt.isSome = true) ha
    (fun f sets hmem r _ hP => by
      cases hch <;> simp [Op.writes] at hmem
      all_goals
        obtain ⟨-, rfl⟩ := hmem
        exact ⟨hP.1, rfl⟩) hr ⟨hid, hrev⟩
  exact ⟨r', hr', hid', hrev'⟩

theorem revoked_of_apply {id : Uuid} {revokedAt : String} {db : Db} {w : World}
    (h : layout.apply (revokeWrite id revokedAt) db = some w.db) {r : UserRefreshTokenRecord}
    (hr : r ∈ db.rows .userRefreshTokens) (hid : r.id = id) : Revoked id w := by
  refine ⟨{ r with revokedAt := some revokedAt }, ?_, hid, rfl⟩
  rw [Layout.apply_update h]
  exact List.mem_map.mpr ⟨r, hr, if_pos (holds_byId_refreshTokens.mpr hid)⟩

/-- A revoking event leaves the record revoked. -/
theorem Revokes.revoked (hr : Runs exec (AuthPool.of x calls w) es P') {e : Event Res World}
    (he : e ∈ es) {id : Uuid} (h : Revokes id e) : Revoked id e.post := by
  obtain ⟨hs, ⟨revokedAt, hmem⟩, r, hrow, hid⟩ := h
  obtain ⟨c, -, hch⟩ := AuthPool.issued hr e he
  obtain ⟨a, ha⟩ := hr.handled e he
  have happ := exec_succeeded ha hs
  rcases hch with hnil | hch
  · rw [hnil] at hmem; cases hmem
  · generalize e.op = o at hch hmem happ
    generalize c.request = q at hch
    cases hch <;> simp [Op.writes] at hmem
    case refresh input id' userId old createdAt expiresAt revokedAt' =>
      obtain ⟨db₁, h1, h2⟩ := Layout.applyAll_cons.mp happ
      have hrow' : r ∈ db₁.rows .userRefreshTokens := by
        rw [Layout.apply_insert h1]
        exact List.mem_append_left _ hrow
      have hold : old = id := by
        obtain ⟨hold, -⟩ := hmem
        simpa [byId] using hold.symm
      subst hold
      exact revoked_of_apply (applyAll_single h2) hrow' hid
    case logout input old revokedAt' =>
      have hold : old = id := by
        obtain ⟨hold, -⟩ := hmem
        simpa [byId] using hold.symm
      subst hold
      exact revoked_of_apply (applyAll_single happ) hrow hid

/-- The request of thread `i` presents the token and has succeeded. -/
def SpentBy (calls : List Call) (P' : AuthPool) (token : String) (i : Nat) : Prop :=
  (∃ config, calls[i]? = some ⟨config, .refreshSession ⟨token⟩⟩ ∨
    calls[i]? = some ⟨config, .logout ⟨token⟩⟩) ∧ P'.Succeeded i

/-- The request of thread `i` is a logout with the token and has succeeded. -/
def LoggedOut (calls : List Call) (P' : AuthPool) (token : String) (i : Nat) : Prop :=
  (∃ config, calls[i]? = some ⟨config, .logout ⟨token⟩⟩) ∧ P'.Succeeded i

/-- **When a refresh token is single use.** In a run of any requests in which every update that
revokes the token's record finds it not revoked: at most one refresh or logout with the token
succeeds, at most one successor is issued, and none if a logout succeeds. -/
theorem refreshToken_single_use (hx : x.Lawful) {token : String} {id userId : Uuid}
    (htoken : IsRefreshToken x token id userId) (hr : Runs exec (AuthPool.of x calls w) es P')
    (hcond : ∀ e ∈ es, Revokes id e → ¬ Revoked id e.pre) :
    (∀ i j, SpentBy calls P' token i → SpentBy calls P' token j → i = j) ∧
      (es.Pairwise fun e e' => ¬ (IssuesSuccessor id e ∧ IssuesSuccessor id e')) ∧
      ∀ i, LoggedOut calls P' token i → ∀ e ∈ es, ¬ IssuesSuccessor id e := by
  have hkeep : ∀ e ∈ es, Revoked id e.pre → Revoked id e.post := by
    intro e he hpre
    rcases AuthPool.step hr he with hsame | ⟨c, -, hch, -, ha⟩
    · unfold Revoked; rw [hsame]; exact hpre
    · exact hpre.step hch ha
  have honce : es.Pairwise fun e e' => ¬ (Revokes id e ∧ Revokes id e') :=
    hr.fires_once hkeep fun e he h => ⟨hcond e he h, h.revoked hr he⟩
  have hfired : ∀ i, SpentBy calls P' token i → ∃ e ∈ es, e.tid = i ∧ Revokes id e := by
    rintro i ⟨⟨config, hc | hc⟩, hend⟩
    · exact AuthPool.fired hr hc (refreshSession_revokes hx htoken) hend
    · exact AuthPool.fired hr hc (logout_revokes hx htoken) hend
  refine ⟨?_, honce.imp fun {e e'} h hh => h ⟨hh.1.1, hh.2.1⟩, ?_⟩
  · intro i j hi hj
    obtain ⟨e, he, rfl, hf⟩ := hfired i hi
    obtain ⟨e', he', rfl, hf'⟩ := hfired j hj
    exact tid_eq_of_once honce he he' hf hf'
  · rintro i ⟨⟨config, hc⟩, hend⟩ e he ⟨hrev, r, hins⟩
    -- the one revoking event is the logout's, and a logout inserts nothing
    obtain ⟨e', he', rfl, hrev'⟩ := hfired i ⟨⟨config, .inr hc⟩, hend⟩
    obtain ⟨c, hc', hch⟩ := AuthPool.issued hr e he
    rw [tid_eq_of_once honce he he' hrev hrev', hc] at hc'
    cases hc'
    rcases hch with hnil | hch
    · rw [hnil] at hins; cases hins
    · generalize e.op = o at hch hins
      cases hch
      simp [Op.writes] at hins

end runs

/-! ## One token, two sessions -/

namespace Symbolic

/-- An active user with a refresh token, and the key of instance `A`. -/
def session : World := .start {
  rows := fun
    | .users => [⟨2, "bob@wara.local", "Bob", "viewer", "active", "$argon2id$password"⟩]
    | .userRefreshTokens => [⟨3, 2, seconds 0, seconds 50, none⟩]
    | .jwtPublicKeys => [⟨5, "RSA", "sig", "RS256", urlSafe (bytes "A"), "AQAB", true, seconds 0⟩]
    | _ => []
  unique := fun t => by cases t <;> decide }

def refreshClaims : RefreshClaims :=
  ⟨hyphenated 3, hyphenated 2, "refresh", "wara", "wara-api", 0, 50⟩

def refreshToken : String :=
  Token.render ⟨⟨some (hyphenated 5)⟩, refreshClaims.serialize, ⟨bytes "A"⟩⟩

theorem isRefreshToken : IsRefreshToken ext refreshToken 3 2 :=
  ⟨⟨some (hyphenated 5)⟩, refreshClaims, ⟨bytes "A"⟩, rfl, rfl, rfl⟩

/-! Evaluating `Token.parse` takes long, so runs are evaluated over an instance that knows the
token. -/

/-- `ext` where every text is the token `t`. -/
def reading (t : Token) : Ext := { ext with
  decodeHeader := fun _ => some t.header
  decode := fun now _ key v =>
    if decide (publicKey t.key.der = key) && live now t.payload &&
        t.payload.lookup "aud" == some (.str v.aud) && t.payload.lookup "iss" == some (.str v.iss) &&
        v.requiredSpecClaims.all fun field => (t.payload.lookup field).isSome
    then .ok t.payload else .error "InvalidSignature" }

theorem activeRefreshTokenRecord_reading {token : String} {t : Token} {config : Config}
    (h : Token.parse token = some t) :
    activeRefreshTokenRecord ext config token = activeRefreshTokenRecord (reading t) config token := by
  have hheader : ext.decodeHeader token = (reading t).decodeHeader token := by
    show (Token.parse token).map _ = _
    rw [h]
    rfl
  have hdecode : ∀ now key v, ext.decode now token key v = (reading t).decode now token key v := by
    intro now key v
    show decode now token key v = _
    unfold decode verifySignature
    rw [h]
    rfl
  unfold activeRefreshTokenRecord verifyRefreshToken decodingKeyForToken
  rw [hheader]
  simp only [hdecode]
  rfl

theorem of_reading {token : String} {t : Token} {calls : List Call} {w : World}
    (h : Token.parse token = some t) (hcalls : ∀ c ∈ calls,
      c.request = .refreshSession ⟨token⟩ ∨ c.request = .logout ⟨token⟩) :
    AuthPool.of ext calls w = AuthPool.of (reading t) calls w := by
  unfold AuthPool.of
  refine congrArg (Pool.mk · w) (List.map_congr_left fun c hc => ?_)
  unfold Call.prog
  rcases hcalls c hc with hc | hc
  · rw [hc]
    unfold AuthRequest.serve refreshSession
    dsimp only
    rw [activeRefreshTokenRecord_reading h]
    rfl
  · rw [hc]
    unfold AuthRequest.serve logout
    dsimp only
    rw [activeRefreshTokenRecord_reading h]
    rfl

theorem parse_refreshToken : Token.parse refreshToken =
    some ⟨⟨some (hyphenated 5)⟩, refreshClaims.serialize, ⟨bytes "A"⟩⟩ := Token.parse_render _

/-- `refresh_session` up to the transaction. -/
def refreshChecks (i : Nat) : List (Nat × Ans) :=
  let noon : Ans := .time ⟨10000000000⟩
  [(i, .done), (i, noon), (i, .done), (i, noon), (i, .done), (i, .done)]

/-- The rest of `refresh_session`, with the identifiers it generates. -/
def refreshUpdates (i : Nat) (refreshId tokenId : Uuid) : List (Nat × Ans) :=
  let noon : Ans := .time ⟨10000000000⟩
  [(i, .done), (i, .uuid refreshId), (i, noon), (i, .done), (i, .done), (i, noon), (i, .done),
    (i, .done), (i, noon), (i, .uuid tokenId), (i, .done)]

/-- Two requests with one token. -/
def refreshed : AuthPool :=
  AuthPool.of ext [⟨config "A", .refreshSession ⟨refreshToken⟩⟩,
    ⟨config "A", .refreshSession ⟨refreshToken⟩⟩] session

def refreshRace : List (Nat × Ans) :=
  refreshChecks 0 ++ refreshChecks 1 ++ refreshUpdates 0 20 21 ++ refreshUpdates 1 22 23

theorem refreshed_succeeded : (refreshed.run exec refreshRace).map (fun P' : AuthPool =>
    decide (P'.Succeeded 0 ∧ P'.Succeeded 1)) = some true := by
  unfold refreshed
  rw [of_reading parse_refreshToken (by simp)]
  decide +kernel

theorem refreshToken_used_twice : ¬ ∀ (x : Ext) (calls : List Call) (w : World) (P' : AuthPool)
    (es : List (Event Res World)) (token : String) (id userId : Uuid),
    x.Lawful → IsRefreshToken x token id userId → Runs exec (AuthPool.of x calls w) es P' →
    ∀ i j, SpentBy calls P' token i → SpentBy calls P' token j → i = j := by
  intro hclaim
  obtain ⟨P', hrun, hboth⟩ := Option.map_eq_some_iff.mp refreshed_succeeded
  obtain ⟨hfirst, hsecond⟩ := of_decide_eq_true hboth
  have hsame := hclaim ext _ session P' _ refreshToken 3 2 ext_lawful isRefreshToken
    (Pool.run_runs hrun) 0 1 ⟨⟨_, .inl rfl⟩, hfirst⟩ ⟨⟨_, .inl rfl⟩, hsecond⟩
  cases hsame

/-- A logout and a refresh with one token. -/
def loggedOut : AuthPool :=
  AuthPool.of ext [⟨config "A", .logout ⟨refreshToken⟩⟩,
    ⟨config "A", .refreshSession ⟨refreshToken⟩⟩] session

/-- The refresh reads the token before the logout updates, and its record after that. -/
def logoutFirst : List (Nat × Ans) :=
  let noon : Ans := .time ⟨10000000000⟩
  [(0, .done), (0, noon), (1, .done), (1, noon), (0, .done), (0, noon), (0, noon), (0, .done),
    (1, .done)]

theorem loggedOut_succeeded : (loggedOut.run exec logoutFirst).map (fun P' : AuthPool =>
    decide (P'.Succeeded 0)) = some true := by
  unfold loggedOut
  rw [of_reading parse_refreshToken (by simp)]
  decide +kernel

/-- The logout finds the record as it was, and no successor is issued. -/
theorem refreshToken_single_use_loggedOut :
    ¬ ∃ e ∈ loggedOut.trace exec logoutFirst, IssuesSuccessor 3 e := by
  rintro ⟨e, he, hissues⟩
  obtain ⟨P', hrun, hdone⟩ := Option.map_eq_some_iff.mp loggedOut_succeeded
  have hlive : ∀ e ∈ loggedOut.trace exec logoutFirst, e.op.writes.isEmpty = false →
      ∀ r ∈ (e.pre.db.rows .userRefreshTokens : List UserRefreshTokenRecord),
        r.revokedAt = none := by
    unfold loggedOut
    rw [of_reading parse_refreshToken (by simp)]
    decide +kernel
  refine (refreshToken_single_use ext_lawful isRefreshToken (Pool.run_runs hrun) ?_).2.2 0
    ⟨⟨config "A", rfl⟩, of_decide_eq_true hdone⟩ e he hissues
  rintro e he ⟨-, ⟨_, hw⟩, -⟩ ⟨r, hr, -, hrev⟩
  rw [hlive e he (List.isEmpty_eq_false_iff_exists_mem.mpr ⟨_, hw⟩) r hr] at hrev
  cases hrev

end Symbolic

end Wara
