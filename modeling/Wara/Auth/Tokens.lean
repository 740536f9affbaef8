import Wara.Auth.Specs

/-!
# What a session is made of

The tokens that a session comes with, in any run: an access token and a refresh
token, each signed for the user of the session.
-/

namespace Wara

open Interleave Store Service AuthService

/-- `token` is what `sign_access_token` makes for a user. -/
def IsAccessToken (x : Ext) (token : String) (userId : Uuid) : Prop :=
  ∃ (header : Header) (claims : Claims) (key : EncodingKey),
    claims.sub = x.uuidToString userId ∧ x.encode header claims.serialize key = .ok token

/-- `token` is what `sign_refresh_token` makes for the record `id` of a user. -/
def IsRefreshToken (x : Ext) (token : String) (id userId : Uuid) : Prop :=
  ∃ (header : Header) (claims : RefreshClaims) (key : EncodingKey),
    claims.jti = x.uuidToString id ∧ claims.sub = x.uuidToString userId ∧
      x.encode header claims.serialize key = .ok token

def IsSession (x : Ext) (output : LoginOutput) : Prop :=
  IsAccessToken x output.token output.user.id ∧
    ∃ id, IsRefreshToken x output.refreshToken id output.user.id

/-- An access token with the issuer and the audience of the instance. -/
def SignedAccess (x : Ext) (config : Config) (token : String) (userId : Uuid) : Prop :=
  ∃ (header : Header) (claims : Claims) (key : EncodingKey),
    claims.sub = x.uuidToString userId ∧ claims.iss = config.jwtIssuer ∧
      claims.aud = config.jwtAudience ∧ x.encode header claims.serialize key = .ok token

def SignedRefresh (x : Ext) (config : Config) (token : String) (id userId : Uuid) : Prop :=
  ∃ (header : Header) (claims : RefreshClaims) (key : EncodingKey),
    claims.jti = x.uuidToString id ∧ claims.sub = x.uuidToString userId ∧
      claims.typ = "refresh" ∧ claims.iss = config.jwtIssuer ∧ claims.aud = config.jwtAudience ∧
      x.encode header claims.serialize key = .ok token

def SignedSession (x : Ext) (config : Config) (output : LoginOutput) : Prop :=
  SignedAccess x config output.token output.user.id ∧
    ∃ id, SignedRefresh x config output.refreshToken id output.user.id

theorem SignedSession.isSession {x : Ext} {config : Config} {output : LoginOutput}
    (h : SignedSession x config output) : IsSession x output := by
  obtain ⟨⟨header, claims, key, hsub, -, -, hencode⟩, id, header', claims', key', hjti, hsub', -, -,
    -, hencode'⟩ := h
  exact ⟨⟨header, claims, key, hsub, hencode⟩, id, header', claims', key', hjti, hsub', hencode'⟩

variable {x : Ext} {config : Config}

/-! ## Reading tokens -/

section reads

variable {token : String} {userId : Uuid}

theorem IsAccessToken.sub_eq (hx : x.Lawful) (h : IsAccessToken x token userId) {claims : Claims}
    (hr : ReadsAsAccess x token claims) : claims.sub = x.uuidToString userId := by
  obtain ⟨_, claims', _, hsub, hencode⟩ := h
  obtain ⟨_, _, _, _, payload, -, hd, hc⟩ := hr
  rw [hx.decode_encode hencode hd, Claims.deserialize_serialize] at hc
  cases hc
  exact hsub

theorem IsAccessToken.not_refresh (hx : x.Lawful) (h : IsAccessToken x token userId)
    {claims : RefreshClaims} : ¬ ReadsAsRefresh x token claims := by
  rintro ⟨_, _, _, _, payload, -, hd, hc⟩
  obtain ⟨_, claims', _, -, hencode⟩ := h
  rw [hx.decode_encode hencode hd, RefreshClaims.deserialize_access] at hc
  cases hc

theorem IsRefreshToken.claims_eq (hx : x.Lawful) {id : Uuid} (h : IsRefreshToken x token id userId)
    {claims : RefreshClaims} (hr : ReadsAsRefresh x token claims) :
    claims.jti = x.uuidToString id ∧ claims.sub = x.uuidToString userId := by
  obtain ⟨_, claims', _, hjti, hsub, hencode⟩ := h
  obtain ⟨_, _, _, _, payload, -, hd, hc⟩ := hr
  rw [hx.decode_encode hencode hd, RefreshClaims.deserialize_serialize] at hc
  cases hc
  exact ⟨hjti, hsub⟩

theorem IsRefreshToken.not_access (hx : x.Lawful) {id : Uuid} (h : IsRefreshToken x token id userId)
    {claims : Claims} : ¬ ReadsAsAccess x token claims := by
  rintro ⟨_, _, _, _, payload, -, hd, hc⟩
  obtain ⟨_, claims', _, -, -, hencode⟩ := h
  rw [hx.decode_encode hencode hd, Claims.deserialize_refresh] at hc
  cases hc

/-- A text without dots is no signed token. -/
theorem not_readsAsAccess (hx : x.Lawful) (h : '.' ∉ token.toList) {claims : Claims} :
    ¬ ReadsAsAccess x token claims := fun ⟨_, _, _, _, _, hh, _⟩ => h (hx.decodeHeader_dot hh)

theorem not_readsAsRefresh (hx : x.Lawful) (h : '.' ∉ token.toList) {claims : RefreshClaims} :
    ¬ ReadsAsRefresh x token claims := fun ⟨_, _, _, _, _, hh, _⟩ => h (hx.decodeHeader_dot hh)

end reads

/-! ## Signing -/

/-- Nothing is said of what is issued, and the value is any. -/
theorem all_any {α : Type} (y : Service α) : Flow.All (fun _ => True) y fun _ => True :=
  (Prog.all_trivial y).mono (fun _ h => h) fun _ _ _ _ => trivial

theorem all_bind_any {α β : Type} {y : Service α} {f : α → Service β} {Q : β → Prop}
    (h : ∀ a, Flow.All (fun _ => True) (f a) Q) : Flow.All (fun _ => True) (y >>= f) Q :=
  Flow.all_bind.mpr ((all_any y).mono (fun _ h => h) fun a _ => h a)

theorem all_bind_of {α β : Type} {y : Service α} {f : α → Service β} {P : α → Prop} {Q : β → Prop}
    (hy : Flow.All (fun _ => True) y P) (h : ∀ a, P a → Flow.All (fun _ => True) (f a) Q) :
    Flow.All (fun _ => True) (y >>= f) Q :=
  Flow.all_bind.mpr (hy.mono (fun _ h => h) h)

theorem all_signWithActiveKey (what : String) (payload : Payload) :
    Flow.All (fun _ => True) (signWithActiveKey x config what payload)
      fun token => ∃ header key, x.encode header payload key = .ok token := by
  unfold signWithActiveKey activeJwtPublicKeyRecord
  simp only [Flow.all_bind, all_mapErr, all_query, all_okOr, all_throwIf, Flow.all_pure, true_and]
  intro key _ _ record _ _ token htoken
  exact ⟨_, key, htoken⟩

theorem all_signRefreshToken (id userId : Uuid) (issuedAt expiresAt : DateTime) :
    Flow.All (fun _ => True) (signRefreshToken x config id userId issuedAt expiresAt)
      fun token => SignedRefresh x config token id userId := by
  unfold signRefreshToken
  refine (all_signWithActiveKey _ _).mono (fun _ h => h) ?_
  rintro token ⟨header, key, htoken⟩
  exact ⟨header, _, key, rfl, rfl, rfl, rfl, rfl, htoken⟩

theorem all_signAccessToken (user : User) (refreshTokenId : Uuid) :
    Flow.All (fun _ => True) (signAccessToken x config user refreshTokenId)
      fun token => SignedAccess x config token user.id := by
  unfold signAccessToken
  refine all_bind_any fun _ => all_bind_any fun _ => ?_
  refine (all_signWithActiveKey _ _).mono (fun _ h => h) ?_
  rintro token ⟨header, key, htoken⟩
  exact ⟨header, _, key, rfl, rfl, rfl, htoken⟩

theorem all_issuesRefreshToken (e : Executor) (userId : Uuid) :
    Flow.All (fun _ => True) (issueRefreshToken x config e userId)
      fun issue => ∃ id, SignedRefresh x config issue.token id userId := by
  unfold issueRefreshToken
  refine all_bind_any fun id => all_bind_any fun _ => all_bind_any fun _ => all_bind_any fun _ => ?_
  exact all_bind_of (all_signRefreshToken id userId _ _) fun token htoken =>
    Flow.all_pure.mpr ⟨id, htoken⟩

/-! ## Sessions -/

theorem all_startSession (user : User) :
    Flow.All (fun _ => True) (startSession x config user) (SignedSession x config) := by
  unfold startSession
  refine all_bind_of (all_issuesRefreshToken .handle user.id) fun issue hissue => ?_
  exact all_bind_of (all_signAccessToken user _) fun token htoken =>
    Flow.all_pure.mpr ⟨htoken, hissue⟩

theorem all_login (input : LoginInput) :
    Flow.All (fun _ => True) (login x config input) (SignedSession x config) := by
  unfold login
  exact all_bind_any fun _ => all_bind_any fun _ => all_bind_any fun _ => all_bind_any fun _ =>
    all_bind_any fun user => all_startSession user

theorem all_acceptInvite (input : AcceptInviteInput) :
    Flow.All (fun _ => True) (acceptInvite x config input) (SignedSession x config) := by
  unfold acceptInvite
  exact all_bind_any fun _ => all_bind_any fun _ => all_bind_any fun _ => all_bind_any fun _ =>
    all_bind_any fun _ => all_bind_any fun _ => all_bind_any fun _ => all_bind_any fun _ =>
    all_bind_any fun _ => all_bind_any fun _ => all_bind_any fun _ => all_bind_any fun user =>
    all_startSession user

theorem all_refreshSession (input : RefreshSessionInput) :
    Flow.All (fun _ => True) (refreshSession x config input) (SignedSession x config) := by
  unfold refreshSession
  refine all_bind_any fun record => all_bind_any fun userRecord => all_bind_any fun _ =>
    all_bind_any fun user => all_bind_any fun _ => ?_
  refine all_bind_of (all_issuesRefreshToken .transaction user.id) fun issue hissue => ?_
  refine all_bind_any fun _ => all_bind_any fun _ => all_bind_any fun _ => ?_
  exact all_bind_of (all_signAccessToken user _) fun token htoken =>
    Flow.all_pure.mpr ⟨htoken, hissue⟩

/-- A session in the reply is made at the instance. -/
def AuthReply.Proper (x : Ext) (config : Config) (reply : AuthReply) : Prop :=
  ∀ output, reply = .session output → SignedSession x config output

theorem all_serve (q : AuthRequest) :
    Flow.All (fun _ => True) (q.serve x config) (AuthReply.Proper x config) := by
  have hsession : ∀ {y : Service LoginOutput}, Flow.All (fun _ => True) y (SignedSession x config) →
      Flow.All (fun _ => True) (AuthReply.session <$> y) (AuthReply.Proper x config) := fun h =>
    Flow.all_map.mpr (h.mono (fun _ h => h) fun output ho output' he => by cases he; exact ho)
  have hother : ∀ {α : Type} (y : Service α) (g : α → AuthReply),
      (∀ a output, g a ≠ .session output) →
      Flow.All (fun _ => True) (g <$> y) (AuthReply.Proper x config) := fun y g hg =>
    Flow.all_map.mpr ((all_any y).mono (fun _ h => h) fun a _ output he => absurd he (hg a output))
  cases q with
  | login input => exact hsession (all_login input)
  | acceptInvite input => exact hsession (all_acceptInvite input)
  | refreshSession input => exact hsession (all_refreshSession input)
  | _ => exact hother _ _ fun _ _ h => (by cases h)

section runs

variable {calls : List Call} {w : World} {P' : AuthPool} {es : List (Event Res World)} {i : Nat}
  {output : LoginOutput}

/-- **What a session is made of.** Every session that a request returns in a run comes with an
access token and a refresh token for its user, made at the instance that served it. -/
theorem session_signed (hr : Runs exec (AuthPool.of x calls w) es P') {c : Call}
    (hc : calls[i]? = some c) (hend : P'.threads[i]? = some (.ret (.ok (.session output)))) :
    SignedSession x c.config output := by
  have hall := (hr.all (φ := fun _ _ => True)
    (Q := fun j r => ∀ c, calls[j]? = some c → ∀ reply, r = .ok reply → reply.Proper x c.config)
    fun j p hp => by
      simp only [AuthPool.of, List.getElem?_map, Option.map_eq_some_iff] at hp
      obtain ⟨c, hc, rfl⟩ := hp
      refine Prog.All.mono (all_serve c.request) (fun _ h => h) fun r hr c' hc' reply he => ?_
      cases hc.symm.trans hc'
      exact hr reply he).2
  exact hall i _ hend c hc _ rfl output rfl

theorem session_isSession (hr : Runs exec (AuthPool.of x calls w) es P')
    (hend : P'.threads[i]? = some (.ret (.ok (.session output)))) : IsSession x output := by
  obtain ⟨c, hc⟩ := AuthPool.call_of_thread hr hend
  exact (session_signed hr hc hend).isSession

end runs

end Wara
