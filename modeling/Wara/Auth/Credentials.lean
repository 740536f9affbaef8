import Wara.Auth.Generated
import Wara.External.Symbolic

/-!
# Credentials

The four kinds of credential that the service hands out, and what each can lead
to: a token is read by its claims, an invite or API token by the one row that
stores its digest. So a credential is accepted as its own kind only
(`HasShape.ofKind`) and for its user only (`leads_of_issued`). Entry points that
find nothing, or a user who is not active, fail before they write (`ShutOut`).
-/

namespace Wara

open Interleave Store Service AuthService

variable {x : Ext} {config : Config}

/-! ## Calls that change nothing -/

/-- Run alone, the call changes nothing. -/
def still : Rules Res World where
  rely s s' := s'.db = s.db
  rely_refl := alone.rely_refl
  rely_trans := @Rules.rely_trans _ _ _ alone
  step o s r s' := ∃ i a, exec i o a s = some (r, s')
  guar _ s _ s' := s'.db = s.db

theorem tame_still : Tame still where
  exec h := h
  reads {o s r s'} ho h := by
    obtain ⟨i, a, ha⟩ := h
    have hdb : s'.db = s.db := by
      rcases exec_db ha with h | ⟨-, h⟩
      · exact h
      · rw [ho] at h
        exact (Layout.applyAll_nil.mp h).symm
    exact ⟨hdb, hdb⟩

/-- In this state the call fails, whatever the database answers, and changes nothing. -/
def ShutOut {α : Type} (s : World) (y : Service α) : Prop :=
  ∀ i xs r s', Prog.run exec i y xs s = some (r, s') → (∃ e, r = .error e) ∧ s'.db = s.db

theorem shutOut_of_ends {α : Type} {s : World} {y : Service α}
    (h : Ends still y (fun _ _ => False) s) : ShutOut s y := by
  intro i xs r s' hr
  obtain ⟨hdb, hend⟩ := Prog.Safe.run h (fun {o s a r s'} ha => ⟨i, a, ha⟩) (fun hg => hg) hr
  cases r with
  | ok a => exact hend.elim
  | error e => exact ⟨⟨e, rfl⟩, hdb⟩

/-! ## Kinds of credential -/

inductive CredentialKind where
  | accessToken
  | refreshToken
  | inviteToken
  | apiToken
  deriving DecidableEq, Repr

/-- What the service makes a credential of each kind from. -/
inductive HasShape (x : Ext) : CredentialKind → String → Prop
  | accessToken {credential : String} {id : Uuid} (h : IsAccessToken x credential id) :
      HasShape x .accessToken credential
  | refreshToken {credential : String} {tokenId id : Uuid}
      (h : IsRefreshToken x credential tokenId id) : HasShape x .refreshToken credential
  | inviteToken (raw : Bytes 32) : HasShape x .inviteToken (x.urlSafeEncode raw.val)
  | apiToken (raw : Bytes 32) : HasShape x .apiToken ("wara_" ++ x.urlSafeEncode raw.val)

/-- In state `s` the credential is read as one of kind `k`, or not at all. -/
structure OfKind (x : Ext) (s : World) (k : CredentialKind) (credential : String) : Prop where
  access : ∀ claims, ReadsAsAccess x credential claims → k = .accessToken
  refresh : ∀ claims, ReadsAsRefresh x credential claims → k = .refreshToken
  invite : ∀ i : UserInviteRecord, i ∈ s.db.rows .userInvites →
    i.tokenHash = hashInviteToken x credential → k = .inviteToken
  api : Rust.startsWith credential "wara_" = true → ∀ r : UserApiTokenRecord,
    r ∈ s.db.rows .userApiTokens → r.tokenHash = hashApiToken x credential → k = .apiToken

/-- In state `s` the credential is read as one for the user `id`, or not at all. -/
structure Leads (x : Ext) (s : World) (id : Uuid) (credential : String) : Prop where
  access : ∀ claims, ReadsAsAccess x credential claims → claims.sub = x.uuidToString id
  refresh : ∀ claims, ReadsAsRefresh x credential claims → claims.sub = x.uuidToString id
  invite : ∀ i : UserInviteRecord, i ∈ s.db.rows .userInvites →
    i.tokenHash = hashInviteToken x credential → i.userId = id
  api : Rust.startsWith credential "wara_" = true → ∀ r : UserApiTokenRecord,
    r ∈ s.db.rows .userApiTokens → r.tokenHash = hashApiToken x credential → r.userId = id

/-- A signed token does not look like an API token. -/
theorem not_apiToken_of_eyJ {token : String} (h : Rust.startsWith token "eyJ" = true) :
    Rust.startsWith token "wara_" ≠ true := by
  unfold Rust.startsWith at *
  generalize token.toList = cs at *
  cases cs with
  | nil => simp at h
  | cons c cs =>
    simp at h ⊢
    intro hw
    rw [← hw] at h
    simp at h

section runs

variable {calls : List Call} {w : World} {P' : AuthPool} {es : List (Event Res World)}

/-- The invite behind a link that was returned is stored. -/
def InviteStored (x : Ext) (config : Config) (output : InviteUserOutput) (s : World) : Prop :=
  ∃ raw : Bytes 32, output.inviteLink = inviteLink config.appBaseUrl (x.urlSafeEncode raw.val) ∧
    ∃ i : UserInviteRecord, i ∈ s.db.rows .userInvites ∧ i.userId = output.user.id ∧
      i.tokenHash = hashInviteToken x (x.urlSafeEncode raw.val)

/-- The API token that was returned is stored. -/
def ApiTokenStored (x : Ext) (output : CreateApiTokenOutput) (s : World) : Prop :=
  ∃ raw : Bytes 32, output.token = "wara_" ++ x.urlSafeEncode raw.val ∧
    ∃ r : UserApiTokenRecord, r ∈ s.db.rows .userApiTokens ∧ r.userId = output.apiToken.userId ∧
      r.tokenHash = hashApiToken x output.token

theorem InviteStored.mono {output : InviteUserOutput} {s s' : World}
    (h : InviteStored x config output s) (hk : s.Keeps s') : InviteStored x config output s' := by
  obtain ⟨raw, hlink, i, hi, hu, hh⟩ := h
  obtain ⟨i', hi', -, hu', hh'⟩ := Db.Keeps.invite hk hi
  exact ⟨raw, hlink, i', hi', hu'.trans hu, hh'.trans hh⟩

theorem ApiTokenStored.mono {output : CreateApiTokenOutput} {s s' : World}
    (h : ApiTokenStored x output s) (hk : s.Keeps s') : ApiTokenStored x output s' := by
  obtain ⟨raw, htoken, r, hr, hu, hh⟩ := h
  obtain ⟨r', hr', hc⟩ := hk .userApiTokens r hr
  exact ⟨raw, htoken, r', hr', (uuid_of_col (hc 1 (by decide))).trans hu,
    (text_of_col (hc 3 (by decide))).trans hh⟩

theorem ends_inviteUser {i : Nat} {s : World} (input : InviteUserInput) :
    Ends (sparing (fun _ => False) i) (inviteUser x config input)
      (fun output s' => InviteStored x config output s') s := by
  have hc : Calm (sparing (fun _ => False) i) := calm_sparing
  unfold inviteUser
  refine ends_throwIf fun _ => ends_throwIf fun _ => ends_any hc fun _ s₁ _ => ?_
  refine ends_throwIf fun _ => ends_any hc fun _ s₂ _ => ends_any hc fun time s₃ _ => ?_
  refine ends_any hc fun expiresAt s₄ _ => ?_
  have hraw : Flow.All (fun _ => True) (generateInviteToken x)
      fun token => ∃ raw : Bytes 32, token = x.urlSafeEncode raw.val := by
    simp only [generateInviteToken, Flow.all_bind, all_randomBytes, Flow.all_pure, true_and]
    exact fun raw => ⟨raw, rfl⟩
  have hcreate : ∀ {t : Table} (r : Row t), Flow.All (fun _ => True) (create .transaction r)
      fun r' => r' = r := fun r => all_create.mpr ⟨trivial, rfl⟩
  refine ends_calm hc hraw fun token s₅ htoken _ => ends_any hc fun _ s₆ _ => ?_
  obtain ⟨raw, rfl⟩ := htoken
  refine ends_any hc fun userId s₇ _ => ends_calm hc (hcreate _) fun user s₈ huser _ => ?_
  refine ends_any hc fun inviteId s₉ _ => ends_calm hc (hcreate _) fun invite s₁₀ hinvite _ => ?_
  refine ends_any hc fun roleId s₁₁ _ => ends_calm hc (hcreate _) fun role s₁₂ _ _ => ?_
  refine ends_commit (fun _ _ _ _ _ => trivial) fun s₁₃ s₁₄ _ hstep => ends_pure fun s₁₅ hk => ?_
  obtain ⟨a, ha⟩ := hstep.1
  have happ := exec_succeeded ha rfl
  have hstored : InviteStored x config
      { user := { User.from user with workspaceRoles := [WorkspaceRole.from role] },
        inviteLink := inviteLink config.appBaseUrl (x.urlSafeEncode raw.val),
        expiresAt := expiresAt } s₁₄ := by
    refine ⟨raw, rfl, invite, ?_, by rw [hinvite]; rfl, by rw [hinvite]⟩
    obtain ⟨db₁, h1, h2⟩ := Layout.applyAll_cons.mp happ
    obtain ⟨db₂, h2, h3⟩ := Layout.applyAll_cons.mp h2
    rw [Layout.apply_frame (applyAll_single h3) (fun he => by cases he), Layout.apply_insert h2]
    exact List.mem_append_right _ (List.mem_singleton_self _)
  exact hstored.mono hk

theorem ends_createApiToken {i : Nat} {s : World} (input : CreateApiTokenInput) :
    Ends (sparing (fun _ => False) i) (createApiToken x input)
      (fun output s' => ApiTokenStored x output s') s := by
  have hc : Calm (sparing (fun _ => False) i) := calm_sparing
  unfold createApiToken
  have hraw : Flow.All (fun _ => True) (generateApiToken x)
      fun token => ∃ raw : Bytes 32, token = "wara_" ++ x.urlSafeEncode raw.val := by
    simp only [generateApiToken, Flow.all_bind, all_randomBytes, Flow.all_pure, true_and]
    exact fun raw => ⟨raw, rfl⟩
  refine ends_calm hc hraw fun token s₁ htoken _ => ends_any hc fun time s₂ _ => ?_
  obtain ⟨raw, rfl⟩ := htoken
  refine ends_any hc fun id s₃ _ => ?_
  refine ends_create (fun _ _ _ _ _ => trivial) fun s₄ s₅ _ hstep => ends_pure fun s₆ hk => ?_
  obtain ⟨a, ha⟩ := hstep.1
  have happ := applyAll_single (exec_succeeded ha rfl)
  refine ApiTokenStored.mono ⟨raw, rfl, _, ?_, rfl, rfl⟩ hk
  rw [Layout.apply_insert happ]
  exact List.mem_append_right _ (List.mem_singleton_self _)

/-- What a reply hands out is stored. -/
def ReplyStored (x : Ext) (config : Config) (reply : AuthReply) (s : World) : Prop :=
  (∀ output, reply = .invited output → InviteStored x config output s) ∧
    ∀ output, reply = .apiToken output → ApiTokenStored x output s

theorem ends_replyStored {i : Nat} {s : World} (q : AuthRequest) :
    Ends (sparing (fun _ => False) i) (q.serve x config) (ReplyStored x config) s := by
  have hc : Calm (sparing (fun _ => False) i) := calm_sparing
  have hother : ∀ {α : Type} (y : Service α) (g : α → AuthReply),
      (∀ a output, g a ≠ .invited output) → (∀ a output, g a ≠ .apiToken output) →
      Ends (sparing (fun _ => False) i) (g <$> y) (ReplyStored x config) s := by
    intro α y g hinvited htoken
    rw [← bind_pure_comp]
    refine ends_any hc fun a s₁ _ => ends_pure fun s₂ _ => ?_
    exact ⟨fun output he => absurd he (hinvited a output),
      fun output he => absurd he (htoken a output)⟩
  cases q with
  | inviteUser input =>
    refine ends_map (Flow.Safe.mono (ends_inviteUser input) (fun output s₁ hout s₂ hk => ?_)
      fun _ _ h => h)
    exact ⟨fun output' he => by cases he; exact hout.mono hk, by nofun⟩
  | createApiToken input =>
    refine ends_map (Flow.Safe.mono (ends_createApiToken input) (fun output s₁ hout s₂ hk => ?_)
      fun _ _ h => h)
    exact ⟨by nofun, fun output' he => by cases he; exact hout.mono hk⟩
  -- by `cases`: `nofun` takes long over the constructors of a reply
  | _ => exact hother _ _ (fun _ _ he => by cases he) (fun _ _ he => by cases he)

end runs

/-! ## What a credential leads to -/

section leads

variable {s : World} {T : Set String} {id : Uuid} {k : CredentialKind} {credential : String}

/-- Generated tokens of the two kinds differ in length. -/
theorem apiToken_ne_inviteToken (hx : x.Lawful) (raw raw' : Bytes 32) :
    "wara_" ++ x.urlSafeEncode raw.val ≠ x.urlSafeEncode raw'.val := by
  intro h
  have hlen := congrArg (fun s => s.toList.length) h
  simp only [String.toList_append, List.length_append, hx.urlSafe_length, raw.property,
    raw'.property] at hlen
  revert hlen
  decide

theorem dot_notMem_apiToken (hx : x.Lawful) (raw : Bytes 32) :
    '.' ∉ ("wara_" ++ x.urlSafeEncode raw.val).toList := by
  rw [String.toList_append, List.mem_append, not_or]
  exact ⟨by decide, hx.urlSafe_dot _⟩

/-- **Kinds are told apart**, by signature, dots and length. -/
theorem HasShape.ofKind (hx : x.Lawful) (hcoll : x.CollisionFree T) (hg : Generated x T s)
    (hT : credential ∈ T) (h : HasShape x k credential) : OfKind x s k credential := by
  cases h with
  | accessToken h =>
    refine ⟨fun _ _ => rfl, fun _ hr => absurd hr (h.not_refresh hx), fun i hi hh => ?_, fun hp => ?_⟩
    · obtain ⟨_, _, _, -, hencode⟩ := h
      exact absurd (hx.encode_dot hencode) (hg.no_dot hx hcoll hT hi hh)
    · obtain ⟨_, _, _, -, hencode⟩ := h
      exact absurd hp (not_apiToken_of_eyJ (hx.encode_eyJ hencode))
  | refreshToken h =>
    refine ⟨fun _ hr => absurd hr (h.not_access hx), fun _ _ => rfl, fun i hi hh => ?_, fun hp => ?_⟩
    · obtain ⟨_, _, _, -, -, hencode⟩ := h
      exact absurd (hx.encode_dot hencode) (hg.no_dot hx hcoll hT hi hh)
    · obtain ⟨_, _, _, -, -, hencode⟩ := h
      exact absurd hp (not_apiToken_of_eyJ (hx.encode_eyJ hencode))
  | inviteToken raw =>
    have hdot := hx.urlSafe_dot raw.val
    refine ⟨fun _ hr => absurd hr (not_readsAsAccess hx hdot),
      fun _ hr => absurd hr (not_readsAsRefresh hx hdot), fun _ _ _ => rfl, fun _ r hr hh => ?_⟩
    obtain ⟨raw', hT', hraw'⟩ := hg.apiToken r hr
    exact absurd (hcoll hT' hT (hraw'.symm.trans hh)) (apiToken_ne_inviteToken hx raw' raw)
  | apiToken raw =>
    have hdot := dot_notMem_apiToken hx raw
    refine ⟨fun _ hr => absurd hr (not_readsAsAccess hx hdot),
      fun _ hr => absurd hr (not_readsAsRefresh hx hdot), fun i hi hh => ?_, fun _ _ _ _ => rfl⟩
    obtain ⟨raw', hT', hraw'⟩ := hg.invite i hi
    exact absurd (hcoll hT' hT (hraw'.symm.trans hh)).symm (apiToken_ne_inviteToken hx raw raw')

theorem OfKind.leads_access (hk : OfKind x s .accessToken credential) (hx : x.Lawful)
    (h : IsAccessToken x credential id) : Leads x s id credential := by
  exact ⟨fun claims hr => h.sub_eq hx hr, fun claims hr => (nomatch hk.refresh claims hr),
    fun i hi hh => (nomatch hk.invite i hi hh), fun hp r hr hh => (nomatch hk.api hp r hr hh)⟩

theorem OfKind.leads_refresh (hk : OfKind x s .refreshToken credential) (hx : x.Lawful)
    {tokenId : Uuid} (h : IsRefreshToken x credential tokenId id) : Leads x s id credential := by
  exact ⟨fun claims hr => (nomatch hk.access claims hr), fun claims hr => (h.claims_eq hx hr).2,
    fun i hi hh => (nomatch hk.invite i hi hh), fun hp r hr hh => (nomatch hk.api hp r hr hh)⟩

theorem OfKind.leads_invite (hk : OfKind x s .inviteToken credential) {i₀ : UserInviteRecord}
    (hi₀ : i₀ ∈ s.db.rows .userInvites) (hu : i₀.userId = id)
    (hh₀ : i₀.tokenHash = hashInviteToken x credential) : Leads x s id credential := by
  refine ⟨fun claims hr => (nomatch hk.access claims hr),
    fun claims hr => (nomatch hk.refresh claims hr), fun i hi hh => ?_,
    fun hp r hr hh => (nomatch hk.api hp r hr hh)⟩
  rw [Db.invite_eq hi hi₀ (hh.trans hh₀.symm)]
  exact hu

theorem OfKind.leads_api (hk : OfKind x s .apiToken credential) {r₀ : UserApiTokenRecord}
    (hr₀ : r₀ ∈ s.db.rows .userApiTokens) (hu : r₀.userId = id)
    (hh₀ : r₀.tokenHash = hashApiToken x credential) : Leads x s id credential := by
  refine ⟨fun claims hr => (nomatch hk.access claims hr),
    fun claims hr => (nomatch hk.refresh claims hr), fun i hi hh => (nomatch hk.invite i hi hh),
    fun _ r hr hh => ?_⟩
  rw [Db.apiToken_eq hr hr₀ (hh.trans hh₀.symm)]
  exact hu

end leads

/-! ## Credentials that were issued -/

section issued

variable {calls : List Call} {w : World} {P' : AuthPool} {es : List (Event Res World)}

/-- A credential of the given kind and user that a request of the run has returned. -/
inductive Issued (calls : List Call) (P' : AuthPool) : CredentialKind → Uuid → String → Prop
  | accessToken {i : Nat} {output : LoginOutput}
      (h : P'.threads[i]? = some (.ret (.ok (.session output)))) :
      Issued calls P' .accessToken output.user.id output.token
  | refreshToken {i : Nat} {output : LoginOutput}
      (h : P'.threads[i]? = some (.ret (.ok (.session output)))) :
      Issued calls P' .refreshToken output.user.id output.refreshToken
  | inviteToken {i : Nat} {c : Call} {output : InviteUserOutput} {token : String}
      (hc : calls[i]? = some c) (h : P'.threads[i]? = some (.ret (.ok (.invited output))))
      (hlink : output.inviteLink = inviteLink c.config.appBaseUrl token) :
      Issued calls P' .inviteToken output.user.id token
  | apiToken {i : Nat} {output : CreateApiTokenOutput}
      (h : P'.threads[i]? = some (.ret (.ok (.apiToken output)))) :
      Issued calls P' .apiToken output.apiToken.userId output.token

theorem inviteLink_inj {base token token' : String}
    (h : inviteLink base token = inviteLink base token') : token = token' := by
  have hlist := congrArg String.toList h
  simp only [inviteLink, String.toList_append, List.append_cancel_left_eq] at hlist
  exact String.toList_inj.mp hlist

/-- An invite that was returned is stored. -/
theorem stored_of_invited (hr : Runs exec (AuthPool.of x calls w) es P') {i : Nat} {c : Call}
    {output : InviteUserOutput} (hc : calls[i]? = some c)
    (h : P'.threads[i]? = some (.ret (.ok (.invited output)))) :
    InviteStored x c.config output P'.state :=
  (AuthPool.ended hr hc (ends_replyStored c.request) h).1 output rfl

theorem stored_of_apiToken (hr : Runs exec (AuthPool.of x calls w) es P') {i : Nat}
    {output : CreateApiTokenOutput}
    (h : P'.threads[i]? = some (.ret (.ok (.apiToken output)))) :
    ApiTokenStored x output P'.state := by
  obtain ⟨c, hc⟩ := AuthPool.call_of_thread hr h
  exact (AuthPool.ended hr hc (ends_replyStored c.request) h).2 output rfl

/-- Issued credentials are made as their kind is. -/
theorem shape_of_issued (hr : Runs exec (AuthPool.of x calls w) es P') {k : CredentialKind}
    {id : Uuid} {credential : String} (h : Issued calls P' k id credential) :
    HasShape x k credential := by
  cases h with
  | accessToken h => exact .accessToken (session_isSession hr h).1
  | refreshToken h =>
    obtain ⟨tokenId, htoken⟩ := (session_isSession hr h).2
    exact .refreshToken htoken
  | @inviteToken i c output token hc h hlink =>
    obtain ⟨raw, hlink', -⟩ := stored_of_invited hr hc h
    rw [inviteLink_inj (hlink.symm.trans hlink')]
    exact .inviteToken raw
  | @apiToken i output h =>
    obtain ⟨raw, hraw, -⟩ := stored_of_apiToken hr h
    rw [hraw]
    exact .apiToken raw

/-- The tokens of a run: those behind the digests that were stored before, those made of the bytes
that it has drawn, and the credentials that it has issued. -/
def tokensOf (x : Ext) (old : Set String) (calls : List Call) (es : List (Event Res World))
    (P' : AuthPool) : Set String :=
  old ∪ madeOf x (told drawn es) ∪ {token | ∃ k id, Issued calls P' k id token}

variable {old : Set String}

/-- The digests stored during a run are of its tokens. -/
theorem generated_tokensOf (hr : Runs exec (AuthPool.of x calls w) es P')
    (h0 : Generated x old w) : Generated x (tokensOf x old calls es P') w ∧
      ∀ e ∈ es, Generated x (tokensOf x old calls es P') e.pre →
        Generated x (tokensOf x old calls es P') e.post :=
  ⟨h0.mono (Set.subset_union_left.trans Set.subset_union_left), fun _ he =>
    generated_of_event hr (Set.subset_union_right.trans Set.subset_union_left) he⟩

theorem ofKind_of_issued (hx : x.Lawful) (hcoll : x.CollisionFree (tokensOf x old calls es P'))
    (hr : Runs exec (AuthPool.of x calls w) es P') {k : CredentialKind} {id : Uuid}
    {credential : String} (h : Issued calls P' k id credential) {s : World}
    (hg : Generated x (tokensOf x old calls es P') s) : OfKind x s k credential :=
  (shape_of_issued hr h).ofKind hx hcoll hg (.inr ⟨k, id, h⟩)

/-- **What issued credentials lead to**: in the state reached, to nobody but their user. -/
theorem leads_of_issued (hx : x.Lawful) (hcoll : x.CollisionFree (tokensOf x old calls es P'))
    (h0 : Generated x old w) (hr : Runs exec (AuthPool.of x calls w) es P') {k : CredentialKind}
    {id : Uuid} {credential : String} (h : Issued calls P' k id credential) :
    Leads x P'.state id credential := by
  obtain ⟨h0', hstep⟩ := generated_tokensOf hr h0
  have hk := ofKind_of_issued hx hcoll hr h (hr.keeps h0' hstep).2
  cases h with
  | accessToken h => exact hk.leads_access hx (session_isSession hr h).1
  | refreshToken h =>
    obtain ⟨tokenId, htoken⟩ := (session_isSession hr h).2
    exact hk.leads_refresh hx htoken
  | @inviteToken i c output token hc h hlink =>
    obtain ⟨raw, hlink', i₀, hi₀, hu, hh⟩ := stored_of_invited hr hc h
    have htoken := inviteLink_inj (hlink.symm.trans hlink')
    exact hk.leads_invite hi₀ hu (htoken ▸ hh)
  | @apiToken i output h =>
    obtain ⟨raw, hraw, r₀, hr₀, hu, hh⟩ := stored_of_apiToken hr h
    exact hk.leads_api hr₀ hu hh

end issued

/-! ## Entry points that fail -/

section entry

variable {s : World}

/-- No user with this id may act. -/
def Barred (s : World) (id : Uuid) : Prop :=
  ∀ u : UserRecord, u ∈ s.db.rows .users → u.id = id → u.status = UserStatus.disabled.asStr

theorem Barred.not_active {s' : World} {id : Uuid} (hb : Barred s id) (hs : still.rely s s')
    {u : UserRecord} (hu : u ∈ s'.db.rows .users) (hid : u.id = id) :
    u.status = UserStatus.disabled.asStr := by
  rw [show s'.db = s.db from hs] at hu
  exact hb u hu hid

theorem disabled_ne_active {status : String} (h : status = UserStatus.disabled.asStr) :
    status ≠ UserStatus.active.asStr := by
  rw [h]; decide

theorem shutOut_acceptInvite {credential : String}
    (h : ∀ i : UserInviteRecord, i ∈ s.db.rows .userInvites →
      i.tokenHash = hashInviteToken x credential → Barred s i.userId) (password : String) :
    ShutOut s (acceptInvite x config ⟨credential, password⟩) := by
  refine shutOut_of_ends ?_
  unfold acceptInvite
  refine ends_findOpenInvite tame_still fun s₁ i hs₁ hi hhash _ => ?_
  have hi : i ∈ s.db.rows .userInvites := by rw [← show s₁.db = s.db from hs₁]; exact hi
  refine ends_reads tame_still (Q := fun _ => True) (by simp [parseRfc3339]) fun _ s₂ _ hs₂ => ?_
  refine ends_reads tame_still (Q := fun _ => True) (by simp [Op.writes]) fun _ s₃ _ hs₃ => ?_
  refine ends_throwIf fun _ => ends_getUserRecord tame_still fun s₄ u hs₄ hu hid => ?_
  have hs : still.rely s s₄ := hs₄.trans (hs₃.trans (hs₂.trans hs₁))
  have hd := (h i hi hhash).not_active hs hu hid
  exact ends_throwIf fun _ => ends_throwIf fun hne => absurd hd hne

theorem shutOut_refreshSession {credential : String}
    (h : ∀ claims, ReadsAsRefresh x credential claims →
      ∀ id, x.uuidParseStr claims.sub = some id → Barred s id) :
    ShutOut s (refreshSession x config ⟨credential⟩) := by
  refine shutOut_of_ends ?_
  unfold refreshSession
  refine ends_activeRefreshTokenRecord tame_still
    fun s₁ s₂ claims r hs₁ hs₂ hreads _ hsub _ _ => ?_
  refine ends_getUserRecord tame_still fun s₃ u hs₃ hu hid => ?_
  have hs : still.rely s s₃ := hs₃.trans (hs₂.trans hs₁)
  have hd := (h claims hreads r.userId hsub).not_active hs hu hid
  exact ends_throwIf fun hactive => absurd (disabled_ne_active hd) hactive

theorem shutOut_authenticateBearer {credential : String}
    (haccess : ∀ claims, ReadsAsAccess x credential claims →
      ∀ id, x.uuidParseStr claims.sub = some id → Barred s id)
    (hapi : Rust.startsWith credential "wara_" = true → ∀ r : UserApiTokenRecord,
      r ∈ s.db.rows .userApiTokens → r.tokenHash = hashApiToken x credential →
      Barred s r.userId) :
    ShutOut s (authenticateBearer x config credential) := by
  refine shutOut_of_ends (ends_authenticateBearer tame_still ?_ ?_)
  · intro s₁ claims id hs₁ hreads hsub s₂ u hs₂ hu hid hactive
    have hd := (haccess claims hreads id hsub).not_active (hs₂.trans hs₁) hu hid
    exact absurd hactive (disabled_ne_active hd)
  · intro s₁ r hs₁ hstarts hr hhash _ s₂ u hs₂ hu hid hactive
    rw [show s₁.db = s.db from hs₁] at hr
    have hd := (hapi hstarts r hr hhash).not_active (hs₂.trans hs₁) hu hid
    exact absurd hactive (disabled_ne_active hd)

end entry

end Wara
