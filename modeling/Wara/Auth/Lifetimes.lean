import Wara.Auth.RefreshOnce
import Wara.Service.Solo

/-!
# How long tokens live

Three places add a configured number of seconds to the time: `invite_user` and
`issue_refresh_token` through a signed `chrono` duration, `sign_access_token`
as unsigned integers. Each of them is exact as far as the sum stays in range,
and never beyond.
-/

namespace Wara

open Interleave Store Service AuthService

/-! ## Time arithmetic -/

/-- The last second that `chrono` can hold. -/
def DateTime.lastSecond : Int := 8210266876799

/-- The times that `chrono` can hold. -/
def DateTime.Representable (t : DateTime) : Prop :=
  -8334601228800 ≤ t.timestamp ∧ t.timestamp ≤ lastSecond

/-- `e` is `n` seconds after `t`. -/
def DateTime.Later (t : DateTime) (n : UInt64) (e : DateTime) : Prop :=
  e.nanos = t.nanos + n.toNat * 1000000000

theorem DateTime.Later.timestamp {t e : DateTime} {n : UInt64} (h : t.Later n e) :
    e.timestamp = t.timestamp + n.toNat := by
  unfold DateTime.Later at h
  unfold DateTime.timestamp
  omega

/-- A cast to `i64`. -/
theorem toInt_toInt64 (n : UInt64) : n.toInt64.toInt =
    if n.toNat < 9223372036854775808 then (n.toNat : Int)
    else n.toNat - 18446744073709551616 := by
  show n.toBitVec.toInt = _
  rw [BitVec.toInt_eq_toNat_cond]
  show (if 2 * n.toNat < 2 ^ 64 then _ else _) = _
  split <;> split <;> first | rfl | omega

theorem toNat_ofInt {n : Int} (h0 : 0 ≤ n) (h : n < 18446744073709551616) :
    ((UInt64.ofInt n).toNat : Int) = n := by
  unfold UInt64.ofInt
  simp
  omega

/-- What `after_seconds` computes, a panic being an error. -/
def checkedAfter (t : DateTime) (ttl : UInt64) : Except String DateTime :=
  match durationSeconds ttl.toInt64.toInt with
  | .ok duration => t.add duration
  | .error message => .error message

/-- **The bound of a `chrono` date.** From a time after the epoch, the sum is exact if and only if
it is not after the last second. -/
theorem checkedAfter_exact_iff {t : DateTime} {ttl : UInt64} (ht : 0 ≤ t.nanos) :
    (∃ e, checkedAfter t ttl = .ok e ∧ t.Later ttl e) ↔
      t.timestamp + ttl.toNat ≤ DateTime.lastSecond := by
  have hcast := toInt_toInt64 ttl
  have hlt := ttl.toNat_lt
  constructor
  · rintro ⟨e, he, hlater⟩
    rw [← hlater.timestamp]
    unfold checkedAfter DateTime.add at he
    split at he
    · dsimp only at he
      split at he
      · next hbound => cases he; exact hbound.2
      · cases he
    · cases he
  · intro hle
    have hsmall : ttl.toNat < 9223372036854775 := by
      unfold DateTime.lastSecond DateTime.timestamp at hle
      omega
    rw [if_pos (by omega)] at hcast
    have hduration : durationSeconds ttl.toInt64.toInt = .ok (ttl.toNat * 1000000000) := by
      unfold durationSeconds
      rw [hcast, if_pos (by omega)]
    refine ⟨⟨t.nanos + ttl.toNat * 1000000000⟩, ?_, rfl⟩
    unfold checkedAfter DateTime.add
    rw [hduration]
    unfold DateTime.lastSecond DateTime.timestamp at hle
    refine if_pos ⟨?_, ?_⟩
    · show -8334601228800 ≤ (t.nanos + ttl.toNat * 1000000000) / 1000000000
      omega
    · show (t.nanos + ttl.toNat * 1000000000) / 1000000000 ≤ 8210266876799
      omega

/-- **The bound of an unsigned addition.** -/
theorem add_exact_iff {t : DateTime} {ttl : UInt64} (ht : 0 ≤ t.nanos) :
    (((UInt64.ofInt t.timestamp).toNat : Int) = t.timestamp ∧
      ((UInt64.ofInt t.timestamp + ttl).toNat : Int) = t.timestamp + ttl.toNat) ↔
      t.timestamp + ttl.toNat < 18446744073709551616 := by
  have h0 : 0 ≤ t.timestamp := by
    unfold DateTime.timestamp
    omega
  constructor
  · rintro ⟨-, hsum⟩
    have hlt := (UInt64.ofInt t.timestamp + ttl).toNat_lt
    omega
  · intro hlt
    have hnow := toNat_ofInt h0 (by omega)
    refine ⟨hnow, ?_⟩
    rw [UInt64.toNat_add, Nat.mod_eq_of_lt (by omega)]
    omega

/-! ## Calls that reach the addition -/

/-- Every claim set in the token gives the field this number. -/
def Ext.Carries (x : Ext) (token field : String) (n : Int) : Prop :=
  ∀ {h p k}, x.encode h p k = .ok token → ∃ v, p.lookup field = some (.num v) ∧ (v.toNat : Int) = n

/-- A token carries one claim set. -/
def Ext.OneClaimSet (x : Ext) : Prop :=
  ∀ {h p k h' p' k' token}, x.encode h p k = .ok token → x.encode h' p' k' = .ok token → p = p'

theorem Ext.OneClaimSet.carries_iff {x : Ext} (hx : x.OneClaimSet) {h : Header} {p : Payload}
    {k : EncodingKey} {token field : String} {v : UInt64} {n : Int}
    (he : x.encode h p k = .ok token) (hv : p.lookup field = some (.num v)) :
    x.Carries token field n ↔ (v.toNat : Int) = n := by
  constructor
  · intro hc
    obtain ⟨v', hv', hn⟩ := hc he
    rw [hv] at hv'
    cases hv'
    exact hn
  · intro hn h' p' k' he'
    cases hx he he'
    exact ⟨v, hv, hn⟩

/-- The call did not end with an error of the API: it returned or panicked. -/
def Reached {α : Type} (r : Except Abort α) : Prop := ∀ e, r ≠ .error (.api e)

section sites

variable {x : Ext} {config : Config} {i : Nat} {s : World} {β : Type}
  {Q : List Ans → Except Abort β → World → Prop}

theorem yields_afterSeconds {t : DateTime} {ttl : UInt64} {f : DateTime → Service β}
    (hpanic : ∀ m, checkedAfter t ttl = .error m → Q [] (.error (.panic m)) s)
    (hok : ∀ e, checkedAfter t ttl = .ok e → Yields i (f e) Q s) :
    Yields i (afterSeconds t ttl >>= f) Q s := by
  unfold checkedAfter at hpanic hok
  unfold afterSeconds
  rw [bind_assoc]
  refine yields_orPanic (fun m hm => hpanic m (by rw [hm])) fun duration hduration => ?_
  rw [hduration] at hpanic hok
  exact yields_orPanic hpanic hok

/-- A signature takes no clock reading and does not panic. -/
theorem yields_signWithActiveKey {what : String} {payload : Payload} {f : String → Service β}
    (hapi : ∀ xs e, Q xs (.error (.api e)) s)
    (hok : ∀ xs h k token, readings xs = [] → x.encode h payload k = .ok token →
      Yields i (f token) (fun ys => Q (xs ++ ys)) s) :
    Yields i (signWithActiveKey x config what payload >>= f) Q s := by
  unfold signWithActiveKey activeJwtPublicKeyRecord
  simp only [bind_assoc, pure_bind]
  refine yields_mapErr (fun _ _ => hapi _ _) fun key _ => ?_
  refine yields_query (fun _ => hapi _ _) ?_
  refine yields_okOr (fun _ => hapi _ _) fun record _ => ?_
  refine yields_throwIf (fun _ => hapi _ _) fun _ => ?_
  have hend := hok [.done] ⟨some (x.uuidToString record.id)⟩ key
  cases hencode : x.encode ⟨some (x.uuidToString record.id)⟩ payload key with
  | error e => exact yields_bind (yields_throwApi (hapi _ _))
  | ok token => exact yields_bind (yields_pure (hend token rfl hencode))

/-- How a run ends that reaches the addition: the only reading `t` of the clock meets the bound if
and only if what is returned is exact. -/
def Bounded {α : Type} (bound : DateTime → Prop) (exact : DateTime → α → World → Prop)
    (xs : List Ans) (r : Except Abort α) (s' : World) : Prop :=
  Reached r → (∀ t ∈ readings xs, 0 ≤ t.nanos) →
    ∃ t, readings xs = [t] ∧ ((∃ a, r = .ok a ∧ exact t a s') ↔ bound t)

variable {α : Type} {bound : DateTime → Prop} {exact : DateTime → α → World → Prop}

theorem bounded_api {xs : List Ans} {e : ApiError} :
    Bounded bound exact xs (.error (.api e)) s := fun h => (h e rfl).elim

theorem bounded_panic {xs : List Ans} {m : String} {t : DateTime} (hxs : readings xs = [t])
    (h : 0 ≤ t.nanos → ¬ bound t) : Bounded bound exact xs (.error (.panic m)) s := by
  intro _ hclock
  have ht := hclock t (by rw [hxs]; exact List.mem_singleton_self t)
  refine ⟨t, hxs, ?_, fun hb => (h ht hb).elim⟩
  rintro ⟨a, ha, -⟩
  cases ha

theorem bounded_ok {xs : List Ans} {a : α} {t : DateTime} (hxs : readings xs = [t])
    (h : 0 ≤ t.nanos → (exact t a s ↔ bound t)) : Bounded bound exact xs (.ok a) s := by
  intro _ hclock
  refine ⟨t, hxs, ?_⟩
  rw [← h (hclock t (by rw [hxs]; exact List.mem_singleton_self t))]
  constructor
  · rintro ⟨b, hb, hexact⟩
    cases hb
    exact hexact
  · exact fun hexact => ⟨a, rfl, hexact⟩

/-! ## Invitations -/

/-- The invitation, as returned and as stored, expires when it should. -/
def InviteExact (x : Ext) (ttl : UInt64) (t : DateTime) (out : InviteUserOutput) (s' : World) :
    Prop :=
  t.Later ttl out.expiresAt ∧ ∃ invite : UserInviteRecord, invite ∈ s'.db.rows .userInvites ∧
    invite.userId = out.user.id ∧ invite.expiresAt = x.toRfc3339 out.expiresAt

/-- The date that was computed is exact if and only if the bound is met. -/
theorem later_iff {t e : DateTime} {ttl : UInt64} (ht : 0 ≤ t.nanos)
    (he : checkedAfter t ttl = .ok e) :
    t.Later ttl e ↔ t.timestamp + ttl.toNat ≤ DateTime.lastSecond := by
  rw [← checkedAfter_exact_iff ht]
  constructor
  · exact fun hlater => ⟨e, he, hlater⟩
  · rintro ⟨e', he', hlater⟩
    rw [he] at he'
    cases he'
    exact hlater

theorem not_bound_of_panic {t : DateTime} {ttl : UInt64} {m : String} (ht : 0 ≤ t.nanos)
    (he : checkedAfter t ttl = .error m) : ¬ t.timestamp + ttl.toNat ≤ DateTime.lastSecond := by
  rw [← checkedAfter_exact_iff ht]
  rintro ⟨e, he', -⟩
  rw [he] at he'
  cases he'

/-- Looking for an address takes one statement and no clock reading. -/
theorem yields_searched {email : String} {f : Except ApiError UserRecord → Service β}
    (h : ∀ a r, readings [a] = [] → Yields i (f r) (fun ys => Q (a :: ys)) s) :
    Yields i (attempt (findUserByEmail email) >>= f) Q s := by
  refine yields_attempt ?_
  unfold findUserByEmail
  rw [← bind_pure (first .users _ >>= okOr .unauthorized), bind_assoc]
  refine yields_first (fun e => ?_) (yields_okOr (fun _ => ?_) fun found _ => yields_pure ?_)
  · exact h (.fail e) (.error _) rfl
  · exact h .done (.error _) rfl
  · exact h .done (.ok found) rfl

theorem readings_cons {a : Ans} (ha : readings [a] = []) (xs : List Ans) :
    readings (a :: xs) = readings xs := by
  rw [← List.singleton_append, readings_append, ha, List.nil_append]

/-- The second of three inserts into different tables. -/
theorem inserted_second {t₁ t₂ t₃ : Table} {r₁ : Row t₁} {r₂ : Row t₂} {r₃ : Row t₃} {db db' : Db}
    (h : layout.applyAll [.insert t₁ r₁, .insert t₂ r₂, .insert t₃ r₃] db = some db')
    (hne : t₂ ≠ t₃) : r₂ ∈ db'.rows t₂ := by
  obtain ⟨db₁, -, h⟩ := Layout.applyAll_cons.mp h
  obtain ⟨db₂, h₂, h₃⟩ := Layout.applyAll_cons.mp h
  have hframe : db'.rows t₂ = db₂.rows t₂ := by
    refine Layout.applyAll_frame h₃ fun w hw => ?_
    rw [List.mem_singleton.mp hw]
    exact hne
  rw [hframe, Layout.apply_insert h₂]
  exact List.mem_append_right _ (List.mem_singleton_self r₂)

theorem yields_inviteUser (input : InviteUserInput) :
    Yields i (inviteUser x config input)
      (Bounded (fun t => t.timestamp + config.inviteTokenTtlSeconds.toNat ≤ DateTime.lastSecond)
        (InviteExact x config.inviteTokenTtlSeconds)) s := by
  unfold inviteUser ensureWorkspaceExists generateInviteToken
  simp only [bind_assoc, pure_bind]
  refine yields_throwIf (fun _ => bounded_api) fun _ => ?_
  refine yields_throwIf (fun _ => bounded_api) fun _ => ?_
  refine yields_searched fun a found ha => ?_
  refine yields_throwIf (fun _ => bounded_api) fun _ => ?_
  refine yields_first (fun _ => bounded_api) ?_
  refine yields_okOr (fun _ => bounded_api) fun _ _ => ?_
  refine yields_now fun t => ?_
  have hxs : ∀ ys, readings ys = [] → readings (a :: .done :: .time t :: ys) = [t] := by
    intro ys hys
    rw [readings_cons ha, readings_done, readings_time, hys]
  refine yields_afterSeconds (fun m hm => ?_) fun e he => ?_
  · exact bounded_panic (hxs [] rfl) fun ht => not_bound_of_panic ht hm
  refine yields_randomBytes fun bs => ?_
  refine yields_transaction (fun _ => bounded_api) ?_
  refine yields_nowV7 fun u hu => ?_
  refine yields_txCreate (fun _ => bounded_api) (fun _ => bounded_api) ?_
  refine yields_nowV7 fun v hv => ?_
  refine yields_txCreate (fun _ => bounded_api) (fun _ => bounded_api) ?_
  refine yields_nowV7 fun w hw => ?_
  refine yields_txCreate (fun _ => bounded_api) (fun _ => bounded_api) ?_
  refine yields_commit (fun _ => bounded_api) (fun _ => bounded_api) fun db hdb => ?_
  refine yields_pure (bounded_ok (hxs _ rfl) fun ht => ?_)
  rw [← later_iff ht he]
  unfold InviteExact
  refine and_iff_left ⟨_, inserted_second hdb (by decide), rfl, rfl⟩

/-! ## Sessions -/

/-- The refresh token, as recorded and as signed, expires when it should. -/
def RefreshExact (x : Ext) (ttl : UInt64) (t : DateTime) (out : RefreshTokenIssue) (_ : World) :
    Prop :=
  ∃ e, t.Later ttl e ∧ e.Representable ∧ out.record.expiresAt = x.toRfc3339 e ∧
    x.Carries out.token "exp" e.timestamp

theorem yields_createBy {T : Table} {r : Row T} {executor : Executor} {f : Row T → Service β}
    (hapi : ∀ xs e s', Q xs (.error (.api e)) s')
    (h : ∀ s', Yields i (f r) (fun ys => Q (.done :: ys)) s') :
    Yields i (create executor r >>= f) Q s := by
  cases executor with
  | handle => exact yields_create (fun _ => hapi _ _ _) (fun _ => hapi _ _ _) fun _ _ => h _
  | transaction => exact yields_txCreate (fun _ => hapi _ _ _) (fun _ => hapi _ _ _) (h _)

/-- A refresh token with that date, recorded and signed, is exact if and only if the bound is met. -/
theorem refreshExact_iff (hx : x.OneClaimSet) {t e : DateTime} {ttl : UInt64} {h : Header}
    {claims : RefreshClaims} {k : EncodingKey} {out : RefreshTokenIssue} (ht : 0 ≤ t.nanos)
    (he : checkedAfter t ttl = .ok e) (hrecord : out.record.expiresAt = x.toRfc3339 e)
    (hexp : claims.exp = UInt64.ofInt e.timestamp)
    (hencode : x.encode h claims.serialize k = .ok out.token) :
    RefreshExact x ttl t out s ↔ t.timestamp + ttl.toNat ≤ DateTime.lastSecond := by
  constructor
  · rintro ⟨e', hlater, hrep, -⟩
    rw [← hlater.timestamp]
    exact hrep.2
  · intro hle
    have hlater := (later_iff ht he).mpr hle
    have h0 : 0 ≤ t.timestamp := by
      unfold DateTime.timestamp
      omega
    have htime := hlater.timestamp
    have hcarries : x.Carries out.token "exp" e.timestamp := by
      rw [hx.carries_iff hencode (v := claims.exp) rfl, hexp]
      refine toNat_ofInt ?_ ?_
      · omega
      · unfold DateTime.lastSecond at hle
        omega
    refine ⟨e, hlater, ⟨?_, ?_⟩, hrecord, hcarries⟩
    · omega
    · omega

theorem yields_issueRefreshToken (hx : x.OneClaimSet) (executor : Executor) (userId : Uuid) :
    Yields i (issueRefreshToken x config executor userId)
      (Bounded (fun t => t.timestamp + config.refreshTokenTtlSeconds.toNat ≤ DateTime.lastSecond)
        (RefreshExact x config.refreshTokenTtlSeconds)) s := by
  unfold issueRefreshToken
  refine yields_nowV7 fun u hu => ?_
  refine yields_now fun t => ?_
  refine yields_afterSeconds (fun m hm => ?_) fun e he => ?_
  · exact bounded_panic rfl fun ht => not_bound_of_panic ht hm
  refine yields_createBy (fun _ _ _ => bounded_api) fun s₁ => ?_
  unfold signRefreshToken
  refine yields_signWithActiveKey (fun _ _ => bounded_api) fun xs h k token hxs hencode => ?_
  have hreadings : readings (.uuid u :: .time t :: .done :: (xs ++ [])) = [t] := by
    rw [readings_uuid, readings_time, readings_done, List.append_nil, hxs]
  exact yields_pure (bounded_ok hreadings fun ht => refreshExact_iff hx ht he rfl rfl hencode)

/-- The access token, as signed, was issued now and expires when it should. -/
def AccessExact (x : Ext) (ttl : UInt64) (t : DateTime) (token : String) (_ : World) : Prop :=
  x.Carries token "iat" t.timestamp ∧ x.Carries token "exp" (t.timestamp + ttl.toNat)

theorem yields_signAccessToken (hx : x.OneClaimSet) (user : User) (refreshTokenId : Uuid) :
    Yields i (signAccessToken x config user refreshTokenId)
      (Bounded
        (fun t => t.timestamp + config.jwtAccessTokenTtlSeconds.toNat < 18446744073709551616)
        (AccessExact x config.jwtAccessTokenTtlSeconds)) s := by
  unfold signAccessToken getCurrentTimestamp
  rw [bind_assoc]
  refine yields_now fun t => ?_
  split
  · next ht =>
    refine yields_bind (yields_throw (bounded_panic rfl fun h0 => ?_))
    omega
  rw [pure_bind]
  refine yields_nowV7 fun u hu => ?_
  rw [← bind_pure (signWithActiveKey _ _ _ _)]
  refine yields_signWithActiveKey (fun _ _ => bounded_api) fun xs h k token hxs hencode => ?_
  have hreadings : readings (.time t :: .uuid u :: (xs ++ [])) = [t] := by
    rw [readings_time, readings_uuid, List.append_nil, hxs]
  refine yields_pure (bounded_ok hreadings fun ht => ?_)
  unfold AccessExact
  rw [hx.carries_iff hencode rfl, hx.carries_iff hencode rfl]
  exact add_exact_iff ht

/-! ## All three -/

/-- Each of the three calls, if it gets to the addition, returns an exact expiry. -/
def LifetimesExact (x : Ext) (config : Config) (i : Nat) (xs : List Ans) (s s' : World) : Prop :=
  (∀ input r, Prog.run exec i (inviteUser x config input) xs s = some (r, s') → Reached r →
    ∃ t out, readings xs = [t] ∧ r = .ok out ∧
      InviteExact x config.inviteTokenTtlSeconds t out s') ∧
  (∀ executor userId r,
    Prog.run exec i (issueRefreshToken x config executor userId) xs s = some (r, s') → Reached r →
    ∃ t out, readings xs = [t] ∧ r = .ok out ∧
      RefreshExact x config.refreshTokenTtlSeconds t out s') ∧
  ∀ user id r, Prog.run exec i (signAccessToken x config user id) xs s = some (r, s') →
    Reached r → ∃ t out, readings xs = [t] ∧ r = .ok out ∧
      AccessExact x config.jwtAccessTokenTtlSeconds t out s'

/-- **Expiries are exact up to a bound, and only there.** Of a call that gets to the addition: an
invitation and a refresh token are exact if and only if the sum is a second that `chrono` can hold,
an access token if and only if it is below `2 ^ 64`. -/
theorem token_lifetimes_iff (hx : x.OneClaimSet) {xs : List Ans} {s' : World}
    (hclock : ∀ t ∈ readings xs, 0 ≤ t.nanos) :
    (∀ input r, Prog.run exec i (inviteUser x config input) xs s = some (r, s') → Reached r →
      ∃ t, readings xs = [t] ∧
        ((∃ out, r = .ok out ∧ InviteExact x config.inviteTokenTtlSeconds t out s') ↔
          t.timestamp + config.inviteTokenTtlSeconds.toNat ≤ DateTime.lastSecond)) ∧
    (∀ executor userId r,
      Prog.run exec i (issueRefreshToken x config executor userId) xs s = some (r, s') →
      Reached r → ∃ t, readings xs = [t] ∧
        ((∃ out, r = .ok out ∧ RefreshExact x config.refreshTokenTtlSeconds t out s') ↔
          t.timestamp + config.refreshTokenTtlSeconds.toNat ≤ DateTime.lastSecond)) ∧
    ∀ user id r, Prog.run exec i (signAccessToken x config user id) xs s = some (r, s') →
      Reached r → ∃ t, readings xs = [t] ∧
        ((∃ out, r = .ok out ∧ AccessExact x config.jwtAccessTokenTtlSeconds t out s') ↔
          t.timestamp + config.jwtAccessTokenTtlSeconds.toNat < 18446744073709551616) := by
  refine ⟨fun input r h hr => ?_, fun executor userId r h hr => ?_, fun user id r h hr => ?_⟩
  · exact yields_inviteUser input xs r s' h hr hclock
  · exact yields_issueRefreshToken hx executor userId xs r s' h hr hclock
  · exact yields_signAccessToken hx user id xs r s' h hr hclock

end sites

namespace Symbolic

theorem ext_oneClaimSet : ext.OneClaimSet := by
  intro h p k h' p' k' token he he'
  simp only [ext] at he he'
  have heq := (parse_of_encode he).symm.trans (parse_of_encode he')
  cases heq
  rfl

/-- Recorded and signed at the given second. -/
def issue (u : Uuid) (second : Int) : List Ans :=
  [.uuid u, .time ⟨second * 1000000000⟩, .done, .done]

/-- A refresh token for thirty days. -/
theorem token_lifetimes_month : ∃ out s', Prog.run exec 0
      (issueRefreshToken ext (config "A") .handle 2) (issue 20 10) session = some (.ok out, s') ∧
    RefreshExact ext 2592000 ⟨10000000000⟩ out s' := by
  have hsome : (Prog.run exec 0 (issueRefreshToken ext (config "A") .handle 2) (issue 20 10)
    session).map (fun r => r.1.isOk) = some true := by decide +kernel
  obtain ⟨⟨r, s'⟩, hrun, hr⟩ := Option.map_eq_some_iff.mp hsome
  rcases r with e | out
  · cases hr
  · have hclock : ∀ t ∈ readings (issue 20 10), 0 ≤ t.nanos := by decide
    obtain ⟨t, ht, hexact⟩ :=
      (token_lifetimes_iff ext_oneClaimSet hclock).2.1 _ _ _ hrun nofun
    cases ht
    obtain ⟨out', hout, hexact⟩ := hexact.mpr (by decide)
    cases hout
    exact ⟨out, s', hrun, hexact⟩

/-- No end of refresh tokens: `2 ^ 63` seconds are negative as a signed number. -/
def endless : Config := { config "A" with refreshTokenTtlSeconds := 9223372036854775808 }

theorem endless_panics : (Prog.run exec 0 (issueRefreshToken ext endless .handle 2)
    [.uuid 20, .time ⟨10000000000⟩] session).map Prod.fst =
      some (.error (.panic "TimeDelta::seconds out of bounds")) := by decide +kernel

theorem lifetimes_out_of_bounds : ¬ ∀ (x : Ext) (config : Config) (i : Nat) (xs : List Ans)
    (s s' : World), x.OneClaimSet → (∀ t ∈ readings xs, 0 ≤ t.nanos) →
    LifetimesExact x config i xs s s' := by
  intro hclaim
  obtain ⟨⟨r, s'⟩, hrun, hr⟩ := Option.map_eq_some_iff.mp endless_panics
  obtain rfl : r = .error (.panic "TimeDelta::seconds out of bounds") := hr
  have hclock : ∀ t ∈ readings [.uuid 20, .time ⟨10000000000⟩], 0 ≤ t.nanos := by decide
  obtain ⟨t, out, -, hout, -⟩ :=
    (hclaim ext endless 0 _ session s' ext_oneClaimSet hclock).2.1 _ _ _ hrun nofun
  cases hout

end Symbolic

end Wara
