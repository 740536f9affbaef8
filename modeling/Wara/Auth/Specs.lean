import Wara.Auth.Steps

/-!
# What the lookups find

One rule for each lookup of `auth.rs`, followed by the rest of the call: the row
it goes on with is in the table, and has passed the checks. The rules `sparing`
are those of a thread in a pool whose own steps never fire.
-/

namespace Wara

open Interleave Store Service AuthService

/-! ## Rows by column -/

theorem uuid_of_col {a b : Uuid} (h : some (Value.uuid a) = some (.uuid b)) : a = b := by
  cases h; rfl

theorem text_of_col {a b : String} (h : some (Value.text a) = some (.text b)) : a = b := by
  cases h; rfl

section rows

variable {db db' : Db} {r r' : UserRecord}

theorem Db.user_eq (hr : r ∈ db.rows .users) (hr' : r' ∈ db.rows .users) (h : r.id = r'.id) :
    r = r' :=
  (db.unique .users).eq (c := 0) (by decide) hr hr' (congrArg (fun u => some (Value.uuid u)) h)

theorem Db.user_eq_email (hr : r ∈ db.rows .users) (hr' : r' ∈ db.rows .users)
    (h : r.email = r'.email) : r = r' :=
  (db.unique .users).eq (c := 1) (by decide) hr hr' (congrArg (fun s => some (Value.text s)) h)

variable {i i' : UserInviteRecord}

theorem Db.invite_eq (hi : i ∈ db.rows .userInvites) (hi' : i' ∈ db.rows .userInvites)
    (h : i.tokenHash = i'.tokenHash) : i = i' :=
  (db.unique .userInvites).eq (c := 2) (by decide) hi hi'
    (congrArg (fun s => some (Value.text s)) h)

theorem Db.apiToken_eq {a a' : UserApiTokenRecord} (ha : a ∈ db.rows .userApiTokens)
    (ha' : a' ∈ db.rows .userApiTokens) (h : a.tokenHash = a'.tokenHash) : a = a' :=
  (db.unique .userApiTokens).eq (c := 3) (by decide) ha ha'
    (congrArg (fun s => some (Value.text s)) h)

theorem Db.Keeps.invite (h : db.Keeps db') (hi : i ∈ db.rows .userInvites) :
    ∃ i' : UserInviteRecord, i' ∈ db'.rows .userInvites ∧ i'.id = i.id ∧ i'.userId = i.userId ∧
      i'.tokenHash = i.tokenHash := by
  obtain ⟨i', hi', hc⟩ := h .userInvites i hi
  exact ⟨i', hi', uuid_of_col (hc 0 (by decide)), uuid_of_col (hc 1 (by decide)),
    text_of_col (hc 2 (by decide))⟩

end rows

section ends

/-! ## Lookups -/

variable {c : Rules Res World} {β : Type} {ok : β → World → Prop} {s : World} {x : Ext}

theorem ends_getUserRecord (hc : Tame c) {id : Uuid} {f : UserRecord → Service β}
    (h : ∀ s' r, c.rely s s' → r ∈ s'.db.rows .users → r.id = id → Ends c (f r) ok s') :
    Ends c (getUserRecord id >>= f) ok s := by
  unfold getUserRecord
  rw [bind_assoc]
  refine ends_first hc fun s' hs' => ends_okOr fun r hr => ?_
  obtain ⟨hm, hid⟩ := Layout.mem_of_head?_select hr
  exact h s' r hs' hm (holds_byId_users.mp hid)

theorem ends_findOpenInvite (hc : Tame c) {tokenHash : String}
    {f : UserInviteRecord → Service β}
    (h : ∀ s' i, c.rely s s' → i ∈ s'.db.rows .userInvites → i.tokenHash = tokenHash →
      i.acceptedAt = "" → Ends c (f i) ok s') :
    Ends c (findOpenInvite tokenHash >>= f) ok s := by
  unfold findOpenInvite
  rw [bind_assoc]
  refine ends_first hc fun s' hs' => ?_
  rw [bind_assoc]
  refine ends_okOr fun i hi => ?_
  rw [bind_assoc]
  refine ends_throwIf fun ha => ?_
  rw [pure_bind]
  obtain ⟨hm, hh⟩ := Layout.mem_of_head?_select hi
  exact h s' i hs' hm (text_of_col (Layout.holds_eq.mp hh)) (not_not.mp ha)

/-! ## Tokens -/

/-- Under some key the token reads as an access token with these claims. -/
def ReadsAsAccess (x : Ext) (token : String) (claims : Claims) : Prop :=
  ∃ header now key v payload, x.decodeHeader token = some header ∧
    x.decode now token key v = .ok payload ∧ Claims.deserialize payload = some claims

/-- Under some key the token reads as a refresh token with these claims. -/
def ReadsAsRefresh (x : Ext) (token : String) (claims : RefreshClaims) : Prop :=
  ∃ header now key v payload, x.decodeHeader token = some header ∧
    x.decode now token key v = .ok payload ∧ RefreshClaims.deserialize payload = some claims

variable {config : Config} {token : String}

theorem holds_byId_refreshTokens {id : Uuid} {r : UserRefreshTokenRecord} :
    layout.holds (t := .userRefreshTokens) (byId id) r = true ↔ r.id = id := by
  rw [byId, Layout.holds_eq]
  exact ⟨fun h => uuid_of_col h, fun h => by rw [← h]; rfl⟩

/-- The record that `active_refresh_token_record` goes on with is the one of the claims. -/
theorem ends_activeRefreshTokenRecord (hc : Tame c) {f : UserRefreshTokenRecord → Service β}
    (h : ∀ s₁ s₂ claims r, c.rely s s₁ → c.rely s₁ s₂ → ReadsAsRefresh x token claims →
      x.uuidParseStr claims.jti = some r.id → x.uuidParseStr claims.sub = some r.userId →
      r ∈ s₁.db.rows .userRefreshTokens → r.revokedAt = none → Ends c (f r) ok s₂) :
    Ends c (activeRefreshTokenRecord x config token >>= f) ok s := by
  unfold activeRefreshTokenRecord verifyRefreshToken decodingKeyForToken
  simp only [bind_assoc]
  refine ends_okOr fun header hheader => ends_okOr fun kid _ => ends_okOr fun keyId _ => ?_
  refine ends_reads hc (Q := fun _ => True) (by simp [jwtPublicKeyRecord, Op.writes])
    fun record s₁ _ h₁ => ends_mapErr fun key _ => ?_
  refine ends_reads hc (Q := fun _ => True) (by simp [getCurrentTimestamp, Op.writes])
    fun now s₂ _ h₂ => ends_mapErr fun payload hpayload => ends_okOr fun claims hclaims => ?_
  refine ends_throwIf fun _ => ?_
  rw [pure_bind]
  refine ends_okOr fun tokenId htoken => ends_okOr fun userId huser => ?_
  refine ends_first hc fun s₃ h₃ => ends_okOr fun r hr => ?_
  obtain ⟨hm, hid⟩ := Layout.mem_of_head?_select hr
  have hid : r.id = tokenId := holds_byId_refreshTokens.mp hid
  refine ends_throwIf fun hsame => ends_throwIf fun hrevoked => ?_
  refine ends_reads hc (Q := fun _ => True) (by simp [parseRfc3339]) fun _ s₄ _ h₄ => ?_
  refine ends_reads hc (Q := fun _ => True) (by simp [Op.writes]) fun _ s₅ _ h₅ => ?_
  refine ends_throwIf fun _ => ?_
  rw [pure_bind]
  rw [← hid] at htoken
  rw [← not_not.mp hsame] at huser
  have hreads : ReadsAsRefresh x token claims := ⟨header, _, _, _, _, hheader, hpayload, hclaims⟩
  exact h s₃ s₅ claims r (c.rely_trans h₁ (c.rely_trans h₂ h₃)) (c.rely_trans h₄ h₅) hreads htoken
    huser hm (Option.not_isSome_iff_eq_none.mp hrevoked)

/-- What `verify_access_token` returns is read from the token. -/
theorem ends_attempt_verifyAccessToken (hc : Tame c) {f : Except ApiError Claims → Service β}
    (h : ∀ s' r, c.rely s s' → (∀ claims, r = .ok claims → ReadsAsAccess x token claims) →
      Ends c (f r) ok s') :
    Ends c (attempt (verifyAccessToken x config token) >>= f) ok s := by
  refine ends_reads hc (Q := fun r => ∀ claims, r = .ok claims → ReadsAsAccess x token claims) ?_
    fun r s' hr hs => h s' r hs hr
  rw [all_attempt (by simp)]
  unfold verifyAccessToken decodingKeyForToken
  simp only [Flow.all_bind, all_okOr]
  intro header hheader
  simp only [jwtPublicKeyRecord, getCurrentTimestamp, Flow.all_bind, all_okOr, all_mapErr,
    all_first, all_throwIf, all_now, Flow.all_pure, Flow.all_ite, Flow.all_throw, Op.writes,
    true_and, Except.ok.injEq, forall_eq']
  intro _ _ _ _ _ _ _ _ key _ t
  refine ⟨fun _ => trivial, fun _ payload hpayload claims hclaims => ?_⟩
  exact ⟨header, _, _, _, _, hheader, hpayload, hclaims⟩

/-- The two paths of `authenticate_bearer`, up to the active user that each one finds. -/
theorem ends_authenticateBearer {ok : User → World → Prop} (hc : Tame c)
    (haccess : ∀ s₁ claims id, c.rely s s₁ → ReadsAsAccess x token claims →
      x.uuidParseStr claims.sub = some id → ∀ s₂ u, c.rely s₁ s₂ → u ∈ s₂.db.rows .users →
      u.id = id → UserRecord.status u = UserStatus.active.asStr →
      Ends c (userFromRecord u) ok s₂)
    (hapi : ∀ s₁ r, c.rely s s₁ → Rust.startsWith token "wara_" = true →
      r ∈ s₁.db.rows .userApiTokens → r.tokenHash = hashApiToken x token → r.revokedAt = none →
      ∀ s₂ u, c.rely s₁ s₂ → u ∈ s₂.db.rows .users → u.id = r.userId →
      UserRecord.status u = UserStatus.active.asStr → Ends c (do
        let now ← now
        update .userApiTokens (byId r.id) [(7, .optText (some (x.toRfc3339 now)))]
        userFromRecord u) ok s₂) :
    Ends c (authenticateBearer x config token) ok s := by
  unfold authenticateBearer
  refine ends_attempt_verifyAccessToken hc fun s₁ r h₁ hr => ?_
  cases r with
  | ok claims =>
    refine ends_okOr fun id hid => ends_getUserRecord hc fun s₂ u h₂ hu huid => ?_
    exact ends_throwIf fun hactive =>
      haccess s₁ claims id h₁ (hr claims rfl) hid s₂ u h₂ hu huid (not_not.mp hactive)
  | error e =>
    cases e with
    | unauthorized =>
      show Ends c (authenticateApiToken x token) ok s₁
      unfold authenticateApiToken
      refine ends_throwIf fun hstarts => ends_first hc fun s₂ h₂ => ends_okOr fun r hr => ?_
      obtain ⟨hm, hhash⟩ := Layout.mem_of_head?_select hr
      have hhash : r.tokenHash = hashApiToken x token := text_of_col (Layout.holds_eq.mp hhash)
      refine ends_throwIf fun hrevoked => ends_getUserRecord hc fun s₃ u h₃ hu huid => ?_
      exact ends_throwIf fun hactive => hapi s₂ r (c.rely_trans h₁ h₂) (not_not.mp hstarts) hm hhash
        (Option.not_isSome_iff_eq_none.mp hrevoked) s₃ u h₃ hu huid (not_not.mp hactive)
    | _ => exact ends_throwApi _

end ends

/-! ## A thread that does not fire -/

/-- The others keep the rows, and so does the thread, none of whose events fires. -/
def sparing (fires : Event Res World → Prop) (i : Nat) : Rules Res World where
  rely := World.Keeps
  rely_refl := World.Keeps.refl
  rely_trans := @World.Keeps.trans
  step o s r s' := (∃ a, exec i o a s = some (r, s')) ∧ s.Keeps s' ∧ ¬ fires ⟨i, o, r, s, s'⟩
  guar _ _ _ _ := True

theorem calm_sparing {fires : Event Res World → Prop} {i : Nat} : Calm (sparing fires i) where
  exec h := ⟨i, h.1⟩
  reads _ h := ⟨trivial, h.2.1⟩
  guar h := ⟨trivial, h.2.1⟩

/-- The call of a thread of the pool. -/
theorem AuthPool.call_of_thread {x : Ext} {calls : List Call} {w : World} {P' : AuthPool}
    {es : List (Event Res World)} (hr : Runs exec (of x calls w) es P') {i : Nat}
    {p : Prog Res (Except Abort AuthReply)} (h : P'.threads[i]? = some p) :
    ∃ c, calls[i]? = some c := by
  obtain ⟨hlt, -⟩ := List.getElem?_eq_some_iff.mp h
  rw [hr.length_eq] at hlt
  simp only [of, List.length_map] at hlt
  exact ⟨_, List.getElem?_eq_getElem hlt⟩

/-- A request that cannot succeed without an event that fires, and did. -/
theorem AuthPool.fired {fires : Event Res World → Prop} {x : Ext} {calls : List Call} {w : World}
    {P' : AuthPool} {es : List (Event Res World)} {i : Nat} {c : Call}
    (hr : Runs exec (of x calls w) es P') (hc : calls[i]? = some c)
    (hneed : Ends (sparing fires i) (c.request.serve x c.config) (fun _ _ => False) w)
    (hend : P'.Succeeded i) : ∃ e ∈ es, e.tid = i ∧ fires e := by
  obtain ⟨reply, hend⟩ := hend
  have hthread : (of x calls w).threads[i]? = some (c.prog x) := by
    simp only [of, List.getElem?_map, hc, Option.map_some]
  have hneed' : (c.prog x).Safe (sparing fires i) (fun r _ => ¬ ∃ b, r = .ok b) w := by
    refine Prog.Safe.mono hneed fun r s hr => ?_
    cases r with
    | ok b => exact hr.elim
    | error e => rintro ⟨b, hb⟩; cases hb
  refine hr.fired (c := sparing fires i) hthread (fun e he => keeps hr he) ?_ hneed' hend ⟨_, rfl⟩
  rintro e he rfl hf
  exact ⟨hr.handled e he, keeps hr he, hf⟩

/-! ## A state predicate that holds on -/

/-- The others keep `I` once it holds, and so does the thread. -/
def holding (I : World → Prop) (i : Nat) : Rules Res World where
  rely s s' := I s → I s'
  rely_refl _ h := h
  rely_trans h h' hi := h' (h hi)
  step o s r s' := (∃ a, exec i o a s = some (r, s')) ∧ (I s → I s')
  guar _ _ _ _ := True

theorem calm_holding {I : World → Prop} {i : Nat} : Calm (holding I i) where
  exec h := ⟨i, h.1⟩
  reads _ h := ⟨trivial, h.2⟩
  guar h := ⟨trivial, h.2⟩

/-- A request that cannot succeed while `I` holds, in a part of a run in which it does. -/
theorem AuthPool.fails {I : World → Prop} {x : Ext} {P P' : AuthPool}
    {es : List (Event Res World)} {i : Nat} {c : Call} (hr : Runs exec P es P')
    (hkeep : ∀ e ∈ es, I e.pre → I e.post) (hp : P.threads[i]? = some (c.prog x))
    (hends : Ends (holding I i) (c.request.serve x c.config) (fun _ _ => False) P.state) :
    ¬ P'.Succeeded i := by
  rintro ⟨reply, hend⟩
  have hneed : (c.prog x).Safe (holding I i) (fun r _ => ¬ ∃ b, r = .ok b) P.state := by
    refine Prog.Safe.mono hends fun r s hr => ?_
    cases r with
    | ok b => exact hr.elim
    | error e => rintro ⟨b, hb⟩; cases hb
  have hstep : ∀ e ∈ es, e.tid = i → ¬ False → (holding I i).step e.op e.pre e.res e.post := by
    rintro e he rfl -
    exact ⟨hr.handled e he, hkeep e he⟩
  obtain ⟨e, -, -, hfalse⟩ := hr.fired hp hkeep hstep hneed hend ⟨_, rfl⟩
  exact hfalse

/-- What a request establishes, among others that keep the rows, holds at the end of the run. -/
theorem AuthPool.ended {x : Ext} {calls : List Call} {w : World} {P' : AuthPool}
    {es : List (Event Res World)} {i : Nat} {c : Call} {ok : AuthReply → World → Prop}
    {reply : AuthReply} (hr : Runs exec (of x calls w) es P') (hc : calls[i]? = some c)
    (hends : Ends (sparing (fun _ => False) i) (c.request.serve x c.config) ok w)
    (hend : P'.threads[i]? = some (.ret (.ok reply))) : ok reply P'.state := by
  let Q : Nat → Except Abort AuthReply → World → Prop :=
    fun j r s => j = i → ∀ reply, r = .ok reply → ok reply s
  have hsafe : (of x calls w).AllSafe (sparing fun _ => False) Q := by
    intro j p hp
    by_cases hj : j = i
    · subst hj
      simp only [of, List.getElem?_map, hc, Option.map_some, Option.some.injEq] at hp
      subst hp
      refine Prog.Safe.mono hends fun r s hrs _ => ?_
      rintro reply rfl
      exact hrs
    · refine Prog.Safe.mono (Prog.All.safe (Prog.all_trivial p) fun o _ s r s' hs =>
        ⟨trivial, hs.2.1⟩) fun r s _ h => absurd h hj
  have hall := hr.safe (I := fun _ => True) trivial hsafe
    (fun e he _ => ⟨hr.handled e he, keeps hr he, not_false⟩)
    (fun j o s r s' _ hs _ => ⟨trivial, fun k _ => hs.2.1⟩)
  exact hall.2.2 i _ hend P'.state (Layout.Keeps.refl _) rfl reply rfl

end Wara
