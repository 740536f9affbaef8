import Wara.Auth.Specs
import Wara.Config
import Wara.External.Symbolic

/-!
# Rotating the signing key

An instance signs with its own private key, under the identifier of the record
that is active in the shared database. A token verifies if the two belong
together when the active record is read. They do in a run of one key pair, and
not while another instance has made its own key the active one.
-/

namespace Wara

open Interleave Store Service AuthService

variable {x : Ext}

abbrev World.keys (w : World) : List JwtPublicKeyRecord := w.db.rows .jwtPublicKeys

/-- The clock aside, `decoding_key_for_token` selects a key that verifies the token. -/
def verifiable (x : Ext) (w : World) (token : String) : Bool :=
  match Prog.run exec 0 (decodingKeyForToken x token) [.done] w with
  | some (.ok key, _) => x.verifySignature token key
  | _ => false

def JwtPublicKeyRecord.IsRs256 (r : JwtPublicKeyRecord) : Prop :=
  r.keyType = "RSA" ∧ r.keyUse = "sig" ∧ r.algorithm = "RS256"

/-- The token names a stored key that verifies it. -/
def HasKey (x : Ext) (w : World) (token : String) : Prop :=
  ∃ r ∈ w.keys, r.IsRs256 ∧ x.decodeHeader token = some ⟨some (x.uuidToString r.id)⟩ ∧
    ∃ key, x.decodingKeyFromRsaComponents r.modulus r.exponent = .ok key ∧
      x.verifySignature token key = true

/-- Keys stay, with their components. -/
def KeysKept (w w' : World) : Prop :=
  ∀ r ∈ w.keys, ∃ r' ∈ w'.keys, r'.id = r.id ∧ r'.modulus = r.modulus ∧
    r'.exponent = r.exponent ∧ (r.IsRs256 → r'.IsRs256)

theorem KeysKept.refl (w : World) : KeysKept w w := fun r hr => ⟨r, hr, rfl, rfl, rfl, id⟩

theorem KeysKept.trans {w₁ w₂ w₃ : World} (h : KeysKept w₁ w₂) (h' : KeysKept w₂ w₃) :
    KeysKept w₁ w₃ := by
  intro r hr
  obtain ⟨r₂, hr₂, hid, hm, he, hs⟩ := h r hr
  obtain ⟨r₃, hr₃, hid', hm', he', hs'⟩ := h' r₂ hr₂
  exact ⟨r₃, hr₃, hid'.trans hid, hm'.trans hm, he'.trans he, fun h => hs' (hs h)⟩

theorem HasKey.mono {w w' : World} {token : String} (h : HasKey x w token) (hk : KeysKept w w') :
    HasKey x w' token := by
  obtain ⟨r, hr, hs, hh, key, hkey, hv⟩ := h
  obtain ⟨r', hr', hid, hm, he, hs'⟩ := hk r hr
  exact ⟨r', hr', hs' hs, by rw [hid]; exact hh, key, by rw [hm, he]; exact hkey, hv⟩

theorem holds_byId_keys {id : Uuid} {r : JwtPublicKeyRecord} :
    layout.holds (t := .jwtPublicKeys) (byId id) r = true ↔ r.id = id := by
  rw [byId, Layout.holds_eq]
  exact ⟨fun h => uuid_of_col h, fun h => by rw [← h]; rfl⟩

theorem Db.key_eq {db : Db} {r r' : JwtPublicKeyRecord} (hr : r ∈ db.rows .jwtPublicKeys)
    (hr' : r' ∈ db.rows .jwtPublicKeys) (h : r.id = r'.id) : r = r' :=
  (db.unique .jwtPublicKeys).eq (c := 0) (by decide) hr hr'
    (congrArg (fun u => some (Value.uuid u)) h)

theorem head?_select_key {w : World} {r : JwtPublicKeyRecord} (hr : r ∈ w.keys) :
    (layout.select w.db .jwtPublicKeys (byId r.id)).head? = some r :=
  Layout.head?_select (by decide) hr rfl

theorem run_first {β : Type} {i : Nat} {t : Table} {flt : Filter} {f : Option (Row t) → Service β}
    {xs : List Ans} {w : World} :
    Prog.run exec i (first t flt >>= f : Service β) (.done :: xs) w =
      Prog.run exec i (f (layout.select w.db t flt).head?) xs w := rfl

/-- A token with a stored key selects a key that verifies it. -/
theorem HasKey.run (hx : x.Lawful) {w : World} {token : String} (h : HasKey x w token) :
    ∃ key, x.verifySignature token key = true ∧
      ∀ {β : Type} (i : Nat) (f : DecodingKey → Service β) (xs : List Ans),
        Prog.run exec i (decodingKeyForToken x token >>= f : Service β) (.done :: xs) w =
          Prog.run exec i (f key) xs w := by
  obtain ⟨r, hr, ⟨ht, hu, ha⟩, hh, key, hkey, hv⟩ := h
  refine ⟨key, hv, fun i f xs => ?_⟩
  unfold decodingKeyForToken jwtPublicKeyRecord
  rw [hh]
  simp only [okOr, pure_bind, hx.parse_uuid, bind_assoc]
  rw [run_first, head?_select_key hr]
  simp only [pure_bind, throwIf, ht, hu, ha, hkey, mapErr]
  rfl

theorem HasKey.verifiable (hx : x.Lawful) {w : World} {token : String} (h : HasKey x w token) :
    verifiable x w token = true := by
  obtain ⟨key, hv, hrun⟩ := h.run hx
  have hrun := hrun 0 pure []
  rw [bind_pure] at hrun
  unfold Wara.verifiable
  rw [hrun]
  exact hv

theorem laterKey_mem {best : Option JwtPublicKeyRecord} {record r : JwtPublicKeyRecord}
    (h : laterKey best record = some r) : best = some r ∨ record = r := by
  unfold laterKey at h
  split at h
  · exact .inr (Option.some.inj h)
  · split at h
    · exact .inl h
    · exact .inr (Option.some.inj h)

theorem foldl_laterKey_mem {r : JwtPublicKeyRecord} (records : List JwtPublicKeyRecord)
    (best : Option JwtPublicKeyRecord) (h : records.foldl laterKey best = some r) :
    best = some r ∨ r ∈ records := by
  induction records generalizing best with
  | nil => exact .inl h
  | cons record records ih =>
    rcases ih _ h with hbest | hmem
    · rcases laterKey_mem hbest with hb | rfl
      · exact .inl hb
      · exact .inr List.mem_cons_self
    · exact .inr (List.mem_cons_of_mem _ hmem)

/-- The active record is one of the records. -/
theorem latestActive_mem {records : List JwtPublicKeyRecord} {r : JwtPublicKeyRecord}
    (h : latestActive records = some r) : r ∈ records ∧ r.isActive = true := by
  rcases foldl_laterKey_mem _ none h with hnone | hmem
  · cases hnone
  · exact List.mem_filter.mp hmem

/-! ## The rules of a thread -/

/-- The requests that sign tokens. -/
def AuthRequest.Signs : AuthRequest → Prop
  | .login _ | .acceptInvite _ | .refreshSession _ => True
  | _ => False

/-- The active record, if any, carries the public key of the configuration. -/
def MatchesActiveKey (x : Ext) (config : Config) (w : World) : Prop :=
  ∀ r, latestActive w.keys = some r →
    rsaPublicKeyComponents x config.jwtPublicKey = .ok (r.modulus, r.exponent)

def NoKey (u : Uuid) (w : World) : Prop := ∀ r ∈ w.keys, r.id ≠ u

/-- Thread `i` of a pool: its signing reads find a matching key. The others keep the keys, and
create none under an identifier that is its own; so does the thread, for theirs. -/
def keyRules (x : Ext) (calls : List Call) (i : Nat) : Rules Res World where
  rely s s' := KeysKept s s' ∧ s.issued ⊆ s'.issued ∧
    ∀ u, (i, u) ∈ s.issued → NoKey u s → NoKey u s'
  rely_refl s := ⟨.refl s, List.Subset.refl _, fun _ _ h => h⟩
  rely_trans h h' := ⟨h.1.trans h'.1, List.Subset.trans h.2.1 h'.2.1,
    fun u hu hn => h'.2.2 u (h.2.1 hu) (h.2.2 u hu hn)⟩
  step o s r s' := (∃ a, exec i o a s = some (r, s')) ∧
    (o = .select .jwtPublicKeys .all → ∀ c, calls[i]? = some c → c.request.Signs →
      MatchesActiveKey x c.config s)
  guar _ s _ s' := KeysKept s s' ∧
    ∀ r' ∈ s'.keys, (∃ r ∈ s.keys, r.id = r'.id) ∨ (i, r'.id) ∈ s.issued

/-- The operation does not write keys. -/
def Op.SparesKeys (o : Op) : Prop := ∀ w ∈ o.writes, w.table ≠ .jwtPublicKeys

theorem issued_subset {i : Nat} {o : Op} {a : Ans} {r : Res o} {s s' : World}
    (h : exec i o a s = some (r, s')) : s.issued ⊆ s'.issued := by
  cases o
  case write w =>
    rcases exec_write h with ⟨e, -, rfl⟩ | ⟨-, db, -, rfl⟩ <;> exact List.Subset.refl _
  case commit ws =>
    rcases exec_commit h with ⟨e, -, rfl⟩ | ⟨-, db, -, rfl⟩ <;> exact List.Subset.refl _
  case newUuid => obtain ⟨hu, rfl⟩ := exec_newUuid h; exact List.subset_cons_self _ _
  case caller user => rw [exec_caller h]; exact List.Subset.refl _
  all_goals rw [exec_idle rfl h]; exact List.Subset.refl _

section rules

variable {calls : List Call} {i : Nat} {β : Type} {ok : β → World → Prop} {s : World}

/-- An operation that spares the keys keeps the promise, and stays within the rely. -/
theorem keyRules_spares {o : Op} {s s' : World} {r : Res o} (ho : o.SparesKeys)
    (h : (keyRules x calls i).step o s r s') :
    (keyRules x calls i).guar o s r s' ∧ (keyRules x calls i).rely s s' := by
  obtain ⟨⟨a, ha⟩, -⟩ := h
  have hkeys : s'.keys = s.keys := by
    rcases exec_db ha with hdb | ⟨-, hdb⟩
    · rw [World.keys, hdb]
    · exact Layout.applyAll_frame hdb fun w hw => (ho w hw).symm
  have hkept : KeysKept s s' := by
    intro r hr
    exact ⟨r, hkeys ▸ hr, rfl, rfl, rfl, id⟩
  refine ⟨⟨hkept, fun r' hr' => .inl ⟨r', hkeys ▸ hr', rfl⟩⟩, hkept, issued_subset ha, ?_⟩
  intro u _ hn r hr
  exact hn r (hkeys ▸ hr)

theorem tame_keyRules : Tame (keyRules x calls i) where
  exec h := ⟨i, h.1⟩
  reads hw h := keyRules_spares (fun w hmem => by rw [hw] at hmem; cases hmem) h

/-- Any part of a call that spares the keys. -/
theorem ends_spares {α : Type} {y : Service α} {f : α → Service β}
    (hy : Flow.All Op.SparesKeys y fun _ => True)
    (h : ∀ a s', (keyRules x calls i).rely s s' → Ends (keyRules x calls i) (f a) ok s') :
    Ends (keyRules x calls i) (y >>= f) ok s :=
  ends_all hy (fun _ ho _ _ _ hs => keyRules_spares ho hs) fun a s' _ hs => h a s' hs

/-- Requests write keys only when an instance starts. -/
theorem sparesKeys_of_canIssue {q : AuthRequest} (hq : q ≠ .bootstrapAdmin) {o : Op}
    (h : q.CanIssue x o) : o.SparesKeys := by
  rcases h with hw | h
  · intro w hmem
    rw [hw] at hmem; cases hmem
  · cases h <;> first | exact absurd rfl hq | simp [Op.SparesKeys, Op.writes, Write.table]

theorem spares_of_covers {q : AuthRequest} (hq : q ≠ .bootstrapAdmin) {α : Type} {y : Service α}
    (h : q.Covers x y) : Flow.All Op.SparesKeys y fun _ => True :=
  Flow.All.mono h (fun _ => sparesKeys_of_canIssue hq) fun _ h => h

/-! ## Signing -/

/-- What the signing requests need of the thread's configuration. -/
structure Signer (x : Ext) (calls : List Call) (i : Nat) (config : Config) : Prop where
  signs : ∃ c, calls[i]? = some c ∧ c.request.Signs ∧ c.config = config
  valid : ∃ now, config.validateJwtKeyConfig x now = .ok ()

/-- A token signed in a run of matching keys has a stored key. -/
theorem ends_signWithActiveKey (hx : x.Lawful) {config : Config} (hs : Signer x calls i config)
    {what : String} {payload : Payload} {f : String → Service β}
    (h : ∀ token s', (keyRules x calls i).rely s s' → HasKey x s' token →
      Ends (keyRules x calls i) (f token) ok s') :
    Ends (keyRules x calls i) (signWithActiveKey x config what payload >>= f) ok s := by
  obtain ⟨c, hc, hsigns, rfl⟩ := hs.signs
  obtain ⟨now, hvalid⟩ := hs.valid
  obtain ⟨key, hkey, hverifies⟩ := Config.pair_of_validate hx hvalid
  unfold signWithActiveKey activeJwtPublicKeyRecord
  simp only [bind_assoc]
  refine ends_mapErr fun k hk => ends_query tame_keyRules fun s₁ h₁ hread => ?_
  have hall : layout.select s₁.db .jwtPublicKeys .all = s₁.keys :=
    List.filter_eq_self.mpr fun _ _ => rfl
  rw [hall]
  refine ends_okOr fun r hr => ends_throwIf fun hkind => ?_
  rw [pure_bind]
  refine ends_mapErr fun token htoken => h token s₁ h₁ ?_
  have hmatch := hread.2 rfl c hc hsigns r hr
  obtain ⟨hkt, hku, hka⟩ : r.IsRs256 := by
    simp only [not_or, not_not] at hkind
    exact hkind
  refine ⟨r, (latestActive_mem hr).1, ⟨hkt, hku, hka⟩, hx.decodeHeader_encode htoken, ?_⟩
  unfold rsaPublicKeyComponents at hmatch
  split at hmatch
  · next n e hpem =>
    injection hmatch with hmatch
    injection hmatch with hm he
    obtain ⟨key', hkey', hsame⟩ := hx.verify_components hpem hkey
    rw [hm, he] at hkey'
    exact ⟨key', hkey', by rw [hsame]; exact hverifies k _ _ token hk htoken⟩
  · cases hmatch

/-- Both tokens of a session have a stored key. -/
def SessionHasKeys (x : Ext) (output : LoginOutput) (w : World) : Prop :=
  HasKey x w output.token ∧ HasKey x w output.refreshToken

theorem SessionHasKeys.mono {output : LoginOutput} {w w' : World} (h : SessionHasKeys x output w)
    (hk : KeysKept w w') : SessionHasKeys x output w' :=
  ⟨h.1.mono hk, h.2.mono hk⟩

theorem ends_issueRefreshToken (hx : x.Lawful) {config : Config} (hs : Signer x calls i config)
    {e : Executor} {userId : Uuid} {f : RefreshTokenIssue → Service β}
    (h : ∀ issue s', (keyRules x calls i).rely s s' → HasKey x s' issue.token →
      Ends (keyRules x calls i) (f issue) ok s') :
    Ends (keyRules x calls i) (issueRefreshToken x config e userId >>= f) ok s := by
  unfold issueRefreshToken signRefreshToken
  simp only [bind_assoc]
  have hspare : ∀ r : UserRefreshTokenRecord, (e.op (.insert .userRefreshTokens r)).SparesKeys := by
    intro r
    cases e <;> simp [Executor.op, Op.SparesKeys, Op.writes, Write.table]
  refine ends_spares (by simp [Op.SparesKeys, Op.writes]) fun id s₁ h₁ => ?_
  refine ends_spares (by simp [Op.SparesKeys, Op.writes]) fun t s₂ h₂ => ?_
  refine ends_spares (by simp [afterSeconds]) fun expiresAt s₃ h₃ => ?_
  refine ends_spares (by simp [hspare]) fun record s₄ h₄ => ?_
  refine ends_signWithActiveKey hx hs fun token s₅ h₅ htoken => ?_
  rw [pure_bind]
  have hrely := (keyRules x calls i).rely_trans h₁ ((keyRules x calls i).rely_trans h₂
    ((keyRules x calls i).rely_trans h₃ ((keyRules x calls i).rely_trans h₄ h₅)))
  exact h _ s₅ hrely htoken

theorem ends_signAccessToken (hx : x.Lawful) {config : Config} (hs : Signer x calls i config)
    {user : User} {id : Uuid} {f : String → Service β}
    (h : ∀ token s', (keyRules x calls i).rely s s' → HasKey x s' token →
      Ends (keyRules x calls i) (f token) ok s') :
    Ends (keyRules x calls i) (signAccessToken x config user id >>= f) ok s := by
  unfold signAccessToken
  simp only [bind_assoc]
  refine ends_spares (by simp [getCurrentTimestamp, Op.SparesKeys, Op.writes]) fun t s₁ h₁ => ?_
  refine ends_spares (by simp [Op.SparesKeys, Op.writes]) fun jti s₂ h₂ => ?_
  refine ends_signWithActiveKey hx hs fun token s₃ h₃ htoken => ?_
  exact h token s₃ ((keyRules x calls i).rely_trans h₁ ((keyRules x calls i).rely_trans h₂ h₃))
    htoken

theorem ends_startSession (hx : x.Lawful) {config : Config} (hs : Signer x calls i config)
    {user : User} :
    Ends (keyRules x calls i) (startSession x config user) (SessionHasKeys x) s := by
  unfold startSession
  refine ends_issueRefreshToken hx hs fun issue s₁ h₁ hissue => ?_
  refine ends_signAccessToken hx hs fun token s₂ h₂ htoken => ends_pure fun s₃ h₃ => ?_
  exact ⟨htoken.mono h₃.1, hissue.mono (h₂.1.trans h₃.1)⟩

theorem ends_login (hx : x.Lawful) {config : Config} (hs : Signer x calls i config)
    (input : LoginInput) :
    Ends (keyRules x calls i) (login x config input) (SessionHasKeys x) s := by
  have hq : ∀ {α : Type} {y : Service α}, (AuthRequest.login input).Covers x y →
      Flow.All Op.SparesKeys y fun _ => True := spares_of_covers (by nofun)
  unfold login
  refine ends_spares (hq (covers_findUserByEmail _)) fun record s₁ _ => ?_
  refine ends_throwIf fun _ => ends_throwIf fun _ => ?_
  refine ends_spares (hq (covers_verifyPassword _ _)) fun _ s₂ _ => ?_
  refine ends_spares (hq (covers_userFromRecord _)) fun user s₃ _ => ?_
  exact ends_startSession hx hs

theorem ends_acceptInvite (hx : x.Lawful) {config : Config} (hs : Signer x calls i config)
    (input : AcceptInviteInput) :
    Ends (keyRules x calls i) (acceptInvite x config input) (SessionHasKeys x) s := by
  have hq : ∀ {α : Type} {y : Service α}, (AuthRequest.acceptInvite input).Covers x y →
      Flow.All Op.SparesKeys y fun _ => True := spares_of_covers (by nofun)
  unfold acceptInvite
  refine ends_spares (hq (covers_findOpenInvite _)) fun invite s₁ _ => ?_
  refine ends_spares (hq (covers_parseRfc3339 _)) fun expiresAt s₂ _ => ?_
  refine ends_spares (by simp [Op.SparesKeys, Op.writes]) fun time s₃ _ => ends_throwIf fun _ => ?_
  refine ends_spares (hq (covers_getUserRecord _)) fun user s₄ _ => ?_
  refine ends_throwIf fun _ => ends_throwIf fun _ => ?_
  refine ends_spares (hq (by simp)) fun hash s₅ _ => ?_
  refine ends_spares (by simp [Op.SparesKeys, Op.writes, Write.table]) fun _ s₆ _ => ?_
  refine ends_spares (by simp [Op.SparesKeys, Op.writes]) fun acceptedAt s₇ _ => ?_
  refine ends_spares (by simp [Op.SparesKeys, Op.writes, Write.table]) fun _ s₈ _ => ?_
  refine ends_spares (hq (covers_getUser _)) fun user s₉ _ => ?_
  exact ends_startSession hx hs

theorem ends_refreshSession (hx : x.Lawful) {config : Config} (hs : Signer x calls i config)
    (input : RefreshSessionInput) :
    Ends (keyRules x calls i) (refreshSession x config input) (SessionHasKeys x) s := by
  have hq : ∀ {α : Type} {y : Service α}, (AuthRequest.refreshSession input).Covers x y →
      Flow.All Op.SparesKeys y fun _ => True := spares_of_covers (by nofun)
  unfold refreshSession
  refine ends_spares (hq (covers_activeRefreshTokenRecord _)) fun record s₁ _ => ?_
  refine ends_spares (hq (covers_getUserRecord _)) fun userRecord s₂ _ => ends_throwIf fun _ => ?_
  refine ends_spares (hq (covers_userFromRecord _)) fun user s₃ _ => ?_
  refine ends_spares (by simp [Op.SparesKeys, Op.writes]) fun _ s₄ _ => ?_
  refine ends_issueRefreshToken hx hs fun issue s₅ _ hissue => ?_
  refine ends_spares (by simp [Op.SparesKeys, Op.writes]) fun revokedAt s₆ h₆ => ?_
  refine ends_spares (by simp [Executor.op, Op.SparesKeys, Op.writes]) fun _ s₇ h₇ => ?_
  refine ends_spares (by simp [Op.SparesKeys, Op.writes, Write.table]) fun _ s₈ h₈ => ?_
  refine ends_signAccessToken hx hs fun token s₉ h₉ htoken => ends_pure fun s₁₀ h₁₀ => ?_
  have hkept := h₆.1.trans (h₇.1.trans (h₈.1.trans (h₉.1.trans h₁₀.1)))
  exact ⟨htoken.mono h₁₀.1, hissue.mono hkept⟩

/-! ## Starting -/

/-- Activating the record of a key writes the components it has. -/
theorem keysKept_activate {s s' : World} {id : Uuid} {modulus exponent : String}
    (h : layout.apply (.update .jwtPublicKeys (byId id) [(1, .text "RSA"), (2, .text "sig"),
      (3, .text "RS256"), (4, .text modulus), (5, .text exponent), (6, .bool true)]) s.db = some s'.db)
    (hcomp : ∀ r ∈ s.keys, r.id = id → r.modulus = modulus ∧ r.exponent = exponent) :
    KeysKept s s' ∧ ∀ r' ∈ s'.keys, ∃ r ∈ s.keys, r.id = r'.id := by
  have hrows : s'.keys = List.map (fun r : JwtPublicKeyRecord => if r.id = id then
      ⟨r.id, "RSA", "sig", "RS256", modulus, exponent, true, r.createdAt⟩ else r) s.keys := by
    rw [World.keys, Layout.apply_update h]
    refine List.map_congr_left fun r _ => ?_
    simp only [holds_byId_keys]
    rfl
  constructor
  · intro r hr
    rw [hrows]
    refine ⟨_, List.mem_map_of_mem hr, ?_⟩
    split
    · next hid =>
      obtain ⟨hm, he⟩ := hcomp r hr hid
      exact ⟨rfl, hm.symm, he.symm, fun _ => ⟨rfl, rfl, rfl⟩⟩
    · exact ⟨rfl, rfl, rfl, fun h => h⟩
  · intro r' hr'
    rw [hrows] at hr'
    obtain ⟨r, hr, rfl⟩ := List.mem_map.mp hr'
    refine ⟨r, hr, ?_⟩
    split <;> rfl

theorem keysKept_deactivate {s s' : World}
    (h : layout.apply (.update .jwtPublicKeys (.eq 6 (.bool true)) [(6, .bool false)]) s.db =
      some s'.db) : KeysKept s s' ∧ ∀ r' ∈ s'.keys, ∃ r ∈ s.keys, r.id = r'.id := by
  have hrows : s'.keys = List.map (fun r : JwtPublicKeyRecord =>
      if layout.holds (t := .jwtPublicKeys) (.eq 6 (.bool true)) r then { r with isActive := false }
      else r) s.keys := Layout.apply_update h
  constructor
  · intro r hr
    rw [hrows]
    refine ⟨_, List.mem_map_of_mem hr, ?_⟩
    split <;> exact ⟨rfl, rfl, rfl, fun h => h⟩
  · intro r' hr'
    rw [hrows] at hr'
    obtain ⟨r, hr, rfl⟩ := List.mem_map.mp hr'
    refine ⟨r, hr, ?_⟩
    split <;> rfl

/-- The identifier that `sync_active_jwt_public_key` goes on with: of a record with the
components, or its own and of no record. -/
def Target (i : Nat) (id : Uuid) (modulus exponent : String) (s : World) : Prop :=
  (∃ r ∈ s.keys, r.id = id ∧ r.modulus = modulus ∧ r.exponent = exponent) ∨
    (i, id) ∈ s.issued ∧ NoKey id s

theorem Target.mono {id : Uuid} {modulus exponent : String} {s s' : World}
    (h : Target i id modulus exponent s) (hr : (keyRules x calls i).rely s s') :
    Target i id modulus exponent s' := by
  rcases h with ⟨r, hr', hid, hm, he⟩ | ⟨hissued, hno⟩
  · obtain ⟨r', hmem, hid', hm', he', -⟩ := hr.1 r hr'
    exact .inl ⟨r', hmem, hid'.trans hid, hm'.trans hm, he'.trans he⟩
  · exact .inr ⟨hr.2.1 hissued, hr.2.2 id hissued hno⟩

/-- A record under the target identifier has the components. -/
theorem Target.components {id : Uuid} {modulus exponent : String} {s : World}
    (h : Target i id modulus exponent s) {r : JwtPublicKeyRecord} (hr : r ∈ s.keys)
    (hid : r.id = id) : r.modulus = modulus ∧ r.exponent = exponent := by
  rcases h with ⟨r', hr', hid', hm, he⟩ | ⟨-, hno⟩
  · rw [Db.key_eq hr hr' (hid.trans hid'.symm)]
    exact ⟨hm, he⟩
  · exact absurd hid (hno r hr)

/-- An update that keeps the keys and adds none keeps the promise, and stays within the rely. -/
theorem keyRules_update {w : Write} {s s' : World} {r : Res (.write w)}
    (hs : (keyRules x calls i).step (.write w) s r s')
    (hw : layout.apply w s.db = some s'.db →
      KeysKept s s' ∧ ∀ r' ∈ s'.keys, ∃ r ∈ s.keys, r.id = r'.id) :
    (keyRules x calls i).guar (.write w) s r s' ∧ (keyRules x calls i).rely s s' := by
  obtain ⟨⟨a, ha⟩, -⟩ := hs
  have hissued := issued_subset ha
  have hkept : KeysKept s s' ∧ ∀ r' ∈ s'.keys, ∃ r ∈ s.keys, r.id = r'.id := by
    rcases exec_write ha with ⟨e, -, rfl⟩ | ⟨-, db, hdb, rfl⟩
    · exact ⟨.refl _, fun r' hr' => ⟨r', hr', rfl⟩⟩
    · exact hw hdb
  refine ⟨⟨hkept.1, fun r' hr' => .inl (hkept.2 r' hr')⟩, hkept.1, hissued, ?_⟩
  intro u _ hno r' hr' hid
  obtain ⟨r, hr, hid'⟩ := hkept.2 r' hr'
  exact hno r hr (hid'.trans hid)

theorem keyRules_insert {r₀ : JwtPublicKeyRecord} {s s' : World} {r : Except DbError Unit}
    (hs : (keyRules x calls i).step (.write (.insert .jwtPublicKeys r₀)) s r s')
    (ht : Target i r₀.id r₀.modulus r₀.exponent s) :
    (keyRules x calls i).guar (.write (.insert .jwtPublicKeys r₀)) s r s' := by
  obtain ⟨⟨a, ha⟩, -⟩ := hs
  rcases exec_write ha with ⟨e, -, rfl⟩ | ⟨-, db, hdb, rfl⟩
  · exact ⟨.refl _, fun r' hr' => .inl ⟨r', hr', rfl⟩⟩
  · have hrows := Layout.apply_insert hdb
    constructor
    · intro r hr
      refine ⟨r, ?_, rfl, rfl, rfl, fun h => h⟩
      show r ∈ db.rows .jwtPublicKeys
      rw [hrows]
      exact List.mem_append_left _ hr
    · intro r' hr'
      have hr' : r' ∈ db.rows .jwtPublicKeys := hr'
      rw [hrows] at hr'
      rcases List.mem_append.mp hr' with hold | hnew
      · exact .inl ⟨r', hold, rfl⟩
      · obtain rfl := List.mem_singleton.mp hnew
        rcases ht with ⟨r, hr, hid, -⟩ | ⟨hissued, -⟩
        · exact .inl ⟨r, hr, hid⟩
        · exact .inr hissued

theorem ends_of_spares {y : Service β} (hy : Flow.All Op.SparesKeys y fun _ => True) :
    Ends (keyRules x calls i) y (fun _ _ => True) s := by
  rw [← bind_pure y]
  exact ends_spares hy fun _ _ _ => ends_pure fun _ _ => trivial

/-- The record found, or a fresh identifier. -/
theorem ends_target {key : String × String} {f : Uuid → Service β}
    (h : ∀ id s', (keyRules x calls i).rely s s' → Target i id key.1 key.2 s' →
      Ends (keyRules x calls i) (f id) ok s') :
    Ends (keyRules x calls i) (unwrapOrElse nowV7 (((layout.select s.db .jwtPublicKeys .all).find?
      fun record : JwtPublicKeyRecord => record.modulus = key.1 && record.exponent = key.2).map
        (·.id)) >>= f) ok s := by
  cases hfind : (layout.select s.db .jwtPublicKeys .all).find?
      fun record : JwtPublicKeyRecord => record.modulus = key.1 && record.exponent = key.2 with
  | some record =>
    have hsel : record ∈ layout.select s.db .jwtPublicKeys .all := List.mem_of_find?_eq_some hfind
    have hmem := (Layout.mem_select.mp hsel).1
    have hcomp := List.find?_some hfind
    simp only [Bool.and_eq_true, decide_eq_true_eq] at hcomp
    exact h record.id s ((keyRules x calls i).rely_refl s) (.inl ⟨record, hmem, rfl, hcomp⟩)
  | none =>
    refine ends_call fun s₁ h₁ u s₂ hs => ?_
    have hspares := keyRules_spares (by simp [Op.SparesKeys, Op.writes]) hs
    refine ⟨hspares.1, h u s₂ ((keyRules x calls i).rely_trans h₁ hspares.2) (.inr ?_)⟩
    obtain ⟨⟨a, ha⟩, -⟩ := hs
    obtain ⟨hfresh, rfl⟩ := exec_newUuid ha
    refine ⟨List.mem_cons_self, fun r hr hid => ?_⟩
    exact World.key_of_fresh hfresh (t := .jwtPublicKeys) hr (congrArg (fun u => some (Value.uuid u)) hid)

/-- Starting keeps every key. -/
theorem ends_bootstrapAdmin {config : Config} :
    Ends (keyRules x calls i) (bootstrapAdmin x config) (fun _ _ => True) s := by
  unfold bootstrapAdmin syncActiveJwtPublicKey
  simp only [bind_assoc]
  refine ends_orThrow fun key _ => ends_query tame_keyRules fun s₁ h₁ _ => ?_
  refine ends_target fun id s₂ h₂ ht₂ => ?_
  refine ends_update (fun s r s' _ hs => (keyRules_update hs keysKept_deactivate).1)
    fun s₃ s₄ h₃ hs₃ => ?_
  have ht₄ := (ht₂.mono h₃).mono (keyRules_update hs₃ keysKept_deactivate).2
  refine ends_first tame_keyRules fun s₅ h₅ => ?_
  have ht₅ := ht₄.mono h₅
  have hrest : Flow.All Op.SparesKeys (do
      let users ← query .users .all
      if users ≠ [] then
        return
      else
        let passwordHash ← hashPassword x config.bootstrapAdminPassword
        let id ← nowV7
        let _ ← create (t := .users) .handle ⟨id, config.bootstrapAdminEmail,
          config.bootstrapAdminName, Role.superAdmin.asStr, UserStatus.active.asStr, passwordHash⟩)
      fun _ => True := by
    simp [hashPassword, Executor.op, Op.SparesKeys, Op.writes, Write.table]
  split
  · refine ends_update (fun s r s' hk hs => (keyRules_update hs fun ha => ?_).1) fun s₆ s₇ _ _ =>
      ends_of_spares hrest
    exact keysKept_activate ha fun r hr hid => (ht₅.mono hk).components hr hid
  · simp only [bind_assoc, pure_bind]
    refine ends_spares (by simp [Op.SparesKeys, Op.writes]) fun createdAt s₆ h₆ => ?_
    exact ends_create (fun s r s' hk hs => keyRules_insert hs ((ht₅.mono h₆).mono hk))
      fun s₇ s₈ _ _ => ends_of_spares hrest

/-- A session that is returned comes with stored keys. -/
def ReplyHasKeys (x : Ext) (reply : AuthReply) (w : World) : Prop :=
  ∀ output, reply = .session output → SessionHasKeys x output w

theorem ends_session {y : Service LoginOutput}
    (h : Ends (keyRules x calls i) y (SessionHasKeys x) s) :
    Ends (keyRules x calls i) (AuthReply.session <$> y) (ReplyHasKeys x) s := by
  refine ends_map (Flow.Safe.mono h (fun output s₁ hout s₂ h₁₂ output' he => ?_) fun _ _ h => h)
  cases he
  exact hout.mono h₁₂.1

theorem ends_other {α : Type} {y : Service α} {g : α → AuthReply}
    (hg : ∀ a output, g a ≠ .session output)
    (h : Ends (keyRules x calls i) y (fun _ _ => True) s) :
    Ends (keyRules x calls i) (g <$> y) (ReplyHasKeys x) s := by
  refine ends_map (Flow.Safe.mono h (fun a s₁ _ s₂ _ output he => ?_) fun _ _ h => h)
  exact absurd he (hg a output)

theorem ends_serve (hx : x.Lawful) {c : Call} (hc : calls[i]? = some c)
    (hvalid : ∃ now, c.config.validateJwtKeyConfig x now = .ok ()) :
    Ends (keyRules x calls i) (c.request.serve x c.config) (ReplyHasKeys x) s := by
  have hsigner : c.request.Signs → Signer x calls i c.config := fun h => ⟨⟨c, hc, h, rfl⟩, hvalid⟩
  generalize c.request = q at hsigner
  have hcovers : q.Covers x (q.serve x c.config) := q.covers_serve
  cases q with
  | bootstrapAdmin => exact ends_other (fun _ _ he => by cases he) ends_bootstrapAdmin
  | login input => exact ends_session (ends_login hx (hsigner trivial) input)
  | acceptInvite input => exact ends_session (ends_acceptInvite hx (hsigner trivial) input)
  | refreshSession input => exact ends_session (ends_refreshSession hx (hsigner trivial) input)
  | _ =>
    refine ends_other (fun _ _ he => by cases he) (ends_of_spares ?_)
    exact (Flow.all_map.mp (spares_of_covers (by nofun) hcovers)).mono (fun _ h => h)
      fun _ _ => trivial

end rules

/-! ## Agreement -/

variable {calls : List Call} {w : World} {P' : AuthPool} {es : List (Event Res World)}

/-- The event reads the active key for a request that signs under it, at the instance with the
given configuration. -/
def SigningRead (calls : List Call) (e : Event Res World) (config : Config) : Prop :=
  e.op = .select .jwtPublicKeys .all ∧
    ∃ c, calls[e.tid]? = some c ∧ c.request.Signs ∧ c.config = config

/-- A promised step of one thread is what the others rely on. -/
theorem keyRules_compatible {i j : Nat} (hij : j ≠ i) {o : Op} {s s' : World} {r : Res o}
    (hs : (keyRules x calls i).step o s r s') (hg : (keyRules x calls i).guar o s r s') :
    (keyRules x calls j).rely s s' := by
  obtain ⟨⟨a, ha⟩, -⟩ := hs
  refine ⟨hg.1, issued_subset ha, fun u hu hno r' hr' hid => ?_⟩
  rcases hg.2 r' hr' with ⟨r, hr, hid'⟩ | hissued
  · exact hno r hr (hid'.trans hid)
  · -- an identifier belongs to one thread
    rw [hid] at hissued
    have heq := List.inj_on_of_nodup_map s.distinct hu hissued rfl
    exact hij (congrArg Prod.fst heq)

/-- If every read of the active key by a request that signs finds the key of its own instance,
every session comes with stored keys. -/
theorem sessionHasKeys_of_runs (hx : x.Lawful)
    (hvalid : ∀ c ∈ calls, ∃ now, c.config.validateJwtKeyConfig x now = .ok ())
    (hr : Runs exec (AuthPool.of x calls w) es P')
    (hcond : ∀ e ∈ es, ∀ config, SigningRead calls e config → MatchesActiveKey x config e.pre)
    {i : Nat} {output : LoginOutput}
    (hend : P'.threads[i]? = some (.ret (.ok (.session output)))) :
    SessionHasKeys x output P'.state := by
  have hsafe : (AuthPool.of x calls w).AllSafe (keyRules x calls)
      (fun _ r s => ∀ reply, r = .ok reply → ReplyHasKeys x reply s) := by
    intro j p hp
    simp only [AuthPool.of, List.getElem?_map, Option.map_eq_some_iff] at hp
    obtain ⟨c, hc, rfl⟩ := hp
    refine Prog.Safe.mono (ends_serve hx hc (hvalid c (List.mem_of_getElem? hc))) fun r s hrs => ?_
    rintro reply rfl
    exact hrs
  have hall := hr.safe (I := fun _ => True) trivial hsafe
    (fun e he _ => ⟨hr.handled e he, fun hop c hc hsigns =>
      hcond e he c.config ⟨hop, c, hc, hsigns, rfl⟩⟩)
    (fun j o s r s' _ hs hg => ⟨trivial, fun k hk => keyRules_compatible hk hs hg⟩)
  exact hall.2.2 i _ hend P'.state ((keyRules x calls i).rely_refl _) _ rfl output rfl

/-- **When signing agrees.** Whatever instances start and whatever requests run, in any order: if
every read of the active key by a request that signs finds the key of its own instance, then every
token returned in a session is verifiable. -/
theorem tokens_verifiable (hx : x.Lawful)
    (hvalid : ∀ c ∈ calls, ∃ now, c.config.validateJwtKeyConfig x now = .ok ())
    (hr : Runs exec (AuthPool.of x calls w) es P')
    (hcond : ∀ e ∈ es, ∀ config, SigningRead calls e config → MatchesActiveKey x config e.pre)
    {i : Nat} {output : LoginOutput}
    (hend : P'.threads[i]? = some (.ret (.ok (.session output)))) :
    verifiable x P'.state output.token = true ∧
      verifiable x P'.state output.refreshToken = true := by
  have hkeys := sessionHasKeys_of_runs hx hvalid hr hcond hend
  exact ⟨hkeys.1.verifiable hx, hkeys.2.verifiable hx⟩

/-! ## A rolling rotation -/

namespace Symbolic

/-- The record of the key of instance `A`. -/
def keyOfA : JwtPublicKeyRecord :=
  ⟨5, "RSA", "sig", "RS256", urlSafe (bytes "A"), "AQAB", true, seconds 0⟩

/-- An active user, and the key of instance `A`. -/
def oneKey : World := .start {
  rows := fun
    | .users => [⟨2, "bob@wara.local", "Bob", "viewer", "active", "$argon2id$password"⟩]
    | .jwtPublicKeys => [keyOfA]
    | _ => []
  unique := fun t => by cases t <;> decide }

def loginAt (key : String) : Call := ⟨config key, .login ⟨"bob@wara.local", "password"⟩⟩

/-- `login`, with the identifiers it generates. -/
def loginSteps (i : Nat) (refreshId tokenId : Uuid) : List (Nat × Ans) :=
  let noon : Ans := .time ⟨10000000000⟩
  [(i, .done), (i, .done), (i, .uuid refreshId), (i, noon), (i, .done), (i, .done), (i, noon),
    (i, .uuid tokenId), (i, .done)]

/-- Instance `B` starts with a key pair of its own, and `A` serves a login. -/
def rolled : AuthPool := AuthPool.of ext [⟨config "B", .bootstrapAdmin⟩, loginAt "A"] oneKey

def roll : List (Nat × Ans) :=
  [(0, .done), (0, .uuid 20), (0, .done), (0, .done), (0, .time ⟨10000000000⟩), (0, .done),
    (0, .done)] ++ loginSteps 1 21 22

theorem valid_config : (∃ now, (config "A").validateJwtKeyConfig ext now = .ok ()) ∧
    ∃ now, (config "B").validateJwtKeyConfig ext now = .ok () :=
  ⟨⟨0, by decide +kernel⟩, ⟨0, by decide +kernel⟩⟩

theorem rolled_unverifiable : ((rolled.run exec roll).bind fun P' : AuthPool =>
    (AuthPool.sessionOf P' 1).map fun output => verifiable ext P'.state output.refreshToken) =
      some false := by decide +kernel

theorem tokens_unverifiable : ¬ ∀ (x : Ext) (calls : List Call) (w : World) (P' : AuthPool)
    (es : List (Event Res World)), x.Lawful →
    (∀ c ∈ calls, ∃ now, c.config.validateJwtKeyConfig x now = .ok ()) →
    Runs exec (AuthPool.of x calls w) es P' →
    ∀ (i : Nat) (output : LoginOutput),
      P'.threads[i]? = some (.ret (.ok (.session output))) →
      verifiable x P'.state output.token = true ∧
        verifiable x P'.state output.refreshToken = true := by
  intro hclaim
  obtain ⟨P', hrun, hmap⟩ := Option.bind_eq_some_iff.mp rolled_unverifiable
  obtain ⟨output, hout, hfalse⟩ := Option.map_eq_some_iff.mp hmap
  have hvalid : ∀ c ∈ ([⟨config "B", .bootstrapAdmin⟩, loginAt "A"] : List Call),
      ∃ now, c.config.validateJwtKeyConfig ext now = .ok () := by
    intro c hc
    rcases List.mem_cons.mp hc with rfl | hc
    · exact valid_config.2
    · obtain rfl := List.mem_singleton.mp hc
      exact valid_config.1
  have hboth := hclaim ext _ oneKey P' _ ext_lawful hvalid (Pool.run_runs hrun) 1 output
    (AuthPool.ended_of_sessionOf hout)
  rw [hboth.2] at hfalse
  cases hfalse

/-- Two logins at one instance. -/
def agreed : AuthPool := AuthPool.of ext [loginAt "A", loginAt "A"] oneKey

/-- The second is served between the checks of the first and its signatures. -/
def agreement : List (Nat × Ans) :=
  (loginSteps 0 21 22).take 4 ++ loginSteps 1 23 24 ++ (loginSteps 0 21 22).drop 4

theorem agreed_session : ((agreed.run exec agreement).map fun P' : AuthPool =>
    (AuthPool.sessionOf P' 0).isSome) = some true := by decide +kernel

/-- With one key pair a login reads its own key, and returns verifiable tokens. -/
theorem tokens_verifiable_agreed : ∃ P' output,
    Runs exec agreed (agreed.trace exec agreement) P' ∧
      P'.threads[0]? = some (.ret (.ok (.session output))) ∧
      verifiable ext P'.state output.token = true := by
  obtain ⟨P', hrun, hsome⟩ := Option.map_eq_some_iff.mp agreed_session
  obtain ⟨output, hout⟩ := Option.isSome_iff_exists.mp hsome
  have hr := Pool.run_runs hrun
  have hend := AuthPool.ended_of_sessionOf hout
  have hcalls : ∀ c ∈ [loginAt "A", loginAt "A"], c = loginAt "A" := by simp
  have hvalid : ∀ c ∈ [loginAt "A", loginAt "A"],
      ∃ now, c.config.validateJwtKeyConfig ext now = .ok () := by
    intro c hc
    rw [hcalls c hc]
    exact valid_config.1
  have hactive : ∀ e ∈ agreed.trace exec agreement,
      latestActive e.pre.keys = some keyOfA := by decide +kernel
  refine ⟨P', output, hr, hend, (tokens_verifiable ext_lawful hvalid hr ?_ hend).1⟩
  rintro e he config ⟨-, c, hc, -, rfl⟩ r hactive'
  obtain rfl := hcalls c (List.mem_of_getElem? hc)
  cases (hactive e he).symm.trans hactive'
  rfl

end Symbolic

end Wara
