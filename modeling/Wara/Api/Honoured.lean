import Wara.Api.AtOnce
import Wara.Api.Coherence
import Wara.Auth.Credentials

/-!
# API tokens are honoured

A request that presents an API token gets its owner, as long as the token is not
revoked and its owner is active: from any instance, with any requests of others
in between. Nothing but a failure of the database keeps it from that.
-/

namespace Wara

open Interleave Store Service AuthService

/-- The API token is stored for the owner and not revoked, and the owner is active. -/
structure Standing (x : Ext) (token : String) (owner : Uuid) (db : Db) : Prop where
  token : ∃ r ∈ (db.rows .userApiTokens : List UserApiTokenRecord),
    r.tokenHash = hashApiToken x token ∧ r.userId = owner ∧ r.revokedAt = none
  owner : ∃ u ∈ (db.rows .users : List UserRecord),
    u.id = owner ∧ u.status = UserStatus.active.asStr

/-- The extractor hands over the user with the identifier. -/
def Op.HandsOver (owner : Uuid) (o : Op) : Prop := ∃ user, o = .caller user ∧ user.id = owner

/-- What only a failure of the database, or of the platform itself, leads to. -/
def Abort.Internal (e : Abort) : Prop := ∃ message, e = .api (.internal message)

/-- The token goes on standing, and its owner is not handed over. -/
def honouring (x : Ext) (token : String) (owner : Uuid) : Rules Res World where
  rely s s' := Standing x token owner s.db → Standing x token owner s'.db
  rely_refl _ h := h
  rely_trans h h' hs := h' (h hs)
  step o s r s' := (∃ i a, exec i o a s = some (r, s')) ∧
    (Standing x token owner s.db → Standing x token owner s'.db) ∧ ¬ o.HandsOver owner
  guar _ _ _ _ := True

section honouring

variable {x : Ext} {config : Config} {token : String} {owner : Uuid} {α β : Type} {t : Table}
  {s : World}

/-- The call fails internally, or ends with a value in `ok`. -/
abbrev Serves (x : Ext) (token : String) (owner : Uuid) (ok : α → Prop) (y : Service α)
    (s : World) : Prop :=
  Flow.Safe (honouring x token owner) y (fun a _ => ok a) (fun e _ => e.Internal) s

variable {ok : β → Prop}

theorem serves_pure {b : β} (h : ok b) : Serves x token owner ok (pure b) s := fun _ _ => h

theorem serves_mapErr {r : Except DbError α} {f : α → Service β}
    (h : ∀ a, r = .ok a → Serves x token owner ok (f a) s) :
    Serves x token owner ok (mapErr mapToastyError r >>= f) s := by
  cases r with
  | error e => exact fun _ _ => ⟨_, rfl⟩
  | ok a => exact h a rfl

theorem serves_throwIf {c : Prop} [Decidable c] {e : ApiError} {f : Unit → Service β} (hc : ¬ c)
    (h : Serves x token owner ok (f ()) s) : Serves x token owner ok (throwIf c e >>= f) s := by
  unfold throwIf
  rw [if_neg hc]
  exact h

/-- What is looked up is there. -/
theorem serves_okOr {e : ApiError} {o : Option α} {a : α} {f : α → Service β} (ho : o = some a)
    (h : Serves x token owner ok (f a) s) : Serves x token owner ok (okOr e o >>= f) s := by
  subst ho
  exact h

theorem serves_call (hs : Standing x token owner s.db) {o : Op} {f : Res o → Service β}
    (h : ∀ s₁ i a r s₂, Standing x token owner s₁.db → Standing x token owner s₂.db →
      ¬ o.HandsOver owner → exec i o a s₁ = some (r, s₂) → Serves x token owner ok (f r) s₂) :
    Serves x token owner ok (Flow.call o >>= f) s := by
  refine Flow.safe_bind.mpr (Flow.safe_call.mpr fun s₁ h₁ r s₂ hstep => ⟨trivial, fun s₃ h₃ => ?_⟩)
  obtain ⟨⟨i, a, ha⟩, hkeep, hno⟩ := hstep
  exact (h s₁ i a r s₂ (h₁ hs) (hkeep (h₁ hs)) hno ha).stable h₃

theorem serves_query (hs : Standing x token owner s.db) {flt : Filter}
    {f : List (Row t) → Service β}
    (h : ∀ s', Standing x token owner s'.db →
      Serves x token owner ok (f (layout.select s'.db t flt)) s') :
    Serves x token owner ok (query t flt >>= f) s := by
  unfold query
  rw [bind_assoc]
  refine serves_call hs fun s₁ i a r s₂ _ hs₂ _ ha => ?_
  obtain ⟨rfl, ⟨e, rfl⟩ | rfl⟩ := exec_select ha
  · exact serves_mapErr fun _ he => by cases he
  · exact serves_mapErr fun _ he => by cases he; exact h s₂ hs₂

theorem serves_first (hs : Standing x token owner s.db) {flt : Filter}
    {f : Option (Row t) → Service β}
    (h : ∀ s', Standing x token owner s'.db →
      Serves x token owner ok (f (layout.select s'.db t flt).head?) s') :
    Serves x token owner ok (first t flt >>= f) s := by
  unfold first
  rw [bind_assoc]
  refine serves_query hs fun s' hs' => ?_
  rw [pure_bind]
  exact h s' hs'

theorem serves_update (hs : Standing x token owner s.db) {flt : Filter}
    {sets : List (Nat × Value)} {f : Unit → Service β}
    (h : ∀ s', Standing x token owner s'.db → Serves x token owner ok (f ()) s') :
    Serves x token owner ok (update t flt sets >>= f) s := by
  unfold update
  rw [bind_assoc]
  exact serves_call hs fun s₁ i a r s₂ _ hs₂ _ _ => serves_mapErr fun _ _ => h s₂ hs₂

/-! ## The extractor -/

/-- A text without dots is no access token, whatever is stored. -/
theorem attempt_verifyAccessToken (hx : x.Lawful) (h : '.' ∉ token.toList) :
    attempt (verifyAccessToken x config token) = pure (.error .unauthorized) := by
  have hheader : x.decodeHeader token = none := by
    cases hd : x.decodeHeader token with
    | none => rfl
    | some header => exact absurd (hx.decodeHeader_dot hd) h
  unfold verifyAccessToken decodingKeyForToken
  rw [hheader]
  rfl

theorem serves_userFromRecord (hs : Standing x token owner s.db) (record : UserRecord) :
    Serves x token owner (fun user => user.id = record.id) (userFromRecord record) s := by
  unfold userFromRecord
  by_cases h : (User.from record).role = .superAdmin
  · rw [if_pos h]
    exact serves_pure rfl
  · rw [if_neg h]
    exact serves_query hs fun s' _ => serves_pure rfl

theorem serves_authenticateApiToken (hs : Standing x token owner s.db)
    (hwara : Rust.startsWith token "wara_" = true) :
    Serves x token owner (fun user => user.id = owner) (authenticateApiToken x token) s := by
  unfold authenticateApiToken
  refine serves_throwIf (not_not_intro hwara) (serves_first hs fun s₁ hs₁ => ?_)
  obtain ⟨r, hr, hhash, howner, hlive⟩ := hs₁.token
  have hfound : (layout.select s₁.db .userApiTokens
      (.eq 3 (.text (hashApiToken x token)))).head? = some r :=
    Layout.head?_select (c := 3) (by decide) hr (congrArg (fun h => some (Value.text h)) hhash)
  refine serves_okOr hfound (serves_throwIf (by rw [hlive]; decide) ?_)
  unfold getUserRecord
  rw [bind_assoc]
  refine serves_first hs₁ fun s₂ hs₂ => ?_
  obtain ⟨u, hu, hid, hactive⟩ := hs₂.owner
  have hknown : (layout.select s₂.db .users (byId r.userId)).head? = some u :=
    Layout.head?_select (c := 0) (by decide) hu
      (congrArg (fun id => some (Value.uuid id)) (hid.trans howner.symm))
  refine serves_okOr hknown (serves_throwIf (not_not_intro hactive) ?_)
  refine serves_call hs₂ fun s₃ i a now s₄ _ hs₄ _ _ => serves_update hs₄ fun s₅ hs₅ => ?_
  exact (serves_userFromRecord hs₅ u).mono (fun user _ huser => huser.trans hid) fun _ _ h => h

theorem serves_currentUser (hx : x.Lawful) (hs : Standing x token owner s.db)
    (hshape : HasShape x .apiToken token) : Serves x token owner (fun user => user.id = owner)
      (currentUser x config (some ("Bearer " ++ token))) s := by
  have hdots : '.' ∉ token.toList := by
    cases hshape with
    | apiToken raw => exact dot_notMem_apiToken hx raw
  have hwara : Rust.startsWith token "wara_" = true := by
    cases hshape with
    | apiToken raw =>
      rw [Rust.startsWith, String.toList_append, List.isPrefixOf_iff_prefix]
      exact List.prefix_append _ _
  unfold currentUser
  refine serves_okOr (by rw [Option.bind_some, Rust.stripPrefix_append]) ?_
  unfold authenticateBearer
  rw [attempt_verifyAccessToken hx hdots, pure_bind]
  exact serves_authenticateApiToken hs hwara

/-- A request with the token fails internally, or hands over the owner. -/
theorem serves_request (hx : x.Lawful) (hs : Standing x token owner s.db)
    (hshape : HasShape x .apiToken token) (route : UserRoute) :
    Serves x token owner (fun _ => False)
      ((Task.job (.request (.user (some ("Bearer " ++ token)) route))).serve x config) s := by
  show Serves x token owner _ (some <$> (extractUser x config _ >>= _)) s
  rw [← bind_pure_comp, bind_assoc]
  unfold extractUser
  rw [bind_assoc]
  refine Flow.Safe.bind (serves_currentUser hx hs hshape) fun user s' huser => ?_
  rw [bind_assoc]
  refine Flow.safe_bind.mpr (Flow.safe_call.mpr fun s₁ _ r s₂ hstep => ?_)
  exact absurd ⟨user, rfl, huser⟩ hstep.2.2

end honouring

/-! ## Making a token -/

/-- The token is of the kind of API tokens, and stored under the identifier for the owner. -/
def TokenMade (x : Ext) (token : String) (id owner : Uuid) (db : Db) : Prop :=
  HasShape x .apiToken token ∧ ∃ r ∈ (db.rows .userApiTokens : List UserApiTokenRecord),
    r.id = id ∧ r.tokenHash = hashApiToken x token ∧ r.userId = owner

section made

variable {x : Ext} {config : Config} {token : String} {id owner : Uuid} {user : User} {i : Nat}
  {s : World}

theorem TokenMade.mono {db db' : Db} (h : TokenMade x token id owner db) (hk : db.Keeps db') :
    TokenMade x token id owner db' := by
  obtain ⟨hshape, r, hr, hid, hhash, howner⟩ := h
  obtain ⟨r', hr', hc⟩ := hk .userApiTokens r hr
  exact ⟨hshape, r', hr', (uuid_of_col (hc 0 (by decide))).trans hid,
    (text_of_col (hc 3 (by decide))).trans hhash, (uuid_of_col (hc 1 (by decide))).trans howner⟩

theorem ends_tokenMade (name : String) :
    Ends (sparing (fun _ => False) i) (createApiToken x ⟨user, name⟩)
      (fun output s' => TokenMade x output.token output.apiToken.id user.id s'.db) s := by
  have hc : Calm (sparing (fun _ => False) i) := calm_sparing
  unfold createApiToken generateApiToken
  rw [bind_assoc]
  refine ends_any hc fun raw s₁ _ => ?_
  rw [pure_bind]
  refine ends_any hc fun time s₂ _ => ends_any hc fun id s₃ _ => ?_
  refine ends_create (fun _ _ _ _ _ => trivial) fun s₄ s₅ _ hstep => ends_pure fun s₆ hk => ?_
  obtain ⟨a, ha⟩ := hstep.1
  have happ := applyAll_single (exec_succeeded ha rfl)
  refine TokenMade.mono ⟨.apiToken raw, _, ?_, rfl, rfl, rfl⟩ hk
  rw [Layout.apply_insert happ]
  exact List.mem_append_right _ (List.mem_singleton_self _)

/-- The handler of `create_api_token`, once its user is known. -/
theorem ends_tokenReply (payload : CreateApiTokenRequest) :
    Ends (sparing (fun _ => False) i) ((Activity.handler user (.createApiToken payload)).serve x config)
      (fun reply s' => ∀ token info, reply = some (.apiTokenCreated token info) →
        TokenMade x token info.id user.id s'.db) s := by
  show Ends _ (some <$> validated payload.valid _) _ _
  unfold validated
  split
  · refine ends_map ?_
    refine Flow.Safe.bind (ends_tokenMade payload.name) fun output s' h => ?_
    refine ends_pure fun s₁ h₁ s₂ h₂ token info he => ?_
    cases he
    exact h.mono (h₁.trans h₂)
  · refine ends_map (ends_pure fun s₁ h₁ s₂ h₂ token info he => ?_)
    cases he

end made

/-! ## Runs -/

/-- The token with the identifier is not revoked, and the owner is active. -/
def InForce (id owner : Uuid) (db : Db) : Prop :=
  (∀ r ∈ (db.rows .userApiTokens : List UserApiTokenRecord), r.id = id → r.revokedAt = none) ∧
    ∃ u ∈ (db.rows .users : List UserRecord), u.id = owner ∧ u.status = UserStatus.active.asStr

instance (id owner : Uuid) (db : Db) : Decidable (InForce id owner db) :=
  inferInstanceAs (Decidable (_ ∧ _))

theorem standing_of_inForce {x : Ext} {token : String} {id owner : Uuid} {db : Db}
    (hmade : TokenMade x token id owner db) (h : InForce id owner db) :
    Standing x token owner db := by
  obtain ⟨-, r, hr, hid, hhash, howner⟩ := hmade
  exact ⟨⟨r, hr, hhash, howner, h.1 r hr hid⟩, h.2⟩

section runs

variable {x : Ext} {tasks : List (Config × Task)} {w : World} {P₁ P' : JobPool}
  {es₁ es₂ : List (Event Res World)} {i j : Nat} {config : Config} {token : String}
  {info : ApiTokenResponse}

theorem thread_request {authorization : Option String} {route : UserRoute}
    (hi : tasks[i]? = some (config, .job (.request (.user authorization route)))) :
    (TaskPool.of x tasks w).threads[i]? = some (Prog.bind (extractUser x config authorization)
      (Flow.next fun user => (Activity.handler user route).serve x config)) := by
  rw [← serve_request]
  exact TaskPool.thread_of hi

/-- Once a token is in a reply, it is stored for the user that was handed over. -/
theorem tokenMade_of_runs (hr : Runs exec (TaskPool.of x tasks w) es₁ P₁)
    {authorization : Option String} {payload : CreateApiTokenRequest}
    (hi : tasks[i]? = some (config, .job (.request (.user authorization (.createApiToken payload)))))
    (hend : P₁.threads[i]? = some (.ret (.ok (some (.apiTokenCreated token info))))) :
    ∃ owner, (∃ e ∈ es₁, e.tid = i ∧ e.op.HandsOver owner) ∧
      TokenMade x token info.id owner P₁.state.db := by
  have hkeeps := keeps_of_runs hr
  have hhandled := hr.handled
  obtain ⟨es, es', P, b, rfl, hfollows, hb, -, hr'⟩ := hr.split_bind (thread_request hi) hend
  cases b with
  | error e =>
    rw [hr'.ret_stays hb] at hend
    cases hend
  | ok user =>
    obtain ⟨e, he, htid, hcaller⟩ := caller_of_follows hfollows
    refine ⟨user.id, ⟨e, List.mem_append_left _ he, htid, user, hcaller, rfl⟩, ?_⟩
    refine hr'.ended_in (c := sparing (fun _ => False) i) hb (ends_tokenReply payload)
      (fun e he _ => hkeeps e (List.mem_append_right _ he)) (fun e he htid => ?_) hend token info rfl
    obtain ⟨a, ha⟩ := hhandled e (List.mem_append_right _ he)
    exact ⟨⟨a, htid ▸ ha⟩, hkeeps e (List.mem_append_right _ he), not_false⟩

/-- **API tokens are honoured.** A request has replied with a new API token. A request that presents
it later, to any instance and among any tasks in any order of their statements, is taken for the
user who made the token: so long as, until then, the token is not revoked and that user is active,
it does not end before, but when something fails internally. -/
theorem api_tokens_honoured (hx : x.Lawful) (hr₁ : Runs exec (TaskPool.of x tasks w) es₁ P₁)
    (hr₂ : Runs exec P₁ es₂ P') {authorization : Option String} {payload : CreateApiTokenRequest}
    (hi : tasks[i]? = some (config, .job (.request (.user authorization (.createApiToken payload)))))
    (hmade : P₁.threads[i]? = some (.ret (.ok (some (.apiTokenCreated token info)))))
    {config' : Config} {route : UserRoute}
    (hj : tasks[j]? = some (config', .job (.request (.user (some ("Bearer " ++ token)) route))))
    (hstart : ∀ e ∈ es₁, e.tid ≠ j) :
    ∃ owner, (∃ e ∈ es₁, e.tid = i ∧ e.op.HandsOver owner) ∧
      (InForce info.id owner P₁.state.db →
        (∀ es e es', es₂ = es ++ e :: es' → (∀ e' ∈ es, ¬ (e'.tid = j ∧ e'.op.HandsOver owner)) →
          InForce info.id owner e.post.db) →
        ∀ a, P'.threads[j]? = some (.ret a) →
          (∃ e ∈ es₂, e.tid = j ∧ e.op.HandsOver owner) ∨ ∃ e, a = .error e ∧ e.Internal) := by
  obtain ⟨owner, hcaller, htoken⟩ := tokenMade_of_runs hr₁ hi hmade
  refine ⟨owner, hcaller, fun hnow hforce a hend => ?_⟩
  by_contra hnot
  obtain ⟨hno, hexternal⟩ := not_or.mp hnot
  have hall : ∀ e ∈ es₂, InForce info.id owner e.post.db := by
    intro e he
    obtain ⟨es, es', rfl⟩ := List.append_of_mem he
    exact hforce es e es' rfl fun e' he' hover =>
      hno ⟨e', List.mem_append_left _ he', hover⟩
  have hkeeps : ∀ e ∈ es₂, e.pre.Keeps e.post := fun e he =>
    keeps_of_runs (hr₁.append hr₂) e (List.mem_append_right _ he)
  have hstored := hr₂.keeps (I := fun s => TokenMade x token info.id owner s.db) htoken
    fun e he h => h.mono (hkeeps e he)
  have hstands : ∀ e ∈ es₂, Standing x token owner e.pre.db → Standing x token owner e.post.db :=
    fun e he _ => standing_of_inForce (hstored.1 e he).2 (hall e he)
  have hthread : P₁.threads[j]? = some
      ((Task.job (.request (.user (some ("Bearer " ++ token)) route))).serve x config') := by
    rw [hr₁.thread_eq hstart]
    exact TaskPool.thread_of hj
  have hneed : Serves x token owner (fun _ => False)
      ((Task.job (.request (.user (some ("Bearer " ++ token)) route))).serve x config') P₁.state :=
    serves_request hx (standing_of_inForce htoken hnow) htoken.1 route
  have hsafe : Prog.Safe (honouring x token owner)
      ((Task.job (.request (.user (some ("Bearer " ++ token)) route))).serve x config')
      (fun a _ => ¬ ¬ ∃ e, a = .error e ∧ e.Internal) P₁.state := by
    refine Prog.Safe.mono hneed fun r s hr => ?_
    cases r with
    | ok reply => exact hr.elim
    | error e => exact not_not_intro ⟨e, rfl, hr⟩
  have hstep : ∀ e ∈ es₂, e.tid = j → ¬ e.op.HandsOver owner →
      (honouring x token owner).step e.op e.pre e.res e.post :=
    fun e he _ hf => ⟨⟨e.tid, hr₂.handled e he⟩, hstands e he, hf⟩
  exact hno (hr₂.fired hthread hstands hstep hsafe hend hexternal)

end runs

namespace Symbolic

/-- Bob makes an API token, and asks who he is with it. -/
def makeAndUse : List (Config × Task) :=
  [(config "A", .job (.request (.user (some "Bearer wara_t") (.createApiToken ⟨"ci"⟩)))),
    (config "B", .job (.request (.user
      (some ("Bearer " ++ "wara_AAAAAAAAAAAAAAAAAAAAAAAAAAAAAAAAAAAAAAAAAAA")) .me)))]

def makeAndUsePool : JobPool := TaskPool.of ext makeAndUse (.start manager)

def makeSteps : List (Nat × Ans) :=
  [(0, .done), (0, .done), (0, .time ⟨10000000000⟩), (0, .done), (0, .done), (0, .done),
    (0, .bytes (List.replicate 32 0)), (0, .time ⟨10000000000⟩), (0, .uuid 11), (0, .done)]

def useSteps : List (Nat × Ans) :=
  [(1, .done), (1, .done), (1, .time ⟨20000000000⟩), (1, .done), (1, .done), (1, .done)]

def madeToken : ApiTokenResponse :=
  ⟨11, "ci", "wara_AAAAAAA", "1970-01-01T00:00:10+00:00", none, none⟩

def callerId : Op → Option Uuid
  | .caller user => some user.id
  | _ => none

theorem makeAndUse_ends : (makeAndUsePool.run exec makeSteps).bind (fun P₁ : JobPool =>
    (P₁.run exec useSteps).map fun P' : JobPool =>
      (P₁.threads.map replied, P'.threads.map replied, decide (InForce 11 2 P₁.state.db),
        (P₁.trace exec useSteps).all fun e => decide (InForce 11 2 e.post.db))) =
      some ([some (some (.apiTokenCreated "wara_AAAAAAAAAAAAAAAAAAAAAAAAAAAAAAAAAAAAAAAAAAA"
          madeToken)), none],
        [some (some (.apiTokenCreated "wara_AAAAAAAAAAAAAAAAAAAAAAAAAAAAAAAAAAAAAAAAAAA"
          madeToken)),
          some (some (.user ⟨2, "bob@wara.local", "Bob", .viewer, .active, [⟨9, .admin⟩]⟩))],
        true, true) ∧
    (makeAndUsePool.trace exec makeSteps).all (fun e =>
      decide (e.tid ≠ 1) && (callerId e.op).all (· = 2)) = true := by
  decide +kernel

theorem api_tokens_honoured_me : ∃ (P₁ P' : JobPool) (es₁ es₂ : List (Event Res World)),
    Runs exec makeAndUsePool es₁ P₁ ∧ Runs exec P₁ es₂ P' ∧
      ∃ e ∈ es₂, e.tid = 1 ∧ e.op.HandsOver 2 := by
  obtain ⟨hends, hcallers⟩ := makeAndUse_ends
  obtain ⟨P₁, hrun₁, hends⟩ := Option.bind_eq_some_iff.mp hends
  obtain ⟨P', hrun₂, hends⟩ := Option.map_eq_some_iff.mp hends
  simp only [Prod.mk.injEq, decide_eq_true_eq, List.all_eq_true] at hends hcallers
  obtain ⟨hmade, hreplies, hnow, hforce⟩ := hends
  have hr₁ := Pool.run_runs hrun₁
  have hr₂ := Pool.run_runs hrun₂
  have hstart : ∀ e ∈ makeAndUsePool.trace exec makeSteps, e.tid ≠ 1 := fun e he =>
    of_decide_eq_true (Bool.and_eq_true_iff.mp (hcallers e he)).1
  obtain ⟨owner, ⟨e, he, -, user, hcaller, howner⟩, honoured⟩ := api_tokens_honoured ext_lawful hr₁
    hr₂ (i := 0) (j := 1) rfl (getElem?_of_replied hmade rfl) rfl hstart
  obtain rfl : owner = 2 := by
    have hid := (Bool.and_eq_true_iff.mp (hcallers e he)).2
    rw [hcaller] at hid
    exact howner.symm.trans (of_decide_eq_true hid)
  rcases honoured hnow (fun es e es' hes _ => hforce e (hes ▸ List.mem_append_right _
    List.mem_cons_self)) _ (getElem?_of_replied hreplies rfl) with hover | ⟨e, he, -⟩
  · exact ⟨P₁, P', _, _, hr₁, hr₂, hover⟩
  · cases he

end Symbolic

end Wara
