import Wara.Api.Coherence
import Wara.Api.Writes

/-!
# The note that a token was used

An API token is looked up by its hash, and then its row gets the time of its use.
So a request that presents a token changes the `last_used_at` of no other, and one
that presents none leaves them all alone.
-/

namespace Wara

open Interleave Store Service AuthService WorkspaceService AppServiceService DomainService
  DeploymentService WorkspaceTemplateService CredentialService ServerService

/-- The statement notes when an API token was used, and does nothing else. -/
def NotesUse : Write → Prop
  | .update .userApiTokens _ sets => ∀ p ∈ sets, p.1 = 7
  | _ => False

/-- The operation has changed what is stored, other than to note the use of a token. -/
def Op.Commits (o : Op) (r : Res o) : Prop :=
  o.succeeded r = true ∧ ∃ w ∈ o.writes, ¬ NotesUse w

/-- The row is as it was, or a token with one of these hashes has been used. -/
def UsedOnly (used : String → Prop) (r r' : UserApiTokenRecord) : Prop :=
  r' = r ∨ used r.tokenHash ∧ r' = { r with lastUsedAt := r'.lastUsedAt }

/-- The databases differ at most in when the tokens with these hashes were used. -/
structure SameButUse (used : String → Prop) (db db' : Db) : Prop where
  rows : ∀ t, t ≠ .userApiTokens → db'.rows t = db.rows t
  tokens : List.Forall₂ (UsedOnly used) (db.rows .userApiTokens : List UserApiTokenRecord)
    (db'.rows .userApiTokens)

/-- The hash is the one of the token that the request presents. -/
def ApiRequest.Presents (x : Ext) : ApiRequest → String → Prop
  | .anyone _, _ => False
  | .user authorization _, hash => ∃ value token, authorization = some value ∧
    Rust.stripPrefix value "Bearer " = some token ∧ hash = hashApiToken x token

/-! ## Promises -/

/-- What does not commit only notes the use of these tokens. -/
def noting (used : String → Prop) (i : Nat) : Rules Res World where
  rely := World.Keeps
  rely_refl := World.Keeps.refl
  rely_trans := @World.Keeps.trans
  step o s r s' := (∃ a, exec i o a s = some (r, s')) ∧ o.Tidy
  guar o s r s' := ¬ o.Commits r → SameButUse used s.db s'.db

/-- No statement of the operation notes the use of a token. -/
def Op.Unnoted (o : Op) : Prop := ∀ w ∈ o.writes, ¬ NotesUse w

section promises

variable {used : String → Prop} {i : Nat} {x : Ext} {config : Config} {α β : Type} {y : Service α}
  {s : World} {q : AuthRequest} {user : User} {db db' : Db}

theorem SameButUse.refl (db : Db) : SameButUse used db db :=
  ⟨fun _ _ => rfl, List.forall₂_same.mpr fun _ _ => .inl rfl⟩

/-- The note in the row of a token with the hash. -/
theorem SameButUse.noted {id : Uuid} {lastUsedAt : Option String}
    (ha : layout.apply (.update .userApiTokens (byId id) [(7, .optText lastUsedAt)]) db = some db')
    (h : ∀ r ∈ (db.rows .userApiTokens : List UserApiTokenRecord), r.id = id → used r.tokenHash) :
    SameButUse used db db' := by
  refine ⟨fun t ht => Layout.apply_frame ha ht, ?_⟩
  rw [Layout.apply_update ha]
  refine List.forall₂_map_right_iff.mpr (List.forall₂_same.mpr fun r hr => ?_)
  split
  · next hholds => exact .inr ⟨h r hr (uuid_of_col (Layout.holds_eq.mp hholds)), rfl⟩
  · exact .inl rfl

theorem Op.unnoted_of_reads {o : Op} (h : o.writes = []) : o.Unnoted := by
  intro w hw
  rw [h] at hw
  cases hw

/-- What writes no notes and does not commit changes nothing. -/
theorem Op.Unnoted.guarded {o : Op} (ho : o.Unnoted) {s s' : World} {r : Res o} {a : Ans}
    (h : exec i o a s = some (r, s')) (hr : ¬ o.Commits r) : SameButUse used s.db s'.db := by
  rcases exec_db h with hdb | ⟨hok, hdb⟩
  · exact hdb ▸ .refl _
  · have hnone : o.writes = [] :=
      List.eq_nil_iff_forall_not_mem.mpr fun w hw => hr ⟨hok, w, hw, ho w hw⟩
    rw [hnone] at hdb
    exact Layout.applyAll_nil.mp hdb ▸ .refl _

theorem close_noting : Close (noting used i) where
  exec h := ⟨i, h.1⟩
  reads {o s r s'} ho h := by
    obtain ⟨⟨a, ha⟩, htidy⟩ := h
    exact ⟨(Op.unnoted_of_reads ho).guarded ha, exec_keeps htidy ha⟩
  within {o s r s'} h _ := by
    obtain ⟨⟨a, ha⟩, htidy⟩ := h
    exact exec_keeps htidy ha

/-- The calls that write no notes. -/
abbrev Noting (used : String → Prop) (i : Nat) (α : Type) (y : Service α) : Prop :=
  KeepsFrom (noting used i) (fun _ => True) α y

theorem composes_noting : Composes (Noting used i) :=
  composes_keepsFrom close_noting fun _ _ _ _ => trivial

theorem noting_unnoted (h : Flow.All Op.Unnoted y fun _ => True) : Noting used i α y := by
  refine keepsFrom_all close_noting h fun o ho s r s' hs => ?_
  obtain ⟨⟨a, ha⟩, -⟩ := hs
  exact ho.guarded ha

theorem noting_into {ts : List Table} (h : WritesInto ts α y) (hts : .userApiTokens ∉ ts) :
    Noting used i α y := by
  refine noting_unnoted (Flow.All.mono h.all (fun o ho w hw hnotes => ?_) fun _ h => h)
  unfold NotesUse at hnotes
  split at hnotes
  · exact hts (ho _ hw)
  · exact hnotes

/-- Only who authenticates by a token notes its use. -/
theorem noting_covers (h : q.Covers x y) (hq : ∀ token, q ≠ .authenticateBearer token) :
    Noting used i α y := by
  refine noting_unnoted (Flow.All.mono h (fun o ho => ?_) fun _ h => h)
  rcases ho with ho | ho
  · exact Op.unnoted_of_reads ho
  · cases ho with
    | useApiToken token => exact absurd rfl (hq token)
    | _ => simp [Op.Unnoted, Op.writes, NotesUse, acceptWrite, revokeWrite, disableWrite,
        reactivateWrite, changeRoleWrite]

/-- The note is made in the row that was found by the hash of the token. -/
theorem ends_authenticateBearer_noting {token : String} (hused : used (hashApiToken x token)) :
    Ends (noting used i) (authenticateBearer x config token) (fun _ _ => True) s := by
  have hread : ∀ u s', Ends (noting used i) (userFromRecord u) (fun _ _ => True) s' :=
    fun u s' => composes_noting.reads (reads_userFromRecord u) s' trivial
  refine ends_authenticateBearer close_noting.toTame (fun _ _ _ _ _ _ s₂ u _ _ _ _ => hread u s₂) ?_
  intro s₁ r _ _ hr hhash _ s₂ u h₂ _ _ _
  have hnow : Flow.All (fun o => o.writes = []) now fun _ => True := by simp [Op.writes]
  refine ends_reads close_noting.toTame hnow fun time s₃ _ h₃ => ?_
  refine ends_update (fun s₄ _ s₅ h₄ hs _ => ?_) fun _ s₅ _ _ => hread u s₅
  obtain ⟨⟨a, ha⟩, -⟩ := hs
  rcases exec_db ha with hdb | ⟨-, hdb⟩
  · exact hdb ▸ .refl _
  refine .noted (applyAll_single hdb) fun r' hr' hid => ?_
  -- the row of this identifier is still the one that was found
  obtain ⟨r₄, hr₄, hsame⟩ := (h₂.trans (h₃.trans h₄)) .userApiTokens r hr
  have hid₄ : r₄.id = r.id := uuid_of_col (hsame 0 (by decide))
  have he : r' = r₄ := (s₄.db.unique .userApiTokens).eq (c := 0) (by decide) hr' hr₄
    (congrArg (fun id => some (Value.uuid id)) (hid.trans hid₄.symm))
  have hhash₄ : r₄.tokenHash = r.tokenHash := text_of_col (hsame 3 (by decide))
  rw [he, hhash₄, hhash]
  exact hused

theorem noting_handle (route : UserRoute) : Noting used i _ (route.handle x config user) :=
  composes_noting.handle {
    createApiToken := fun name => noting_covers (covers_createApiToken _) nofun
    revokeApiToken := fun id => noting_covers (covers_revokeApiToken user id) nofun
    createServer := fun payload _ => noting_into (into_createServer payload) (by decide)
    checkServer := fun id _ => noting_into (into_checkServer id) (by decide)
    createWorkspace := fun name description _ =>
      noting_into (into_createWorkspace name description) (by decide)
    createEnvironment := fun workspaceId name _ =>
      noting_into (into_createEnvironment workspaceId name) (by decide)
    createService := fun input _ => noting_into (into_createService input) (by decide)
    createCredential := fun input _ => noting_into (into_createCredential input) (by decide)
    createEnvVar := fun input _ => noting_into (into_createEnvVar input) (by decide)
    createEnvVars := fun inputs _ => noting_into (into_createEnvVars inputs) (by decide)
    createDomain := fun input => noting_into (into_createDomain input) (by decide)
    triggerDeploy := fun serviceId _ => noting_into (into_triggerDeploy _ serviceId) (by decide)
    restartService := fun serviceId _ => noting_into (into_restartService _ serviceId) (by decide)
    createTemplate := fun input _ => noting_into (into_createTemplate input) (by decide)
    createWorkspacesFromTemplate := fun input _ =>
      noting_into (into_createWorkspacesFromTemplate input) (by decide)
    inviteUser := fun input _ => noting_covers (covers_inviteUser input) nofun
    disableUser := fun id _ => noting_covers (x := x) (covers_disableUser id) nofun
    reactivateUser := fun id _ => noting_covers (x := x) (covers_reactivateUser id) nofun
    changeUserRole := fun input _ => noting_covers (x := x) (covers_changeUserRole input) nofun }

theorem noting_publicRoute (route : PublicRoute) : Noting used i _ (route.handle x config) :=
  composes_noting.publicRoute {
    login := fun input => noting_covers (covers_login input) nofun
    refreshSession := fun input => noting_covers (covers_refreshSession input) nofun
    logout := fun input => noting_covers (x := x) (covers_logout input) nofun
    acceptInvite := fun input => noting_covers (covers_acceptInvite input) nofun } route

theorem ends_serve_noting (request : ApiRequest) :
    Ends (noting (request.Presents x) i) (request.serve x config) (fun _ _ => True) s := by
  cases request with
  | anyone route => exact noting_publicRoute route s trivial
  | user authorization route =>
    show Ends _ (extractUser x config authorization >>= _) _ _
    unfold extractUser currentUser
    simp only [bind_assoc]
    refine ends_okOr fun token htoken => ?_
    obtain ⟨value, rfl, htoken⟩ := Option.bind_eq_some_iff.mp htoken
    refine Ends.bind close_noting (ends_authenticateBearer_noting ⟨value, token, rfl, htoken, rfl⟩)
      fun user s₁ _ _ => ?_
    exact composes_noting.bind (composes_noting.reads (Flow.all_call.mpr ⟨rfl, fun _ => trivial⟩))
      (fun _ => composes_noting.after (reads_pure user) fun user => noting_handle route) s₁ trivial

theorem ends_request_noting (request : ApiRequest) :
    Ends (noting (request.Presents x) i) ((Task.job (.request request)).serve x config)
      (fun _ _ => True) s :=
  ends_map (Ends.mono (ends_serve_noting request) fun _ _ _ _ _ => trivial)

end promises

/-- A request notes the use of no token but the one it presents. -/
theorem sameButUse_of_runs {x : Ext} {tasks : List (Config × Task)} {w : World} {P' : JobPool}
    {es : List (Event Res World)} (hr : Runs exec (TaskPool.of x tasks w) es P') {i : Nat}
    {config : Config} {q : ApiRequest} (hi : tasks[i]? = some (config, .job (.request q))) :
    ∀ e ∈ es, e.tid = i → ¬ e.op.Commits e.res →
      SameButUse (q.Presents x) e.pre.db e.post.db := by
  have hstep : ∀ e ∈ es, (∃ a, exec e.tid e.op a e.pre = some (e.res, e.post)) ∧ e.op.Tidy :=
    fun e he => ⟨hr.handled e he, tidy_of_runs hr e he⟩
  exact hr.guards (c := noting (q.Presents x) i) (TaskPool.thread_of hi) (ends_request_noting q)
    (fun e he _ => keeps_of_runs hr e he) fun e he htid => htid ▸ hstep e he

end Wara
