import Wara.Api.Composed
import Wara.Api.Jobs
import Wara.Api.Writes
import Wara.Auth.Timestamps
import Wara.External.Symbolic

/-!
# What the sorted timestamps are

`create_api_token` and the start of an instance read the clock and store the
text of what it says; nothing else sets the `created_at` of a token or a key. So
in every state of a run whose clock shows years of four digits these columns
are printed times, and the queries that sort by them sort by time.
-/

namespace Wara

open Interleave Store Service AuthService WorkspaceService AppServiceService DomainService
  DeploymentService WorkspaceTemplateService CredentialService ServerService

/-! ## What is stored -/

/-- When a token or a key was created. -/
def createdAt : {t : Table} → Row t → Option String
  | .userApiTokens, r => some r.createdAt
  | .jwtPublicKeys, r => some r.createdAt
  | _, _ => none

/-- The columns that say so. -/
def createdCols : Table → List Nat
  | .userApiTokens => [5]
  | .jwtPublicKeys => [7]
  | _ => []

/-- The row was created at a printed time, if it says when. -/
def RowStamped {t : Table} (r : Row t) : Prop :=
  ∀ text, createdAt r = some text → ∃ time, Printed text time

def Stamped (db : Db) : Prop := ∀ t, ∀ r ∈ db.rows t, RowStamped r

/-- The rows that the operation stores are stamped, and it changes no stamp. -/
structure Op.Stamps (o : Op) : Prop where
  tidy : ∀ w ∈ o.writes, ∀ c ∈ w.sets, c ∉ createdCols w.table
  rows : ∀ t, ∀ r : Row t, .insert t r ∈ o.writes → RowStamped r

/-- What is read from the clock has a year of four digits. -/
def Op.InYears : (o : Op) → Res o → Prop
  | .now, t => DateTime.FourDigitYear t
  | _, _ => True

section stored

variable {t : Table}

theorem createdAt_eq {r r' : Row t} (h : ∀ c ∈ createdCols t, layout.col c r' = layout.col c r) :
    createdAt r' = createdAt r := by
  have htext : ∀ {a b : String}, some (Value.text a) = some (.text b) → some a = some b :=
    fun h => congrArg some (Value.text.inj (Option.some.inj h))
  cases t with
  | userApiTokens => exact htext (h 5 (List.mem_singleton_self 5))
  | jwtPublicKeys => exact htext (h 7 (List.mem_singleton_self 7))
  | _ => rfl

theorem rowStamped_of_none {r : Row t} (h : createdAt r = none) : RowStamped r := by
  intro text htext
  rw [h] at htext
  cases htext

/-- **One step** keeps the stamps. -/
theorem Stamped.exec {s s' : World} {o : Op} {i : Nat} {a : Ans} {res : Res o}
    (h : Stamped s.db) (ho : o.Stamps) (ha : exec i o a s = some (res, s')) : Stamped s'.db := by
  rcases exec_db ha with hdb | ⟨-, hdb⟩
  · rw [hdb]
    exact h
  · intro t r' hr' text htext
    rcases Layout.applyAll_origin hdb ho.tidy hr' with ⟨r, hr, hc⟩ | ⟨r, hr, hc⟩
    · exact h t r hr text (createdAt_eq hc ▸ htext)
    · exact ho.rows t r hr text (createdAt_eq hc ▸ htext)

theorem Op.stamps_of_reads {o : Op} (h : o.writes = []) : o.Stamps where
  tidy w hw := by rw [h] at hw; cases hw
  rows t r hr := by rw [h] at hr; cases hr

instance : AboutWrites Op.Stamps := ⟨fun _ => Op.stamps_of_reads⟩

theorem stamps_insert {r : Row t} (h : RowStamped r) : Op.Stamps (.write (.insert t r)) where
  tidy w hw c hc := by
    rw [List.mem_singleton.mp hw] at hc
    cases hc
  rows u r' hr' := by
    cases List.mem_singleton.mp hr'
    exact h

/-- Rows without a stamp. -/
theorem stamps_insert_none {r : Row t} (h : createdAt r = none) :
    Op.Stamps (.write (.insert t r)) := stamps_insert (rowStamped_of_none h)

theorem stamps_update {f : Filter} {sets : List (Nat × Value)}
    (h : ∀ p ∈ sets, p.1 ∉ createdCols t) : Op.Stamps (.write (.update t f sets)) where
  tidy w hw c hc := by
    obtain rfl := List.mem_singleton.mp hw
    obtain ⟨p, hp, rfl⟩ := List.mem_map.mp hc
    exact h p hp
  rows u r' hr' := by cases List.mem_singleton.mp hr'

/-- Writes to other tables. -/
theorem Op.stamps_of_tables {o : Op}
    (h : ∀ w ∈ o.writes, w.table ≠ .userApiTokens ∧ w.table ≠ .jwtPublicKeys) : o.Stamps where
  tidy w hw c hc := by
    obtain ⟨htokens, hkeys⟩ := h w hw
    cases ht : w.table <;> simp_all [createdCols]
  rows t r hr := by
    obtain ⟨htokens, hkeys⟩ := h _ hr
    refine rowStamped_of_none ?_
    cases t with
    | userApiTokens => exact (htokens rfl).elim
    | jwtPublicKeys => exact (hkeys rfl).elim
    | _ => rfl

end stored

instance (o : Op) (r : Res o) : Decidable (o.InYears r) :=
  match o with
  | .now => inferInstanceAs (Decidable (DateTime.FourDigitYear r))
  | .select _ _ | .write _ | .begin | .txWrite _ | .commit _ | .newUuid | .randomBytes _
  | .caller _ => inferInstanceAs (Decidable True)

/-! ## Promises -/

/-- Everybody keeps the stamps; the clock shows years of four digits. -/
def stamping : Rules Res World where
  rely _ _ := True
  rely_refl _ := trivial
  rely_trans _ _ := trivial
  step o s r s' := (∃ i a, exec i o a s = some (r, s')) ∧ o.InYears r
  guar o _ _ _ := o.Stamps

theorem close_stamping : Close stamping where
  exec h := h.1
  reads ho _ := ⟨Op.stamps_of_reads ho, trivial⟩
  within _ _ := trivial

abbrev Stamping (α : Type) (y : Service α) : Prop := KeepsFrom stamping (fun _ => True) α y

theorem composes_stamping : Composes Stamping :=
  composes_keepsFrom close_stamping fun _ _ _ _ => trivial

section operations

variable {x : Ext} {config : Config} {secretKey : String} {q : AuthRequest} {α β : Type}
  {y : Service α} {s : World}

theorem ends_stamps {Q : α → Prop} {f : α → Service β} {ok : β → World → Prop}
    (h : Flow.All Op.Stamps y Q) (hf : ∀ a s', Q a → Ends stamping (f a) ok s') :
    Ends stamping (y >>= f) ok s :=
  ends_all h (fun _ ho _ _ _ _ => ⟨ho, trivial⟩) fun a s' hQ _ => hf a s' hQ

theorem stamping_all (h : Flow.All Op.Stamps y fun _ => True) : Stamping α y :=
  keepsFrom_all close_stamping h fun _ ho _ _ _ _ => ho

/-- The clock, and the rest of the call. -/
theorem ends_now {f : DateTime → Service β} {ok : β → World → Prop}
    (h : ∀ t s', t.FourDigitYear → Ends stamping (f t) ok s') :
    Ends stamping (now >>= f) ok s :=
  ends_call fun _ _ t s₂ hs => ⟨Op.stamps_of_reads rfl, h t s₂ hs.2⟩

theorem ends_stampedInsert {t : Table} {r : Row t} {f : Row t → Service β} {ok : β → World → Prop}
    (hr : RowStamped r) (h : ∀ s', Ends stamping (f r) ok s') :
    Ends stamping (create .handle r >>= f) ok s :=
  ends_create (fun _ _ _ _ _ => stamps_insert hr) fun _ s₂ _ _ => h s₂

theorem rowStamped_of_printed {t : Table} {r : Row t} {text : String} {time : DateTime}
    (hx : x.PrintsRfc3339) (hr : createdAt r = some text) (htext : text = x.toRfc3339 time)
    (ht : time.FourDigitYear) : RowStamped r := by
  intro text' h
  rw [hr] at h
  obtain rfl := Option.some.inj h
  exact ⟨time, htext.trans (hx time), ht⟩

/-! ## The two that stamp -/

theorem stamping_createApiToken (hx : x.PrintsRfc3339) (input : CreateApiTokenInput) :
    Stamping _ (createApiToken x input) := by
  intro s _
  unfold createApiToken
  refine ends_stamps (Q := fun _ => True) (by simp [generateApiToken]) fun rawToken s₁ _ => ?_
  refine ends_now fun time s₂ ht => ends_stamps (Q := fun _ => True) (by simp) fun id s₃ _ => ?_
  refine ends_stampedInsert (rowStamped_of_printed hx rfl rfl ht) fun s₄ => ?_
  exact ends_pure fun _ _ => trivial

theorem stamping_syncActiveJwtPublicKey (hx : x.PrintsRfc3339) :
    Stamping _ (syncActiveJwtPublicKey x config) := by
  intro s _
  unfold syncActiveJwtPublicKey
  have hupdate : ∀ {f : Filter} {sets : List (Nat × Value)},
      (∀ p ∈ sets, p.1 ∉ createdCols .jwtPublicKeys) →
      Flow.All Op.Stamps (update .jwtPublicKeys f sets) fun _ => True :=
    fun h => all_update.mpr ⟨stamps_update h, trivial⟩
  refine ends_stamps (Q := fun _ => True) (by simp) fun key s₁ _ => ?_
  refine ends_stamps (Q := fun _ => True) (by simp) fun records s₂ _ => ?_
  refine ends_stamps (Q := fun _ => True) (by simp) fun id s₃ _ => ?_
  refine ends_stamps (hupdate (by simp [createdCols])) fun _ s₄ _ => ?_
  refine ends_stamps (Q := fun _ => True) (by simp) fun existing s₅ _ => ?_
  split
  · rw [← bind_pure (update _ _ _)]
    refine ends_stamps (hupdate (by simp [createdCols])) fun _ s₆ _ => ?_
    exact ends_pure fun _ _ => trivial
  · refine ends_now fun time s₆ ht => ?_
    refine ends_stampedInsert (rowStamped_of_printed hx rfl rfl ht) fun s₇ => ?_
    exact ends_pure fun _ _ => trivial

theorem stamping_bootstrapAdmin (hx : x.PrintsRfc3339) : Stamping _ (bootstrapAdmin x config) := by
  unfold bootstrapAdmin
  refine composes_stamping.bind (stamping_syncActiveJwtPublicKey hx) fun _ => stamping_all ?_
  have hinsert : ∀ r : UserRecord, Op.Stamps (.write (.insert .users r)) :=
    fun _ => stamps_insert_none rfl
  simp [hashPassword, Executor.op, hinsert]

/-! ## All others -/

/-- The authentication requests that stamp. -/
def AuthRequest.StampsRows : AuthRequest → Prop
  | .bootstrapAdmin | .createApiToken _ => True
  | _ => False

theorem stamps_of_canIssue (hq : ¬ q.StampsRows) {o : Op} (h : q.CanIssue x o) : o.Stamps := by
  rcases h with h | h
  · exact Op.stamps_of_reads h
  · cases h with
    | deactivateKeys | activateKey | createKey | createAdmin | createApiToken =>
      exact absurd trivial hq
    | invite | refresh => exact Op.stamps_of_tables (by simp [Op.writes, Write.table])
    | login | acceptLogin => exact stamps_insert_none rfl
    | _ => exact stamps_update (by simp [createdCols])

theorem stamping_covers (hq : ¬ q.StampsRows) (h : q.Covers x y) : Stamping α y :=
  stamping_all (Flow.All.mono h (fun _ ho => stamps_of_canIssue hq ho) fun _ h => h)

/-- What is written to other tables has no stamp. -/
theorem stamping_into {ts : List Table}
    (h : WritesInto ts α y) (hts : ∀ t ∈ ts, t ≠ .userApiTokens ∧ t ≠ .jwtPublicKeys) :
    Stamping α y :=
  stamping_all (Flow.All.mono h.all (fun _ ho => Op.stamps_of_tables fun w hw => hts _ (ho w hw))
    fun _ h => h)

theorem accounts_stamping (hx : x.PrintsRfc3339) (user : User) :
    AccountWritersSatisfy Stamping x config user where
  createApiToken name := stamping_createApiToken hx ⟨user, name⟩
  revokeApiToken id := stamping_covers (q := .revokeApiToken user id) nofun
    (covers_revokeApiToken user id)
  inviteUser input _ := stamping_covers (q := .inviteUser input) nofun (covers_inviteUser input)
  disableUser id _ := stamping_covers (x := x) (q := .disableUser id) nofun (covers_disableUser id)
  reactivateUser id _ := stamping_covers (x := x) (q := .reactivateUser id) nofun
    (covers_reactivateUser id)
  changeUserRole input _ := stamping_covers (x := x) (q := .changeUserRole input) nofun
    (covers_changeUserRole input)

theorem writers_stamping (hx : x.PrintsRfc3339) (user : User) (route : UserRoute) :
    WritersSatisfy Stamping x config user route where
  toOrdinaryWritersSatisfy :=
    .of_into (fun h => stamping_into h (by decide)) (accounts_stamping hx user)
  createWorkspace name description _ :=
    stamping_into (into_createWorkspace name description) (by decide)
  createTemplate input _ := stamping_into (into_createTemplate input) (by decide)
  createWorkspacesFromTemplate input _ :=
    stamping_into (into_createWorkspacesFromTemplate input) (by decide)

theorem public_stamping : PublicWritersSatisfy Stamping x config where
  login input := stamping_covers (q := .login input) nofun (covers_login input)
  refreshSession input :=
    stamping_covers (q := .refreshSession input) nofun (covers_refreshSession input)
  logout input := stamping_covers (x := x) (q := .logout input) nofun (covers_logout input)
  acceptInvite input := stamping_covers (q := .acceptInvite input) nofun (covers_acceptInvite input)

theorem stamping_job (hx : x.PrintsRfc3339) (job : Job) : Stamping _ (job.serve x config) :=
  composes_stamping.job (stamping_bootstrapAdmin hx) public_stamping
    (fun token => stamping_covers (q := .authenticateBearer token) nofun
      (covers_authenticateBearer token))
    (fun _ route _ user => composes_stamping.handle (writers_stamping hx user route))
    (stamping_into into_checkAllServers (by decide))

/-! ## Runs -/

/-- In every state of a run, what is stored is stamped. -/
theorem stamped_reachable {jobs : List (Config × Job)} {w : World} {P' : JobPool}
    {es : List (Event Res World)} (hx : x.PrintsRfc3339) (h0 : Stamped w.db)
    (hclock : ∀ e ∈ es, e.op.InYears e.res) (hr : Runs exec (JobPool.of x jobs w) es P') :
    Stamped P'.state.db ∧ ∀ e ∈ es, Stamped e.pre.db ∧ Stamped e.post.db := by
  have hsafe : (JobPool.of x jobs w).AllSafe (fun _ => stamping) fun _ _ _ => True := by
    intro i p hp
    simp only [JobPool.of, List.getElem?_map, Option.map_eq_some_iff] at hp
    obtain ⟨j, -, rfl⟩ := hp
    exact Prog.Safe.mono (stamping_job hx j.2 w trivial) fun _ _ _ => trivial
  have hstep : ∀ e ∈ es, stamping.step e.op e.pre e.res e.post :=
    fun e he => ⟨⟨e.tid, hr.handled e he⟩, hclock e he⟩
  have hkeeps : ∀ {o : Op} {s s' : World} {r : Res o}, stamping.step o s r s' → o.Stamps →
      Stamped s.db → Stamped s'.db := by
    rintro o s s' r ⟨⟨i, a, ha⟩, -⟩ ho hs
    exact hs.exec ho ha
  obtain ⟨hevents, hend, -⟩ := hr.safe (I := fun s => Stamped s.db) h0 hsafe
    (fun e he _ => hstep e he) fun _ _ _ _ _ hI hs hg => ⟨hkeeps hs hg hI, fun _ _ => trivial⟩
  refine ⟨hend, fun e he => ?_⟩
  obtain ⟨hpre, hg⟩ := hevents e he
  exact ⟨hpre, hkeeps (hstep e he) hg hpre⟩

/-- All stored times are printed ones, and the queries that sort by the texts sort by the times. -/
structure QueriesInOrder (x : Ext) (s : World) : Prop where
  stamped : Stamped s.db
  listApiTokens : ∀ user i, Yields i (AuthService.listApiTokens user) (fun _ r s' =>
    ∀ tokens, r = .ok tokens → s' = s ∧
      tokens.Perm (layout.select s.db .userApiTokens (.eq 1 (.uuid user.id))) ∧
      NewestFirst tokens) s
  jwks : ∀ i, Yields i (AuthService.jwks x) (fun _ r s' => ∀ keys, r = .ok keys → s' = s ∧
    ∃ records : List JwtPublicKeyRecord, records.Perm (s.db.rows .jwtPublicKeys) ∧
      OldestFirst records ∧ keys.map (·.kid) = records.map (x.uuidToString ·.id)) s
  activeJwtPublicKeyRecord : ∀ i, Yields i AuthService.activeJwtPublicKeyRecord (fun _ r s' =>
    ∀ record, r = .ok record → s' = s ∧ MostRecent (s.db.rows .jwtPublicKeys) record) s

theorem Stamped.queriesInOrder (h : Stamped s.db) : QueriesInOrder x s where
  stamped := h
  listApiTokens user _ := yields_listApiTokens user
  jwks _ := yields_jwks
  activeJwtPublicKeyRecord _ := yields_activeJwtPublicKeyRecord

/-- **The order of stored timestamps is the order of times.** For the years 0 to 9999, comparing the
texts of two instants gives what comparing the instants gives. So in every state of a run whose
clock shows such years, whatever the jobs are and in whatever order their statements are done, API
tokens are listed from the newest, `jwks` begins with the oldest key, and the key that is used is
the active one created last. -/
theorem timestamps_in_order (hx : x.PrintsRfc3339) :
    (∀ a b : Chrono.Instant, a.FourDigitYear → b.FourDigitYear →
      compare a.toRfc3339 b.toRfc3339 = compare a b) ∧
    (∀ t u : DateTime, t.FourDigitYear → u.FourDigitYear →
      compare (x.toRfc3339 t) (x.toRfc3339 u) = compare t.nanos u.nanos) ∧
    ∀ (jobs : List (Config × Job)) (w : World) (es : List (Event Res World)) (P' : JobPool),
      Stamped w.db → (∀ e ∈ es, e.op.InYears e.res) → Runs exec (JobPool.of x jobs w) es P' →
      QueriesInOrder x P'.state ∧ ∀ e ∈ es, QueriesInOrder x e.pre ∧ QueriesInOrder x e.post := by
  refine ⟨fun a b ha hb => Chrono.Instant.compare_toRfc3339 ha hb, fun t u ht hu => ?_, ?_⟩
  · rw [hx, hx]
    exact Printed.compare_eq ⟨rfl, ht⟩ ⟨rfl, hu⟩
  · intro jobs w es P' h0 hclock hr
    obtain ⟨hend, hevents⟩ := stamped_reachable hx h0 hclock hr
    refine ⟨hend.queriesInOrder, fun e he => ?_⟩
    obtain ⟨hpre, hpost⟩ := hevents e he
    exact ⟨hpre.queriesInOrder, hpost.queriesInOrder⟩

end operations

namespace Symbolic

/-- The world with the texts of chrono. -/
def printing : Ext := { ext with toRfc3339 := DateTime.toRfc3339 }

/-- A user with one API token. -/
def oneToken : World := .start {
  rows := fun
    | .users => [⟨2, "ada@wara.local", "Ada", "super_admin", "active", "$argon2id$password"⟩]
    | .userApiTokens => [⟨6, 2, "ci", hashApiToken ext "wara_t", "wara_t",
      "1970-01-01T00:00:00+00:00", none, none⟩]
    | _ => []
  unique := fun t _ _ => by
    cases t <;> first | exact List.nodup_nil | exact List.nodup_singleton _ }

theorem oneToken_stamped : Stamped oneToken.db := by
  intro t r hr
  cases t with
  | users => exact rowStamped_of_none rfl
  | userApiTokens =>
    obtain rfl := List.mem_singleton.mp hr
    rintro text ⟨⟩
    exact ⟨⟨0⟩, by decide +kernel, by decide +kernel⟩
  | _ => exact (List.not_mem_nil hr).elim

/-- Two more, the second request of which is served half a second before the first. -/
def twoMore : List (Config × Job) :=
  ["cd", "qa"].map fun name =>
    (config "A", .request (.user (some "Bearer wara_t") (.createApiToken ⟨name⟩)))

/-- The extractor, the token, the clock and the insertion. -/
def createSteps (i : Nat) (byte : UInt8) (time : DateTime) (id : Uuid) : List (Nat × Ans) :=
  [.done, .done, .time ⟨5000000000⟩, .done, .done, .bytes (List.replicate 32 byte), .time time,
    .uuid id, .done].map fun a => (i, a)

def twoMoreSteps : List (Nat × Ans) :=
  createSteps 0 1 ⟨10500000000⟩ 20 ++ createSteps 1 2 ⟨10000000000⟩ 21

/-- When her tokens were created. -/
def created (P : JobPool) : List (String × String) :=
  (P.state.db.rows .userApiTokens : List UserApiTokenRecord).map fun r => (r.name, r.createdAt)

def threeTokens : List (String × String) :=
  [("ci", "1970-01-01T00:00:00+00:00"), ("cd", "1970-01-01T00:00:10.500+00:00"),
    ("qa", "1970-01-01T00:00:10+00:00")]

theorem twoMore_run : ((JobPool.of printing twoMore oneToken).run exec twoMoreSteps).map created =
      some threeTokens ∧
    ∀ e ∈ (JobPool.of printing twoMore oneToken).trace exec twoMoreSteps, e.op.InYears e.res := by
  decide +kernel

theorem timestamps_in_order_two : compare (printing.toRfc3339 ⟨10000000000⟩)
      (printing.toRfc3339 ⟨10500000000⟩) = .lt ∧
    ∃ P' : JobPool, Runs exec (JobPool.of printing twoMore oneToken)
      ((JobPool.of printing twoMore oneToken).trace exec twoMoreSteps) P' ∧
    created P' = threeTokens ∧ QueriesInOrder printing P'.state := by
  obtain ⟨-, htexts, hruns⟩ := timestamps_in_order (x := printing) fun _ => rfl
  refine ⟨(htexts _ _ (by decide +kernel) (by decide +kernel)).trans (by decide), ?_⟩
  obtain ⟨P', hrun, hcreated⟩ := Option.map_eq_some_iff.mp twoMore_run.1
  have hr := Pool.run_runs hrun
  exact ⟨P', hr, hcreated, (hruns _ _ _ _ oneToken_stamped twoMore_run.2 hr).1⟩

end Symbolic

end Wara
