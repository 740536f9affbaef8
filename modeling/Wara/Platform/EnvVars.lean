import Wara.External.Symbolic
import Wara.Platform.Secrets
import Wara.Service.Solo
import Wara.Store.Insert

/-!
# Environment variables, one by one and all together

`create_env_vars` checks all its inputs and then inserts their rows in one
transaction; `create_env_var` checks and inserts one. The check reads other
tables (`scopeError`), so it says the same before and after the other inserts,
and both ways add the same rows under the identifiers that are generated.
-/

namespace Wara

open Interleave Store Service WorkspaceService

section envVars

open CredentialService AppServiceService

variable {x : Ext} {secretKey : String} {i : Nat} {s : World}

/-! ## The check -/

/-- The call ended as `verdict` says, or some statement failed and it ended with that. -/
def Reports (verdict : Option ApiError) (xs : List Ans) (r : Except Abort Unit) : Prop :=
  (NoFailure xs ∧ r = match verdict with
    | some e => .error (.api e)
    | none => .ok ()) ∨
  ∃ e, .fail e ∈ xs ∧ r = failed e

/-- A check that leaves the state alone. -/
def Checks (i : Nat) (y : Service Unit) (verdict : Option ApiError) (s : World) : Prop :=
  Yields i y (fun xs r s' => s' = s ∧ Reports verdict xs r) s

theorem checks_pure : Checks i (pure ()) none s :=
  yields_pure ⟨rfl, .inl ⟨by simp [NoFailure], rfl⟩⟩

/-- The first check that finds something decides. -/
theorem Checks.and_then {y z : Service Unit} {v v' : Option ApiError} (hy : Checks i y v s)
    (hz : Checks i z v' s) : Checks i (do y; z) (v.or v') s := by
  refine yields_bind (Yields.mono hy fun xs r s' hr => ?_)
  obtain ⟨rfl, ⟨hxs, rfl⟩ | ⟨e, he, rfl⟩⟩ := hr
  · cases v with
    | some e => exact ⟨rfl, .inl ⟨hxs, rfl⟩⟩
    | none =>
      refine Yields.mono hz fun ys r s'' hr => ?_
      obtain ⟨rfl, ⟨hys, rfl⟩ | ⟨e, he, rfl⟩⟩ := hr
      · exact ⟨rfl, .inl ⟨noFailure_append.mpr ⟨hxs, hys⟩, rfl⟩⟩
      · exact ⟨rfl, .inr ⟨e, List.mem_append_right _ he, rfl⟩⟩
  · exact ⟨rfl, .inr ⟨e, he, rfl⟩⟩

theorem checks_throwIf (b : Prop) [Decidable b] (e : ApiError) :
    Checks i (throwIf b e) (if b then some e else none) s := by
  unfold throwIf
  split
  · exact yields_throwApi ⟨rfl, .inl ⟨by simp [NoFailure], rfl⟩⟩
  · exact checks_pure

/-- A check after a read. -/
theorem Checks.after_read {y : Service Unit} {v : Option ApiError} (h : Checks i y v s) :
    Yields i y (fun xs r s' => s' = s ∧ Reports v (.done :: xs) r) s := by
  refine Yields.mono h fun xs r s' hr => ⟨hr.1, ?_⟩
  rcases hr.2 with ⟨hxs, hr⟩ | ⟨e, he, hr⟩
  · exact .inl ⟨(noFailure_cons (by simp)).mpr hxs, hr⟩
  · exact .inr ⟨e, List.mem_cons_of_mem _ he, hr⟩

theorem checks_forM {α : Type} {check : α → Service Unit} {verdict : α → Option ApiError}
    (h : ∀ a, Checks i (check a) (verdict a) s) (as : List α) :
    Checks i (as.forM check) (as.findSome? verdict) s := by
  induction as with
  | nil => exact checks_pure
  | cons a as ih =>
    have hcons : (a :: as).findSome? verdict = (verdict a).or (as.findSome? verdict) := by
      rw [List.findSome?_cons]
      cases verdict a <;> rfl
    rw [hcons]
    exact (h a).and_then ih

def workspaceError (db : Db) (id : Uuid) : Option ApiError :=
  if (layout.select db .workspaces (byId id)).head?.isNone then some (.notFound "workspace") else none

def environmentError (db : Db) (workspaceId : Uuid) : Option Uuid → Option ApiError
  | some id =>
    let environments := layout.select db .environments (.eq 1 (.uuid workspaceId))
    if ¬ environments.any fun environment : Environment => environment.id = id then
      some (.notFound "environment")
    else none
  | none => none

def serviceError (db : Db) (workspaceId : Uuid) : Option Uuid → Option ApiError
  | some id =>
    match (layout.select db .appServices (byId id)).head?.map AppService.from with
    | some service =>
      if service.workspaceId ≠ workspaceId then some (.notFound "service") else none
    | none => some (.notFound "service")
  | none => none

/-- What `validate_env_var_scope` says about an input: it reads workspaces, environments and
services. -/
def scopeError (db : Db) (input : CreateEnvVarInput) : Option ApiError :=
  (workspaceError db input.workspaceId).or ((environmentError db input.workspaceId
    input.environmentId).or (serviceError db input.workspaceId input.serviceId))

theorem checks_getWorkspace {id : Uuid} {z : Service Unit} {v : Option ApiError}
    (hz : Checks i z v s) :
    Checks i (do let _ ← getWorkspace id; z) ((workspaceError s.db id).or v) s := by
  unfold getWorkspace workspaceError
  rw [bind_assoc]
  refine yields_first (fun e => ⟨rfl, .inr ⟨e, by simp, rfl⟩⟩) ?_
  refine yields_okOr (fun hnone => ⟨rfl, .inl ⟨by simp [NoFailure], ?_⟩⟩) fun w hw => ?_
  · rw [hnone]
    rfl
  · rw [hw]
    exact hz.after_read

theorem checks_environment (workspaceId : Uuid) (id : Option Uuid) :
    Checks i (match id with
      | some id => ensureEnvironment workspaceId id
      | none => pure ()) (environmentError s.db workspaceId id) s := by
  cases id with
  | none => exact checks_pure
  | some id =>
    show Yields i (ensureEnvironment workspaceId id) _ s
    unfold ensureEnvironment listEnvironments
    exact yields_query (fun e => ⟨rfl, .inr ⟨e, by simp, rfl⟩⟩) (checks_throwIf _ _).after_read

theorem checks_service (workspaceId : Uuid) (id : Option Uuid) :
    Checks i (match id with
      | some id => do
        let service ← getService id
        throwIf (service.workspaceId ≠ workspaceId) (.notFound "service")
      | none => pure ()) (serviceError s.db workspaceId id) s := by
  cases id with
  | none => exact checks_pure
  | some id =>
    show Yields i (do
      let service ← getService id
      throwIf (service.workspaceId ≠ workspaceId) (.notFound "service")) _ s
    unfold serviceError getService
    rw [bind_assoc]
    refine yields_first (fun e => ⟨rfl, .inr ⟨e, by simp, rfl⟩⟩) ?_
    dsimp only
    refine yields_okOr (fun hnone => ⟨rfl, .inl ⟨by simp [NoFailure], ?_⟩⟩) fun service hsome => ?_
    · rw [hnone]
    · rw [hsome]
      exact (checks_throwIf _ _).after_read

theorem checks_validateEnvVarScope (input : CreateEnvVarInput) :
    Checks i (validateEnvVarScope input) (scopeError s.db input) s := by
  unfold validateEnvVarScope scopeError
  refine checks_getWorkspace ?_
  have henv := checks_environment (i := i) (s := s) input.workspaceId input.environmentId
  have hservice := checks_service (i := i) (s := s) input.workspaceId input.serviceId
  revert henv
  cases input.environmentId with
  | none => exact fun henv => henv.and_then hservice
  | some id => exact fun henv => henv.and_then hservice

/-! ## The rows -/

/-- What there is to a row but its identifier. -/
def EnvVarRecord.content (r : EnvVarRecord) : Uuid × Option Uuid × Option Uuid × String × String :=
  (r.workspaceId, r.environmentId, r.serviceId, r.key, r.encryptedValue)

def EnvVarResponse.content (r : EnvVarResponse) :
    Uuid × Option Uuid × Option Uuid × String × String :=
  (r.workspaceId, r.environmentId, r.serviceId, r.key, r.value)

variable (x secretKey) in
/-- What an input asks for. -/
def CreateEnvVarInput.content (input : CreateEnvVarInput) :
    Uuid × Option Uuid × Option Uuid × String × String :=
  (input.workspaceId, input.environmentId, input.serviceId, input.key,
    encryptSecret x secretKey input.value)

variable (x secretKey) in
/-- The row for an input under an identifier. -/
def newEnvVar (u : Uuid) (input : CreateEnvVarInput) : EnvVarRecord :=
  ⟨u, input.workspaceId, input.environmentId, input.serviceId, input.key,
    encryptSecret x secretKey input.value⟩

/-- Identifiers that can be generated one after another. -/
def FreshIds (s : World) (us : List Uuid) : Prop := us.Nodup ∧ ∀ u ∈ us, s.fresh u = true

theorem fresh_iff {u : Uuid} : s.fresh u = true ↔
    (∀ p ∈ s.issued, p.2 ≠ u) ∧ ∀ t, ∀ r ∈ s.db.rows t, layout.col 0 r ≠ some (.uuid u) := by
  simp only [World.fresh, Bool.and_eq_true, List.all_eq_true, bne_iff_ne]
  exact and_congr_right fun _ => ⟨fun h t => h t t.mem_all, fun h t _ => h t⟩

/-- What is fresh later was fresh before, and is not what has been generated since. -/
theorem fresh_of_issued {u u' : Uuid} {s' : World}
    (hissued : s'.issued = (i, u) :: s.issued)
    (hrows : ∀ t, ∀ r ∈ s.db.rows t, r ∈ s'.db.rows t) (h : s'.fresh u' = true) :
    u' ≠ u ∧ s.fresh u' = true := by
  obtain ⟨hnew, hkeys⟩ := fresh_iff.mp h
  rw [hissued] at hnew
  refine ⟨fun he => hnew (i, u) List.mem_cons_self he.symm, fresh_iff.mpr ⟨fun p hp => ?_,
    fun t r hr => hkeys t r (hrows t r hr)⟩⟩
  exact hnew p (List.mem_cons_of_mem _ hp)

theorem FreshIds.cons {u : Uuid} {us : List Uuid} (s' : World) (hu : s.fresh u = true)
    (hissued : s'.issued = (i, u) :: s.issued)
    (hrows : ∀ t, ∀ r ∈ s.db.rows t, r ∈ s'.db.rows t) (h : FreshIds s' us) :
    FreshIds s (u :: us) := by
  have hall := fun u' hu' => fresh_of_issued hissued hrows (h.2 u' hu')
  refine ⟨List.nodup_cons.mpr ⟨fun hmem => (hall u hmem).1 rfl, h.1⟩, fun u' hu' => ?_⟩
  rcases List.mem_cons.mp hu' with rfl | hu'
  · exact hu
  · exact (hall u' hu').2

abbrev insertEnvVars (records : List EnvVarRecord) : List Write :=
  records.map fun record => .insert .envVars record

/-- Only the environment variables may have got rows. -/
def OnlyEnvVars (s s' : World) (records : List EnvVarRecord) : Prop :=
  s'.db.rows .envVars = s.db.rows .envVars ++ records ∧
    ∀ t, t ≠ .envVars → s'.db.rows t = s.db.rows t

theorem OnlyEnvVars.nil {s' : World} (h : s'.db = s.db) : OnlyEnvVars s s' [] := by
  unfold OnlyEnvVars
  rw [h, List.append_nil]
  exact ⟨rfl, fun _ _ => rfl⟩

theorem OnlyEnvVars.append {s₁ s' : World} {rs rs' : List EnvVarRecord} (h : OnlyEnvVars s s₁ rs)
    (h' : OnlyEnvVars s₁ s' rs') : OnlyEnvVars s s' (rs ++ rs') := by
  refine ⟨?_, fun t ht => (h'.2 t ht).trans (h.2 t ht)⟩
  rw [h'.1, h.1, List.append_assoc]

theorem OnlyEnvVars.of_inserts {db : Db} (records : List EnvVarRecord) {issued callers distinct}
    (h : layout.applyAll (insertEnvVars records) s.db = some db) :
    OnlyEnvVars s ⟨db, issued, callers, distinct⟩ records := by
  refine ⟨Layout.applyAll_inserts h, fun t ht => Layout.applyAll_frame h fun w hw => ?_⟩
  obtain ⟨r, -, rfl⟩ := List.mem_map.mp hw
  exact ht

/-- The check reads other tables. -/
theorem OnlyEnvVars.scopeError_eq {s' : World} {records : List EnvVarRecord}
    (h : OnlyEnvVars s s' records) (input : CreateEnvVarInput) :
    scopeError s'.db input = scopeError s.db input := by
  have hw := h.2 .workspaces (by decide)
  have he := h.2 .environments (by decide)
  have hs := h.2 .appServices (by decide)
  unfold scopeError workspaceError environmentError serviceError Layout.select
  rw [hw, he, hs]

variable (x secretKey) in
/-- A row with a fresh identifier is not refused. -/
theorem new_of_fresh {u : Uuid} (hu : s.fresh u = true) (input : CreateEnvVarInput) :
    Layout.New (t := .envVars) s.db (newEnvVar x secretKey u input) := by
  intro c hc r hr
  cases List.mem_singleton.mp (show c ∈ [0] from hc)
  exact (fresh_iff.mp hu).2 .envVars r hr

theorem mem_zipWith_newEnvVar {us : List Uuid} {inputs : List CreateEnvVarInput} {r : EnvVarRecord}
    (h : r ∈ List.zipWith (newEnvVar x secretKey) us inputs) :
    ∃ u ∈ us, ∃ input, r = newEnvVar x secretKey u input := by
  rw [← List.map_uncurry_zip_eq_zipWith] at h
  obtain ⟨⟨u, input⟩, hp, rfl⟩ := List.mem_map.mp h
  exact ⟨u, (List.of_mem_zip hp).1, input, rfl⟩

variable (x secretKey) in
/-- Nor is a transaction of such rows. -/
theorem inserts_isSome {us : List Uuid} (h : FreshIds s us) (inputs : List CreateEnvVarInput) :
    ∃ db, layout.applyAll (insertEnvVars (List.zipWith (newEnvVar x secretKey) us inputs)) s.db =
      some db := by
  refine Layout.applyAll_inserts_isSome (t := Table.envVars) (fun r hr => ?_) ?_
  · obtain ⟨u, hu, input, rfl⟩ := mem_zipWith_newEnvVar hr
    exact new_of_fresh x secretKey (h.2 u hu) input
  · obtain ⟨hnodup, -⟩ := h
    induction us generalizing inputs with
    | nil => exact .nil
    | cons u us ih =>
      cases inputs with
      | nil => exact .nil
      | cons input inputs =>
        obtain ⟨hnotin, hnodup⟩ := List.nodup_cons.mp hnodup
        refine .cons (fun r hr => ?_) (ih inputs hnodup)
        obtain ⟨u', hu', input', rfl⟩ := mem_zipWith_newEnvVar hr
        intro c hc hcol
        cases List.mem_singleton.mp (show c ∈ [0] from hc)
        cases hcol
        exact hnotin hu'

/-- The rows of a transaction, before the commit. -/
theorem yields_createEnvVarRecords (inputs : List CreateEnvVarInput) :
    Yields i (inputs.mapM (createEnvVarRecord x secretKey .transaction)) (fun xs r s' =>
      s'.db = s.db ∧ (∀ e, r = .error e → ¬ NoFailure xs) ∧
      ∀ records, r = .ok records → ∃ us, us.length = inputs.length ∧ FreshIds s us ∧
        records = List.zipWith (newEnvVar x secretKey) us inputs) s := by
  induction inputs generalizing s with
  | nil =>
    rw [List.mapM_nil]
    refine yields_pure ⟨rfl, nofun, fun records hr => ?_⟩
    cases hr
    exact ⟨[], rfl, ⟨List.nodup_nil, nofun⟩, rfl⟩
  | cons input inputs ih =>
    rw [List.mapM_cons]
    unfold createEnvVarRecord
    rw [bind_assoc]
    refine yields_nowV7 fun u hu => ?_
    refine yields_txCreate (fun e => ⟨rfl, fun _ _ h => h e (by simp), nofun⟩) (fun hnone => ?_) ?_
    · obtain ⟨db, hdb⟩ := Layout.apply_insert_isSome
        (new_of_fresh x secretKey hu input)
      rw [show layout.apply (.insert .envVars (newEnvVar x secretKey u input)) s.db = none from hnone] at hdb
      cases hdb
    · refine yields_bind (Yields.mono ih fun xs r s' hr => ?_)
      obtain ⟨hdb, herr, hok⟩ := hr
      cases r with
      | error e =>
        refine ⟨hdb, fun _ _ h => herr e rfl ?_, nofun⟩
        exact (noFailure_cons (by simp)).mp ((noFailure_cons (by simp)).mp h)
      | ok records =>
        refine yields_pure ⟨hdb, nofun, fun all hall => ?_⟩
        cases hall
        obtain ⟨us, hlen, hfresh, rfl⟩ := hok records rfl
        exact ⟨u :: us, congrArg (· + 1) hlen, FreshIds.cons (s.issue i u hu) hu rfl (fun _ _ hr => hr) hfresh,
          rfl⟩

/-- What `create_env_vars` leaves behind. -/
structure CreatesAll (x : Ext) (secretKey : String) (inputs : List CreateEnvVarInput) (s : World)
    (xs : List Ans) (r : Except Abort (List EnvVarResponse)) (s' : World) : Prop where
  failed : ∀ e, r = .error e → s'.db = s.db
  rejected : NoFailure xs → ((∃ e, r = .error e) ↔ ∃ input ∈ inputs, scopeError s.db input ≠ none)
  done : ∀ out, r = .ok out → (∀ input ∈ inputs, scopeError s.db input = none) ∧
    ∃ us, us.length = inputs.length ∧ FreshIds s us ∧
      OnlyEnvVars s s' (List.zipWith (newEnvVar x secretKey) us inputs) ∧
      out = (List.zipWith (newEnvVar x secretKey) us inputs).map envVarResponse

theorem yields_createEnvVars (inputs : List CreateEnvVarInput) :
    Yields i (createEnvVars x secretKey inputs) (CreatesAll x secretKey inputs s) s := by
  unfold createEnvVars
  have hcheck : Checks i (inputs.forM validateEnvVarScope)
      (inputs.findSome? (scopeError s.db)) s := checks_forM checks_validateEnvVarScope inputs
  refine yields_bind (Yields.mono hcheck fun xs r s' hr => ?_)
  obtain ⟨rfl, ⟨hxs, rfl⟩ | ⟨e, he, rfl⟩⟩ := hr
  · cases hfind : inputs.findSome? (scopeError s'.db) with
    | some e =>
      dsimp only
      obtain ⟨input, hin, herr⟩ := List.exists_of_findSome?_eq_some hfind
      exact ⟨fun _ _ => rfl, fun _ => ⟨fun _ => ⟨input, hin, by rw [herr]; nofun⟩,
        fun _ => ⟨_, rfl⟩⟩, nofun⟩
    | none =>
      have hnone := List.findSome?_eq_none_iff.mp hfind
      -- a failure after the check, before anything is written
      have early : ∀ (ys : List Ans) (e : Abort) (s₁ : World), s₁.db = s'.db → ¬ NoFailure ys →
          CreatesAll x secretKey inputs s' (xs ++ ys) (.error e) s₁ := fun ys e s₁ hs hys =>
        ⟨fun _ _ => hs, fun h => absurd (noFailure_append.mp h).2 hys, nofun⟩
      dsimp only
      refine yields_transaction (fun e => early [_] _ _ rfl fun h => h e (by simp)) ?_
      refine yields_bind (Yields.mono (yields_createEnvVarRecords inputs) fun ys r s₁ hr => ?_)
      obtain ⟨hdb, herr, hok⟩ := hr
      cases r with
      | error e =>
        exact early (.done :: ys) e s₁ hdb fun h => herr e rfl ((noFailure_cons (by simp)).mp h)
      | ok records =>
        obtain ⟨us, hlen, hfresh, rfl⟩ := hok records rfl
        obtain ⟨db, hinserts⟩ := inserts_isSome x secretKey hfresh inputs
        refine yields_commit (fun e => early (.done :: (ys ++ [_])) _ _ hdb fun h => h e (by simp))
          (fun hnone => ?_) fun db' hdb' => ?_
        · rw [hdb, hinserts] at hnone
          cases hnone
        · rw [hdb, hinserts] at hdb'
          cases hdb'
          refine yields_pure ⟨nofun, fun _ => ⟨nofun, ?_⟩, fun out hout => ?_⟩
          · rintro ⟨input, hin, herr⟩
            exact absurd (hnone input hin) herr
          · cases hout
            exact ⟨hnone, us, hlen, hfresh, OnlyEnvVars.of_inserts _ hinserts, rfl⟩
  · dsimp only
    exact ⟨fun _ _ => rfl, fun h => absurd he (h e), nofun⟩

/-! ## One by one -/

theorem yields_createEnvVar (input : CreateEnvVarInput) :
    Yields i (createEnvVar x secretKey input) (fun xs r s' =>
      (∀ e, r = .error e → NoFailure xs → scopeError s.db input ≠ none) ∧
      ∀ out, r = .ok out → scopeError s.db input = none ∧ ∃ u, s.fresh u = true ∧
        s'.issued = (i, u) :: s.issued ∧ OnlyEnvVars s s' [newEnvVar x secretKey u input] ∧
        out = envVarResponse (newEnvVar x secretKey u input)) s := by
  unfold createEnvVar
  refine yields_bind (Yields.mono (checks_validateEnvVarScope input) fun xs r s' hr => ?_)
  obtain ⟨rfl, ⟨hxs, rfl⟩ | ⟨e, he, rfl⟩⟩ := hr
  · cases hscope : scopeError s'.db input with
    | some e => exact ⟨fun _ _ _ => nofun, nofun⟩
    | none =>
      dsimp only
      unfold createEnvVarRecord
      rw [bind_assoc]
      refine yields_nowV7 fun u hu => ?_
      refine yields_create (fun e => ⟨fun _ _ h => absurd (by simp) (h e), nofun⟩)
        (fun hnone => ?_) fun db hdb => ?_
      · obtain ⟨db, hdb⟩ := Layout.apply_insert_isSome (new_of_fresh x secretKey hu input)
        rw [show layout.apply (.insert .envVars (newEnvVar x secretKey u input)) s'.db = none from
          hnone] at hdb
        cases hdb
      · refine yields_pure ⟨nofun, fun out hout => ⟨rfl, u, hu, rfl, ?_, ?_⟩⟩
        · exact OnlyEnvVars.of_inserts [newEnvVar x secretKey u input]
            (Layout.applyAll_cons.mpr ⟨db, hdb, Layout.applyAll_nil.mpr rfl⟩)
        · cases hout
          rfl
  · exact ⟨fun _ _ h => absurd he (h e), nofun⟩

/-- The check can be run without a failure, and says what it says. -/
theorem run_validateEnvVarScope (input : CreateEnvVarInput) : ∃ ys, NoFailure ys ∧
    Prog.run exec i (validateEnvVarScope input) ys s = some (match scopeError s.db input with
      | some e => .error (.api e)
      | none => .ok (), s) := by
  have hreads : Flow.All (fun o => ∃ t f, o = .select t f) (validateEnvVarScope input)
      fun _ => True := by
    unfold validateEnvVarScope validateServiceScope getWorkspace ensureEnvironment listEnvironments
      getService
    cases input.environmentId <;> cases input.serviceId <;> simp
  obtain ⟨ys, r, s', hys, hrun⟩ := Prog.All.exists_run (h := exec) (t := i) (s := s)
    (fun a => ∀ e, a ≠ .fail e) hreads (by
      rintro _ ⟨t, f, rfl⟩ s
      exact ⟨.done, _, s, nofun, rfl⟩)
  have hnone : NoFailure ys := fun e he => hys _ he e rfl
  obtain ⟨rfl, ⟨-, rfl⟩ | ⟨e, he, -⟩⟩ := checks_validateEnvVarScope input ys r s' hrun
  · exact ⟨ys, hnone, hrun⟩
  · exact absurd he (hnone e)

variable (x secretKey i s) in
/-- `create_env_var` rejects the input though every statement succeeds. -/
def Rejects (input : CreateEnvVarInput) : Prop :=
  ∃ xs e s', NoFailure xs ∧
    Prog.run exec i (createEnvVar x secretKey input) xs s = some (.error e, s')

theorem rejects_iff {input : CreateEnvVarInput} :
    Rejects x secretKey i s input ↔ scopeError s.db input ≠ none := by
  constructor
  · rintro ⟨xs, e, s', hxs, hrun⟩
    exact (yields_createEnvVar input xs _ s' hrun).1 e rfl hxs
  · intro hne
    obtain ⟨ys, hys, hrun⟩ := run_validateEnvVarScope (i := i) (s := s) input
    cases hscope : scopeError s.db input with
    | none => exact absurd hscope hne
    | some e =>
      rw [hscope] at hrun
      exact ⟨ys, .api e, s, hys, Flow.run_bind_error hrun⟩

variable (x secretKey) in
/-- `create_env_var` on the inputs one after another. -/
def createEnvVarEach (inputs : List CreateEnvVarInput) : Service (List EnvVarResponse) :=
  inputs.mapM (createEnvVar x secretKey)

/-- One successful call after another adds the rows of the inputs in order. -/
theorem yields_createEnvVarEach (inputs : List CreateEnvVarInput) :
    Yields i (createEnvVarEach x secretKey inputs) (fun _ r s' => ∀ out, r = .ok out →
      ∃ us, us.length = inputs.length ∧
        OnlyEnvVars s s' (List.zipWith (newEnvVar x secretKey) us inputs) ∧
        out = (List.zipWith (newEnvVar x secretKey) us inputs).map envVarResponse) s := by
  unfold createEnvVarEach
  induction inputs generalizing s with
  | nil =>
    rw [List.mapM_nil]
    refine yields_pure fun out hout => ?_
    cases hout
    exact ⟨[], rfl, OnlyEnvVars.nil rfl, rfl⟩
  | cons input inputs ih =>
    rw [List.mapM_cons]
    refine yields_bind (Yields.mono (yields_createEnvVar input) fun xs r s₁ hr => ?_)
    cases r with
    | error e => exact nofun
    | ok response =>
      obtain ⟨-, u, -, -, honly, rfl⟩ := hr.2 response rfl
      refine yields_bind (Yields.mono ih fun ys r s₂ hr => ?_)
      cases r with
      | error e => exact nofun
      | ok responses =>
        refine yields_pure fun out hout => ?_
        cases hout
        obtain ⟨us, hlen, honly', rfl⟩ := hr responses rfl
        exact ⟨u :: us, congrArg (· + 1) hlen, honly.append honly', rfl⟩

/-- A row added under a fresh identifier takes only that one. -/
theorem FreshIds.tail {u : Uuid} {us : List Uuid} {s₁ : World} {record : EnvVarRecord}
    (h : FreshIds s (u :: us)) (hissued : s₁.issued = (i, u) :: s.issued)
    (honly : OnlyEnvVars s s₁ [record]) (hid : record.id = u) : FreshIds s₁ us := by
  obtain ⟨hnotin, hnodup⟩ := List.nodup_cons.mp h.1
  refine ⟨hnodup, fun u' hu' => ?_⟩
  have hne : u ≠ u' := fun he => hnotin (he ▸ hu')
  obtain ⟨hnew, hkeys⟩ := fresh_iff.mp (h.2 u' (List.mem_cons_of_mem _ hu'))
  refine fresh_iff.mpr ⟨fun p hp => ?_, fun t r hr => ?_⟩
  · rw [hissued] at hp
    rcases List.mem_cons.mp hp with rfl | hp
    · exact hne
    · exact hnew p hp
  · by_cases ht : t = .envVars
    · subst ht
      rw [honly.1] at hr
      rcases List.mem_append.mp hr with hr | hr
      · exact hkeys _ r hr
      · rw [List.mem_singleton.mp hr]
        intro hcol
        exact hne (hid ▸ Value.uuid.inj (Option.some.inj hcol))
    · rw [honly.2 t ht] at hr
      exact hkeys t r hr

theorem run_createEnvVar {u : Uuid} {input : CreateEnvVarInput} (hu : s.fresh u = true)
    (hscope : scopeError s.db input = none) : ∃ ys s₁,
      Prog.run exec i (createEnvVar x secretKey input) ys s =
        some (.ok (envVarResponse (newEnvVar x secretKey u input)), s₁) ∧
      s₁.issued = (i, u) :: s.issued ∧ OnlyEnvVars s s₁ [newEnvVar x secretKey u input] := by
  obtain ⟨ys, -, hcheck⟩ := run_validateEnvVarScope (i := i) (s := s) input
  rw [hscope] at hcheck
  obtain ⟨db, hdb⟩ := Layout.apply_insert_isSome (new_of_fresh x secretKey hu input)
  have hrecord : Prog.run exec i (createEnvVarRecord x secretKey .handle input) [.uuid u, .done] s =
      some (.ok (newEnvVar x secretKey u input), { s.issue i u hu with db := db }) :=
    Flow.run_bind_ok (run_nowV7 hu) (run_create hdb)
  have hall : Prog.run exec i (createEnvVar x secretKey input) (ys ++ ([.uuid u, .done] ++ [])) s =
      some (.ok (envVarResponse (newEnvVar x secretKey u input)), { s.issue i u hu with db := db }) :=
    Flow.run_bind_ok hcheck (Flow.run_bind_ok hrecord (run_pure _))
  refine ⟨_, _, hall, rfl, ?_⟩
  exact OnlyEnvVars.of_inserts [newEnvVar x secretKey u input]
    (Layout.applyAll_cons.mpr ⟨db, hdb, Layout.applyAll_nil.mpr rfl⟩)

/-- One call after another can add just these rows, when the check has nothing against them. -/
theorem run_createEnvVarEach {us : List Uuid} {inputs : List CreateEnvVarInput}
    (hlen : us.length = inputs.length) (hfresh : FreshIds s us)
    (hscope : ∀ input ∈ inputs, scopeError s.db input = none) :
    ∃ ys s', Prog.run exec i (createEnvVarEach x secretKey inputs) ys s =
      some (.ok ((List.zipWith (newEnvVar x secretKey) us inputs).map envVarResponse), s') ∧
      OnlyEnvVars s s' (List.zipWith (newEnvVar x secretKey) us inputs) := by
  unfold createEnvVarEach
  induction inputs generalizing s us with
  | nil =>
    obtain rfl : us = [] := List.length_eq_zero_iff.mp hlen
    exact ⟨[], s, rfl, OnlyEnvVars.nil rfl⟩
  | cons input inputs ih =>
    cases us with
    | nil => cases hlen
    | cons u us =>
      obtain ⟨ys, s₁, hone, hissued, honly⟩ := run_createEnvVar (x := x) (i := i)
        (hfresh.2 u List.mem_cons_self) (hscope input List.mem_cons_self)
      have hscope' : ∀ input ∈ inputs, scopeError s₁.db input = none := fun input' hin => by
        rw [honly.scopeError_eq]
        exact hscope input' (List.mem_cons_of_mem _ hin)
      obtain ⟨zs, s', hrest, honly'⟩ := ih (Nat.succ.inj hlen) (hfresh.tail hissued honly rfl) hscope'
      rw [List.mapM_cons]
      exact ⟨_, s', Flow.run_bind_ok hone (Flow.run_bind_ok hrest (run_pure _)), honly.append honly'⟩

theorem content_zipWith {us : List Uuid} {inputs : List CreateEnvVarInput}
    (hlen : us.length = inputs.length) :
    (List.zipWith (newEnvVar x secretKey) us inputs).map EnvVarRecord.content =
      inputs.map (CreateEnvVarInput.content x secretKey) := by
  rw [List.map_zipWith]
  have hsnd : (fun u input => (newEnvVar x secretKey u input).content) =
      fun (_ : Uuid) input => CreateEnvVarInput.content x secretKey input := rfl
  rw [hsnd, ← List.map_uncurry_zip_eq_zipWith]
  show (us.zip inputs).map (CreateEnvVarInput.content x secretKey ∘ Prod.snd) = _
  rw [← List.map_map, List.map_snd_zip (by omega)]

theorem content_envVarResponse (records : List EnvVarRecord) :
    (records.map envVarResponse).map EnvVarResponse.content = (records.map EnvVarRecord.content).map
      fun c => (c.1, c.2.1, c.2.2.1, c.2.2.2.1, redact "secret") := by
  rw [List.map_map, List.map_map]
  rfl

/-- **All or nothing, and nothing else than one by one.** Wherever a statement fails, an error
leaves the environment variables as they were, and success adds one row for each input in order.
These rows and the responses are those of calling `create_env_var` on the inputs one after another,
up to the identifiers; some run of these calls gives exactly the same. When no statement fails, the
call is an error if and only if `create_env_var` rejects one of the inputs. -/
theorem createEnvVars_all_or_nothing {inputs : List CreateEnvVarInput} {xs : List Ans}
    {r : Except Abort (List EnvVarResponse)} {s' : World}
    (h : Prog.run exec i (createEnvVars x secretKey inputs) xs s = some (r, s')) :
    (∀ e, r = .error e → s'.db.rows .envVars = s.db.rows .envVars) ∧
    (∀ out, r = .ok out → ∃ records : List EnvVarRecord,
      s'.db.rows .envVars = s.db.rows .envVars ++ records ∧
      records.map EnvVarRecord.content = inputs.map (CreateEnvVarInput.content x secretKey) ∧
      out = records.map envVarResponse ∧
      (∃ ys s₁, Prog.run exec i (createEnvVarEach x secretKey inputs) ys s = some (.ok out, s₁) ∧
        s₁.db.rows .envVars = s'.db.rows .envVars) ∧
      ∀ j ys out' s₁, Prog.run exec j (createEnvVarEach x secretKey inputs) ys s =
          some (.ok out', s₁) →
        ∃ records' : List EnvVarRecord, s₁.db.rows .envVars = s.db.rows .envVars ++ records' ∧
          records'.map EnvVarRecord.content = records.map EnvVarRecord.content ∧
          out'.map EnvVarResponse.content = out.map EnvVarResponse.content) ∧
    (NoFailure xs → ((∃ e, r = .error e) ↔ ∃ input ∈ inputs, Rejects x secretKey i s input)) := by
  have hall := yields_createEnvVars inputs xs r s' h
  refine ⟨fun e he => by rw [hall.failed e he], fun out hout => ?_, fun hxs => ?_⟩
  · obtain ⟨hscope, us, hlen, hfresh, honly, rfl⟩ := hall.done out hout
    refine ⟨_, honly.1, content_zipWith hlen, rfl, ?_, fun j ys out' s₁ hrun => ?_⟩
    · obtain ⟨ys, s₁, hrun, honly₁⟩ := run_createEnvVarEach (i := i) hlen hfresh hscope
      exact ⟨ys, s₁, hrun, honly₁.1.trans honly.1.symm⟩
    · obtain ⟨us', hlen', honly', rfl⟩ := yields_createEnvVarEach inputs ys _ s₁ hrun out' rfl
      refine ⟨_, honly'.1, ?_, ?_⟩
      · rw [content_zipWith hlen', content_zipWith hlen]
      · rw [content_envVarResponse, content_envVarResponse, content_zipWith hlen',
          content_zipWith hlen]
  · simp only [rejects_iff]
    exact hall.rejected hxs

end envVars

namespace Symbolic

/-- A workspace to keep variables in. -/
def shopFloor : World := .start {
  rows := fun
    | .workspaces => [⟨9, "Shop", none⟩]
    | _ => []
  unique := fun t _ _ => by
    cases t <;> first | exact List.nodup_nil | exact List.nodup_singleton _ }

def twoVariables : List CreateEnvVarInput :=
  [⟨9, none, none, "REGION", "north"⟩, ⟨9, none, none, "TOKEN", "hush"⟩]

theorem createEnvVars_all_or_nothing_two : ∃ out s',
    Prog.run exec 0 (CredentialService.createEnvVars ext "key" twoVariables)
      [.done, .done, .done, .uuid 1, .done, .uuid 2, .done, .done] shopFloor =
        some (.ok out, s') ∧
    ∃ records : List EnvVarRecord,
      s'.db.rows .envVars = shopFloor.db.rows .envVars ++ records ∧
      records.map EnvVarRecord.content = twoVariables.map (CreateEnvVarInput.content ext "key") := by
  have hsome : (Prog.run exec 0 (CredentialService.createEnvVars ext "key" twoVariables)
      [.done, .done, .done, .uuid 1, .done, .uuid 2, .done, .done] shopFloor).map
        (fun r => r.1.isOk) = some true := by decide +kernel
  obtain ⟨⟨r, s'⟩, hrun, hok⟩ := Option.map_eq_some_iff.mp hsome
  cases r with
  | error e => cases hok
  | ok out =>
    obtain ⟨records, hrows, hcontent, -⟩ := (createEnvVars_all_or_nothing hrun).2.1 out rfl
    exact ⟨out, s', hrun, records, hrows, hcontent⟩

end Symbolic

end Wara
