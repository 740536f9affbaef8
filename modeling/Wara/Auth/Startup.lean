import Wara.Auth.StartPoints

/-!
# Several instances starting at once

Any number of `bootstrap_admin` calls with one configuration, statement by
statement on one database. `bootstrapAdmin_converges_iff` says which
interleavings end with one administrator, one active key and no error.
-/

namespace Wara

open Interleave Store Service AuthService

namespace StartUp

section runs

variable {x : Ext} {config : Config}

abbrev StartPool := Pool Res World (Except Abort Unit)

/-- `n` instances that start with one configuration. -/
def startPool (x : Ext) (config : Config) (n : Nat) (w : World) : StartPool :=
  ⟨List.replicate n (bootstrapAdmin x config), w⟩

def Deactivates (e : Event Res World) : Prop := e.op = .write deactivateWrite

def CreatesUser (e : Event Res World) : Prop := ∃ u : UserRecord, e.op = .write (.insert .users u)

/-- The statement makes the key with this identifier active. -/
def Activates (e : Event Res World) (id : Uuid) : Prop :=
  (∃ sets, e.op = .write (.update .jwtPublicKeys (byId id) sets)) ∨
    ∃ r : JwtPublicKeyRecord, e.op = .write (.insert .jwtPublicKeys r) ∧ r.id = id

/-- The statement makes a key active while another one is. -/
def Doubles (e : Event Res World) : Prop :=
  ∃ id, Activates e id ∧ ∃ r ∈ e.pre.keys, r.isActive = true ∧ r.id ≠ id

/-- The database refuses a statement only for a unique column. -/
def Answered (e : Event Res World) : Prop :=
  e.op.succeeded e.res = false → layout.applyAll e.op.writes e.pre.db = none

instance (e : Event Res World) : Decidable (Answered e) := inferInstanceAs (Decidable (_ → _))

/-- Every call returns `Ok`, there is one `super_admin`, and one key is active. -/
structure Converged (P : StartPool) : Prop where
  returned : ∀ p ∈ P.threads, p = .ret (.ok ())
  admin : ∃ u : UserRecord, (P.state.db.rows .users).filter
    (fun u : UserRecord => u.role = Role.superAdmin.asStr) = [u]
  active : ∃ r, P.state.keys.filter (·.isActive) = [r]

/-- The interleaving is one of those that end well. -/
structure Orderly (x : Ext) (config : Config) (n : Nat) (es : List (Event Res World)) : Prop where
  started : n ≠ 0
  key : ∃ key, rsaPublicKeyComponents x config.jwtPublicKey = .ok key
  answered : ∀ e ∈ es, Answered e
  hashed : ∀ e ∈ es, ¬ Unhashed x config e
  /-- Nobody creates the administrator while there is one. -/
  admins : ∀ e ∈ es, CreatesUser e → e.pre.db.rows .users = []
  /-- After a second key has been made active, the keys are deactivated again. -/
  keys : ∀ es₁ e es₂, es = es₁ ++ e :: es₂ → Doubles e → ∃ e' ∈ es₂, Deactivates e'

/-! ## From the points to the pool -/

section points

variable {key : String × String} {n : Nat} {w w' : World} {pcs : List Point}
  {es : List (Event Res World)}

theorem sound_start (hw : ∀ t, w.db.rows t = []) :
    Sound config (List.replicate n Point.list) w := by
  refine ⟨fun u hu => ?_, fun i pc hpc => ?_⟩
  · rw [hw .users] at hu
    cases hu
  · rw [List.eq_of_mem_replicate (List.mem_of_getElem? hpc)]
    trivial

abbrev Point.IsError (pc : Point) : Prop := ∃ err, pc = .done (.error err)

theorem not_moves_done {r : Except Abort Unit} {o : Op} {res : Res o} {pc' : Point} :
    ¬ (control x config key).moves (.done r) o res pc' := by
  intro h
  cases h with
  | failed hop _ => cases hop

theorem done_of_prog {pc : Point} {r : Except Abort Unit}
    (h : pc.prog x config key = Prog.ret r) : pc = .done r := by
  cases pc with
  | done result =>
    have heq : (Prog.ret result : Prog Res (Except Abort Unit)) = .ret r := h
    cases heq
    rfl
  | _ => cases h

/-- An event of a run, its step and what holds before it. -/
theorem sound_of_mem {pcs₀ : List Point} (hs : Sound config pcs₀ w)
    (hr : (control x config key).Runs exec pcs₀ w es pcs w') {e : Event Res World} (he : e ∈ es) :
    ∃ pcs₁ pc pc', pcs₁[e.tid]? = some pc ∧ Sound config pcs₁ e.pre ∧
      (control x config key).Step exec e pc pc' ∧ (pc'.IsError → ∃ pc ∈ pcs, pc.IsError) := by
  obtain ⟨es₁, es₂, rfl⟩ := List.append_of_mem he
  obtain ⟨pcs₁, pc, pc', hpc, hfirst, hstep, hlast⟩ := hr.split
  refine ⟨pcs₁, pc, pc', hpc, hfirst.keeps hs fun e _ pcs pc pc' hpc hstep hpre =>
    hpre.step hpc hstep, hstep, ?_⟩
  rintro ⟨err, rfl⟩
  obtain ⟨hlt, -⟩ := List.getElem?_eq_some_iff.mp hpc
  exact ⟨_, hlast.stays (List.mem_set hlt _) fun _ _ _ => not_moves_done, err, rfl⟩

/-! ## Active keys -/

/-- At most one key is active. -/
def Single (w : World) : Prop :=
  ∀ r ∈ w.keys, ∀ r' ∈ w.keys, r.isActive = true → r'.isActive = true → r.id = r'.id

theorem single_of (id : Uuid) (h : ∀ r ∈ w.keys, r.isActive = true → r.id = id) : Single w :=
  fun r hr r' hr' ha ha' => (h r hr ha).trans (h r' hr' ha').symm

theorem Effect.keys_cases {e : Event Res World} {pc pc' : Point}
    (h : Effect x config key e pc pc') : e.post.keys = e.pre.keys ∨
      (Deactivates e ∧ e.post.keys = e.pre.keys.map JwtPublicKeyRecord.deactivated) ∨
      (∃ id, Activates e id ∧ e.post.keys = e.pre.keys.map fun r =>
        if r.id = id then r.activated key.1 key.2 else r) ∨
      ∃ r, Activates e r.id ∧ r.isActive = true ∧ e.post.keys = e.pre.keys ++ [r] := by
  cases h with
  | deactivate hop hkeys husers hissued => exact .inr (.inl ⟨hop, hkeys⟩)
  | activate hop hkeys husers hissued => exact .inr (.inr (.inl ⟨_, .inl ⟨_, hop⟩, hkeys⟩))
  | createKey hop hkeys husers hissued =>
    exact .inr (.inr (.inr ⟨_, .inr ⟨_, hop, rfl⟩, rfl, hkeys⟩))
  | createAdmin hop husers hkeys hissued => exact .inl hkeys
  | list_none hs | clock hs | users_none hs | salt hs => rw [hs]; exact .inl rfl
  | mintKey _ hs | mintAdmin _ hs | list_some _ hs | find_some _ hs => rw [hs]; exact .inl rfl
  | find_none _ hs | users_some _ hs | unhashed _ hs => rw [hs]; exact .inl rfl
  | failed _ _ hs => rw [hs]; exact .inl rfl

theorem single_of_deactivates {e : Event Res World} {pc pc' : Point}
    (hstep : (control x config key).Step exec e pc pc') (hok : ¬ pc'.IsError)
    (h : Deactivates e) : Single e.post := by
  have hop := op_of_step hstep
  rw [h] at hop
  cases effect hstep with
  | deactivate _ hkeys husers hissued =>
    intro r hr r' hr' ha
    rw [hkeys] at hr
    obtain ⟨r₀, -, rfl⟩ := List.mem_map.mp hr
    cases ha
  | failed => exact absurd ⟨_, rfl⟩ hok
  | _ => cases hop

theorem single_step {e : Event Res World} {pc pc' : Point} (h : Effect x config key e pc pc')
    (hno : ¬ Doubles e) (hs : Single e.pre) : Single e.post := by
  rcases h.keys_cases with hkeys | ⟨-, hkeys⟩ | ⟨id, hact, hkeys⟩ | ⟨r₁, hact, -, hkeys⟩
  · intro r hr r' hr'
    rw [hkeys] at hr hr'
    exact hs r hr r' hr'
  · intro r hr r' hr' ha
    rw [hkeys] at hr
    obtain ⟨r₀, -, rfl⟩ := List.mem_map.mp hr
    cases ha
  · -- the others were not active before
    refine single_of id fun r hr ha => ?_
    rw [hkeys] at hr
    obtain ⟨r₀, hr₀, rfl⟩ := List.mem_map.mp hr
    by_cases hid : r₀.id = id
    · rw [if_pos hid]
      exact hid
    · rw [if_neg hid] at ha
      exact absurd ⟨id, hact, r₀, hr₀, ha, hid⟩ hno
  · refine single_of r₁.id fun r hr ha => ?_
    rw [hkeys] at hr
    rcases List.mem_append.mp hr with hr | hr
    · by_contra hid
      exact hno ⟨r₁.id, hact, r, hr, ha, hid⟩
    · rw [List.mem_singleton.mp hr]

/-- A key stays active as long as the keys are not deactivated. -/
theorem active_step {e : Event Res World} {pc pc' : Point} (h : Effect x config key e pc pc')
    (hno : ¬ Deactivates e) {id : Uuid} (ha : ∃ r ∈ e.pre.keys, r.isActive = true ∧ r.id = id) :
    ∃ r ∈ e.post.keys, r.isActive = true ∧ r.id = id := by
  obtain ⟨r, hr, hactive, hid⟩ := ha
  rcases h.keys_cases with hkeys | ⟨hdeact, -⟩ | ⟨id₁, -, hkeys⟩ | ⟨r₁, -, -, hkeys⟩
  · rw [hkeys]
    exact ⟨r, hr, hactive, hid⟩
  · exact absurd hdeact hno
  · rw [hkeys]
    refine ⟨_, List.mem_map_of_mem hr, ?_⟩
    by_cases hid₁ : r.id = id₁
    · rw [if_pos hid₁]
      exact ⟨rfl, hid⟩
    · rw [if_neg hid₁]
      exact ⟨hactive, hid⟩
  · rw [hkeys]
    exact ⟨r, List.mem_append_left _ hr, hactive, hid⟩

theorem Activates.not_deactivates {e : Event Res World} {id : Uuid} (h : Activates e id) :
    ¬ Deactivates e := by
  intro hdeact
  rcases h with ⟨sets, hop⟩ | ⟨r, hop, -⟩
  · cases hop.symm.trans hdeact
  · cases hop.symm.trans hdeact

theorem active_of_activates {e : Event Res World} {pc pc' : Point}
    (hstep : (control x config key).Step exec e pc pc') (hok : ¬ pc'.IsError)
    (hknows : Knows e.tid e.pre pc) {id : Uuid} (h : Activates e id) :
    ∃ r ∈ e.post.keys, r.isActive = true ∧ r.id = id := by
  have hop := op_of_step hstep
  rcases h with ⟨sets, he⟩ | ⟨r, he, rfl⟩
  · rw [he] at hop
    cases effect hstep with
    | @activate id₁ _ hkeys husers hissued =>
      cases hop
      obtain ⟨r, hr, hid⟩ := hknows
      rw [hkeys]
      exact ⟨r.activated key.1 key.2, List.mem_map.mpr ⟨r, hr, if_pos hid⟩, rfl, hid⟩
    | failed => exact absurd ⟨_, rfl⟩ hok
    | _ => cases hop
  · rw [he] at hop
    cases effect hstep with
    | createKey _ hkeys husers hissued =>
      cases hop
      rw [hkeys]
      exact ⟨_, List.mem_append_right _ (List.mem_singleton_self _), rfl, rfl⟩
    | failed => exact absurd ⟨_, rfl⟩ hok
    | _ => cases hop

/-- Where a call has not made its key active yet. -/
def Point.OwesKey : Point → Prop
  | .list | .mintKey | .deactivate _ | .find _ | .activate _ | .clock _ | .createKey _ _ => True
  | _ => False

theorem owesKey_step {e : Event Res World} {pc pc' : Point} (h : Effect x config key e pc pc')
    (hknows : Knows e.tid e.pre pc) (hok : ¬ pc'.IsError) (howes : pc.OwesKey) :
    pc'.OwesKey ∨ ∃ r ∈ e.post.keys, r.isActive = true := by
  cases h with
  | @activate id hop hkeys husers hissued =>
    obtain ⟨r, hr, hid⟩ := hknows
    refine .inr ⟨r.activated key.1 key.2, ?_, rfl⟩
    rw [hkeys]
    exact List.mem_map.mpr ⟨r, hr, if_pos hid⟩
  | @createKey id t hop hkeys husers hissued =>
    refine .inr ⟨keyRow x key id t, ?_, rfl⟩
    rw [hkeys]
    exact List.mem_append_right _ (List.mem_singleton_self _)
  | list_some | list_none | mintKey | deactivate => exact .inl trivial
  | find_some | find_none | clock => exact .inl trivial
  | failed => exact absurd ⟨_, rfl⟩ hok
  | _ => cases howes

theorem activeKey_step {e : Event Res World} {pc pc' : Point}
    (hstep : (control x config key).Step exec e pc pc') (ha : ∃ r ∈ e.pre.keys, r.isActive = true) :
    pc'.OwesKey ∨ ∃ r ∈ e.post.keys, r.isActive = true := by
  by_cases hdeact : Deactivates e
  · have hop := op_of_step hstep
    rw [hdeact] at hop
    cases effect hstep with
    | deactivate => exact .inl trivial
    | failed _ _ hs => rw [hs]; exact .inr ha
    | _ => cases hop
  · obtain ⟨r, hr, hactive⟩ := ha
    obtain ⟨r', hr', hactive', -⟩ := active_step (effect hstep) hdeact ⟨r, hr, hactive, rfl⟩
    exact .inr ⟨r', hr', hactive'⟩

/-! ## The administrator -/

def Point.OwesAdmin (pc : Point) : Prop := ∀ r, pc ≠ .done r

theorem owesAdmin_step {e : Event Res World} {pc pc' : Point}
    (h : Effect x config key e pc pc') (hok : ¬ pc'.IsError) :
    pc'.OwesAdmin ∨ e.post.db.rows .users ≠ [] := by
  cases h with
  | users_some hne hs => rw [hs]; exact .inr hne
  | createAdmin hop husers hkeys hissued =>
    rw [husers]
    exact .inr (List.append_ne_nil_of_right_ne_nil _ (List.cons_ne_nil _ _))
  | unhashed | failed => exact absurd ⟨_, rfl⟩ hok
  | _ => exact .inl nofun

theorem users_step {e : Event Res World} {pc pc' : Point} (h : Effect x config key e pc pc')
    (hne : e.pre.db.rows .users ≠ []) : e.post.db.rows .users ≠ [] := by
  rcases h.users_eq with husers | ⟨_, _, husers, -⟩
  · rwa [husers]
  · rw [husers]
    exact List.append_ne_nil_of_left_ne_nil hne _

theorem createsUser_of_point {e : Event Res World} {pc' : Point} {passwordHash : String} {id : Uuid}
    (hstep : (control x config key).Step exec e (.createAdmin passwordHash id) pc') :
    CreatesUser e :=
  ⟨_, (Option.some.inj (op_of_step hstep)).symm⟩

/-! ## Orderly runs converge -/

theorem Orderly.ok (ho : Orderly x config n es) {e : Event Res World} (he : e ∈ es)
    {pcs₁ : List Point} {pc pc' : Point} (hpc : pcs₁[e.tid]? = some pc)
    (hstep : (control x config key).Step exec e pc pc') (hs : Sound config pcs₁ e.pre) :
    ¬ pc'.IsError := by
  rintro ⟨err, rfl⟩
  cases effect hstep with
  | unhashed hsalt => exact ho.hashed e he hsalt
  | failed hop hfail =>
    obtain ⟨db, hdb⟩ := applies_of_knows hop (hs.points _ _ hpc) fun passwordHash id hpc' => by
      subst hpc'
      exact ho.admins e he (createsUser_of_point hstep)
    rw [ho.answered e he hfail] at hdb
    cases hdb

theorem bootstrapAdmin_threads (hkey : rsaPublicKeyComponents x config.jwtPublicKey = .ok key)
    (w : World) : (startPool x config n w).threads =
      (List.replicate n Point.list).map (control x config key).prog := by
  unfold startPool
  rw [bootstrapAdmin_eq hkey, List.map_replicate]
  rfl

section orderly

variable (ho : Orderly x config n es) (hw : ∀ t, w.db.rows t = [])
  (hr : (control x config key).Runs exec (List.replicate n .list) w es pcs w')

include ho hw hr

theorem Orderly.no_error : ∀ pc ∈ pcs, ¬ pc.IsError := by
  have hstart : ∀ pc ∈ List.replicate n Point.list, ¬ pc.IsError := by
    intro pc hpc
    rw [List.eq_of_mem_replicate hpc]
    nofun
  refine (hr.keeps (I := fun pcs w => Sound config pcs w ∧ ∀ pc ∈ pcs, ¬ pc.IsError)
    ⟨sound_start hw, hstart⟩ fun e he pcs pc pc' hpc hstep hpre =>
      ⟨hpre.1.step hpc hstep, fun pc₁ hpc₁ => ?_⟩).2
  rcases List.mem_or_eq_of_mem_set hpc₁ with hmem | rfl
  · exact hpre.2 pc₁ hmem
  · exact ho.ok he hpc hstep hpre.1

theorem Orderly.users_ne_nil (hend : ∀ pc ∈ pcs, ∃ r, pc = .done r) :
    w'.db.rows .users ≠ [] := by
  rcases hr.owed (I := Sound config) (O := Point.OwesAdmin)
    (A := fun w => w.db.rows .users ≠ []) (sound_start hw)
    (fun e _ _ _ _ hpc hstep hpre => hpre.step hpc hstep)
    (.inr ⟨.list, List.mem_replicate.mpr ⟨ho.started, rfl⟩, nofun⟩)
    (fun e he _ _ _ hpc hstep hpre _ => owesAdmin_step (effect hstep) (ho.ok he hpc hstep hpre))
    (fun e _ _ _ hstep hne => .inr (users_step (effect hstep) hne)) with hne | ⟨pc, hpc, howes⟩
  · exact hne
  · obtain ⟨r, hdone⟩ := hend pc hpc
    exact absurd hdone (howes r)

theorem Orderly.users_length : (w'.db.rows .users).length ≤ 1 := by
  refine hr.keeps (I := fun _ w => (w.db.rows .users).length ≤ 1) (by rw [hw]; decide)
    fun e he pcs pc pc' _ hstep hpre => ?_
  rcases (effect hstep).users_eq with husers | ⟨_, _, husers, rfl, -⟩
  · rwa [husers]
  · rw [husers, ho.admins e he (createsUser_of_point hstep)]
    exact Nat.le_refl 1

theorem Orderly.single : Single w' := by
  refine hr.restored (R := Deactivates) (S := Doubles) (.inl ?_) (fun e he hdeact => ?_)
    (fun e he hno hs => ?_) ho.keys
  · intro r hmem
    rw [World.keys, hw] at hmem
    cases hmem
  · obtain ⟨pcs₁, pc, pc', hpc, hs, hstep, -⟩ := sound_of_mem (sound_start hw) hr he
    exact single_of_deactivates hstep (ho.ok he hpc hstep hs) hdeact
  · obtain ⟨pc, pc', hstep⟩ := hr.step_of_mem he
    exact single_step (effect hstep) hno hs

theorem Orderly.active (hend : ∀ pc ∈ pcs, ∃ r, pc = .done r) :
    ∃ r ∈ w'.keys, r.isActive = true := by
  rcases hr.owed (I := Sound config) (O := Point.OwesKey)
    (A := fun w => ∃ r ∈ w.keys, r.isActive = true) (sound_start hw)
    (fun e _ _ _ _ hpc hstep hpre => hpre.step hpc hstep)
    (.inr ⟨.list, List.mem_replicate.mpr ⟨ho.started, rfl⟩, trivial⟩)
    (fun e he _ _ _ hpc hstep hpre howes => owesKey_step (effect hstep) (hpre.points _ _ hpc)
      (ho.ok he hpc hstep hpre) howes)
    (fun e _ _ _ hstep ha => activeKey_step hstep ha) with ha | ⟨pc, hpc, howes⟩
  · exact ha
  · obtain ⟨r, rfl⟩ := hend pc hpc
    cases howes

end orderly

theorem filter_eq_singleton {w : World} (hs : Single w) (ha : ∃ r ∈ w.keys, r.isActive = true) :
    ∃ r, w.keys.filter (·.isActive) = [r] := by
  obtain ⟨r, hr, hactive⟩ := ha
  have honly : OnlyActive r.modulus r.exponent w.keys :=
    ⟨r, hr, hactive, rfl, rfl, fun r' hr' hactive' =>
      keys_unique w r' hr' r hr (hs r' hr' r hr hactive' hactive)⟩
  obtain ⟨r', hfilter, -⟩ :=
    honly.filter_eq (List.Nodup.of_map _ (w.db.unique .jwtPublicKeys 0 (by decide)))
  exact ⟨r', hfilter⟩

theorem Orderly.converged (ho : Orderly x config n es) (hw : ∀ t, w.db.rows t = [])
    {P' : StartPool} (hr : Runs exec (startPool x config n w) es P')
    (hend : ∀ p ∈ P'.threads, ∃ r, p = .ret r) : Converged P' := by
  obtain ⟨key, hkey⟩ := ho.key
  obtain ⟨pcs, hthreads, hruns⟩ := Control.runs_of_pool hr (bootstrapAdmin_threads hkey w)
  have hdone : ∀ pc ∈ pcs, ∃ r, pc = .done r := by
    intro pc hpc
    obtain ⟨r, hr⟩ := hend (pc.prog x config key) (hthreads ▸ List.mem_map_of_mem hpc)
    exact ⟨r, done_of_prog hr⟩
  have hsound : Sound config pcs P'.state := hruns.keeps (sound_start hw)
    fun e _ _ _ _ hpc hstep hpre => hpre.step hpc hstep
  refine ⟨fun p hp => ?_, ?_, ?_⟩
  · rw [hthreads] at hp
    obtain ⟨pc, hpc, rfl⟩ := List.mem_map.mp hp
    obtain ⟨r, rfl⟩ := hdone pc hpc
    cases r with
    | ok => rfl
    | error err => exact absurd ⟨err, rfl⟩ (ho.no_error hw hruns _ hpc)
  · obtain ⟨u, husers⟩ : ∃ u, P'.state.db.rows .users = [u] := by
      refine List.length_eq_one_iff.mp (Nat.le_antisymm (ho.users_length hw hruns) ?_)
      exact List.length_pos_iff.mpr (ho.users_ne_nil hw hruns hdone)
    refine ⟨u, ?_⟩
    have hrole := (hsound.users u (by rw [husers]; exact List.mem_singleton_self u)).2
    rw [husers, List.filter_cons_of_pos (by exact decide_eq_true hrole), List.filter_nil]
  · exact filter_eq_singleton (ho.single hw hruns) (ho.active hw hruns hdone)

/-! ## Only they do -/

theorem started_of_converged (hw : ∀ t, w.db.rows t = []) {P' : StartPool}
    (hr : Runs exec (startPool x config n w) es P') (hc : Converged P') : n ≠ 0 := by
  rintro rfl
  obtain ⟨u, hu⟩ := hc.admin
  cases hr with
  | nil =>
    have hnone : (startPool x config 0 w).state.db.rows .users = [] := hw .users
    rw [hnone] at hu
    cases hu
  | cons hk _ _ => cases hk

theorem key_of_converged (hn : n ≠ 0) {P' : StartPool}
    (hr : Runs exec (startPool x config n w) es P') (hc : Converged P') :
    ∃ key, rsaPublicKeyComponents x config.jwtPublicKey = .ok key := by
  cases hkey : rsaPublicKeyComponents x config.jwtPublicKey with
  | ok key => exact ⟨key, rfl⟩
  | error err =>
    have hprog : bootstrapAdmin x config = Prog.ret (.error (.api err)) := by
      unfold bootstrapAdmin syncActiveJwtPublicKey
      rw [hkey]
      rfl
    -- every call is at its end from the start
    have hall := (hr.all (φ := fun _ _ => False) (Q := fun _ r => r = .error (.api err))
      fun i p hp => by
        rw [List.eq_of_mem_replicate (List.mem_of_getElem? hp), hprog]
        exact rfl).2
    have hlt : 0 < P'.threads.length := by
      rw [hr.length_eq]
      show 0 < (List.replicate n (bootstrapAdmin x config)).length
      rw [List.length_replicate]
      omega
    have hfirst := hall 0 P'.threads[0] (List.getElem?_eq_getElem hlt)
    rw [hc.returned _ (List.getElem_mem hlt)] at hfirst
    cases (show (Except.ok () : Except Abort Unit) = .error (.api err) from hfirst)

section converged

variable {P' : StartPool} (hc : Converged P')
  (hthreads : P'.threads = pcs.map (control x config key).prog) (hw : ∀ t, w.db.rows t = [])
  (hr : (control x config key).Runs exec (List.replicate n .list) w es pcs P'.state)

include hc hthreads

theorem Converged.no_error {pc : Point} (hpc : pc ∈ pcs) : ¬ pc.IsError := by
  rintro ⟨err, rfl⟩
  have hret := hc.returned _ (hthreads ▸ List.mem_map_of_mem hpc)
  cases hret

include hw hr

theorem Converged.step_of_mem {e : Event Res World} (he : e ∈ es) :
    ∃ pcs₁ pc pc', pcs₁[e.tid]? = some pc ∧ Sound config pcs₁ e.pre ∧
      (control x config key).Step exec e pc pc' ∧ ¬ pc'.IsError := by
  obtain ⟨pcs₁, pc, pc', hpc, hs, hstep, herr⟩ := sound_of_mem (sound_start hw) hr he
  refine ⟨pcs₁, pc, pc', hpc, hs, hstep, fun hbad => ?_⟩
  obtain ⟨pc₁, hmem, hbad₁⟩ := herr hbad
  exact hc.no_error hthreads hmem hbad₁

/-- A second administrator would have the email of the first. -/
theorem Converged.admins {e : Event Res World} (he : e ∈ es) (hcreate : CreatesUser e) :
    e.pre.db.rows .users = [] := by
  obtain ⟨pcs₁, pc, pc', hpc, hs, hstep, hok⟩ := hc.step_of_mem hthreads hw hr he
  obtain ⟨u, hu⟩ := hcreate
  have hop := op_of_step hstep
  rw [hu] at hop
  cases effect hstep with
  | @createAdmin passwordHash id _ husers hkeys hissued =>
    by_contra hne
    obtain ⟨u₀, hu₀⟩ := List.exists_mem_of_ne_nil _ hne
    have hunique := e.post.db.unique .users 1 (by decide)
    rw [husers, List.map_append, List.nodup_append] at hunique
    refine hunique.2.2 _ (List.mem_map_of_mem hu₀) _
      (List.mem_map_of_mem (List.mem_singleton_self (adminRow config passwordHash id))) ?_
    show some (Value.text u₀.email) = some (.text config.bootstrapAdminEmail)
    rw [(hs.users u₀ hu₀).1]
  | failed => exact absurd ⟨_, rfl⟩ hok
  | _ => cases hop

theorem Converged.keys {es₁ es₂ : List (Event Res World)} {e : Event Res World}
    (hes : es = es₁ ++ e :: es₂) (hd : Doubles e) : ∃ e' ∈ es₂, Deactivates e' := by
  by_contra hno
  subst hes
  obtain ⟨pcs₁, pc, pc', hpc, hs, hstep, hok⟩ := hc.step_of_mem hthreads hw hr
    (List.mem_append_right es₁ List.mem_cons_self)
  obtain ⟨_, _, _, _, -, -, hlast⟩ := hr.split
  -- both keys stay active to the end
  have hkept : ∀ {id : Uuid}, (∃ r ∈ e.post.keys, r.isActive = true ∧ r.id = id) →
      ∃ r ∈ P'.state.keys, r.isActive = true ∧ r.id = id := fun ha =>
    hlast.keeps (I := fun _ w => ∃ r ∈ w.keys, r.isActive = true ∧ r.id = _) ha
      fun e' he' _ _ _ _ hstep' hpre => active_step (effect hstep') (fun hdeact =>
        hno ⟨e', he', hdeact⟩) hpre
  obtain ⟨id, hact, r, hr₀, hactive, hne⟩ := hd
  obtain ⟨r₁, hr₁, hactive₁, hid₁⟩ :=
    hkept (active_of_activates hstep hok (hs.points _ _ hpc) hact)
  obtain ⟨r₂, hr₂, hactive₂, hid₂⟩ :=
    hkept (active_step (effect hstep) hact.not_deactivates ⟨r, hr₀, hactive, rfl⟩)
  obtain ⟨a, hfilter⟩ := hc.active
  have honly : ∀ r' ∈ P'.state.keys, r'.isActive = true → r' = a := by
    intro r' hr' ha
    have hmem : r' ∈ P'.state.keys.filter (·.isActive) := List.mem_filter.mpr ⟨hr', ha⟩
    rw [hfilter] at hmem
    exact List.mem_singleton.mp hmem
  rw [honly r₂ hr₂ hactive₂] at hid₂
  rw [honly r₁ hr₁ hactive₁] at hid₁
  exact hne (hid₂.symm.trans hid₁)

end converged

theorem Converged.orderly (hw : ∀ t, w.db.rows t = []) {P' : StartPool}
    (hr : Runs exec (startPool x config n w) es P') (hc : Converged P') :
    Orderly x config n es := by
  have hn := started_of_converged hw hr hc
  obtain ⟨key, hkey⟩ := key_of_converged hn hr hc
  obtain ⟨pcs, hthreads, hruns⟩ := Control.runs_of_pool hr (bootstrapAdmin_threads hkey w)
  have hstep := fun e (he : e ∈ es) => hc.step_of_mem hthreads hw hruns he
  refine ⟨hn, ⟨key, hkey⟩, fun e he hfail => ?_, fun e he hbad => ?_,
    fun e he => hc.admins hthreads hw hruns he, fun es₁ e es₂ => hc.keys hthreads hw hruns⟩
  · obtain ⟨_, _, _, -, -, hs, hok⟩ := hstep e he
    exact absurd (error_of_step hs (.inl hfail)) hok
  · obtain ⟨_, _, _, -, -, hs, hok⟩ := hstep e he
    exact absurd (error_of_step hs (.inr hbad)) hok

end points

/-- **Starting together.** A complete run of any number of start-ups on an empty database ends well
in the orderly interleavings, and in no others. -/
theorem bootstrapAdmin_converges_iff {n : Nat} {w : World} (hw : ∀ t, w.db.rows t = [])
    {es : List (Event Res World)} {P' : StartPool}
    (hr : Runs exec (startPool x config n w) es P') (hend : ∀ p ∈ P'.threads, ∃ r, p = .ret r) :
    Converged P' ↔ Orderly x config n es :=
  ⟨fun hc => hc.orderly hw hr, fun ho => ho.converged hw hr hend⟩

end runs

end StartUp

/-! ## Two instances -/

namespace Symbolic

open StartUp

/-- What a call has returned. -/
def returned : Prog Res (Except Abort Unit) → Option (Except Abort Unit)
  | .ret r => some r
  | .op _ _ => none

theorem eq_of_returned {p : Prog Res (Except Abort Unit)} {r : Except Abort Unit}
    (h : returned p = some r) : p = .ret r := by
  cases p with
  | ret r' => cases h; rfl
  | op o k => cases h

def twoStarts : StartPool := startPool ext (config "A") 2 (.start (.empty layout))

/-- The second instance starts when the first one is done. -/
def inTurn : List (Nat × Ans) :=
  firstStart.map (0, ·) ++ rollBack.map (1, ·)

theorem inTurn_converges : (twoStarts.run exec inTurn).map (fun P' : StartPool =>
    decide (P'.threads.map returned = [some (.ok ()), some (.ok ())] ∧
      ((P'.state.db.rows .users).filter (fun u : UserRecord => u.role = "super_admin")).length = 1 ∧
      (P'.state.keys.filter (·.isActive)).length = 1)) = some true := by decide +kernel

/-- One after the other: an orderly run, which converges. -/
theorem bootstrapAdmin_converges_inTurn : ∃ es P', Runs exec twoStarts es P' ∧ Converged P' ∧
    Orderly ext (config "A") 2 es := by
  obtain ⟨P', hrun, hall⟩ := Option.map_eq_some_iff.mp inTurn_converges
  obtain ⟨hthreads, hadmin, hactive⟩ := of_decide_eq_true hall
  have hret : ∀ p ∈ P'.threads, p = .ret (.ok ()) := by
    intro p hp
    have hmem : returned p ∈ P'.threads.map returned := List.mem_map_of_mem hp
    rw [hthreads] at hmem
    refine eq_of_returned ?_
    simpa using hmem
  have hconverged : Converged P' :=
    ⟨hret, List.length_eq_one_iff.mp hadmin, List.length_eq_one_iff.mp hactive⟩
  refine ⟨_, P', Pool.run_runs hrun, hconverged, ?_⟩
  exact (bootstrapAdmin_converges_iff (fun _ => rfl) (Pool.run_runs hrun)
    fun p hp => ⟨_, hret p hp⟩).mp hconverged

/-- Both instances find neither a key nor a user. -/
def atOnce : List (Nat × Ans) :=
  let noon : Ans := .time ⟨10000000000⟩
  let salt : Ans := .bytes (List.replicate 16 0)
  [(0, .done), (1, .done), (0, .uuid 5), (1, .uuid 6), (0, .done), (1, .done), (0, .done),
    (1, .done), (0, noon), (1, noon), (0, .done), (1, .done), (0, .done), (1, .done), (0, salt),
    (1, salt), (0, .uuid 1), (1, .uuid 2), (0, .done), (1, .done)]

/-- The second administrator is refused, and both keys are active. -/
theorem atOnce_diverges : (twoStarts.run exec atOnce).map (fun P' : StartPool =>
    decide (P'.threads.map returned = [some (.ok ()),
        some (.error (.api (.internal ("database operation failed: " ++ duplicateKey))))] ∧
      (P'.state.keys.filter (·.isActive)).map JwtPublicKeyRecord.id = [5, 6])) = some true := by
  decide +kernel

theorem bootstrapAdmin_diverges : ¬ ∀ (x : Ext) (config : Config) (n : Nat) (w : World)
    (es : List (Event Res World)) (P' : StartPool), x.Lawful →
    (∃ now, config.validateJwtKeyConfig x now = .ok ()) → n ≠ 0 → (∀ t, w.db.rows t = []) →
    Runs exec (startPool x config n w) es P' → (∀ p ∈ P'.threads, ∃ r, p = .ret r) →
    (∀ e ∈ es, Answered e) → (∀ e ∈ es, ¬ Unhashed x config e) → Converged P' := by
  intro hclaim
  obtain ⟨P', hrun, hall⟩ := Option.map_eq_some_iff.mp atOnce_diverges
  obtain ⟨hthreads, hactive⟩ := of_decide_eq_true hall
  have hend : ∀ p ∈ P'.threads, ∃ r, p = .ret r := by
    intro p hp
    have hmem : returned p ∈ P'.threads.map returned := List.mem_map_of_mem hp
    rw [hthreads] at hmem
    rcases List.mem_cons.mp hmem with h | h
    · exact ⟨_, eq_of_returned h⟩
    · exact ⟨_, eq_of_returned (List.mem_singleton.mp h)⟩
  have hanswered : ∀ e ∈ twoStarts.trace exec atOnce, Answered e := by decide +kernel
  have hconverged := hclaim ext (config "A") 2 _ _ P' ext_lawful valid_config.1 (by decide)
    (fun _ => rfl) (Pool.run_runs hrun) hend hanswered fun e _ hbad => by
      obtain ⟨_, _, _, _, _, -, hhash⟩ := hbad
      cases hhash
  obtain ⟨r, hfilter⟩ := hconverged.active
  rw [hfilter] at hactive
  have hlen := congrArg List.length hactive
  cases hlen

end Symbolic

end Wara
