import Wara.Auth.LastAdmin
import Wara.Auth.Sequential

/-!
# The guards of the last platform admin

`disable_user` and `change_user_role` both refuse to take the last active admin
away. Requests one after another keep an active admin, and then the guard of
`change_user_role` refuses just the updates that would leave none. The guard of
`disable_user` does not look at the status: it also refuses to disable an
invited user who was made `super_admin` while one admin is active.
-/

namespace Wara

open Interleave Store Service AuthService

abbrev SomeActiveSuperAdmin (rs : List UserRecord) : Prop :=
  ∃ r : UserRecord, r ∈ rs ∧ r.isActiveSuperAdmin = true

/-- What `active_super_admin_count` returns. -/
def activeCount (db : Db) : Nat :=
  (List.filter UserRecord.isActiveSuperAdmin (db.rows .users)).length

theorem UserRecord.isActiveSuperAdmin_iff {r : UserRecord} : r.isActiveSuperAdmin = true ↔
    r.role = Role.superAdmin.asStr ∧ r.status = UserStatus.active.asStr := by
  simp [isActiveSuperAdmin]

/-! ## The count -/

section count

variable {db : Db} {id : Uuid} {u : UserRecord}

theorem OnlyActiveSuperAdmin.count_le (h : OnlyActiveSuperAdmin db id) : activeCount db ≤ 1 := by
  obtain ⟨⟨u, hu, ha, hid⟩, hall⟩ := h
  have hsame : ∀ r ∈ List.filter UserRecord.isActiveSuperAdmin (db.rows .users), r = u := by
    intro r hr
    obtain ⟨hr, hra⟩ := List.mem_filter.mp hr
    exact Db.user_eq hr hu ((hall r hr hra).trans hid.symm)
  have hnodup : (List.filter UserRecord.isActiveSuperAdmin (db.rows .users)).Nodup :=
    (List.Nodup.of_map _ (db.unique .users 0 (by decide))).filter _
  unfold activeCount
  rw [List.eq_replicate_of_mem hsame] at hnodup
  exact List.nodup_replicate.mp hnodup

theorem onlyActiveSuperAdmin_of_count (h : activeCount db ≤ 1) (hu : u ∈ db.rows .users)
    (ha : u.isActiveSuperAdmin = true) : OnlyActiveSuperAdmin db u.id := by
  refine ⟨⟨u, hu, ha, rfl⟩, fun r hr hra => ?_⟩
  have hmem : u ∈ List.filter UserRecord.isActiveSuperAdmin (db.rows .users) :=
    List.mem_filter.mpr ⟨hu, ha⟩
  have hmem' : r ∈ List.filter UserRecord.isActiveSuperAdmin (db.rows .users) :=
    List.mem_filter.mpr ⟨hr, hra⟩
  unfold activeCount at h
  obtain ⟨a, hl⟩ := List.length_eq_one_iff.mp
    (Nat.le_antisymm h (List.length_pos_of_mem hmem))
  rw [hl] at hmem hmem'
  rw [List.mem_singleton.mp hmem, List.mem_singleton.mp hmem']

theorem activeCount_pos (h : SomeActiveSuperAdmin (db.rows .users)) : 0 < activeCount db := by
  obtain ⟨r, hr, ha⟩ := h
  exact List.length_pos_of_mem (List.mem_filter.mpr ⟨hr, ha⟩)

/-- The statement and the filter of `active_super_admin_count`. -/
theorem activeCount_eq : (List.filter (fun record : UserRecord =>
      record.status = UserStatus.active.asStr)
      (layout.select db .users (.eq 3 (.text Role.superAdmin.asStr)))).length = activeCount db := by
  have hfilter : ∀ r : UserRecord,
      (decide (r.status = UserStatus.active.asStr) &&
        layout.holds (t := .users) (.eq 3 (.text Role.superAdmin.asStr)) r) =
      r.isActiveSuperAdmin := by
    intro r
    have hcol : layout.col (t := .users) 3 r = some (.text r.role) := rfl
    rw [Bool.eq_iff_iff, Bool.and_eq_true, Layout.holds_eq, hcol, decide_eq_true_iff,
      UserRecord.isActiveSuperAdmin_iff, and_comm]
    simp
  unfold activeCount Layout.select
  rw [List.filter_filter]
  exact congrArg List.length (List.filter_congr fun r _ => hfilter r)

end count

/-! ## An update of one user -/

section update

variable {s s' : World} {u : UserRecord} {f : UserRecord → UserRecord}

/-- An active admin is left unless the update demotes the only one. -/
theorem someActive_editUser_iff (hu : u ∈ s.db.rows .users) (hid : (f u).id = u.id)
    (hadmin : SomeActiveSuperAdmin (s.db.rows .users)) :
    SomeActiveSuperAdmin (editUser u.id f (s.db.rows .users)) ↔
      (f u).isActiveSuperAdmin = true ∨ ¬ OnlyActiveSuperAdmin s.db u.id := by
  constructor
  · rintro ⟨r', hr', ha⟩
    obtain ⟨r, hr, rfl⟩ := List.mem_map.mp hr'
    by_cases hne : r.id = u.id
    · obtain rfl := Db.user_eq hr hu hne
      rw [if_pos rfl] at ha
      exact .inl ha
    · rw [if_neg hne] at ha
      exact .inr fun honly => hne (honly.2 r hr ha)
  · intro h
    rcases h with h | h
    · exact ⟨f u, mem_editUser_self hu, h⟩
    · obtain ⟨r, hr, ha, hne⟩ := HasActiveSuperAdmin.other hadmin h
      exact ⟨r, mem_editUser_of_ne hr hne, ha⟩

theorem someActive_of_update {sets : List (Nat × Value)} {i : Nat} {a : Ans}
    {res : Res (.write (.update .users (byId u.id) sets))} (hu : u ∈ s.db.rows .users)
    (hf : ∀ r : UserRecord, layout.setCols (t := .users) sets r = f r) (hid : (f u).id = u.id)
    (hlast : u.isActiveSuperAdmin = true → (f u).isActiveSuperAdmin = true ∨ 1 < activeCount s.db)
    (h : exec i (.write (.update .users (byId u.id) sets)) a s = some (res, s'))
    (hadmin : SomeActiveSuperAdmin (s.db.rows .users)) :
    SomeActiveSuperAdmin (s'.db.rows .users) := by
  rcases exec_updateUser hf h with hrows | hrows
  · rw [hrows]
    exact hadmin
  · rw [hrows, someActive_editUser_iff hu hid hadmin]
    by_cases honly : OnlyActiveSuperAdmin s.db u.id
    · obtain ⟨r, hr, ha, hrid⟩ := honly.1
      obtain rfl := Db.user_eq hr hu hrid
      rcases hlast ha with hf' | hcount
      · exact .inl hf'
      · have hle := honly.count_le
        omega
    · exact .inr honly

end update

/-! ## An active admin remains -/

section remains

variable {x : Ext} {config : Config} {s s' : World}

/-- What `c && self.active_super_admin_count() <= 1` has found when it is false. -/
theorem ends_atMostOneActive {I : List UserRecord → Prop} {α : Type} {ok : α → World → Prop}
    {c : Prop} [Decidable c] {f : Bool → Service α}
    (h : ∀ s' b, s'.db.rows .users = s.db.rows .users →
      (b = false → c → 1 < activeCount s'.db) → Ends (solo I) (f b) ok s') :
    Ends (solo I) (atMostOneActive c >>= f) ok s := by
  unfold atMostOneActive
  by_cases hc : c
  · simp only [hc, if_true]
    unfold activeSuperAdminCount
    rw [bind_assoc, bind_assoc]
    refine ends_query tame_solo fun s' hs' _ => ?_
    rw [pure_bind, pure_bind, activeCount_eq]
    refine h s' _ hs' fun hb _ => ?_
    simpa using hb
  · simp only [hc, if_false]
    rw [pure_bind]
    exact h s false rfl fun _ hc' => absurd hc' hc

theorem ends_disableUser_admin (userId : Uuid) :
    Ends (solo SomeActiveSuperAdmin) (disableUser userId) (fun _ _ => True) s := by
  unfold disableUser
  refine ends_getUserRecord tame_solo fun s₁ u _ hu hid => ?_
  subst hid
  split
  · exact ends_solo_rest (by simp [userFromRecord])
  · refine ends_atMostOneActive fun s₂ last h₂ hcount => ends_throwIf fun hlast => ?_
    unfold updateUserStatus
    refine ends_update (fun s₃ r s₄ h₃ hs hadmin => ?_) fun _ _ _ _ => ?_
    · obtain ⟨i, a, ha⟩ := hs
      refine someActive_of_update (h₃.trans h₂ ▸ hu) (fun _ => rfl) rfl (fun hactive => .inr ?_)
        ha hadmin
      have hsame : activeCount s₃.db = activeCount s₂.db := by
        unfold activeCount
        rw [h₃]
      rw [hsame]
      exact hcount (Bool.eq_false_iff.mpr hlast) (UserRecord.isActiveSuperAdmin_iff.mp hactive).1
    · exact ends_solo_rest (by simp [getUser, getUserRecord, userFromRecord])

theorem ends_changeUserRole_admin (input : ChangeUserRoleInput) :
    Ends (solo SomeActiveSuperAdmin) (changeUserRole input) (fun _ _ => True) s := by
  unfold changeUserRole
  refine ends_getUserRecord tame_solo fun s₁ u _ hu hid => ?_
  rw [← hid]
  refine ends_atMostOneActive fun s₂ last h₂ hcount => ends_throwIf fun hlast => ?_
  refine ends_update (fun s₃ r s₄ h₃ hs hadmin => ?_) fun _ _ _ _ => ?_
  · obtain ⟨i, a, ha⟩ := hs
    refine someActive_of_update (f := fun r => { r with role := input.role.asStr })
      (h₃.trans h₂ ▸ hu) (fun _ => rfl) rfl (fun hactive => ?_) ha hadmin
    obtain ⟨hrole, hstatus⟩ := UserRecord.isActiveSuperAdmin_iff.mp hactive
    by_cases hsuper : input.role = .superAdmin
    · exact .inl (UserRecord.isActiveSuperAdmin_iff.mpr ⟨congrArg Role.asStr hsuper, hstatus⟩)
    · have hsame : activeCount s₃.db = activeCount s₂.db := by
        unfold activeCount
        rw [h₃]
      rw [hsame]
      exact .inr (hcount (Bool.eq_false_iff.mpr hlast) ⟨hrole, hsuper, hstatus⟩)
  · exact ends_solo_rest (by simp [getUser, getUserRecord, userFromRecord])

/-- Only two requests demote a user. -/
theorem Changes.demotes {q : AuthRequest} {o : Op} {id : Uuid} (h : Changes x q o)
    (hd : Demotes o id) : q = .disableUser id ∨ ∃ input, q = .changeUserRole input := by
  generalize hop : o = op at hd
  cases hd with
  | disable =>
    cases h with
    | disable => cases hop; exact .inl rfl
    | _ => simp [disableWrite, byId, UserStatus.asStr] at hop
  | changeRole _ role =>
    cases h with
    | changeRole input => exact .inr ⟨input, rfl⟩
    | _ => simp [changeRoleWrite, byId] at hop

/-- Every request that runs alone leaves an active admin. -/
theorem ends_someActive (q : AuthRequest) :
    Ends (solo SomeActiveSuperAdmin) (q.serve x config) (fun _ _ => True) s := by
  by_cases hdis : ∃ userId, q = .disableUser userId
  · obtain ⟨userId, rfl⟩ := hdis
    exact ends_map (Flow.Safe.mono (ends_disableUser_admin userId)
      (fun _ _ _ _ _ => trivial) fun _ _ h => h)
  · by_cases hrole : ∃ input, q = .changeUserRole input
    · obtain ⟨input, rfl⟩ := hrole
      exact ends_map (Flow.Safe.mono (ends_changeUserRole_admin input)
        (fun _ _ _ _ _ => trivial) fun _ _ h => h)
    · refine ends_solo_of_steps fun o db db' hch hs hadmin =>
        HasActiveSuperAdmin.step hadmin hs fun id hd => ?_
      rcases hch.demotes hd with hq | hq
      · exact absurd ⟨id, hq⟩ hdis
      · exact absurd hq hrole

/-- A first start of some instance, on a database without users. -/
def Bootstrapped (x : Ext) (s : World) : Prop :=
  ∃ (config : Config) (w : World) (i : Nat) (xs : List Ans), w.db.rows .users = [] ∧
    Prog.run exec i (bootstrapAdmin x config) xs w = some (.ok (), s)

/-- Nothing but the key is written before the users are counted. -/
theorem all_syncActiveJwtPublicKey :
    Flow.All Op.sparesUsers (syncActiveJwtPublicKey x config) fun _ => True := by
  simp [syncActiveJwtPublicKey, Executor.op]

theorem ends_bootstrapAdmin_admin (hw : s.db.rows .users = []) :
    Ends (solo fun _ => True) (bootstrapAdmin x config)
      (fun _ s' => SomeActiveSuperAdmin (s'.db.rows .users)) s := by
  unfold bootstrapAdmin
  refine ends_all all_syncActiveJwtPublicKey (fun o ho s r s' hs => ?_) fun _ s₁ _ h₁ => ?_
  · obtain ⟨i, a, ha⟩ := hs
    exact ⟨fun _ => trivial, ho.rows_eq ha⟩
  · refine ends_query tame_solo fun s₂ h₂ _ => ?_
    have hnone : layout.select s₂.db .users .all = [] := by
      unfold Layout.select
      rw [h₂, h₁, hw]
      rfl
    rw [hnone, if_neg (by simp)]
    refine ends_reads tame_solo (Q := fun _ => True) (by simp [hashPassword, Op.writes])
      fun passwordHash s₃ _ _ => ?_
    refine ends_reads tame_solo (Q := fun _ => True) (by simp [Op.writes]) fun id s₄ _ _ => ?_
    refine ends_create (fun _ _ _ _ _ _ => trivial) fun s₅ s₆ _ hs => ?_
    obtain ⟨i, a, ha⟩ := hs
    refine ends_pure fun s₇ h₇ => ?_
    have hrows : s₆.db.rows .users = s₅.db.rows .users ++ [newAdmin id config.bootstrapAdminEmail
        config.bootstrapAdminName passwordHash] :=
      Layout.apply_insert (applyAll_single (exec_succeeded ha rfl))
    rw [h₇, hrows]
    exact ⟨_, List.mem_append_right _ (List.mem_singleton.mpr rfl),
      UserRecord.isActiveSuperAdmin_iff.mpr ⟨rfl, rfl⟩⟩

theorem Bootstrapped.someActive (h : Bootstrapped x s) :
    SomeActiveSuperAdmin (s.db.rows .users) := by
  obtain ⟨config, w, i, xs, hw, hr⟩ := h
  exact Prog.Safe.post (ends_bootstrapAdmin_admin hw) (fun ha => ⟨_, _, ha⟩) hr

end remains

/-! ## The guards -/

/-- The call is refused with the error just when the users `after` have no active admin, and
otherwise succeeds and puts `after` in place of the users. -/
structure Exact (y : Service User) (error : ApiError) (s : World) (after : List UserRecord) :
    Prop where
  refused : (∃ s', quiet y s = some (.error (.api error), s')) ↔ ¬ SomeActiveSuperAdmin after
  done : SomeActiveSuperAdmin after →
    ∃ user s', quiet y s = some (.ok user, s') ∧ s'.db.rows .users = after

section guards

variable {s : World} {u : UserRecord} {y : Service User} {error : ApiError}
  {after : List UserRecord}

/-- A call that is refused under a guard is exact if the guard is. -/
theorem exact_iff {g : Prop} (hrefuse : g → quiet y s = some (.error (.api error), s))
    (hdone : ¬ g → ∃ user s', quiet y s = some (.ok user, s') ∧ s'.db.rows .users = after) :
    Exact y error s after ↔ (g ↔ ¬ SomeActiveSuperAdmin after) := by
  have hrefused : (∃ s', quiet y s = some (.error (.api error), s')) ↔ g := by
    constructor
    · rintro ⟨s', hs'⟩
      by_contra hg
      obtain ⟨user, s'', hs'', -⟩ := hdone hg
      rw [hs'] at hs''
      cases hs''
    · exact fun hg => ⟨s, hrefuse hg⟩
  constructor
  · exact fun h => hrefused.symm.trans h.refused
  · intro h
    exact ⟨hrefused.trans h, fun hsome => hdone fun hg => h.mp hg hsome⟩

theorem quiet_atMostOneActive (c : Prop) [Decidable c] :
    quiet (atMostOneActive c) s = some (.ok (decide (c ∧ activeCount s.db ≤ 1)), s) := by
  unfold atMostOneActive
  by_cases hc : c
  · simp only [hc, if_true, true_and]
    unfold activeSuperAdminCount
    rw [bind_assoc, quiet_bind quiet_query, pure_bind, activeCount_eq]
    rfl
  · simp only [hc, if_false, false_and, decide_false]
    rfl

/-- The users after `disable_user`. -/
def afterDisable (id : Uuid) : List UserRecord → List UserRecord :=
  editUser id fun r => { r with status := UserStatus.disabled.asStr }

/-- The users after `change_user_role`. -/
def afterChangeRole (id : Uuid) (role : Role) : List UserRecord → List UserRecord :=
  editUser id fun r => { r with role := role.asStr }

abbrev cannotDisable : ApiError := .badRequest "cannot disable the last active platform admin"

abbrev cannotRemove : ApiError := .badRequest "cannot remove the last active platform admin"

theorem disableUser_exact_iff_guard (hu : u ∈ s.db.rows .users)
    (hd : u.status ≠ UserStatus.disabled.asStr) :
    Exact (disableUser u.id) cannotDisable s (afterDisable u.id (s.db.rows .users)) ↔
      (u.role = Role.superAdmin.asStr ∧ activeCount s.db ≤ 1 ↔
        ¬ SomeActiveSuperAdmin (afterDisable u.id (s.db.rows .users))) := by
  obtain ⟨user, s', hquiet, hrows⟩ :=
    quiet_updateUser [(4, .text UserStatus.disabled.asStr)]
      (f := fun r => { r with status := UserStatus.disabled.asStr }) (fun _ => rfl) (by decide) hu
      rfl
  refine exact_iff (fun hg => ?_) fun hg => ⟨user, s', ?_, hrows⟩
  · unfold disableUser
    rw [quiet_bind (quiet_getUserRecord hu), if_neg hd, quiet_bind (quiet_atMostOneActive _),
      quiet_throwIf, if_pos (decide_eq_true hg)]
  · unfold disableUser updateUserStatus
    rw [quiet_bind (quiet_getUserRecord hu), if_neg hd, quiet_bind (quiet_atMostOneActive _),
      quiet_throwIf, if_neg (by rw [decide_eq_true_iff]; exact hg)]
    exact hquiet

theorem changeUserRole_exact_iff_guard (hu : u ∈ s.db.rows .users) (role : Role) :
    Exact (changeUserRole ⟨u.id, role⟩) cannotRemove s (afterChangeRole u.id role (s.db.rows .users)) ↔
      ((u.role = Role.superAdmin.asStr ∧ role ≠ .superAdmin ∧ u.status = UserStatus.active.asStr) ∧
        activeCount s.db ≤ 1 ↔
        ¬ SomeActiveSuperAdmin (afterChangeRole u.id role (s.db.rows .users))) := by
  obtain ⟨user, s', hquiet, hrows⟩ :=
    quiet_updateUser [(3, .text role.asStr)]
      (f := fun r => { r with role := role.asStr }) (fun _ => rfl) (by simp [uniqueCols]) hu rfl
  refine exact_iff (fun hg => ?_) fun hg => ⟨user, s', ?_, hrows⟩
  · unfold changeUserRole
    rw [quiet_bind (quiet_getUserRecord hu), quiet_bind (quiet_atMostOneActive _), quiet_throwIf,
      if_pos (decide_eq_true hg)]
  · unfold changeUserRole
    rw [quiet_bind (quiet_getUserRecord hu), quiet_bind (quiet_atMostOneActive _), quiet_throwIf,
      if_neg (by rw [decide_eq_true_iff]; exact hg)]
    exact hquiet

/-- The users are left without an active admin when the update demotes the only one. -/
theorem leavesNone_iff {f : UserRecord → UserRecord} (hu : u ∈ s.db.rows .users)
    (hid : (f u).id = u.id) (hadmin : SomeActiveSuperAdmin (s.db.rows .users)) :
    ¬ SomeActiveSuperAdmin (editUser u.id f (s.db.rows .users)) ↔
      (f u).isActiveSuperAdmin = false ∧ u.isActiveSuperAdmin = true ∧ activeCount s.db ≤ 1 := by
  rw [someActive_editUser_iff hu hid hadmin, not_or, not_not, Bool.not_eq_true]
  refine and_congr_right fun _ => ⟨fun honly => ?_, fun h => onlyActiveSuperAdmin_of_count h.2 hu h.1⟩
  obtain ⟨r, hr, ha, hrid⟩ := honly.1
  obtain rfl := Db.user_eq hr hu hrid
  exact ⟨ha, honly.count_le⟩

theorem changeUserRole_exact (hadmin : SomeActiveSuperAdmin (s.db.rows .users))
    (hu : u ∈ s.db.rows .users) (role : Role) : Exact (changeUserRole ⟨u.id, role⟩) cannotRemove s
      (afterChangeRole u.id role (s.db.rows .users)) := by
  rw [changeUserRole_exact_iff_guard hu, afterChangeRole, leavesNone_iff hu rfl hadmin,
    UserRecord.isActiveSuperAdmin_iff, ← Bool.not_eq_true, UserRecord.isActiveSuperAdmin_iff]
  constructor
  · rintro ⟨⟨hrole, hlesser, hstatus⟩, hone⟩
    exact ⟨fun h => hlesser (Role.asStr_inj h.1), ⟨hrole, hstatus⟩, hone⟩
  · rintro ⟨hlesser, ⟨hrole, hstatus⟩, hone⟩
    exact ⟨⟨hrole, fun h => hlesser ⟨congrArg Role.asStr h, hstatus⟩, hstatus⟩, hone⟩

theorem disableUser_exact_iff (hadmin : SomeActiveSuperAdmin (s.db.rows .users))
    (hu : u ∈ s.db.rows .users) (hd : u.status ≠ UserStatus.disabled.asStr) :
    Exact (disableUser u.id) cannotDisable s (afterDisable u.id (s.db.rows .users)) ↔
      ¬ (u.role = Role.superAdmin.asStr ∧ u.status ≠ UserStatus.active.asStr ∧
        activeCount s.db = 1) := by
  have hpos := activeCount_pos hadmin
  have hgone : UserRecord.isActiveSuperAdmin { u with status := UserStatus.disabled.asStr } = false :=
    Bool.and_eq_false_imp.mpr fun _ => decide_eq_false
      (show UserStatus.disabled.asStr ≠ UserStatus.active.asStr by decide)
  rw [disableUser_exact_iff_guard hu hd, afterDisable, leavesNone_iff hu rfl hadmin,
    UserRecord.isActiveSuperAdmin_iff]
  constructor
  · rintro hguard ⟨hrole, hstatus, hone⟩
    obtain ⟨-, ⟨-, hactive⟩, -⟩ := hguard.mp ⟨hrole, by omega⟩
    exact hstatus hactive
  · intro h
    constructor
    · rintro ⟨hrole, hone⟩
      have hactive : u.status = UserStatus.active.asStr := by
        by_contra hstatus
        exact h ⟨hrole, hstatus, by omega⟩
      exact ⟨hgone, ⟨hrole, hactive⟩, hone⟩
    · rintro ⟨-, ⟨hrole, -⟩, hone⟩
      exact ⟨hrole, hone⟩

end guards

/-- **The guards.** In every state that requests reach one after another from the first start, for
every user and role: both guards are exact for the user, if and only if the user is not a
`super_admin` who is neither active nor disabled while just one active admin exists. -/
theorem lastAdminGuards_exact_iff {x : Ext} {s₀ s : World} {u : UserRecord} {role : Role}
    (h₀ : Bootstrapped x s₀) (hs : Sequence x s₀ s) (hu : u ∈ s.db.rows .users) :
    ((u.status ≠ UserStatus.disabled.asStr →
        Exact (disableUser u.id) cannotDisable s (afterDisable u.id (s.db.rows .users))) ∧
      Exact (changeUserRole ⟨u.id, role⟩) cannotRemove s
        (afterChangeRole u.id role (s.db.rows .users))) ↔
      ¬ (u.role = Role.superAdmin.asStr ∧ u.status ≠ UserStatus.active.asStr ∧
        u.status ≠ UserStatus.disabled.asStr ∧ activeCount s.db = 1) := by
  have hadmin := hs.keeps (fun q _ _ => ends_someActive q) h₀.someActive
  constructor
  · rintro ⟨h, -⟩ ⟨hrole, hstatus, hd, hone⟩
    exact (disableUser_exact_iff hadmin hu hd).mp (h hd) ⟨hrole, hstatus, hone⟩
  · intro h
    refine ⟨fun hd => (disableUser_exact_iff hadmin hu hd).mpr ?_,
      changeUserRole_exact hadmin hu role⟩
    rintro ⟨hrole, hstatus, hone⟩
    exact h ⟨hrole, hstatus, hd, hone⟩

/-! ## An invited admin -/

namespace Symbolic

/-- Bob is invited, and made `super_admin` before he accepts. -/
def bobPromoted : List (Call × List Ans) :=
  [(inviteBob, inviteBobAnswers),
    (⟨config "A", .changeUserRole ⟨2, .superAdmin⟩⟩, [.done, .done, .done])]

def ada : UserRecord := newAdmin 1 "admin@wara.local" "Wara Admin" "$argon2id$change-me"

/-- Bob, invited as platform admin. -/
def invitedAdmin : UserRecord := ⟨2, "bob@wara.local", "Bob", "super_admin", "invited", ""⟩

theorem bobPromoted_served : ∃ s₀ s, Bootstrapped ext s₀ ∧ Sequence ext s₀ s ∧
    s.db.rows .users = [ada, invitedAdmin] := by
  have hsome : ((Prog.run exec 0 (bootstrapAdmin ext (config "A")) setUp shop).bind fun p =>
      (serveAll ext bobPromoted p.2).map fun s =>
        decide (p.1 = .ok () ∧ s.db.rows .users = [ada, invitedAdmin])) = some true := by
    decide +kernel
  obtain ⟨⟨r, s₀⟩, hrun, hrest⟩ := Option.bind_eq_some_iff.mp hsome
  obtain ⟨s, hs, hall⟩ := Option.map_eq_some_iff.mp hrest
  obtain ⟨rfl, hrows⟩ := of_decide_eq_true hall
  exact ⟨s₀, s, ⟨config "A", shop, 0, setUp, rfl, hrun⟩, sequence_of_serveAll hs, hrows⟩

/-- Disabling Bob would leave Ada active, and is refused. -/
theorem disable_refused_inexactly : ¬ ∀ (x : Ext) (s₀ s : World) (u : UserRecord),
    Bootstrapped x s₀ → Sequence x s₀ s → u ∈ s.db.rows .users →
    u.status ≠ UserStatus.disabled.asStr →
    Exact (disableUser u.id) cannotDisable s (afterDisable u.id (s.db.rows .users)) := by
  intro hclaim
  obtain ⟨s₀, s, h₀, hs, hrows⟩ := bobPromoted_served
  have hbob : invitedAdmin ∈ s.db.rows .users := by
    rw [hrows]
    exact List.mem_cons_of_mem _ (List.mem_singleton.mpr rfl)
  have hada : SomeActiveSuperAdmin (s.db.rows .users) := by
    rw [hrows]
    exact ⟨ada, List.mem_cons_self, by decide⟩
  have hone : activeCount s.db = 1 := by
    unfold activeCount
    rw [hrows]
    decide
  have hexact := hclaim ext s₀ s invitedAdmin h₀ hs hbob (by decide)
  exact (disableUser_exact_iff hada hbob (by decide)).mp hexact ⟨rfl, by decide, hone⟩

/-- For Ada, the only active admin, both guards are exact. -/
theorem lastAdminGuards_exact_ada : ∃ s : World, ada ∈ s.db.rows .users ∧
    Exact (disableUser 1) cannotDisable s (afterDisable 1 (s.db.rows .users)) ∧
    Exact (changeUserRole ⟨1, .viewer⟩) cannotRemove s
      (afterChangeRole 1 .viewer (s.db.rows .users)) := by
  obtain ⟨s₀, s, h₀, hs, hrows⟩ := bobPromoted_served
  have hada : ada ∈ s.db.rows .users := by
    rw [hrows]
    exact List.mem_cons_self
  obtain ⟨hdisable, hchange⟩ := (@lastAdminGuards_exact_iff ext s₀ s ada .viewer h₀ hs hada).mpr
    fun h => h.2.1 rfl
  exact ⟨s, hada, hdisable (by decide), hchange⟩

end Symbolic

end Wara
