import Wara.Auth.LastAdmin
import Wara.Auth.Sequential

/-!
# Disabled users

`reactivate_user` refuses a user without a password and points at the invite;
`accept_invite` refuses a user who is disabled. A user disabled before accepting
the invite is refused by both, and no other request makes a user active.
-/

namespace Wara

open Interleave Store Service AuthService

/-- The user `id` is disabled and has no password. -/
def Locked (id : Uuid) (rs : List UserRecord) : Prop :=
  ∃ u ∈ rs, u.id = id ∧ u.status = UserStatus.disabled.asStr ∧ u.passwordHash = ""

/-- The user `id` has an invite that is not accepted and not expired at the time `now`. -/
def HasOpenInvite (x : Ext) (s : World) (now : DateTime) (id : Uuid) : Prop :=
  ∃ invite ∈ (s.db.rows .userInvites : List UserInviteRecord), invite.userId = id ∧
    invite.acceptedAt = "" ∧ ∃ expiresAt, x.parseFromRfc3339 invite.expiresAt = .ok expiresAt ∧
      now.nanos ≤ expiresAt.nanos

/-- The user `id` is active. -/
def IsActive (id : Uuid) (rs : List UserRecord) : Prop :=
  ∃ u ∈ rs, u.id = id ∧ u.status = UserStatus.active.asStr

/-- The statements that make the user `id` active. -/
inductive Activates : Op → Uuid → Prop
  | reactivate (id : Uuid) : Activates (.write (reactivateWrite id)) id
  | accept (id : Uuid) (passwordHash : String) : Activates (.write (acceptWrite id passwordHash)) id

section step

variable {x : Ext} {q : AuthRequest} {o : Op} {id : Uuid}

/-- **One step** keeps a user locked, unless it makes just that user active. -/
theorem Locked.step {rs rs' : List UserRecord} (h : Locked id rs) (hs : UsersStep x q o rs rs')
    (ho : ¬ Activates o id) : Locked id rs' := by
  obtain ⟨u, hu, hid, hd, hp⟩ := h
  cases hs with
  | same => exact ⟨u, hu, hid, hd, hp⟩
  | add _ => exact ⟨u, List.mem_append_left _ hu, hid, hd, hp⟩
  | @edit uid f hedit =>
    by_cases hne : u.id = uid
    · have hmem : f u ∈ rs.map fun r => if r.id = uid then f r else r :=
        List.mem_map.mpr ⟨u, hu, if_pos hne⟩
      have heq : uid = id := hne.symm.trans hid
      subst heq
      cases hedit with
      | disable => exact ⟨_, hmem, hid, rfl, hp⟩
      | changeRole input => exact ⟨_, hmem, hid, hd, hp⟩
      | reactivate => exact absurd (.reactivate _) ho
      | accept input _ hash _ => exact absurd (.accept _ hash) ho
    · exact ⟨u, List.mem_map.mpr ⟨u, hu, if_neg hne⟩, hid, hd, hp⟩

/-- Only two requests make a user active. -/
theorem Changes.activates (h : Changes x q o) (ha : Activates o id) :
    q = .reactivateUser id ∨ ∃ input, q = .acceptInvite input := by
  generalize hop : o = op at ha
  cases ha with
  | reactivate =>
    cases h with
    | reactivate => cases hop; exact .inl rfl
    | _ => simp [reactivateWrite, byId, UserStatus.asStr] at hop
  | accept =>
    cases h with
    | acceptUser input => exact .inr ⟨input, rfl⟩
    | _ => simp [acceptWrite, byId, UserStatus.asStr] at hop

end step

/-! ## Locked for good -/

section locked

variable {x : Ext} {config : Config} {id : Uuid} {s s' : World}

/-- An update of a user who is not locked, seen when the user was read, keeps those who are. -/
theorem Locked.of_update {sets : List (Nat × Value)} {f : UserRecord → UserRecord} {i : Nat}
    {a : Ans} {u : UserRecord} {r : Res (.write (.update .users (byId u.id) sets))}
    (hu : u ∈ s.db.rows .users)
    (hf : ∀ r : UserRecord, layout.setCols (t := .users) sets r = f r)
    (hfree : ¬ (u.status = UserStatus.disabled.asStr ∧ u.passwordHash = ""))
    (h : exec i (.write (.update .users (byId u.id) sets)) a s = some (r, s'))
    (hl : Locked id (s.db.rows .users)) : Locked id (s'.db.rows .users) := by
  obtain ⟨v, hv, hid, hd, hp⟩ := hl
  have hne : v.id ≠ u.id := by
    intro he
    rw [Db.user_eq hv hu he] at hd hp
    exact hfree ⟨hd, hp⟩
  rcases exec_updateUser hf h with hrows | hrows
  · exact ⟨v, hrows ▸ hv, hid, hd, hp⟩
  · exact ⟨v, hrows ▸ mem_editUser_of_ne hv hne, hid, hd, hp⟩

theorem ends_reactivateUser_locked (userId : Uuid) :
    Ends (solo (Locked id)) (reactivateUser userId) (fun _ _ => True) s := by
  unfold reactivateUser updateUserStatus
  refine ends_getUserRecord tame_solo fun s₁ u _ hu hid => ?_
  subst hid
  refine ends_throwIf fun _ => ends_throwIf fun hpassword => ?_
  refine ends_update (fun s₂ r s₃ h₂ hs hl => ?_) fun _ _ _ _ => ?_
  · obtain ⟨i, a, ha⟩ := hs
    exact hl.of_update (h₂ ▸ hu) (fun _ => rfl) (fun h => hpassword h.2) ha
  · exact ends_solo_rest (by simp [getUser, getUserRecord, userFromRecord])

theorem ends_acceptInvite_locked (input : AcceptInviteInput) :
    Ends (solo (Locked id)) (acceptInvite x config input) (fun _ _ => True) s := by
  unfold acceptInvite
  refine ends_findOpenInvite tame_solo fun s₁ invite _ _ _ _ => ?_
  refine ends_reads tame_solo (Q := fun _ => True) (by simp [parseRfc3339]) fun _ s₂ _ _ => ?_
  refine ends_reads tame_solo (Q := fun _ => True) (by simp [Op.writes]) fun _ s₃ _ _ =>
    ends_throwIf fun _ => ?_
  refine ends_getUserRecord tame_solo fun s₄ u _ hu hid => ?_
  rw [← hid]
  refine ends_throwIf fun _ => ends_throwIf fun hd => ?_
  refine ends_reads tame_solo (Q := fun _ => True) (by simp [hashPassword, Op.writes])
    fun passwordHash s₅ _ h₅ => ?_
  refine ends_update (fun s₆ r s₇ h₆ hs hl => ?_) fun _ _ _ _ => ?_
  · obtain ⟨i, a, ha⟩ := hs
    have hu : u ∈ s₆.db.rows .users := by
      rw [h₆, h₅]
      exact hu
    exact hl.of_update hu (fun _ => rfl) (fun h => hd h.1) ha
  · have hsession := fun user => @startSession_writes_no_user x config user
    exact ends_solo_rest (by simp [getUser, getUserRecord, userFromRecord, hsession])

/-- Every request that runs alone keeps a user locked. -/
theorem ends_locked (q : AuthRequest) :
    Ends (solo (Locked id)) (q.serve x config) (fun _ _ => True) s := by
  by_cases hre : ∃ userId, q = .reactivateUser userId
  · obtain ⟨userId, rfl⟩ := hre
    exact ends_map (Flow.Safe.mono (ends_reactivateUser_locked userId)
      (fun _ _ _ _ _ => trivial) fun _ _ h => h)
  · by_cases hacc : ∃ input, q = .acceptInvite input
    · obtain ⟨input, rfl⟩ := hacc
      exact ends_map (Flow.Safe.mono (ends_acceptInvite_locked input)
        (fun _ _ _ _ _ => trivial) fun _ _ h => h)
    · refine ends_solo_of_steps fun o db db' hch hs hl => hl.step hs fun ha => ?_
      rcases hch.activates ha with hq | hq
      · exact hre ⟨id, hq⟩
      · exact hacc hq

theorem Locked.sequence (hl : Locked id (s.db.rows .users)) (h : Sequence x s s') :
    Locked id (s'.db.rows .users) :=
  h.keeps (fun q _ _ => ends_locked q) hl

end locked

/-! ## The way out -/

section reactivate

variable {x : Ext} {s s' : World} {u : UserRecord}

/-- A disabled user with a password is made active by `reactivate_user` alone. -/
theorem reactivateUser_serves (hu : u ∈ s.db.rows .users)
    (hd : u.status = UserStatus.disabled.asStr) (hp : u.passwordHash ≠ "") :
    ∃ s', Served x s s' ∧ IsActive u.id (s'.db.rows .users) := by
  obtain ⟨user, s', hquiet, hrows⟩ := quiet_updateUser [(4, .text UserStatus.active.asStr)]
    (f := fun r => { r with status := UserStatus.active.asStr }) (fun _ => rfl) (by decide) hu rfl
  have hserve : quiet (reactivateUser u.id) s = some (.ok user, s') := by
    unfold reactivateUser updateUserStatus
    rw [quiet_bind (quiet_getUserRecord hu), quiet_throwIf, if_neg (not_not.mpr hd), quiet_throwIf,
      if_neg hp]
    exact hquiet
  obtain ⟨n, hrun⟩ := run_of_quiet (quiet_map (f := AuthReply.user) hserve)
  refine ⟨s', ⟨⟨default, .reactivateUser u.id⟩, 0, _, _, hrun⟩, ?_⟩
  refine ⟨{ u with status := UserStatus.active.asStr }, ?_, rfl, rfl⟩
  rw [hrows]
  exact mem_editUser_self (f := fun r => { r with status := UserStatus.active.asStr }) hu

/-- **Who gets out.** A disabled user can be made active, by any requests one after another, if
and only if the user has a password. -/
theorem disabled_activated_iff (hu : u ∈ s.db.rows .users)
    (hd : u.status = UserStatus.disabled.asStr) :
    (∃ s', Sequence x s s' ∧ IsActive u.id (s'.db.rows .users)) ↔ u.passwordHash ≠ "" := by
  constructor
  · rintro ⟨s', hs, v, hv, hid, ha⟩ hp
    obtain ⟨w, hw, hid', hd', -⟩ :=
      Locked.sequence (s := s) ⟨u, hu, rfl, hd, hp⟩ hs
    rw [Db.user_eq hw hv (hid'.trans hid.symm), ha] at hd'
    exact absurd hd' (by decide)
  · intro hp
    obtain ⟨s', hserved, ha⟩ := reactivateUser_serves (x := x) hu hd hp
    exact ⟨s', .single hserved, ha⟩

end reactivate

/-! ## Disabled before accepting -/

namespace Symbolic

/-- The platform is set up, Bob is invited, and disabled before he accepts. -/
def bobDisabled : List (Call × List Ans) :=
  [(⟨config "A", .bootstrapAdmin⟩, setUp),
    (inviteBob, inviteBobAnswers),
    (⟨config "A", .disableUser 2⟩, [.done, .done, .done, .done])]

/-- Bob, disabled and without a password. -/
def bob : UserRecord := ⟨2, "bob@wara.local", "Bob", "viewer", "disabled", ""⟩

theorem bobDisabled_served : ∃ s, Sequence ext shop s ∧ bob ∈ s.db.rows .users ∧
    HasOpenInvite ext s ⟨10000000000⟩ 2 := by
  have hsome : (serveAll ext bobDisabled shop).map (fun s => decide
      (bob ∈ (s.db.rows .users : List UserRecord) ∧
        ∃ invite ∈ (s.db.rows .userInvites : List UserInviteRecord), invite.userId = 2 ∧
          invite.acceptedAt = "" ∧ invite.expiresAt = seconds 50)) = some true := by
    decide +kernel
  obtain ⟨s, hs, hbob⟩ := Option.map_eq_some_iff.mp hsome
  obtain ⟨hbob, invite, hinvite, huser, hopen, hexpires⟩ := of_decide_eq_true hbob
  refine ⟨s, sequence_of_serveAll hs, hbob, invite, hinvite, huser, hopen, ⟨50000000000⟩, ?_,
    by decide⟩
  rw [hexpires]
  decide +kernel

/-- Bob has an open invite, and no requests make him active. -/
theorem disabled_dead_end : ¬ ∀ (x : Ext) (w s : World) (now : DateTime) (u : UserRecord),
    w.db.rows .users = [] → Sequence x w s → u ∈ s.db.rows .users →
    u.status = UserStatus.disabled.asStr → u.passwordHash ≠ "" ∨ HasOpenInvite x s now u.id →
    ∃ s', Sequence x s s' ∧ IsActive u.id (s'.db.rows .users) := by
  intro hclaim
  obtain ⟨s, hs, hbob, hinvite⟩ := bobDisabled_served
  obtain ⟨s', hs', v, hv, hid, ha⟩ := hclaim ext shop s ⟨10000000000⟩ bob rfl hs hbob rfl (.inr hinvite)
  obtain ⟨u, hu, hid', hd, -⟩ := Locked.sequence (s := s) ⟨bob, hbob, rfl, rfl, rfl⟩ hs'
  rw [Db.user_eq hu hv (hid'.trans hid.symm), ha] at hd
  exact absurd hd (by decide)

/-- An admin, disabled with a password. -/
def disabledAda : UserRecord := { adminRow 1 "ada@wara.local" with status := "disabled" }

def adaDisabled : World := .start {
  rows := fun
    | .users => [disabledAda]
    | _ => []
  unique := fun t => by cases t <;> decide }

theorem disabled_activated_ada :
    ∃ s', Sequence ext adaDisabled s' ∧ IsActive 1 (s'.db.rows .users) :=
  (disabled_activated_iff (u := disabledAda) (List.mem_singleton.mpr rfl) rfl).mpr (by decide)

end Symbolic

end Wara
