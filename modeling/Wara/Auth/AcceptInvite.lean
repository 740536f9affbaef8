import Wara.Auth.Specs
import Wara.External.Symbolic

/-!
# Accepting an invite

`accept_invite` reads the invite and the user's status, hashes a password, and
then updates the user whatever has happened since. So a user disabled in between
becomes active again, and two requests with one token can both get through.
Both stay out of exactly the runs in which the update still finds the user as
the request read it.
-/

namespace Wara

open Interleave Store Service AuthService

/-! ## Disabled users -/

/-- The user `id` is disabled before the event and active after it. -/
def Reactivates (e : Event Res World) (id : Uuid) : Prop :=
  ∃ r ∈ (e.pre.db.rows .users : List UserRecord), ∃ r' ∈ (e.post.db.rows .users : List UserRecord),
    r.id = id ∧ r'.id = id ∧ r.status = UserStatus.disabled.asStr ∧
      r'.status = UserStatus.active.asStr

instance (e : Event Res World) (id : Uuid) : Decidable (Reactivates e id) :=
  inferInstanceAs (Decidable (∃ r ∈ (e.pre.db.rows .users : List UserRecord),
    ∃ r' ∈ (e.post.db.rows .users : List UserRecord), r.id = id ∧ r'.id = id ∧
      r.status = UserStatus.disabled.asStr ∧ r'.status = UserStatus.active.asStr))

/-- The event updates the user `id` as `accept_invite` does. -/
def AcceptsUser (e : Event Res World) (id : Uuid) (passwordHash : String) : Prop :=
  e.op = .write (acceptWrite id passwordHash) ∧ e.op.succeeded e.res = true

variable {x : Ext} {calls : List Call} {w : World} {P' : AuthPool} {es : List (Event Res World)}

/-- What the accepting update does to the users. -/
theorem AcceptsUser.users {e : Event Res World} {id : Uuid} {passwordHash : String}
    (h : AcceptsUser e id passwordHash) (he : ∃ a, exec e.tid e.op a e.pre = some (e.res, e.post)) :
    e.post.db.rows .users = List.map (fun r : UserRecord =>
      if r.id = id then { r with status := UserStatus.active.asStr, passwordHash := passwordHash }
      else r) (e.pre.db.rows .users) := by
  obtain ⟨a, ha⟩ := he
  have hw := exec_succeeded ha h.2
  rw [h.1] at hw
  exact apply_updateUser (fun _ => rfl) (applyAll_single hw)

/-- **One step** that turns a disabled user active is the update of `reactivate_user`, or an
accepting update. -/
theorem Reactivates.cause {e : Event Res World} {id : Uuid} (h : Reactivates e id)
    {q : AuthRequest} {o : Op}
    (hs : UsersStep x q o (e.pre.db.rows .users) (e.post.db.rows .users)) :
    q = .reactivateUser id ∧ o = .write (reactivateWrite id) ∨
      ∃ passwordHash, o = .write (acceptWrite id passwordHash) := by
  obtain ⟨r, hr, r', hr', hid, hid', hd, ha⟩ := h
  have hne : UserStatus.active.asStr ≠ UserStatus.disabled.asStr := by decide
  generalize hrs : e.post.db.rows .users = rs at hs
  cases hs with
  | same =>
    have he : r' = r := Db.user_eq (hrs ▸ hr' : r' ∈ e.pre.db.rows .users) hr (hid'.trans hid.symm)
    rw [he, hd] at ha; exact absurd ha.symm hne
  | add _ =>
    have hmem : r ∈ e.post.db.rows .users := hrs ▸ List.mem_append_left _ hr
    have he : r' = r := Db.user_eq hr' hmem (hid'.trans hid.symm)
    rw [he, hd] at ha; exact absurd ha.symm hne
  | @edit uid f hf =>
    rw [hrs] at hr'
    obtain ⟨r₀, hr₀, rfl⟩ := List.mem_map.mp hr'
    have hid₀ : r₀.id = id := by
      split at hid'
      · rw [← hid', hf.id_eq]
      · exact hid'
    obtain rfl : r₀ = r := Db.user_eq hr₀ hr (hid₀.trans hid.symm)
    split at ha
    · next hu =>
      obtain rfl : uid = id := hu.symm.trans hid
      cases hf with
      | disable => exact absurd ha.symm hne
      | reactivate => exact .inl ⟨rfl, rfl⟩
      | changeRole => rw [hd] at ha; exact absurd ha.symm hne
      | accept input _ hash => exact .inr ⟨hash, rfl⟩
    · rw [hd] at ha; exact absurd ha.symm hne

/-- **Exactly when disabled is sticky.** In a run of any requests, every change of a user from
disabled to active is the update of a `reactivate_user` request for that user, if and only if no
update of `accept_invite` is done on a user who is disabled at that moment. -/
theorem disabled_sticky_iff (hr : Runs exec (AuthPool.of x calls w) es P') :
    (∀ e ∈ es, ∀ id, Reactivates e id → e.op = .write (reactivateWrite id) ∧
      ∃ c, calls[e.tid]? = some c ∧ c.request = .reactivateUser id) ↔
      ∀ e ∈ es, ∀ id passwordHash, AcceptsUser e id passwordHash →
        ∀ r : UserRecord, r ∈ e.pre.db.rows .users → r.id = id →
          r.status ≠ UserStatus.disabled.asStr := by
  constructor
  · intro hall e he id hash hacc r hr' hid hd
    have hpost : Reactivates e id := by
      refine ⟨r, hr', { r with status := UserStatus.active.asStr, passwordHash := hash }, ?_,
        hid, hid, hd, rfl⟩
      rw [hacc.users (hr.handled e he)]
      exact List.mem_map.mpr ⟨r, hr', if_pos hid⟩
    have hop := (hall e he id hpost).1
    rw [hacc.1] at hop
    cases hop
  · intro hcond e he id h
    rcases AuthPool.step hr he with hsame | ⟨c, hc, hch, hs, ha⟩
    · have hs : UsersStep x .jwks e.op (e.pre.db.rows .users) (e.post.db.rows .users) := by
        rw [hsame]; exact .same _
      rcases h.cause hs with ⟨hq, -⟩ | ⟨hash, hop⟩
      · cases hq
      · obtain ⟨r, hr', r', hr'', hid, hid', hd, hact⟩ := h
        rw [hsame] at hr''
        have he : r' = r := Db.user_eq hr'' hr' (hid'.trans hid.symm)
        rw [he, hd] at hact
        exact absurd hact (by decide)
    · rcases h.cause (hch.usersStep ha) with ⟨hq, hop⟩ | ⟨hash, hop⟩
      · exact ⟨hop, c, hc, hq⟩
      · obtain ⟨r, hr', r', hr'', hid, hid', hd, hact⟩ := h
        exact absurd hd (hcond e he id hash ⟨hop, hs⟩ r hr' hid)

namespace Symbolic

/-- An active admin, an invited user with an open invite, and the key of instance `A`. -/
def invited : World := .start {
  rows := fun
    | .users => [newAdmin 1 "ada@wara.local" "Ada" "$argon2id$secret",
        ⟨2, "bob@wara.local", "Bob", "viewer", "invited", ""⟩]
    | .userInvites => [⟨3, 2, hashInviteToken ext "token", seconds 50, "", seconds 0⟩]
    | .workspaceUserRoles => [⟨4, 2, 9, "operator"⟩]
    | .workspaces => [⟨9, "Shop", none⟩]
    | .jwtPublicKeys => [⟨5, "RSA", "sig", "RS256", urlSafe (bytes "A"), "AQAB", true, seconds 0⟩]
    | _ => []
  unique := fun t => by cases t <;> decide }

/-- The second at which everything happens here. -/
def noon : Ans := .time ⟨10000000000⟩

def accept (password : String) : Call := ⟨config "A", .acceptInvite ⟨"token", password⟩⟩

/-- `accept_invite` up to the hashed password. -/
def acceptChecks (i : Nat) : List (Nat × Ans) :=
  [(i, .done), (i, noon), (i, .done), (i, .bytes (List.replicate 16 0))]

/-- The rest of `accept_invite`, with the identifiers it generates. -/
def acceptUpdates (i : Nat) (refreshId tokenId : Uuid) : List (Nat × Ans) :=
  [(i, .done), (i, noon), (i, .done), (i, .done), (i, .done), (i, .uuid refreshId), (i, noon),
    (i, .done), (i, .done), (i, noon), (i, .uuid tokenId), (i, .done)]

/-- Bob is disabled between the checks and the update of his acceptance. -/
def overtaken : AuthPool :=
  AuthPool.of ext [accept "password", ⟨config "A", .disableUser 2⟩] invited

def overtake : List (Nat × Ans) := acceptChecks 0 ++ [(1, .done), (1, .done), (0, .done)]

theorem overtaken_runs : ∃ P', Runs exec overtaken (overtaken.trace exec overtake) P' := by
  have hsome : (overtaken.run exec overtake).isSome = true := by decide
  obtain ⟨P', hrun⟩ := Option.isSome_iff_exists.mp hsome
  exact ⟨P', Pool.run_runs hrun⟩

theorem overtaken_reactivates :
    ∃ e ∈ overtaken.trace exec overtake, Reactivates e 2 ∧ e.tid = 0 := by decide

theorem disabled_not_sticky : ¬ ∀ (x : Ext) (calls : List Call) (w : World) (P' : AuthPool)
    (es : List (Event Res World)), Runs exec (AuthPool.of x calls w) es P' →
    ∀ e ∈ es, ∀ id, Reactivates e id → e.op = .write (reactivateWrite id) ∧
      ∃ c, calls[e.tid]? = some c ∧ c.request = .reactivateUser id := by
  intro hclaim
  obtain ⟨P', hr⟩ := overtaken_runs
  obtain ⟨e, he, hre, htid⟩ := overtaken_reactivates
  obtain ⟨-, c, hc, hq⟩ := hclaim _ _ _ _ _ hr e he 2 hre
  rw [htid] at hc
  cases hc
  cases hq

/-- That run has an accepting update on a disabled user. -/
theorem overtaken_accepts_disabled : ¬ ∀ e ∈ overtaken.trace exec overtake,
    ∀ id passwordHash, AcceptsUser e id passwordHash →
      ∀ r : UserRecord, r ∈ e.pre.db.rows .users → r.id = id →
        r.status ≠ UserStatus.disabled.asStr := by
  intro hcond
  obtain ⟨P', hr⟩ := overtaken_runs
  obtain ⟨e, he, hre, htid⟩ := overtaken_reactivates
  obtain ⟨-, c, hc, hq⟩ := (disabled_sticky_iff hr).mpr hcond e he 2 hre
  rw [htid] at hc
  cases hc
  cases hq

end Symbolic

/-! ## One token, one acceptance -/

/-- The event sets the `password_hash` of the user `id`. -/
def WritesPassword (id : Uuid) (e : Event Res World) : Prop :=
  ∃ f sets, e.op = .write (.update .users f sets) ∧ e.op.succeeded e.res = true ∧
    5 ∈ sets.map Prod.fst ∧ ∃ r : UserRecord, r ∈ e.pre.db.rows .users ∧ r.id = id ∧
      layout.holds (t := .users) f r = true

/-- The user `id` has a password. -/
def HasPassword (id : Uuid) (w : World) : Prop :=
  ∃ r : UserRecord, r ∈ w.db.rows .users ∧ r.id = id ∧ r.passwordHash ≠ ""

/-- Only accepting an invite writes a password. -/
theorem WritesPassword.accepts (hr : Runs exec (AuthPool.of x calls w) es P')
    {e : Event Res World} (he : e ∈ es) {id : Uuid} (h : WritesPassword id e) :
    ∃ passwordHash password, AcceptsUser e id passwordHash ∧ IsHash x password passwordHash := by
  obtain ⟨f, sets, hop, hs, h5, r, hr', rfl, hf⟩ := h
  obtain ⟨c, -, hc⟩ := AuthPool.issued hr e he
  rcases hc with hc | hc
  · rw [hop] at hc; cases hc
  · unfold AcceptsUser
    generalize e.op.succeeded e.res = b at hs ⊢
    rw [hop] at hc ⊢
    generalize c.request = q at hc
    cases hc with
    | acceptUser input id hash hh =>
      rw [holds_byId_users] at hf
      exact ⟨hash, input.password, ⟨by rw [hf], hs⟩, hh⟩
    | _ => simp at h5

/-- **One step**: a password, once set, is never taken away. -/
theorem HasPassword.step (hx : x.Lawful) {id : Uuid} {q : AuthRequest} {o : Op} {w w' : World}
    (h : HasPassword id w) (hs : UsersStep x q o (w.db.rows .users) (w'.db.rows .users)) :
    HasPassword id w' := by
  obtain ⟨r, hr, hid, hp⟩ := h
  unfold HasPassword
  generalize w'.db.rows .users = rs at hs
  cases hs with
  | same => exact ⟨r, hr, hid, hp⟩
  | add _ => exact ⟨r, List.mem_append_left _ hr, hid, hp⟩
  | @edit uid f hf =>
    refine ⟨_, List.mem_map_of_mem hr, ?_⟩
    split
    · refine ⟨(hf.id_eq r).trans hid, ?_⟩
      cases hf with
      | accept input _ hash hh =>
        obtain ⟨salt, hh⟩ := hh
        exact hx.argon2_nonempty hh
      | _ => exact hp
    · exact ⟨hid, hp⟩

/-- An accepting update of an existing user leaves a password. -/
theorem WritesPassword.hasPassword (hx : x.Lawful) (hr : Runs exec (AuthPool.of x calls w) es P')
    {e : Event Res World} (he : e ∈ es) {id : Uuid} (h : WritesPassword id e) :
    HasPassword id e.post := by
  obtain ⟨hash, password, hacc, salt, hh⟩ := h.accepts hr he
  obtain ⟨f, sets, -, -, -, r, hr', hid, -⟩ := h
  refine ⟨{ r with status := UserStatus.active.asStr, passwordHash := hash }, ?_, hid,
    hx.argon2_nonempty hh⟩
  rw [hacc.users (hr.handled e he)]
  exact List.mem_map.mpr ⟨r, hr', if_pos hid⟩

/-- **What success takes.** A request that carries the invite's token does not succeed without
writing the invited user's password. -/
theorem acceptInvite_writesPassword {inv : UserInviteRecord} {i : Nat} {config : Config}
    {input : AcceptInviteInput} (hinv : inv ∈ w.db.rows .userInvites)
    (htoken : hashInviteToken x input.token = inv.tokenHash) :
    Ends (sparing (WritesPassword inv.userId) i)
      (AuthRequest.serve x config (.acceptInvite input)) (fun _ _ => False) w := by
  have hc : Calm (sparing (WritesPassword inv.userId) i) := calm_sparing
  refine ends_map ?_
  unfold acceptInvite
  refine ends_findOpenInvite hc.toTame fun s₁ found hk₁ hfound hhash _ => ?_
  -- the invite found is the one that was there, so the user updated is the one invited
  have huser : found.userId = inv.userId := by
    obtain ⟨inv', hinv', -, hu, hh⟩ := Db.Keeps.invite hk₁ hinv
    rw [Db.invite_eq hfound hinv' (hhash.trans (htoken.trans hh.symm)), hu]
  rw [huser]
  refine ends_any hc fun expiresAt s₂ _ => ends_any hc fun time s₃ _ => ends_throwIf fun _ => ?_
  refine ends_getUserRecord hc.toTame fun s₄ user _ huser hid => ?_
  refine ends_throwIf fun _ => ends_throwIf fun _ => ends_any hc fun hash s₅ hk₅ => ?_
  refine ends_update (fun _ _ _ _ _ => trivial) fun s₆ s₇ hk₆ hstep => ?_
  obtain ⟨user', huser', hid'⟩ := Db.Keeps.user (hk₅.trans hk₆) huser
  exact absurd ⟨_, _, rfl, rfl, by simp, user', huser', hid'.trans hid,
    holds_byId_users.mpr (hid'.trans hid)⟩ hstep.2.2

/-- The request of thread `i` carries the token and has succeeded. -/
def Accepted (calls : List Call) (P' : AuthPool) (token : String) (i : Nat) : Prop :=
  (∃ config password, calls[i]? = some ⟨config, .acceptInvite ⟨token, password⟩⟩) ∧ P'.Succeeded i

/-- **When an invite is single use.** In a run of any requests in which every update of
`accept_invite` on the invited user finds no password yet, at most one request with the invite's
token succeeds, and the user's password is written at most once. -/
theorem invite_single_use (hx : x.Lawful) {inv : UserInviteRecord} {token : String}
    (hinv : inv ∈ w.db.rows .userInvites) (htoken : hashInviteToken x token = inv.tokenHash)
    (hr : Runs exec (AuthPool.of x calls w) es P')
    (hcond : ∀ e ∈ es, ∀ passwordHash, AcceptsUser e inv.userId passwordHash →
      ∀ r : UserRecord, r ∈ e.pre.db.rows .users → r.id = inv.userId → r.passwordHash = "") :
    (∀ i j, Accepted calls P' token i → Accepted calls P' token j → i = j) ∧
      es.Pairwise fun e e' => ¬ (WritesPassword inv.userId e ∧ WritesPassword inv.userId e') := by
  have hkeep : ∀ e ∈ es, HasPassword inv.userId e.pre → HasPassword inv.userId e.post := by
    intro e he hpre
    rcases AuthPool.step hr he with hsame | ⟨c, -, hch, -, ha⟩
    · unfold HasPassword; rw [hsame]; exact hpre
    · exact hpre.step hx (hch.usersStep ha)
  have honce : es.Pairwise
      fun e e' => ¬ (WritesPassword inv.userId e ∧ WritesPassword inv.userId e') := by
    refine hr.fires_once hkeep fun e he hw => ?_
    refine ⟨?_, hw.hasPassword hx hr he⟩
    obtain ⟨hash, -, hacc, -⟩ := hw.accepts hr he
    rintro ⟨r, hr', hid, hp⟩
    exact hp (hcond e he hash hacc r hr' hid)
  refine ⟨?_, honce⟩
  rintro i j ⟨⟨ci, pi, hi⟩, hdone⟩ ⟨⟨cj, pj, hj⟩, hdone'⟩
  obtain ⟨e, he, rfl, hf⟩ := AuthPool.fired hr hi (acceptInvite_writesPassword hinv htoken) hdone
  obtain ⟨e', he', rfl, hf'⟩ := AuthPool.fired hr hj (acceptInvite_writesPassword hinv htoken) hdone'
  exact tid_eq_of_once honce he he' hf hf'

namespace Symbolic

/-- Bob's invite. -/
def bobsInvite : UserInviteRecord :=
  ⟨3, 2, hashInviteToken ext "token", seconds 50, "", seconds 0⟩

/-- Two requests with one token, both through their checks before either updates. -/
def raced : AuthPool := AuthPool.of ext [accept "password", accept "passw0rd"] invited

def race : List (Nat × Ans) :=
  acceptChecks 0 ++ acceptChecks 1 ++ acceptUpdates 0 20 21 ++ acceptUpdates 1 22 23

theorem raced_succeeded : (raced.run exec race).map (fun P' : AuthPool =>
    decide (P'.Succeeded 0 ∧ P'.Succeeded 1)) = some true := by decide +kernel

theorem invite_used_twice : ¬ ∀ (x : Ext) (calls : List Call) (w : World) (P' : AuthPool)
    (es : List (Event Res World)) (inv : UserInviteRecord) (token : String), x.Lawful →
    inv ∈ w.db.rows .userInvites → hashInviteToken x token = inv.tokenHash →
    Runs exec (AuthPool.of x calls w) es P' →
    ∀ i j, Accepted calls P' token i → Accepted calls P' token j → i = j := by
  intro hclaim
  obtain ⟨P', hrun, hboth⟩ := Option.map_eq_some_iff.mp raced_succeeded
  obtain ⟨hfirst, hsecond⟩ := of_decide_eq_true hboth
  have hsame := hclaim ext _ invited P' _ bobsInvite "token" ext_lawful List.mem_cons_self rfl
    (Pool.run_runs hrun) 0 1 ⟨⟨_, _, rfl⟩, hfirst⟩ ⟨⟨_, _, rfl⟩, hsecond⟩
  cases hsame

/-- The second request finds the invite before the first updates, and reads the user after that. -/
def overruled : List (Nat × Ans) :=
  (acceptChecks 1).take 2 ++ acceptChecks 0 ++ [(0, .done), (1, .done)]

/-- So it is refused: the one update finds no password, and one is written once. -/
theorem invite_single_use_overruled : (raced.trace exec overruled).Pairwise
    fun e e' => ¬ (WritesPassword 2 e ∧ WritesPassword 2 e') := by
  have hsome : (raced.run exec overruled).isSome = true := by decide
  obtain ⟨P', hrun⟩ := Option.isSome_iff_exists.mp hsome
  have hempty : ∀ e ∈ raced.trace exec overruled, e.op.writes.isEmpty = false →
      ∀ r ∈ (e.pre.db.rows .users : List UserRecord), r.id = 2 → r.passwordHash = "" := by
    decide
  have hmem : bobsInvite ∈ invited.db.rows .userInvites := List.mem_cons_self
  have htoken : hashInviteToken ext "token" = bobsInvite.tokenHash := rfl
  refine (invite_single_use ext_lawful hmem htoken (Pool.run_runs hrun) ?_).2
  intro e he hash hw
  exact hempty e he (by rw [hw.1]; rfl)

end Symbolic

end Wara
