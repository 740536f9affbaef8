import Wara.Auth.AcceptInvite
import Wara.Auth.KeyStore

/-!
# User records

Six requests write the columns of a user, each after reading it in an earlier
statement. What they rely on is that a password, once set, stays: it does, so
`reactivate_user` makes active only who has one.
-/

namespace Wara

open Interleave Store Service AuthService

/-- What every stored user satisfies. -/
structure UserRecord.Sound (u : UserRecord) : Prop where
  active : u.status = UserStatus.active.asStr → u.passwordHash ≠ ""
  invited : u.status = UserStatus.invited.asStr → u.passwordHash = ""
  role : ∃ role : Role, u.role = role.asStr ∧ Role.from u.role = role
  status : ∃ status : UserStatus, u.status = status.asStr ∧ UserStatus.from u.status = status

/-- What no step takes back. -/
structure UserRecord.Moves (u u' : UserRecord) : Prop where
  invited : u.status ≠ UserStatus.invited.asStr → u'.status ≠ UserStatus.invited.asStr
  password : u.passwordHash ≠ "" → u'.passwordHash ≠ ""

section step

variable {x : Ext} {q : AuthRequest} {o : Op} {id : Uuid}

theorem AddsUser.sound (hx : x.Lawful) {u : UserRecord} (h : AddsUser x q o u) : u.Sound := by
  cases h with
  | createAdmin _ email name password hash hh =>
    obtain ⟨salt, hh⟩ := hh
    refine ⟨fun _ => hx.argon2_nonempty hh, fun h => ?_, ⟨.superAdmin, rfl, Role.from_asStr .superAdmin⟩,
      ⟨.active, rfl, UserStatus.from_asStr .active⟩⟩
    exact absurd h (show UserStatus.active.asStr ≠ UserStatus.invited.asStr by decide)
  | invite input id invite role =>
    refine ⟨fun h => ?_, fun _ => rfl, ⟨.viewer, rfl, Role.from_asStr .viewer⟩,
      ⟨.invited, rfl, UserStatus.from_asStr .invited⟩⟩
    exact absurd h (show UserStatus.invited.asStr ≠ UserStatus.active.asStr by decide)

/-- An edit keeps a record sound, if one that is reactivated has a password. -/
theorem EditsUser.sound (hx : x.Lawful) {f : UserRecord → UserRecord} (h : EditsUser x q o id f)
    {u : UserRecord} (hu : u.Sound) (hre : o = .write (reactivateWrite id) → u.passwordHash ≠ "") :
    (f u).Sound ∧ u.Moves (f u) := by
  cases h with
  | disable =>
    refine ⟨⟨fun h => ?_, fun h => ?_, hu.role, ⟨.disabled, rfl, UserStatus.from_asStr .disabled⟩⟩,
      fun _ => ?_, fun h => h⟩
    · exact absurd h (show UserStatus.disabled.asStr ≠ UserStatus.active.asStr by decide)
    · exact absurd h (show UserStatus.disabled.asStr ≠ UserStatus.invited.asStr by decide)
    · exact (show UserStatus.disabled.asStr ≠ UserStatus.invited.asStr by decide)
  | reactivate =>
    refine ⟨⟨fun _ => hre rfl, fun h => ?_, hu.role, ⟨.active, rfl, UserStatus.from_asStr .active⟩⟩,
      fun _ => ?_, fun h => h⟩
    · exact absurd h (show UserStatus.active.asStr ≠ UserStatus.invited.asStr by decide)
    · exact (show UserStatus.active.asStr ≠ UserStatus.invited.asStr by decide)
  | changeRole input =>
    exact ⟨⟨hu.active, hu.invited, ⟨input.role, rfl, Role.from_asStr _⟩, hu.status⟩,
      fun h => h, fun h => h⟩
  | accept input _ hash hh =>
    obtain ⟨salt, hh⟩ := hh
    refine ⟨⟨fun _ => hx.argon2_nonempty hh, fun h => ?_, hu.role,
      ⟨.active, rfl, UserStatus.from_asStr .active⟩⟩, fun _ => ?_, fun _ => hx.argon2_nonempty hh⟩
    · exact absurd h (show UserStatus.active.asStr ≠ UserStatus.invited.asStr by decide)
    · exact (show UserStatus.active.asStr ≠ UserStatus.invited.asStr by decide)

/-- **One step** keeps all records sound, if whoever is reactivated has a password. -/
theorem UsersStep.sound (hx : x.Lawful) {rs rs' : List UserRecord} (hs : UsersStep x q o rs rs')
    (h : ∀ u ∈ rs, u.Sound)
    (hre : ∀ id, o = .write (reactivateWrite id) → ∀ u ∈ rs, u.id = id → u.passwordHash ≠ "") :
    ∀ u ∈ rs', u.Sound := by
  intro u' hu'
  cases hs with
  | same => exact h u' hu'
  | add hadd =>
    rcases List.mem_append.mp hu' with hu' | hu'
    · exact h u' hu'
    · rw [List.mem_singleton.mp hu']
      exact hadd.sound hx
  | @edit uid f hedit =>
    obtain ⟨u, hu, rfl⟩ := List.mem_map.mp hu'
    split
    · next hid => exact (hedit.sound hx (h u hu) fun ho => hre uid ho u hu hid).1
    · exact h u hu

theorem UserRecord.Moves.refl (u : UserRecord) : u.Moves u := ⟨fun h => h, fun h => h⟩

theorem UserRecord.Moves.trans {u u' u'' : UserRecord} (h : u.Moves u') (h' : u'.Moves u'') :
    u.Moves u'' :=
  ⟨fun hu => h'.invited (h.invited hu), fun hu => h'.password (h.password hu)⟩

/-- **One step** moves a record, whichever the step is. -/
theorem UsersStep.moves (hx : x.Lawful) {rs rs' : List UserRecord} (hs : UsersStep x q o rs rs')
    (h : ∀ u ∈ rs, u.Sound)
    (hre : ∀ id, o = .write (reactivateWrite id) → ∀ u ∈ rs, u.id = id → u.passwordHash ≠ "")
    {u : UserRecord} (hu : u ∈ rs) : ∃ u' ∈ rs', u'.id = u.id ∧ u.Moves u' := by
  cases hs with
  | same => exact ⟨u, hu, rfl, .refl u⟩
  | add _ => exact ⟨u, List.mem_append_left _ hu, rfl, .refl u⟩
  | @edit uid f hedit =>
    refine ⟨_, List.mem_map_of_mem hu, ?_⟩
    split
    · next hid =>
      exact ⟨hedit.id_eq u, (hedit.sound hx (h u hu) fun ho => hre uid ho u hu hid).2⟩
    · exact ⟨rfl, .refl u⟩

end step

/-! ## Whom `reactivate_user` makes active -/

/-- Nobody else writes what `reactivate_user` writes. -/
theorem Changes.reactivates {x : Ext} {q : AuthRequest} {o : Op} {id : Uuid} (h : Changes x q o)
    (ho : o = .write (reactivateWrite id)) : q = .reactivateUser id := by
  cases h with
  | reactivate userId =>
    cases ho
    rfl
  | _ => simp [reactivateWrite, byId, UserStatus.asStr] at ho

/-- Everybody keeps passwords, and reactivates only users who have one. -/
def passwordRules (i : Nat) : Rules Res World where
  rely s s' := ∀ id, HasPassword id s → HasPassword id s'
  rely_refl _ _ h := h
  rely_trans h h' id hp := h' id (h id hp)
  step o s r s' := (∃ a, exec i o a s = some (r, s')) ∧ ∀ id, HasPassword id s → HasPassword id s'
  guar o s _ _ := ∀ id, o = .write (reactivateWrite id) → HasPassword id s

section rules

variable {x : Ext} {config : Config} {i : Nat} {s : World}

theorem tame_passwordRules : Tame (passwordRules i) where
  exec h := ⟨i, h.1⟩
  reads ho h := ⟨fun id hop => (by rw [hop] at ho; cases ho), h.2⟩

theorem ends_reactivateUser (userId : Uuid) :
    Ends (passwordRules i) (reactivateUser userId) (fun _ _ => True) s := by
  unfold reactivateUser updateUserStatus
  refine ends_getUserRecord tame_passwordRules fun s₁ u _ hu hid => ?_
  refine ends_throwIf fun _ => ends_throwIf fun hpassword => ?_
  have hhas : HasPassword userId s₁ := ⟨u, hu, hid, hpassword⟩
  refine ends_update (fun s₂ _ _ h₂ _ id hop => ?_) fun s₂ s₃ _ _ => ?_
  · cases hop
    exact h₂ userId hhas
  · rw [← bind_pure (getUser userId)]
    exact ends_reads tame_passwordRules (Q := fun _ => True)
      (by simp [getUser, getUserRecord, userFromRecord, Op.writes])
      fun _ _ _ _ => ends_pure fun _ _ => trivial

/-- Every request keeps the promise. -/
theorem ends_passwordRules (q : AuthRequest) :
    Ends (passwordRules i) (q.serve x config) (fun _ _ => True) s := by
  by_cases hq : ∃ userId, q = .reactivateUser userId
  · obtain ⟨userId, rfl⟩ := hq
    exact ends_map (Flow.Safe.mono (ends_reactivateUser userId) (fun _ _ _ _ _ => trivial)
      fun _ _ h => h)
  · have hcovers : q.Covers x (q.serve x config) := q.covers_serve
    rw [← bind_pure (q.serve x config)]
    refine ends_all hcovers (fun o ho s r s' hs => ⟨fun id hop => ?_, hs.2⟩)
      fun _ _ _ _ => ends_pure fun _ _ => trivial
    rcases ho with ho | ho
    · rw [hop] at ho; cases ho
    · exact absurd ⟨id, ho.reactivates hop⟩ hq

end rules

section runs

variable {x : Ext} {calls : List Call} {w : World} {P' : AuthPool} {es : List (Event Res World)}

/-- In any run, whoever is reactivated has a password. -/
theorem reactivated_hasPassword (hx : x.Lawful) (hr : Runs exec (AuthPool.of x calls w) es P') :
    ∀ e ∈ es, ∀ id, e.op = .write (reactivateWrite id) → HasPassword id e.pre := by
  have hsafe : (AuthPool.of x calls w).AllSafe passwordRules fun _ _ _ => True := by
    intro i p hp
    simp only [AuthPool.of, List.getElem?_map, Option.map_eq_some_iff] at hp
    obtain ⟨c, -, rfl⟩ := hp
    exact Prog.Safe.mono (ends_passwordRules c.request) fun _ _ _ => trivial
  have hkeep : ∀ e ∈ es, ∀ id, HasPassword id e.pre → HasPassword id e.post := by
    intro e he id h
    rcases AuthPool.step hr he with hsame | ⟨c, -, hch, -, ha⟩
    · rw [HasPassword, hsame]
      exact h
    · exact h.step hx (hch.usersStep ha)
  have hall := hr.safe (I := fun _ => True) trivial hsafe
    (fun e he _ => ⟨hr.handled e he, hkeep e he⟩) fun _ _ _ _ _ _ hs _ => ⟨trivial, fun _ _ => hs.2⟩
  exact fun e he => (hall.1 e he).2

/-- **User records.** In every state that any requests reach from a database without users, in
whatever order their statements are done: a user who is active has a password, one who is invited
has none, and the stored role and status are read back as what was written; and in every later
state the user is there, not invited again and with the password if there was one. -/
theorem users_sound {P₁ P₂ : AuthPool} {es₁ es₂ : List (Event Res World)} (hx : x.Lawful)
    (hw : w.db.rows .users = []) (hr₁ : Runs exec (AuthPool.of x calls w) es₁ P₁)
    (hr₂ : Runs exec P₁ es₂ P₂) :
    (∀ u ∈ (P₁.state.db.rows .users : List UserRecord), u.Sound) ∧
      ∀ u ∈ (P₁.state.db.rows .users : List UserRecord),
        ∃ u' ∈ (P₂.state.db.rows .users : List UserRecord), u'.id = u.id ∧ u.Moves u' := by
  have hr := hr₁.append hr₂
  have hre : ∀ e ∈ es₁ ++ es₂, ∀ id, e.op = .write (reactivateWrite id) →
      ∀ u ∈ (e.pre.db.rows .users : List UserRecord), u.id = id → u.passwordHash ≠ "" := by
    intro e he id hop u hu hid
    obtain ⟨u', hu', hid', hp⟩ := reactivated_hasPassword hx hr e he id hop
    rw [Db.user_eq hu hu' (hid.trans hid'.symm)]
    exact hp
  have hstep : ∀ e ∈ es₁ ++ es₂,
      ∃ q, UsersStep x q e.op (e.pre.db.rows .users) (e.post.db.rows .users) := by
    intro e he
    rcases AuthPool.step hr he with hsame | ⟨c, -, hch, -, ha⟩
    · rw [hsame]
      exact ⟨.jwks, .same _⟩
    · exact ⟨c.request, hch.usersStep ha⟩
  let Sound : World → Prop := fun s => ∀ u ∈ (s.db.rows .users : List UserRecord), u.Sound
  have hfirst : Sound w := by
    show ∀ u ∈ w.db.rows .users, UserRecord.Sound u
    rw [hw]
    nofun
  have hkeep : ∀ e ∈ es₁ ++ es₂, Sound e.pre → Sound e.post := by
    intro e he hpre
    obtain ⟨q, hs⟩ := hstep e he
    exact hs.sound hx hpre (hre e he)
  have hall := (hr.keeps hfirst hkeep).1
  have hmid := (hr₁.keeps hfirst fun e he => hkeep e (List.mem_append_left _ he)).2
  refine ⟨hmid, fun u hu => ?_⟩
  -- from there on the record of `u` only moves
  refine (hr₂.keeps (I := fun s => ∃ u' ∈ (s.db.rows .users : List UserRecord),
    u'.id = u.id ∧ u.Moves u') ⟨u, hu, rfl, .refl u⟩ fun e he => ?_).2
  rintro ⟨u', hu', hid, hmoves⟩
  have he := List.mem_append_right es₁ he
  obtain ⟨q, hs⟩ := hstep e he
  obtain ⟨u'', hu'', hid', hmoves'⟩ := hs.moves hx (hall e he).1 (hre e he) hu'
  exact ⟨u'', hu'', hid'.trans hid, hmoves.trans hmoves'⟩

end runs

namespace Symbolic

/-- Two starts on an empty database. -/
def bootstrapped : AuthPool :=
  AuthPool.of ext [⟨config "A", .bootstrapAdmin⟩, ⟨config "B", .bootstrapAdmin⟩]
    (.start (.empty layout))

/-- The second reads no keys before the first is done, and its users after that. -/
def startedTwice : List (Nat × Ans) :=
  [(1, .done)] ++ firstStart.map (0, ·) ++
    [(1, .uuid 6), (1, .done), (1, .done), (1, .time ⟨0⟩), (1, .done), (1, .done)]

theorem users_sound_bootstrapped : ∃ P' : AuthPool, (∃ es, Runs exec bootstrapped es P') ∧
    (P'.state.db.rows .users : List UserRecord) ≠ [] ∧
      ∀ u ∈ (P'.state.db.rows .users : List UserRecord), u.Sound := by
  have hsome : (bootstrapped.run exec startedTwice).map (fun P' : AuthPool =>
      decide ((P'.state.db.rows .users : List UserRecord) ≠ [])) = some true := by decide +kernel
  obtain ⟨P', hrun, hne⟩ := Option.map_eq_some_iff.mp hsome
  have hr := Pool.run_runs hrun
  exact ⟨P', ⟨_, hr⟩, of_decide_eq_true hne, (users_sound ext_lawful rfl hr (.nil P')).1⟩

end Symbolic

end Wara
