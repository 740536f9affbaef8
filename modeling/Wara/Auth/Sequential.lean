import Wara.Auth.Specs
import Wara.External.Symbolic
import Wara.Service.Quiet
import Mathlib.Logic.Relation

/-!
# Requests one after another

`Served` is one request that runs alone, with any answers and any ending, and
`Sequence` any number of them. The rules `solo I` are those of such a request
when it keeps `I` of the stored users: what it has read of them stays true until
it writes.
-/

namespace Wara

open Interleave Store Service AuthService

/-- One request of some instance is served alone. -/
def Served (x : Ext) (s s' : World) : Prop :=
  ∃ (c : Call) (i : Nat) (xs : List Ans) (r : Except Abort AuthReply),
    Prog.run exec i (c.prog x) xs s = some (r, s')

/-- Requests are served one after another. -/
abbrev Sequence (x : Ext) : World → World → Prop := Relation.ReflTransGen (Served x)

/-- Serve the calls in order, each with the answers it gets. -/
def serveAll (x : Ext) : List (Call × List Ans) → World → Option World
  | [], s => some s
  | (c, xs) :: cs, s =>
    match Prog.run exec 0 (c.prog x) xs s with
    | some (_, s') => serveAll x cs s'
    | none => none

theorem sequence_of_serveAll {x : Ext} {cs : List (Call × List Ans)} {s s' : World}
    (h : serveAll x cs s = some s') : Sequence x s s' := by
  induction cs generalizing s with
  | nil =>
    cases h
    exact .refl
  | cons c cs ih =>
    obtain ⟨c, xs⟩ := c
    simp only [serveAll] at h
    split at h
    · next r s₁ hr => exact .head ⟨c, 0, xs, r, hr⟩ (ih h)
    · cases h

/-! ## What a request alone keeps of the users -/

def Op.sparesUsers (o : Op) : Prop := ∀ w ∈ o.writes, w.table ≠ .users

section spares

variable {t : Table} {f : Filter} {sets : List (Nat × Value)} {n : Nat}

theorem Op.sparesUsers_of_reads {o : Op} (h : o.writes = []) : o.sparesUsers := by
  intro w hw
  rw [h] at hw
  cases hw

instance : AboutWrites Op.sparesUsers := ⟨fun _ => Op.sparesUsers_of_reads⟩

@[simp] theorem sparesUsers_insert {r : Row t} :
    Op.sparesUsers (.write (.insert t r)) ↔ t ≠ .users := by
  simp [Op.sparesUsers, Op.writes, Write.table]

@[simp] theorem sparesUsers_update : Op.sparesUsers (.write (.update t f sets)) ↔ t ≠ .users := by
  simp [Op.sparesUsers, Op.writes, Write.table]

theorem Op.sparesUsers.rows_eq {o : Op} (h : o.sparesUsers) {i : Nat} {a : Ans} {r : Res o}
    {s s' : World} (ha : exec i o a s = some (r, s')) :
    s'.db.rows .users = s.db.rows .users := by
  rcases exec_db ha with hdb | ⟨-, hdb⟩
  · rw [hdb]
  · exact Layout.applyAll_frame hdb fun w hw => (h w hw).symm

end spares

def solo (I : List UserRecord → Prop) : Rules Res World where
  rely s s' := s'.db.rows .users = s.db.rows .users
  rely_refl _ := rfl
  rely_trans h h' := h'.trans h
  step o s r s' := ∃ i a, exec i o a s = some (r, s')
  guar _ s _ s' := I (s.db.rows .users) → I (s'.db.rows .users)

section solo

variable {x : Ext} {config : Config} {q : AuthRequest} {I : List UserRecord → Prop}
  {α : Type} {s s' : World}

theorem tame_solo : Tame (solo I) where
  exec h := h
  reads {o s r s'} ho h := by
    obtain ⟨i, a, ha⟩ := h
    have hdb : s'.db = s.db := by
      rcases exec_db ha with hdb | ⟨-, hdb⟩
      · exact hdb
      · rw [ho] at hdb
        exact (Layout.applyAll_nil.mp hdb).symm
    have hrows : s'.db.rows .users = s.db.rows .users := by rw [hdb]
    exact ⟨fun h => hrows ▸ h, hrows⟩

/-- A part of a request that writes no user. -/
theorem ends_solo_rest {y : Service α}
    (h : Flow.All Op.sparesUsers y fun _ => True) :
    Ends (solo I) y (fun _ _ => True) s := by
  refine Prog.Safe.mono (Prog.All.guards h fun o ho s r s' hs => ?_) fun r s' _ => ?_
  · obtain ⟨i, a, ha⟩ := hs
    intro hI
    rw [ho.rows_eq ha]
    exact hI
  · cases r <;> trivial

/-- A request whose statements all keep `I`. -/
theorem ends_solo_of_steps
    (h : ∀ o (db db' : Db), Changes x q o → UsersStep x q o (db.rows .users) (db'.rows .users) →
      I (db.rows .users) → I (db'.rows .users)) :
    Ends (solo I) (q.serve x config) (fun _ _ => True) s := by
  have hcovers : q.Covers x (q.serve x config) := q.covers_serve
  refine Prog.Safe.mono (Prog.All.guards hcovers fun o ho s r s' hs => ?_) fun r s' _ => ?_
  · obtain ⟨i, a, ha⟩ := hs
    intro hI
    rcases exec_db ha with hdb | ⟨-, hdb⟩
    · rw [hdb]
      exact hI
    · rcases ho with ho | ho
      · rw [ho] at hdb
        rw [← Layout.applyAll_nil.mp hdb]
        exact hI
      · exact h o _ _ ho (ho.usersStep hdb) hI
  · cases r <;> trivial

/-- `login` and `accept_invite` end without writing a user. -/
theorem startSession_writes_no_user (user : User) :
    Flow.All Op.sparesUsers (startSession x config user) fun _ => True := by
  let input : LoginInput := ⟨"", ""⟩
  have hcovers : (AuthRequest.login input).Covers x (startSession x config user) :=
    covers_startSession fun _ _ _ => (Changes.login ..).canIssue
  refine Flow.All.mono hcovers (fun o ho => ?_) fun _ h => h
  rcases ho with ho | ho
  · exact Op.sparesUsers_of_reads ho
  · cases ho
    simp [Op.sparesUsers, Op.writes, Write.table]

/-- What every request keeps, a sequence of them keeps. -/
theorem Sequence.keeps (hall : ∀ q config s,
      Ends (solo I) (AuthRequest.serve x config q) (fun _ _ => True) s)
    (h : Sequence x s s') (hI : I (s.db.rows .users)) : I (s'.db.rows .users) := by
  induction h with
  | refl => exact hI
  | tail _ hstep ih =>
    obtain ⟨c, i, xs, r, hr⟩ := hstep
    exact Prog.Safe.keeps (I := fun s : World => I (s.db.rows .users)) (hall c.request c.config _)
      (fun ha => ⟨_, _, ha⟩) (fun hg => hg) hr ih

end solo

/-! ## Updates of one user -/

/-- The users after an update of the one with `id`. -/
def editUser (id : Uuid) (f : UserRecord → UserRecord) (rs : List UserRecord) : List UserRecord :=
  rs.map fun r => if r.id = id then f r else r

theorem mem_editUser_of_ne {id : Uuid} {f : UserRecord → UserRecord} {rs : List UserRecord}
    {r : UserRecord} (hr : r ∈ rs) (hne : r.id ≠ id) : r ∈ editUser id f rs :=
  List.mem_map.mpr ⟨r, hr, if_neg hne⟩

theorem mem_editUser_self {f : UserRecord → UserRecord} {rs : List UserRecord}
    {r : UserRecord} (hr : r ∈ rs) : f r ∈ editUser r.id f rs :=
  List.mem_map.mpr ⟨r, hr, if_pos rfl⟩

section update

variable {id : Uuid} {sets : List (Nat × Value)} {s s' : World}

/-- An update of one user is refused or done. -/
theorem exec_updateUser {f : UserRecord → UserRecord} {i : Nat} {a : Ans}
    {r : Res (.write (.update .users (byId id) sets))}
    (hf : ∀ r : UserRecord, layout.setCols (t := .users) sets r = f r)
    (h : exec i (.write (.update .users (byId id) sets)) a s = some (r, s')) :
    s'.db.rows .users = s.db.rows .users ∨ s'.db.rows .users = editUser id f (s.db.rows .users) := by
  rcases exec_write h with ⟨e, -, rfl⟩ | ⟨-, db, hdb, rfl⟩
  · exact .inl rfl
  · exact .inr (apply_updateUser hf hdb)

theorem quiet_getUserRecord {u : UserRecord} (hu : u ∈ s.db.rows .users) :
    quiet (getUserRecord u.id) s = some (.ok u, s) := by
  unfold getUserRecord
  rw [quiet_bind quiet_first, byId, Layout.head?_select (c := 0) (by decide) hu rfl]
  rfl

theorem quiet_userFromRecord (u : UserRecord) :
    ∃ user, quiet (userFromRecord u) s = some (.ok user, s) := by
  unfold userFromRecord
  by_cases hrole : (User.from u).role = .superAdmin
  · simp only [hrole, if_true]
    exact ⟨_, rfl⟩
  · simp only [hrole, if_false]
    exact ⟨_, quiet_bind quiet_query⟩

/-- What the operations on one user end with: the update is done, and the user read again. -/
theorem quiet_updateUser (sets : List (Nat × Value)) {f : UserRecord → UserRecord} {u : UserRecord}
    (hf : ∀ r : UserRecord, layout.setCols (t := .users) sets r = f r)
    (hsets : ∀ p ∈ sets, p.1 ∉ uniqueCols .users) (hu : u ∈ s.db.rows .users)
    (hid : (f u).id = u.id) :
    ∃ user s', quiet (do update .users (byId u.id) sets; getUser u.id) s = some (.ok user, s') ∧
      s'.db.rows .users = editUser u.id f (s.db.rows .users) := by
  obtain ⟨db, hdb⟩ : ∃ db, layout.apply (.update .users (byId u.id) sets) s.db = some db :=
    Layout.apply_update_isSome hsets
  have hrows : db.rows .users = editUser u.id f (s.db.rows .users) := apply_updateUser hf hdb
  have hmem : f u ∈ db.rows .users := hrows ▸ mem_editUser_self hu
  obtain ⟨user, huser⟩ := quiet_userFromRecord (s := { s with db := db }) (f u)
  refine ⟨user, { s with db := db }, ?_, hrows⟩
  rw [quiet_bind (quiet_update hdb)]
  unfold getUser
  rw [← hid, quiet_bind (quiet_getUserRecord hmem)]
  exact huser

end update

/-! ## A platform with one workspace -/

namespace Symbolic

/-- A workspace, and nobody yet. -/
def shop : World := .start {
  rows := fun
    | .workspaces => [⟨9, "Shop", none⟩]
    | _ => []
  unique := fun t => by cases t <;> decide }

/-- The answers to the first start. -/
def setUp : List Ans :=
  [.done, .uuid 5, .done, .done, .time ⟨0⟩, .done, .done, .bytes (List.replicate 16 0), .uuid 1,
    .done]

/-- The platform admin invites Bob, for 50 seconds. -/
def inviteBob : Call := ⟨{ config "A" with inviteTokenTtlSeconds := 50 }, .inviteUser
  ⟨⟨1, "admin@wara.local", "Wara Admin", .superAdmin, .active, []⟩, 9, "bob@wara.local", "Bob",
    .operator⟩⟩

def inviteBobAnswers : List Ans :=
  [.done, .done, .time ⟨0⟩, .bytes (List.replicate 32 0), .done, .uuid 2, .done, .uuid 3, .done,
    .uuid 4, .done, .done]

end Symbolic

end Wara
