import Wara.Auth.Requests

/-!
# Steps of a pool of requests

What an event of a run can do, read off `Changes` once: rows stay, with the
columns in `fixedCols` as they are; and a step leaves the stored users alone,
adds one user, or edits the user of one id.
-/

namespace Wara

open Interleave Store

/-! ## Events of a pool of requests -/

namespace AuthPool

variable {x : Ext} {calls : List Call} {w : World} {P' : AuthPool} {es : List (Event Res World)}

theorem issued (hr : Runs exec (of x calls w) es P') :
    ∀ e ∈ es, ∃ c, calls[e.tid]? = some c ∧ c.request.CanIssue x e.op := by
  have hall := hr.all (φ := fun i o => ∃ c, calls[i]? = some c ∧ c.request.CanIssue x o)
    (Q := fun _ _ => True)
  refine (hall ?_).1
  intro i p hp
  simp only [of, List.getElem?_map, Option.map_eq_some_iff] at hp
  obtain ⟨c, hc, rfl⟩ := hp
  have hcovers : c.request.Covers x (c.request.serve x c.config) := c.request.covers_serve
  exact Prog.All.mono hcovers (fun o ho => ⟨c, hc, ho⟩)
    fun _ _ => trivial

/-- **A step of a pool.** The database is unchanged, or one of the request's statements is done. -/
theorem step (hr : Runs exec (of x calls w) es P') {e : Event Res World} (he : e ∈ es) :
    e.post.db = e.pre.db ∨ ∃ c, calls[e.tid]? = some c ∧ Changes x c.request e.op ∧
      e.op.succeeded e.res = true ∧ layout.applyAll e.op.writes e.pre.db = some e.post.db := by
  obtain ⟨a, ha⟩ := hr.handled e he
  obtain ⟨c, hc, ho⟩ := issued hr e he
  rcases exec_db ha with h | ⟨hs, h⟩
  · exact .inl h
  · rcases ho with ho | ho
    · rw [ho] at h
      exact .inl (Layout.applyAll_nil.mp h).symm
    · exact .inr ⟨c, hc, ho, hs, h⟩

end AuthPool

/-! ## Rows stay -/

/-- The columns that no request ever changes in a row. -/
def fixedCols : Table → List Nat
  | .users => [0, 1, 2]
  | .userInvites => [0, 1, 2, 3, 5]
  | .userApiTokens => [0, 1, 2, 3, 4, 5]
  | .userRefreshTokens => [0, 1, 2, 3]
  | .jwtPublicKeys => [0, 7]
  | .servers => List.range 10
  | _ => List.range 14

abbrev Db.Keeps (db db' : Db) : Prop := layout.Keeps fixedCols db db'

/-- The relation other threads stay within. -/
abbrev World.Keeps (w w' : World) : Prop := w.db.Keeps w'.db

theorem World.Keeps.refl (w : World) : w.Keeps w := Layout.Keeps.refl w.db

theorem World.Keeps.trans {w₁ w₂ w₃ : World} (h : w₁.Keeps w₂) (h' : w₂.Keeps w₃) : w₁.Keeps w₃ :=
  Layout.Keeps.trans h h'

theorem Changes.sets_notMem_fixedCols {x : Ext} {q : AuthRequest} {o : Op} (h : Changes x q o) :
    ∀ s ∈ o.writes, ∀ c ∈ s.sets, c ∉ fixedCols s.table := by
  cases h <;> simp [Op.writes, Write.sets, Write.table, fixedCols]

theorem AuthPool.keeps {x : Ext} {calls : List Call} {w : World} {P' : AuthPool}
    {es : List (Event Res World)} (hr : Runs exec (of x calls w) es P') {e : Event Res World}
    (he : e ∈ es) : e.pre.Keeps e.post := by
  rcases step hr he with h | ⟨c, -, hc, -, ha⟩
  · rw [World.Keeps, h]; exact Layout.Keeps.refl _
  · exact Layout.applyAll_keeps ha hc.sets_notMem_fixedCols

section rows

variable {db db' : Db}

theorem Db.Keeps.user (h : db.Keeps db') {r : UserRecord} (hr : r ∈ db.rows .users) :
    ∃ r' : UserRecord, r' ∈ db'.rows .users ∧ r'.id = r.id := by
  obtain ⟨r', hr', hc⟩ := h .users r hr
  have hid : some (Value.uuid (UserRecord.id r')) = some (.uuid r.id) := hc 0 (by decide)
  injection hid with hid
  injection hid with hid
  exact ⟨r', hr', hid⟩

end rows

/-! ## Adding and editing users -/

inductive AddsUser (x : Ext) : AuthRequest → Op → UserRecord → Prop
  | createAdmin (id : Uuid) (email name password passwordHash : String)
      (hash : IsHash x password passwordHash) :
      AddsUser x .bootstrapAdmin (.write (.insert .users (newAdmin id email name passwordHash)))
        (newAdmin id email name passwordHash)
  | invite (input : InviteUserInput) (id : Uuid) (invite : UserInviteRecord)
      (role : WorkspaceUserRoleRecord) :
      AddsUser x (.inviteUser input) (.commit [.insert .users (newInvited id input),
        .insert .userInvites invite, .insert .workspaceUserRoles role]) (newInvited id input)

inductive EditsUser (x : Ext) : AuthRequest → Op → Uuid → (UserRecord → UserRecord) → Prop
  | disable (id : Uuid) : EditsUser x (.disableUser id) (.write (disableWrite id)) id
      fun r => { r with status := UserStatus.disabled.asStr }
  | reactivate (id : Uuid) : EditsUser x (.reactivateUser id) (.write (reactivateWrite id)) id
      fun r => { r with status := UserStatus.active.asStr }
  | changeRole (input : ChangeUserRoleInput) : EditsUser x (.changeUserRole input)
      (.write (changeRoleWrite input.userId input.role)) input.userId
      fun r => { r with role := input.role.asStr }
  | accept (input : AcceptInviteInput) (id : Uuid) (passwordHash : String)
      (hash : IsHash x input.password passwordHash) :
      EditsUser x (.acceptInvite input) (.write (acceptWrite id passwordHash)) id
      fun r => { r with status := UserStatus.active.asStr, passwordHash := passwordHash }

/-- What a step does to the users. -/
inductive UsersStep (x : Ext) (q : AuthRequest) (o : Op) : List UserRecord → List UserRecord → Prop
  | same (rs : List UserRecord) : UsersStep x q o rs rs
  | add {r : UserRecord} (h : AddsUser x q o r) (rs : List UserRecord) :
      UsersStep x q o rs (rs ++ [r])
  | edit {id : Uuid} {f : UserRecord → UserRecord} (h : EditsUser x q o id f)
      (rs : List UserRecord) : UsersStep x q o rs (rs.map fun r => if r.id = id then f r else r)

theorem EditsUser.id_eq {x : Ext} {q : AuthRequest} {o : Op} {id : Uuid} {f : UserRecord → UserRecord}
    (h : EditsUser x q o id f) (r : UserRecord) : (f r).id = r.id := by
  cases h <;> rfl

theorem holds_byId_users {id : Uuid} {r : UserRecord} :
    layout.holds (t := .users) (byId id) r = true ↔ r.id = id := by
  rw [byId, Layout.holds_eq]
  exact ⟨fun h => by cases h; rfl, fun h => by rw [← h]; rfl⟩

variable {x : Ext} {q : AuthRequest} {o : Op} {db db' : Db}

theorem applyAll_single {s : Write} (h : layout.applyAll [s] db = some db') :
    layout.apply s db = some db' := by
  obtain ⟨db₁, h1, h2⟩ := Layout.applyAll_cons.mp h
  cases Layout.applyAll_nil.mp h2
  exact h1

/-- An update of the user with one id. -/
theorem apply_updateUser {id : Uuid} {sets : List (Nat × Value)} {f : UserRecord → UserRecord}
    (hf : ∀ r : UserRecord, layout.setCols (t := .users) sets r = f r)
    (h : layout.apply (.update .users (byId id) sets) db = some db') :
    db'.rows .users = List.map (fun r : UserRecord => if r.id = id then f r else r)
      (db.rows .users) := by
  rw [Layout.apply_update h]
  refine List.map_congr_left fun r _ => ?_
  simp only [holds_byId_users, hf]

theorem Changes.usersStep (h : Changes x q o) (ha : layout.applyAll o.writes db = some db') :
    UsersStep x q o (db.rows .users) (db'.rows .users) := by
  have frame : ∀ s, layout.applyAll [s] db = some db' → s.table ≠ .users →
      UsersStep x q o (db.rows .users) (db'.rows .users) := fun s hs ht => by
    rw [Layout.apply_frame (applyAll_single hs) ht.symm]; exact .same _
  cases h with
  | createAdmin id email name password passwordHash hash =>
    rw [Layout.apply_insert (applyAll_single ha)]
    exact .add (.createAdmin _ _ _ _ _ hash) _
  | invite =>
    obtain ⟨db₁, h1, h2⟩ := Layout.applyAll_cons.mp ha
    obtain ⟨db₂, h2, h3⟩ := Layout.applyAll_cons.mp h2
    have h3 := applyAll_single h3
    rw [Layout.apply_frame h3 (by nofun), Layout.apply_frame h2 (by nofun),
      Layout.apply_insert h1]
    exact .add (.invite ..) _
  | acceptUser input id hash hh =>
    rw [apply_updateUser (fun _ => rfl) (applyAll_single ha)]
    exact .edit (.accept input id hash hh) _
  | disable id =>
    rw [apply_updateUser (fun _ => rfl) (applyAll_single ha)]
    exact .edit (.disable id) _
  | reactivate id =>
    rw [apply_updateUser (fun _ => rfl) (applyAll_single ha)]
    exact .edit (.reactivate id) _
  | changeRole input =>
    rw [apply_updateUser (fun _ => rfl) (applyAll_single ha)]
    exact .edit (.changeRole input) _
  | refresh =>
    obtain ⟨db₁, h1, h2⟩ := Layout.applyAll_cons.mp ha
    rw [Layout.apply_frame (applyAll_single h2) (by nofun), Layout.apply_frame h1 (by nofun)]
    exact .same _
  | _ => exact frame _ ha (by nofun)

end Wara
