import Wara.Api.Composed
import Wara.Api.Jobs
import Wara.Auth.Specs

/-!
# Who makes whom an admin

As long as no request is authenticated as a platform admin, the platform admins
stay the same people, and a role in a workspace is given only by somebody who is
an admin there. Promises are made about the columns that say who is what: the
role of a user, and all of a workspace role.
-/

namespace Wara

open Interleave Store Service AuthService WorkspaceService AppServiceService DomainService
  DeploymentService WorkspaceTemplateService CredentialService ServerService

/-! ## Roles as they are stored -/

/-- The user has a role record in the workspace that reads as `admin`. -/
def HoldsAdmin (db : Db) (userId workspaceId : Uuid) : Prop :=
  ∃ r ∈ (db.rows .workspaceUserRoles : List WorkspaceUserRoleRecord),
    r.userId = userId ∧ r.workspaceId = workspaceId ∧ Role.from r.role = .admin

def IsSuperAdmin (db : Db) (userId : Uuid) : Prop :=
  ∃ u ∈ (db.rows .users : List UserRecord), u.id = userId ∧ u.role = Role.superAdmin.asStr

/-- The columns that say who is what. -/
def grantCols : Table → List Nat
  | .users => [0, 3]
  | .workspaceUserRoles => [0, 1, 2, 3]
  | _ => []

section roles

variable {db db' : Db}

theorem workspaceUserRole_eq {r r' : WorkspaceUserRoleRecord}
    (h : ∀ c ∈ grantCols .workspaceUserRoles, layout.col (t := .workspaceUserRoles) c r' =
      layout.col (t := .workspaceUserRoles) c r) : r' = r := by
  obtain ⟨id, userId, workspaceId, role⟩ := r
  obtain ⟨id', userId', workspaceId', role'⟩ := r'
  obtain rfl : id' = id := uuid_of_col (h 0 (by decide))
  obtain rfl : userId' = userId := uuid_of_col (h 1 (by decide))
  obtain rfl : workspaceId' = workspaceId := uuid_of_col (h 2 (by decide))
  obtain rfl : role' = role := text_of_col (h 3 (by decide))
  rfl

/-- Workspace roles stay as they are. -/
theorem mem_workspaceUserRoles (h : layout.Keeps grantCols db db') {r : WorkspaceUserRoleRecord}
    (hr : r ∈ db.rows .workspaceUserRoles) : r ∈ db'.rows .workspaceUserRoles := by
  obtain ⟨r', hr', hc⟩ := h .workspaceUserRoles r hr
  exact workspaceUserRole_eq hc ▸ hr'

/-- So do users and their roles. -/
theorem mem_users (h : layout.Keeps grantCols db db') {u : UserRecord} (hu : u ∈ db.rows .users) :
    ∃ u' ∈ (db'.rows .users : List UserRecord), u'.id = u.id ∧ u'.role = u.role := by
  obtain ⟨u', hu', hc⟩ := h .users u hu
  exact ⟨u', hu', uuid_of_col (hc 0 (by decide)), text_of_col (hc 3 (by decide))⟩

theorem HoldsAdmin.mono {userId workspaceId : Uuid} (h : HoldsAdmin db userId workspaceId)
    (hk : layout.Keeps grantCols db db') : HoldsAdmin db' userId workspaceId := by
  obtain ⟨r, hr, hrest⟩ := h
  exact ⟨r, mem_workspaceUserRoles hk hr, hrest⟩

end roles

/-! ## Promises -/

/-- The writes change no role. -/
def Op.SparesRoles (o : Op) : Prop := ∀ w ∈ o.writes, ∀ c ∈ w.sets, c ∉ grantCols w.table

/-- What thread `i` promises about roles, when none of its requests is a platform admin's. -/
structure Grants (i : Nat) (o : Op) (s : World) : Prop where
  spares : o.SparesRoles
  users : ∀ u : UserRecord, .insert .users u ∈ o.writes → u.role ≠ Role.superAdmin.asStr
  roles : ∀ r : WorkspaceUserRoleRecord, .insert .workspaceUserRoles r ∈ o.writes →
    ∃ caller, (i, caller) ∈ s.callers ∧ HoldsAdmin s.db caller.id r.workspaceId

def granting (i : Nat) : Rules Res World where
  rely s s' := layout.Keeps grantCols s.db s'.db ∧ ∀ p ∈ s.callers, p ∈ s'.callers
  rely_refl s := ⟨Layout.Keeps.refl s.db, fun _ h => h⟩
  rely_trans h h' := ⟨h.1.trans h'.1, fun p hp => h'.2 p (h.2 p hp)⟩
  step o s r s' := (∃ a, exec i o a s = some (r, s')) ∧
    ∀ user, o = .caller user → user.role ≠ .superAdmin
  guar o s _ _ := Grants i o s

/-- The record of the callers only grows. -/
theorem exec_callers {i : Nat} {o : Op} {a : Ans} {r : Res o} {s s' : World}
    (h : exec i o a s = some (r, s')) : ∀ p ∈ s.callers, p ∈ s'.callers := by
  cases o
  case write w =>
    rcases exec_write h with ⟨e, -, rfl⟩ | ⟨-, db, -, rfl⟩ <;> exact fun _ h => h
  case commit ws =>
    rcases exec_commit h with ⟨e, -, rfl⟩ | ⟨-, db, -, rfl⟩ <;> exact fun _ h => h
  case newUuid =>
    obtain ⟨hu, rfl⟩ := exec_newUuid h
    exact fun _ h => h
  case caller user =>
    rw [exec_caller h]
    exact fun _ h => List.mem_cons_of_mem _ h
  all_goals
    rw [exec_idle rfl h]
    exact fun _ h => h

theorem exec_keepsRoles {i : Nat} {o : Op} {a : Ans} {r : Res o} {s s' : World}
    (ho : o.SparesRoles) (h : exec i o a s = some (r, s')) :
    layout.Keeps grantCols s.db s'.db := by
  rcases exec_db h with hdb | ⟨-, hdb⟩
  · rw [hdb]
    exact Layout.Keeps.refl _
  · exact Layout.applyAll_keeps hdb ho

theorem Grants.of_reads {i : Nat} {o : Op} {s : World} (h : o.writes = []) : Grants i o s := by
  constructor
  · unfold Op.SparesRoles
    rw [h]
    exact fun _ hw => absurd hw List.not_mem_nil
  · rw [h]
    exact fun _ hw => absurd hw List.not_mem_nil
  · rw [h]
    exact fun _ hw => absurd hw List.not_mem_nil

theorem close_granting {i : Nat} : Close (granting i) where
  exec h := ⟨i, h.1⟩
  reads {o s r s'} ho h := by
    obtain ⟨⟨a, ha⟩, -⟩ := h
    have hg : Grants i o s := .of_reads ho
    exact ⟨hg, exec_keepsRoles hg.spares ha, exec_callers ha⟩
  within {o s r s'} h hg := by
    obtain ⟨⟨a, ha⟩, -⟩ := h
    exact ⟨exec_keepsRoles hg.spares ha, exec_callers ha⟩

/-! ## Operations that give nobody a role -/

/-- No role changes, and no user and no role is added. -/
structure Op.Plain (o : Op) : Prop where
  spares : o.SparesRoles
  users : ∀ u : UserRecord, .insert .users u ∉ o.writes
  roles : ∀ r : WorkspaceUserRoleRecord, .insert .workspaceUserRoles r ∉ o.writes

theorem Op.Plain.grants {o : Op} (h : o.Plain) (i : Nat) (s : World) : Grants i o s :=
  ⟨h.spares, fun u hu => (h.users u hu).elim, fun r hr => (h.roles r hr).elim⟩

section plain

variable {t : Table} {f : Filter} {sets : List (Nat × Value)} {w : Write} {ws : List Write}

theorem Op.plain_of_reads {o : Op} (h : o.writes = []) : o.Plain := by
  refine ⟨(Grants.of_reads (i := 0) (s := .start (Db.empty layout)) h).spares, ?_, ?_⟩ <;>
  · rw [h]
    exact fun _ => List.not_mem_nil

instance : AboutWrites Op.Plain := ⟨fun _ => Op.plain_of_reads⟩

/-- Rows of other tables. -/
theorem Op.plain_of_tables {o : Op}
    (h : ∀ w ∈ o.writes, w.table ≠ .users ∧ w.table ≠ .workspaceUserRoles) : o.Plain where
  spares w hw c hc := by
    obtain ⟨hu, hr⟩ := h w hw
    cases ht : w.table <;> simp_all [grantCols]
  users u hu := (h _ hu).1 rfl
  roles r hr := (h _ hr).2 rfl

theorem plain_insert {r : Row t} (h : t ≠ .users ∧ t ≠ .workspaceUserRoles) :
    Op.Plain (.write (.insert t r)) :=
  Op.plain_of_tables fun w hw => by
    obtain rfl := List.mem_singleton.mp hw
    exact h

theorem plain_commit (h : ∀ w ∈ ws, w.table ≠ .users ∧ w.table ≠ .workspaceUserRoles) :
    Op.Plain (.commit ws) := Op.plain_of_tables h

theorem plain_update (h : ∀ p ∈ sets, p.1 ∉ grantCols t) : Op.Plain (.write (.update t f sets)) where
  spares w hw c hc := by
    obtain rfl := List.mem_singleton.mp hw
    obtain ⟨p, hp, rfl⟩ := List.mem_map.mp hc
    exact h p hp
  users u hu := by cases List.mem_singleton.mp hu
  roles r hr := by cases List.mem_singleton.mp hr

end plain

end Wara
