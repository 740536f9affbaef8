import Wara.Api.Compared

/-!
# What belongs to a workspace

The records of a workspace, and what it means that two databases differ only in
their contents. Who holds no role there and is no platform admin is an outsider;
the comparison below is of two runs of the requests of outsiders, and knows of
the first run that the records of the workspace are still those it began with.
-/

namespace Wara

open Interleave Store Service AuthService

/-- The services of the workspace. -/
def servicesOf (db : Db) (w : Uuid) : List Uuid :=
  ((db.rows .appServices : List AppServiceRecord).filter fun r => r.workspaceId = w).map (·.id)

/-- The record belongs to the workspace, itself or through a service. -/
def belongs (db : Db) (w : Uuid) : {t : Table} → Row t → Bool
  | .workspaces, r => r.id = w
  | .environments, r => r.workspaceId = w
  | .appServices, r => r.workspaceId = w
  | .dockerCredentials, r => r.workspaceId = w
  | .envVars, r => r.workspaceId = w
  | .domains, r => r.serviceId ∈ servicesOf db w
  | .deployments, r => r.serviceId ∈ servicesOf db w
  | .workspaceTemplates, r => r.sourceWorkspaceId = w
  | .workspaceUserRoles, r => r.workspaceId = w
  | _, _ => false

def recordsOf (db : Db) (w : Uuid) (t : Table) : List (Row t) := (db.rows t).filter (belongs db w)

/-- The columns that say which record it is and what it belongs to. -/
def linkCols : Table → List Nat
  | .workspaces => [0]
  | .environments => [0, 1]
  | .appServices => [0, 1, 2]
  | .dockerCredentials => [0, 1]
  | .envVars => [0, 1, 2, 3]
  | .domains => [0, 1]
  | .deployments => [0, 1]
  | .workspaceTemplates => [0, 1]
  | .workspaceUserRoles => [0, 1, 2, 3]
  | _ => []

/-- The creation time of a deployment can be read. -/
def readable (x : Ext) : {t : Table} → Row t → Bool
  | .deployments, r => (x.dateTimeFromStr r.createdAt).isSome
  | _, _ => true

/-- The same identifiers and links, whatever the contents. -/
structure SameLinks (x : Ext) {t : Table} (r r' : Row t) : Prop where
  cols : ∀ c ∈ linkCols t, layout.col c r' = layout.col c r
  readable : readable x r' = readable x r

/-- The databases differ only in the contents of the records of the workspace. -/
def AlikeBut (x : Ext) (w : Uuid) (db db' : Db) : Prop :=
  ∀ t, List.Forall₂ (fun r r' : Row t => r' = r ∨ belongs db w r = true ∧ SameLinks x r r')
    (db.rows t) (db'.rows t)

/-- No platform admin, and without a role in the workspace. -/
structure Outsider (w : Uuid) (user : User) : Prop where
  role : user.role ≠ .superAdmin
  roles : ∀ role ∈ user.workspaceRoles, role.workspaceId ≠ w

instance (w : Uuid) (user : User) : Decidable (Outsider w user) :=
  decidable_of_iff (user.role ≠ .superAdmin ∧ ∀ role ∈ user.workspaceRoles, role.workspaceId ≠ w)
    ⟨fun h => ⟨h.1, h.2⟩, fun h => ⟨h.role, h.roles⟩⟩

section outsiders

variable {w workspaceId : Uuid} {user : User}

theorem Outsider.canAccess (h : Outsider w user)
    (haccess : canAccessWorkspace user workspaceId = true) : workspaceId ≠ w := by
  unfold canAccessWorkspace at haccess
  rcases Bool.or_eq_true_iff.mp haccess with hrole | hany
  · exact absurd (of_decide_eq_true hrole) h.role
  · obtain ⟨role, hmem, hw⟩ := List.any_eq_true.mp hany
    exact of_decide_eq_true hw ▸ h.roles role hmem

theorem Outsider.canAdminister (h : Outsider w user)
    (hadmin : canAdministerWorkspace user workspaceId = true) : workspaceId ≠ w := by
  refine h.canAccess ?_
  unfold canAdministerWorkspace at hadmin
  rcases Bool.or_eq_true_iff.mp hadmin with hrole | hany
  · exact absurd (of_decide_eq_true hrole) h.role
  · obtain ⟨role, hmem, hw⟩ := List.any_eq_true.mp hany
    exact Bool.or_eq_true_iff.mpr (.inr (List.any_eq_true.mpr
      ⟨role, hmem, (Bool.and_eq_true_iff.mp hw).1⟩))

end outsiders

section isolation

variable {x : Ext} {db₀ : Db} {w : Uuid} {t : Table}

/-- The rows are the same, or belong to the workspace and have the same links. -/
def BelongAlike (x : Ext) (db₀ : Db) (w : Uuid) {t : Table} (r r' : Row t) : Prop :=
  r' = r ∨ belongs db₀ w r = true ∧ SameLinks x r r'

theorem BelongAlike.col {r r' : Row t} (h : BelongAlike x db₀ w r r') {c : Nat}
    (hc : c ∈ linkCols t) : layout.col c r' = layout.col c r := by
  rcases h with rfl | ⟨-, hlinks⟩
  · rfl
  · exact hlinks.cols c hc

theorem BelongAlike.eq {r r' : Row t} (h : BelongAlike x db₀ w r r')
    (hr : belongs db₀ w r = false) : r' = r := by
  rcases h with rfl | ⟨hb, -⟩
  · rfl
  · rw [hr] at hb
    cases hb

variable (db₀ w) in
/-- Where nothing belongs to a workspace there are no links to keep. -/
theorem unique_linkCols {c : Nat} (hc : c ∈ layout.unique t) :
    c ∈ linkCols t ∨ ∀ r : Row t, belongs db₀ w r = false := by
  cases t
  case users => exact .inr fun _ => rfl
  case userInvites => exact .inr fun _ => rfl
  case userApiTokens => exact .inr fun _ => rfl
  case userRefreshTokens => exact .inr fun _ => rfl
  case jwtPublicKeys => exact .inr fun _ => rfl
  case servers => exact .inr fun _ => rfl
  all_goals
    obtain rfl : c = 0 := List.mem_singleton.mp hc
    exact .inl (by decide)

def tenantLikeness (x : Ext) (db₀ : Db) (w : Uuid) : Likeness layout where
  rel := BelongAlike x db₀ w
  unique {t r r'} h c hc := by
    rcases unique_linkCols db₀ w hc with hlink | hnone
    · exact h.col hlink
    · rw [h.eq (hnone r)]

def isolation (x : Ext) (db₀ : Db) (w : Uuid) : Comparison where
  likeness := tenantLikeness x db₀ w
  known db := ∀ t, (db.rows t).filter (belongs db₀ w) = recordsOf db₀ w t
  caller := Outsider w

/-! ## What is known of the first run -/

variable {db : Db}

theorem servicesOf_eq (h : (isolation x db₀ w).known db) : servicesOf db w = servicesOf db₀ w := by
  have hservices := h .appServices
  exact congrArg (List.map AppServiceRecord.id) hservices

theorem belongs_eq (h : (isolation x db₀ w).known db) (r : Row t) :
    belongs db w r = belongs db₀ w r := by
  have hservices := servicesOf_eq h
  cases t <;> unfold belongs <;> first | rfl | rw [hservices]

theorem recordsOf_eq (h : (isolation x db₀ w).known db) (t : Table) :
    recordsOf db w t = recordsOf db₀ w t := by
  rw [← h t]
  exact List.filter_congr fun r _ => belongs_eq h r

/-- A service that is found is one of the workspace when its identifier is. -/
theorem mem_servicesOf (h : (isolation x db₀ w).known db) {r : AppServiceRecord}
    (hr : r ∈ db.rows .appServices) : r.id ∈ servicesOf db₀ w ↔ r.workspaceId = w := by
  rw [← servicesOf_eq h]
  unfold servicesOf
  rw [List.mem_map]
  constructor
  · rintro ⟨r', hr', hid⟩
    obtain ⟨hmem, hw⟩ := List.mem_filter.mp hr'
    have heq : r' = r := (db.unique .appServices).eq (c := 0) (by decide) hmem hr
      (congrArg (fun id => some (Value.uuid id)) hid)
    exact heq ▸ of_decide_eq_true hw
  · intro hw
    exact ⟨r, List.mem_filter.mpr ⟨hr, decide_eq_true hw⟩, rfl⟩

end isolation

end Wara
