import Wara.Auth.Service
import Wara.Platform.Services
import Wara.Service.Loops
import Wara.Service.Solo

/-!
# Listing workspaces and access to them

`list_accessible_workspaces` looks up the workspace of each role, sorts what it
finds and drops neighbours with one id; `ensure_workspace_access` looks for a
role. Both define the same set of workspaces, whatever the roles are.
-/

namespace Rust

/-! ## Neighbours with one key -/

section dedup

variable {α κ : Type} [DecidableEq κ] (key : α → κ) {l : List α}

theorem dedupByKey_sublist (l : List α) : (dedupByKey key l).Sublist l := by
  induction l with
  | nil => exact .refl []
  | cons a as ih =>
    unfold dedupByKey
    split
    · exact List.singleton_sublist.mpr List.mem_cons_self
    · next b bs hb =>
      rw [hb] at ih
      split
      · exact ((List.sublist_cons_self b bs).trans ih).cons_cons a
      · exact ih.cons_cons a

/-- Every key is still there. -/
theorem exists_mem_dedupByKey {a : α} (h : a ∈ l) : ∃ b ∈ dedupByKey key l, key b = key a := by
  induction l with
  | nil => cases h
  | cons c cs ih =>
    unfold dedupByKey
    rcases List.mem_cons.mp h with rfl | h
    · split
      · exact ⟨a, List.mem_cons_self, rfl⟩
      · split <;> exact ⟨a, List.mem_cons_self, rfl⟩
    · obtain ⟨d, hd, hkey⟩ := ih h
      split
      · next hnil => rw [hnil] at hd; cases hd
      · next b bs hb =>
        rw [hb] at hd
        split
        · next hsame =>
          rcases List.mem_cons.mp hd with rfl | hd
          · exact ⟨c, List.mem_cons_self, hsame.trans hkey⟩
          · exact ⟨d, List.mem_cons_of_mem _ hd, hkey⟩
        · exact ⟨d, List.mem_cons_of_mem _ hd, hkey⟩

/-- In a list sorted by the rank of the keys equal keys are neighbours. -/
theorem pairwise_dedupByKey (rank : κ → Nat) (hrank : ∀ k k', rank k = rank k' → k = k')
    (h : l.Pairwise fun a b => rank (key a) ≤ rank (key b)) :
    (dedupByKey key l).Pairwise fun a b => rank (key a) < rank (key b) := by
  induction l with
  | nil => exact .nil
  | cons a as ih =>
    obtain ⟨ha, has⟩ := List.pairwise_cons.mp h
    have ih := ih has
    unfold dedupByKey
    split
    · exact List.pairwise_singleton _ a
    · next b bs hb =>
      have hmem : b ∈ as := (dedupByKey_sublist key as).subset (hb ▸ List.mem_cons_self)
      rw [hb] at ih
      obtain ⟨hbs, hrest⟩ := List.pairwise_cons.mp ih
      split
      · next hsame => exact .cons (fun c hc => by rw [hsame]; exact hbs c hc) hrest
      · next hother =>
        have hle := ha b hmem
        have hne : rank (key a) ≠ rank (key b) := fun he => hother (hrank _ _ he)
        refine .cons (fun c hc => ?_) ih
        rcases List.mem_cons.mp hc with rfl | hc
        · omega
        · have := hbs c hc
          omega

end dedup

end Rust

namespace Wara

open Interleave Store Service WorkspaceService

section listing

variable {i : Nat} {s : World} {user : User}

/-- The workspace with this id. -/
def World.workspace? (s : World) (id : Uuid) : Option Workspace :=
  (layout.select s.db .workspaces (byId id)).head?

theorem World.workspace?_eq_some {id : Uuid} {w : Workspace} :
    s.workspace? id = some w ↔ w ∈ (s.db.rows .workspaces : List Workspace) ∧ w.id = id := by
  unfold World.workspace?
  constructor
  · intro h
    obtain ⟨hmem, hid⟩ := Layout.mem_of_head?_select h
    exact ⟨hmem, Value.uuid.inj (Option.some.inj (Layout.holds_eq.mp hid))⟩
  · rintro ⟨hmem, rfl⟩
    exact Layout.head?_select (t := Table.workspaces) (c := 0) (by decide) hmem rfl

theorem yields_getWorkspace {α : Type} {id : Uuid} {f : Except ApiError Workspace → Service α}
    {Q : List Ans → Except Abort α → World → Prop}
    (hfail : ∀ e, Yields i (f (.error (mapToastyError e))) (fun ys => Q (.fail e :: ys)) s)
    (hnone : s.workspace? id = none →
      Yields i (f (.error (.notFound "workspace"))) (fun ys => Q (.done :: ys)) s)
    (hsome : ∀ w, s.workspace? id = some w → Yields i (f (.ok w)) (fun ys => Q (.done :: ys)) s) :
    Yields i (attempt (getWorkspace id) >>= f) Q s := by
  refine yields_attempt ?_
  unfold getWorkspace
  refine yields_first hfail ?_
  rw [← bind_pure (okOr _ _)]
  refine yields_okOr hnone fun w hw => yields_pure ?_
  exact hsome w hw

/-- One lookup for each role; a workspace that is not there is skipped. -/
theorem yields_lookups (roles : List WorkspaceRole) : Yields i
    (roles.mapM fun workspaceRole => do
      match ← attempt (getWorkspace workspaceRole.workspaceId) with
      | .ok workspace => return some workspace
      | .error (.notFound "workspace") => return none
      | .error error => throwApi error)
    (fun xs r s' => s' = s ∧
      (NoFailure xs → r = .ok (roles.map fun role => s.workspace? role.workspaceId))) s := by
  induction roles with
  | nil =>
    rw [List.mapM_nil]
    exact yields_pure ⟨rfl, fun _ => rfl⟩
  | cons role roles ih =>
    have hrest : ∀ found, s.workspace? role.workspaceId = found → Yields i
        (do
          let rest ← roles.mapM fun workspaceRole => do
            match ← attempt (getWorkspace workspaceRole.workspaceId) with
            | .ok workspace => return some workspace
            | .error (.notFound "workspace") => return none
            | .error error => throwApi error
          return found :: rest)
        (fun ys r s' => s' = s ∧ (NoFailure (.done :: ys) →
          r = .ok ((role :: roles).map fun role => s.workspace? role.workspaceId))) s := by
      intro found hfound
      have hdone : ∀ e, Ans.done ≠ .fail e := nofun
      refine yields_bind (Yields.mono ih fun xs r s' hr => ?_)
      obtain ⟨rfl, hr⟩ := hr
      cases r with
      | error e =>
        refine ⟨rfl, fun hxs => ?_⟩
        cases hr ((noFailure_cons hdone).mp hxs)
      | ok rest =>
        refine yields_pure ⟨rfl, fun hxs => ?_⟩
        rw [List.append_nil] at hxs
        cases hr ((noFailure_cons hdone).mp hxs)
        rw [List.map_cons, hfound]
    rw [List.mapM_cons, bind_assoc]
    refine yields_getWorkspace (fun e => ?_) (fun hnone => ?_) fun w hw => ?_
    · refine yields_bind (yields_throwApi ⟨rfl, fun hxs => ?_⟩)
      exact absurd List.mem_cons_self (hxs e)
    · exact hrest none hnone
    · exact hrest (some w) hw

/-- What is found for the roles: the workspaces that one of them names. -/
theorem mem_found {roles : List WorkspaceRole} {w : Workspace} :
    w ∈ (roles.map fun role => s.workspace? role.workspaceId).reduceOption ↔
      w ∈ (s.db.rows .workspaces : List Workspace) ∧ ∃ role ∈ roles, role.workspaceId = w.id := by
  unfold List.reduceOption
  rw [List.filterMap_map, List.mem_filterMap]
  constructor
  · rintro ⟨role, hrole, hw⟩
    obtain ⟨hmem, hid⟩ := World.workspace?_eq_some.mp hw
    exact ⟨hmem, role, hrole, hid.symm⟩
  · rintro ⟨hmem, role, hrole, hid⟩
    exact ⟨role, hrole, World.workspace?_eq_some.mpr ⟨hmem, hid.symm⟩⟩

theorem workspace_eq_of_id {v w : Workspace} (hv : v ∈ (s.db.rows .workspaces : List Workspace))
    (hw : w ∈ (s.db.rows .workspaces : List Workspace)) (h : v.id = w.id) : v = w :=
  (s.db.unique .workspaces).eq (c := 0) (by decide) hv hw
    (congrArg (fun id => some (Value.uuid id)) h)

/-- Sorted and without neighbours of one id, a list of stored workspaces has the same workspaces,
each once and by increasing id. -/
theorem sorted_found {found : List Workspace}
    (h : ∀ w ∈ found, w ∈ (s.db.rows .workspaces : List Workspace)) :
    let ws := Rust.dedupByKey (·.id) (found.mergeSort fun left right => left.id ≤ right.id)
    (∀ w, w ∈ ws ↔ w ∈ found) ∧ ws.Pairwise fun a b => a.id < b.id := by
  intro ws
  have hsorted : (found.mergeSort fun left right => left.id ≤ right.id).Pairwise
      fun a b => a.id.toNat ≤ b.id.toNat := by
    refine (List.pairwise_mergeSort (fun a b c hab hbc => ?_) (fun a b => ?_) found).imp
      fun {a b} hab => BitVec.le_def.mp (of_decide_eq_true hab)
    · rw [decide_eq_true_iff, BitVec.le_def] at *
      omega
    · rw [Bool.or_eq_true, decide_eq_true_iff, decide_eq_true_iff, BitVec.le_def, BitVec.le_def]
      omega
  have hsub : ∀ w ∈ ws, w ∈ found := fun w hw =>
    List.mem_mergeSort.mp ((Rust.dedupByKey_sublist _ _).subset hw)
  refine ⟨fun w => ⟨hsub w, fun hw => ?_⟩, ?_⟩
  · obtain ⟨v, hv, hid⟩ := Rust.exists_mem_dedupByKey Workspace.id (List.mem_mergeSort.mpr hw)
    rw [← workspace_eq_of_id (h v (hsub v hv)) (h w hw) hid]
    exact hv
  · have hlt := Rust.pairwise_dedupByKey Workspace.id BitVec.toNat
      (fun _ _ => BitVec.eq_of_toNat_eq) hsorted
    exact hlt.imp fun hab => BitVec.lt_def.mpr hab

theorem access_iff {id : Uuid} :
    Prog.run exec i (ensureWorkspaceAccess user id) [] s = some (.ok (), s) ↔
      user.role = .superAdmin ∨ ∃ role ∈ user.workspaceRoles, role.workspaceId = id := by
  have haccess : canAccessWorkspace user id = true ↔
      user.role = .superAdmin ∨ ∃ role ∈ user.workspaceRoles, role.workspaceId = id := by
    simp [canAccessWorkspace]
  rw [← haccess]
  unfold ensureWorkspaceAccess
  split
  · next h => exact ⟨fun _ => h, fun _ => rfl⟩
  · next h => exact ⟨nofun, fun hyes => absurd hyes h⟩

/-- Only lookups. -/
theorem selects_listAccessibleWorkspaces (user : User) :
    Flow.All (fun o => ∃ t f, o = .select t f) (listAccessibleWorkspaces user) fun _ => True := by
  unfold listAccessibleWorkspaces
  split
  · simp [listWorkspaces]
  · refine Flow.all_bind.mpr (Flow.All.mono (all_mapM (P := fun _ _ => True) fun role _ => ?_)
      (fun _ h => h) fun _ _ => Flow.all_pure.mpr trivial)
    refine Flow.all_bind.mpr ?_
    have hfound : Flow.All (fun o => ∃ t f, o = .select t f)
        (attempt (getWorkspace role.workspaceId)) fun _ => True :=
      (all_attempt fun _ => trivial).mpr (by simp [getWorkspace])
    refine Flow.All.mono hfound (fun _ h => h) fun r _ => ?_
    split <;> simp

/-- The list is the workspaces that the user may access. -/
def Lists (s : World) (i : Nat) (user : User) (ws : List Workspace) : Prop :=
  (ws.map (·.id)).Nodup ∧
    (∀ w, w ∈ ws ↔ w ∈ (s.db.rows .workspaces : List Workspace) ∧
      Prog.run exec i (ensureWorkspaceAccess user w.id) [] s = some (.ok (), s)) ∧
    (user.role ≠ .superAdmin → ws.Pairwise fun a b => a.id < b.id)

theorem lists_all (h : user.role = .superAdmin) :
    Lists s i user (s.db.rows .workspaces : List Workspace) := by
  refine ⟨?_, fun w => ⟨fun hw => ⟨hw, access_iff.mpr (.inl h)⟩, And.left⟩, fun hno => absurd h hno⟩
  have hcol : ((s.db.rows .workspaces : List Workspace).map
      fun w => some (Value.uuid w.id)).Nodup := s.db.unique .workspaces 0 (by decide)
  rw [← Function.comp_def (fun id => some (Value.uuid id)), ← List.map_map] at hcol
  exact hcol.of_map _

theorem lists_found (h : user.role ≠ .superAdmin) : Lists s i user (Rust.dedupByKey (·.id)
    ((user.workspaceRoles.map fun role => s.workspace? role.workspaceId).reduceOption.mergeSort
      fun left right => left.id ≤ right.id)) := by
  obtain ⟨hmem, hsorted⟩ := sorted_found (s := s) fun w hw => (mem_found.mp hw).1
  refine ⟨?_, fun w => ?_, fun _ => hsorted⟩
  · rw [List.Nodup, List.pairwise_map]
    exact hsorted.imp fun hab he => by rw [he] at hab; exact absurd hab (BitVec.lt_irrefl _)
  · rw [hmem, mem_found, access_iff]
    exact and_congr_right fun _ => (or_iff_right h).symm

theorem yields_listAccessibleWorkspaces : Yields i (listAccessibleWorkspaces user)
    (fun xs r _ => NoFailure xs → ∃ ws, r = .ok ws ∧ Lists s i user ws) s := by
  unfold listAccessibleWorkspaces
  split
  · next h =>
    unfold listWorkspaces
    rw [← bind_pure (query _ _)]
    refine yields_query (fun e hxs => absurd List.mem_cons_self (hxs e)) (yields_pure fun _ => ?_)
    refine ⟨_, rfl, ?_⟩
    rw [show layout.select s.db .workspaces .all = s.db.rows .workspaces from
      List.filter_eq_self.mpr fun _ _ => rfl]
    exact lists_all h
  · next h =>
    refine yields_bind (Yields.mono (yields_lookups user.workspaceRoles) fun xs r s' hr => ?_)
    obtain ⟨rfl, hr⟩ := hr
    cases r with
    | error e =>
      intro hxs
      cases hr hxs
    | ok found =>
      refine yields_pure fun hxs => ?_
      rw [List.append_nil] at hxs
      cases hr hxs
      exact ⟨_, rfl, lists_found h⟩

/-- **Listing agrees with access.** In any state and for any user, `list_accessible_workspaces` has
a run in which no statement fails, and each such run returns the workspaces that are there and that
`ensure_workspace_access` lets the user into, each once, and nothing else; by increasing id unless
the user is a super admin. -/
theorem listAccessibleWorkspaces_agrees (i : Nat) (s : World) (user : User) :
    (∃ xs r s', NoFailure xs ∧
      Prog.run exec i (listAccessibleWorkspaces user) xs s = some (r, s')) ∧
    ∀ xs r s', Prog.run exec i (listAccessibleWorkspaces user) xs s = some (r, s') →
      NoFailure xs → ∃ ws, r = .ok ws ∧ (ws.map (·.id)).Nodup ∧
        (∀ w, w ∈ ws ↔ w ∈ (s.db.rows .workspaces : List Workspace) ∧
          Prog.run exec i (ensureWorkspaceAccess user w.id) [] s = some (.ok (), s)) ∧
        (user.role ≠ .superAdmin → ws.Pairwise fun a b => a.id < b.id) := by
  refine ⟨?_, fun xs r s' hrun hxs => yields_listAccessibleWorkspaces xs r s' hrun hxs⟩
  obtain ⟨xs, r, s', hxs, hrun⟩ := Prog.All.exists_run (h := exec) (t := i) (s := s)
    (fun x => ∀ e, x ≠ .fail e) (selects_listAccessibleWorkspaces user) fun o ho s => by
      obtain ⟨t, f, rfl⟩ := ho
      exact ⟨.done, _, _, nofun, rfl⟩
  exact ⟨xs, r, s', fun e he => hxs _ he e rfl, hrun⟩

end listing

/-! ## Repeated and dangling roles -/

namespace Symbolic

/-- Two workspaces. -/
def offices : World := .start {
  rows := fun
    | .workspaces => [⟨7, "South", none⟩, ⟨3, "North", none⟩, ⟨9, "East", none⟩]
    | _ => []
  unique := fun t => by cases t <;> decide }

/-- Roles in one workspace twice, in another one, and in one that is gone. -/
def commuter : User := ⟨1, "c@wara.local", "Commuter", .viewer, .active,
  [⟨7, .viewer⟩, ⟨3, .admin⟩, ⟨8, .viewer⟩, ⟨7, .admin⟩]⟩

theorem listAccessibleWorkspaces_commuter : ∃ r s', Prog.run exec 0
      (listAccessibleWorkspaces commuter) (List.replicate 4 .done) offices = some (r, s') ∧
    ∃ ws, r = .ok ws ∧ (ws.map (·.id)).Nodup := by
  have hsome : (Prog.run exec 0 (listAccessibleWorkspaces commuter) (List.replicate 4 .done)
      offices).isSome = true := by decide +kernel
  obtain ⟨⟨r, s'⟩, hrun⟩ := Option.isSome_iff_exists.mp hsome
  obtain ⟨ws, hws, hnodup, -⟩ :=
    (listAccessibleWorkspaces_agrees 0 offices commuter).2 _ r s' hrun
      fun e he => nomatch List.eq_of_mem_replicate he
  exact ⟨r, s', hrun, ws, hws, hnodup⟩

end Symbolic

end Wara
