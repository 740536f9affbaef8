import Wara.External.Symbolic
import Wara.Platform.Services
import Wara.Service.Solo

/-!
# Workspaces from a template

`create_workspaces_from_template` commits one transaction for each name. Each
takes six operations, so the step at which the call fails tells how many
workspaces it has added.
-/

namespace Wara

open Interleave Store Service WorkspaceService WorkspaceTemplateService

section templates

variable {i : Nat} {s : World}

/-- A workspace with this name and description, and its production environment. -/
def IsNewWorkspace (description : Option String) (name : String) (p : Workspace × Environment) :
    Prop :=
  p.1.name = name ∧ p.1.description = description ∧ p.2.workspaceId = p.1.id ∧
    p.2.name = "production"

/-- The rows of `news` have been added, and nothing else to the two tables. -/
def Added (s s' : World) (news : List (Workspace × Environment)) : Prop :=
  s'.db.rows .workspaces = s.db.rows .workspaces ++ news.map Prod.fst ∧
    s'.db.rows .environments = s.db.rows .environments ++ news.map Prod.snd

theorem Added.nil {s' : World} (h : s'.db = s.db) : Added s s' [] := by
  unfold Added
  rw [h]
  simp

theorem Added.append {s₁ s' : World} {news more : List (Workspace × Environment)}
    (h : Added s s₁ news) (h' : Added s₁ s' more) : Added s s' (news ++ more) := by
  unfold Added at *
  rw [h'.1, h'.2, h.1, h.2, List.map_append, List.map_append, List.append_assoc, List.append_assoc]
  exact ⟨rfl, rfl⟩

/-- What creating workspaces one by one leaves behind: each takes six operations, the last of them
the commit. -/
structure Creates (description : Option String) (names : List String) (s : World) (xs : List Ans)
    (r : Except Abort (List Workspace)) (s' : World) : Prop where
  failed : ∀ e, r = .error e → ∃ news, Added s s' news ∧ 6 * news.length < xs.length ∧
    xs.length ≤ 6 * news.length + 6
  done : ∀ ws, r = .ok ws → ∃ news, Added s s' news ∧ ws = news.map Prod.fst ∧
    List.Forall₂ (IsNewWorkspace description) names news

theorem yields_createWorkspace (name : String) (description : Option String) :
    Yields i (createWorkspace name description) (fun xs r s' =>
      Creates description [name] s xs (r.map fun w => [w]) s' ∧ (r.isOk → xs.length = 6)) s := by
  have early : ∀ (xs : List Ans) (e : Abort) (s' : World), s'.db = s.db → 1 ≤ xs.length →
      xs.length ≤ 6 → Creates description [name] s xs (.error e) s' ∧
        ((.error e : Except Abort Workspace).isOk → xs.length = 6) := by
    intro xs e s' hs h1 h6
    exact ⟨⟨fun _ _ => ⟨[], Added.nil hs, h1, h6⟩, nofun⟩, nofun⟩
  unfold createWorkspace
  refine yields_transaction (fun e => early [_] _ _ rfl (by simp) (by simp)) ?_
  refine yields_nowV7 fun u hu => ?_
  refine yields_txCreate (fun e => early [_, _, _] _ _ rfl (by simp) (by simp))
    (fun _ => early [_, _, _] _ _ rfl (by simp) (by simp)) ?_
  refine yields_nowV7 fun u' hu' => ?_
  refine yields_txCreate (fun e => early [_, _, _, _, _] _ _ rfl (by simp) (by simp))
    (fun _ => early [_, _, _, _, _] _ _ rfl (by simp) (by simp)) ?_
  refine yields_commit (fun e => early [_, _, _, _, _, _] _ _ rfl (by simp) (by simp))
    (fun _ => early [_, _, _, _, _, _] _ _ rfl (by simp) (by simp)) fun db hdb => ?_
  obtain ⟨db₁, h1, h2⟩ := Layout.applyAll_cons.mp hdb
  obtain ⟨db₂, h2, h3⟩ := Layout.applyAll_cons.mp h2
  cases Layout.applyAll_nil.mp h3
  refine yields_pure ⟨⟨nofun, fun ws hws => ?_⟩, fun _ => rfl⟩
  cases hws
  refine ⟨[(⟨u, name, description⟩, ⟨u', u, "production"⟩)], ⟨?_, ?_⟩, rfl,
    .cons ⟨rfl, rfl, rfl, rfl⟩ .nil⟩
  · rw [Layout.apply_frame h2 (by nofun), Layout.apply_insert h1]
    rfl
  · rw [Layout.apply_insert h2, Layout.apply_frame h1 (by nofun)]
    rfl

theorem yields_createWorkspaces (names : List String) (description : Option String) :
    Yields i (names.mapM fun name => createWorkspace name description)
      (Creates description names s) s := by
  induction names generalizing s with
  | nil =>
    rw [List.mapM_nil]
    refine yields_pure ⟨nofun, fun ws hws => ?_⟩
    cases hws
    exact ⟨[], Added.nil rfl, rfl, .nil⟩
  | cons name names ih =>
    rw [List.mapM_cons]
    refine yields_bind (Yields.mono (yields_createWorkspace name description) fun xs r s₁ hr => ?_)
    obtain ⟨hr, hlen⟩ := hr
    cases r with
    | error e => exact ⟨fun e' _ => hr.failed e rfl, nofun⟩
    | ok w =>
      obtain ⟨news, hadded, hws, hnews⟩ := hr.done [w] rfl
      have hlen : xs.length = 6 := hlen rfl
      have hone : news.length = 1 := hnews.length_eq.symm
      refine yields_bind (Yields.mono ih fun ys r s₂ hrest => ?_)
      cases r with
      | error e =>
        refine ⟨fun e' _ => ?_, nofun⟩
        obtain ⟨more, hmore, hlo, hhi⟩ := hrest.failed e rfl
        refine ⟨news ++ more, hadded.append hmore, ?_, ?_⟩
        · rw [List.length_append, List.length_append]; omega
        · rw [List.length_append, List.length_append]; omega
      | ok ws =>
        refine yields_pure ⟨nofun, fun all hall => ?_⟩
        cases hall
        obtain ⟨more, hmore, hws', hforall⟩ := hrest.done ws rfl
        refine ⟨news ++ more, hadded.append hmore, ?_, ?_⟩
        · rw [List.map_append, ← hws, ← hws']
          rfl
        · exact List.rel_append hnews hforall

theorem Added.eq_nil_iff {s' : World} {news : List (Workspace × Environment)}
    (h : Added s s' news) : s'.db.rows .workspaces = s.db.rows .workspaces ∧
      s'.db.rows .environments = s.db.rows .environments ↔ news = [] := by
  rw [h.1, h.2]
  constructor
  · rintro ⟨hws, -⟩
    exact List.map_eq_nil_iff.mp (List.append_right_eq_self.mp hws)
  · rintro rfl
    simp

/-- What `create_workspaces_from_template` leaves behind: reading the template comes first. -/
theorem yields_createWorkspacesFromTemplate (input : CreateWorkspacesFromTemplateInput) :
    Yields i (createWorkspacesFromTemplate input) (fun xs r s' =>
      (∀ e, r = .error e → ∃ news, Added s s' news ∧ 6 * news.length + 1 ≤ xs.length ∧
        xs.length ≤ 6 * news.length + 7 ∧ (news ≠ [] → 7 < xs.length)) ∧
      ∀ ws, r = .ok ws → ∃ template : WorkspaceTemplateRecord,
        template ∈ s.db.rows .workspaceTemplates ∧ template.id = input.templateId ∧
        ∃ news, Added s s' news ∧ ws = news.map Prod.fst ∧
          List.Forall₂ (IsNewWorkspace template.description) input.names news) s := by
  unfold createWorkspacesFromTemplate getTemplate
  simp only [bind_assoc]
  have early : ∃ news, Added s s news ∧ 6 * news.length + 1 ≤ 1 ∧ 1 ≤ 6 * news.length + 7 ∧
      (news ≠ [] → 7 < 1) :=
    ⟨[], Added.nil rfl, by simp, by simp, fun h => absurd rfl h⟩
  refine yields_first (fun _ => ⟨fun _ _ => early, nofun⟩) ?_
  refine yields_okOr (fun _ => ⟨fun _ _ => early, nofun⟩) fun template htemplate => ?_
  obtain ⟨record, hrecord, rfl⟩ := Option.map_eq_some_iff.mp htemplate
  obtain ⟨hmem, hid⟩ := Layout.mem_of_head?_select hrecord
  refine Yields.mono (yields_createWorkspaces input.names _) fun xs r s' hr => ⟨fun e he => ?_,
    fun ws hws => ?_⟩
  · obtain ⟨news, hadded, hlo, hhi⟩ := hr.failed e he
    refine ⟨news, hadded, ?_, ?_, fun hne => ?_⟩
    all_goals rw [List.length_cons]
    · omega
    · omega
    · have : 0 < news.length := List.length_pos_iff.mpr hne
      omega
  · have hcol : some (Value.uuid record.id) = some (.uuid input.templateId) :=
      Layout.holds_eq.mp hid
    exact ⟨record, hmem, Value.uuid.inj (Option.some.inj hcol), hr.done ws hws⟩

/-- **When a failed `create_workspaces_from_template` has added nothing.** The commit for the first
name is the seventh operation: a call that fails there or earlier adds nothing, one that fails
later has added a workspace. A call that succeeds adds one workspace for each name, in order, each
with its production environment. -/
theorem createWorkspacesFromTemplate_atomic_iff {input : CreateWorkspacesFromTemplateInput}
    {xs : List Ans} {r : Except Abort (List Workspace)} {s' : World}
    (h : Prog.run exec i (createWorkspacesFromTemplate input) xs s = some (r, s')) :
    (∀ e, r = .error e → ((s'.db.rows .workspaces = s.db.rows .workspaces ∧
      s'.db.rows .environments = s.db.rows .environments) ↔ xs.length ≤ 7)) ∧
    ∀ ws, r = .ok ws → ∃ template : WorkspaceTemplateRecord,
      template ∈ s.db.rows .workspaceTemplates ∧ template.id = input.templateId ∧
      ∃ news, Added s s' news ∧ ws = news.map Prod.fst ∧
        List.Forall₂ (IsNewWorkspace template.description) input.names news := by
  obtain ⟨hfailed, hdone⟩ := yields_createWorkspacesFromTemplate input xs r s' h
  refine ⟨fun e he => ?_, hdone⟩
  obtain ⟨news, hadded, -, hhi, hlo⟩ := hfailed e he
  rw [hadded.eq_nil_iff]
  constructor
  · rintro rfl
    simpa using hhi
  · intro hlen
    by_contra hne
    have := hlo hne
    omega

end templates

namespace Symbolic

/-- A template without a description. -/
def templated : World := .start {
  rows := fun
    | .workspaceTemplates => [⟨7, 9, "Shop", none⟩]
    | _ => []
  unique := fun t => by cases t <;> decide }

def twoShops : CreateWorkspacesFromTemplateInput := ⟨7, ["North", "South"], .empty⟩

/-- The first workspace is there; the transaction for the second one cannot be opened. -/
def secondFails : List Ans :=
  [.done, .done, .uuid 1, .done, .uuid 2, .done, .done, .fail "connection lost"]

theorem template_broken : (Prog.run exec 0 (createWorkspacesFromTemplate twoShops) secondFails
    templated).map (fun r => (r.1, (r.2.db.rows .workspaces : List Workspace))) =
      some (failed "connection lost", [⟨1, "North", none⟩]) := by decide +kernel

theorem createWorkspacesFromTemplate_half_done : ¬ ∀ (input : CreateWorkspacesFromTemplateInput)
    (i : Nat) (s s' : World) (xs : List Ans) (e : Abort),
    Prog.run exec i (createWorkspacesFromTemplate input) xs s = some (.error e, s') →
    s'.db.rows .workspaces = s.db.rows .workspaces := by
  intro hclaim
  obtain ⟨⟨r, s'⟩, hrun, hr⟩ := Option.map_eq_some_iff.mp template_broken
  obtain ⟨hr, hrows⟩ := Prod.mk.inj hr
  rw [show r = failed "connection lost" from hr] at hrun
  have hsame := hclaim twoShops 0 templated s' _ _ hrun
  rw [show s'.db.rows .workspaces = [⟨1, "North", none⟩] from hrows] at hsame
  cases hsame

/-- Nothing is added when the first transaction cannot be committed. -/
theorem createWorkspacesFromTemplate_atomic_first : ∃ s', Prog.run exec 0
      (createWorkspacesFromTemplate twoShops)
        [.done, .done, .uuid 1, .done, .uuid 2, .done, .fail "deadlock"] templated =
      some (failed "deadlock", s') ∧ s'.db.rows .workspaces = templated.db.rows .workspaces ∧
    s'.db.rows .environments = templated.db.rows .environments := by
  have hsome : (Prog.run exec 0 (createWorkspacesFromTemplate twoShops)
    [.done, .done, .uuid 1, .done, .uuid 2, .done, .fail "deadlock"] templated).map Prod.fst =
      some (failed "deadlock") := by decide +kernel
  obtain ⟨⟨r, s'⟩, hrun, hr⟩ := Option.map_eq_some_iff.mp hsome
  obtain rfl : r = failed "deadlock" := hr
  exact ⟨s', hrun, ((createWorkspacesFromTemplate_atomic_iff hrun).1 _ rfl).mpr (by decide)⟩

end Symbolic

end Wara
