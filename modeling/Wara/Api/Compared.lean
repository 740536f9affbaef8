import Wara.Api.Routes
import Wara.Auth.Accounts

/-!
# Requests compared

A pool of requests runs them in any order of their statements, one after another
among the orders. If each request of one pool agrees with the same one of
another, the pools follow one schedule with the same replies. The checks that
the handlers begin with agree with themselves.
-/

namespace Wara

open Interleave Store Service AuthService

abbrev RequestPool := Pool Res World (Except Abort ApiReply)

/-- Each request with the configuration of the instance that serves it. -/
def RequestPool.of (x : Ext) (requests : List (Config × ApiRequest)) (w : World) : RequestPool :=
  ⟨requests.map fun q => q.2.serve x q.1, w⟩

section compared

variable {K : Comparison} {x : Ext} {α α' β β' : Type} {user : User}

/-- The call agrees with itself, with one result. -/
abbrev Same (K : Comparison) {α : Type} (y : Service α) : Prop := Agree K y y fun a a' => a' = a

theorem same_pure (a : α) : Same K (pure a : Service α) := agree_pure rfl

theorem Same.bind {y : Service α} {f : α → Service β} (h : Same K y) (hf : ∀ a, Same K (f a)) :
    Same K (y >>= f) := by
  refine Agree.bind h fun a a' ha => ?_
  rw [ha]
  exact hf a

/-- A call of which only blind operations are known. -/
theorem same_blind {y : Service α} (h : Flow.All (Op.Blind K) y fun _ => True) : Same K y :=
  (agree_blind h).mono fun _ _ h => h.1

/-- A reply made of related results. -/
theorem Agree.reply {R : α → α' → Prop} {y : Service α} {y' : Service α'} {g : α → β} {g' : α' → β}
    (h : Agree K y y' R) (hg : ∀ a a', R a a' → g' a' = g a) :
    Agree K (do return g (← y)) (do return g' (← y')) fun r r' => r' = r :=
  h.bind fun a a' ha => agree_pure (hg a a' ha)

theorem Same.reply {y : Service α} (h : Same K y) (g : α → β) : Same K (do return g (← y)) :=
  Agree.reply h fun _ _ ha => congrArg g ha

theorem same_mapM {g : α → Service β} (h : ∀ a, Same K (g a)) (as : List α) :
    Same K (as.mapM g) := by
  have heq : List.Forall₂ (fun a a' => a' = a) as as := List.forall₂_same.mpr fun _ _ => rfl
  have hloop : Agree K (as.mapM g) (as.mapM g) (List.Forall₂ fun b b' => b' = b) := by
    refine agree_mapM heq ?_
    rintro _ a rfl
    exact h a
  refine Agree.mono hloop fun bs bs' hbs => ?_
  induction hbs with
  | nil => rfl
  | cons hb _ ih => rw [hb, ih]

theorem agree_validated {valid valid' : Bool} {y y' : Service ApiReply} (hv : valid' = valid)
    (h : Agree K y y' fun r r' => r' = r) :
    Agree K (validated valid y) (validated valid' y') fun r r' => r' = r := by
  unfold validated
  rw [hv]
  cases valid with
  | true => exact h
  | false => exact agree_pure rfl

theorem agree_ensureSuperAdmin {R : β → β' → Prop} {f : Unit → Service β} {f' : Unit → Service β'}
    (h : user.role = .superAdmin → Agree K (f ()) (f' ()) R) :
    Agree K (ensureSuperAdmin user >>= f) (ensureSuperAdmin user >>= f') R := by
  unfold ensureSuperAdmin
  by_cases hrole : user.role = .superAdmin
  · rw [if_pos hrole]
    exact h hrole
  · rw [if_neg hrole]
    exact agree_throwApi _

theorem agree_ensureWorkspaceAccess {R : β → β' → Prop} {workspaceId : Uuid} {f : Unit → Service β}
    {f' : Unit → Service β'} (h : canAccessWorkspace user workspaceId = true →
      Agree K (f ()) (f' ()) R) :
    Agree K (ensureWorkspaceAccess user workspaceId >>= f)
      (ensureWorkspaceAccess user workspaceId >>= f') R := by
  unfold ensureWorkspaceAccess
  by_cases haccess : canAccessWorkspace user workspaceId = true
  · rw [if_pos haccess]
    exact h haccess
  · rw [if_neg haccess]
    exact agree_throwApi _

/-- The extractor hands over the same user, one of those whose requests are compared. -/
theorem agree_extractUser (h : SameAccounts K) (config : Config) (authorization : Option String) :
    Agree K (extractUser x config authorization) (extractUser x config authorization)
      fun user user' => user' = user ∧ K.caller user := by
  unfold extractUser
  have hcurrent : OnAccounts (currentUser x config authorization) := by simp [currentUser]
  refine (h.agree hcurrent).bind fun user user' huser => ?_
  rw [huser]
  have hnote : Agree K (Flow.call (.caller user)) (Flow.call (.caller user))
      fun _ _ => K.caller user := by
    refine Flow.lockstep_call fun hok i a s s' r s₁ ht hx => ?_
    have hblind : Op.Blind K (.caller user) := trivial
    obtain ⟨s₁', hx', ht'⟩ := hblind.lockstep i a s s' r s₁ ht hx
    exact ⟨r, s₁', hx', ht', hok user rfl⟩
  exact hnote.bind fun _ _ hcaller => agree_pure ⟨rfl, hcaller⟩

theorem agree_serve (h : SameAccounts K) (config : Config) {authorization : Option String}
    {route route' : UserRoute} (hroute : ∀ user, K.caller user →
      Agree K (route.handle x config user) (route'.handle x config user) fun r r' => r' = r) :
    Agree K ((ApiRequest.user authorization route).serve x config)
      ((ApiRequest.user authorization route').serve x config) fun r r' => r' = r := by
  refine (agree_extractUser h config authorization).bind fun user user' huser => ?_
  rw [huser.1]
  exact hroute user huser.2

/-! ## Pools -/

/-- **One schedule, the same replies.** -/
theorem requests_agree {requests requests' : List (Config × ApiRequest)}
    {schedule : List (Nat × Ans)} {s s' : World} {P : RequestPool}
    (hq : List.Forall₂ (fun q q' => Agree K (q.2.serve x q.1) (q'.2.serve x q'.1)
      fun r r' => r' = r) requests requests')
    (hs : Twins K s s') (hr : (RequestPool.of x requests s).run exec schedule = some P)
    (hcallers : ∀ e ∈ (RequestPool.of x requests s).trace exec schedule, K.Covers e.op) :
    ∃ P' : RequestPool, (RequestPool.of x requests' s').run exec schedule = some P' ∧
      (∀ (i : Nat) (r : Except Abort ApiReply),
        P'.threads[i]? = some (.ret r) ↔ P.threads[i]? = some (.ret r)) ∧
      Twins K P.state P'.state := by
  have hpools : Pool.Lockstep exec K.Covers (Twins K) (fun r r' => r' = r)
      (RequestPool.of x requests s) (RequestPool.of x requests' s') := by
    refine Pool.lockstep_of_forall₂ ?_ hs
    rw [List.forall₂_map_left_iff, List.forall₂_map_right_iff]
    refine hq.imp fun q q' h => Prog.Lockstep.mono h fun r r' hr => ?_
    cases r <;> cases r'
    case ok.ok => exact congrArg Except.ok hr
    case error.error => exact congrArg Except.error hr
    all_goals exact hr.elim
  obtain ⟨P', hr', hP⟩ := hpools.run hr hcallers
  exact ⟨P', hr', fun i r => hP.ret_iff, hP.state⟩

end compared

end Wara
