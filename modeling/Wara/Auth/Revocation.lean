import Wara.Auth.Credentials
import Wara.Auth.RefreshOnce

/-!
# Revocation

An API token or refresh token with a `revoked_at`, and an invite with an
`accepted_at`, keep it: every writer of these columns writes a time. So a request
that has not begun by then, and presents the credential, does not succeed.
-/

namespace Wara

open Interleave Store Service AuthService

/-- A record that can be revoked. -/
inductive Revocable where
  | apiToken (r : UserApiTokenRecord)
  | refreshToken (r : UserRefreshTokenRecord)
  | invite (i : UserInviteRecord)
  deriving DecidableEq, Repr

/-- In this state the record is revoked, or the invite accepted. -/
def Revocable.SpentIn (w : World) : Revocable → Prop
  | .apiToken r => ∃ r' : UserApiTokenRecord, r' ∈ w.db.rows .userApiTokens ∧ r'.id = r.id ∧
      r'.tokenHash = r.tokenHash ∧ r'.revokedAt.isSome = true
  | .refreshToken r => Revoked r.id w
  | .invite i => ∃ i' : UserInviteRecord, i' ∈ w.db.rows .userInvites ∧ i'.id = i.id ∧
      i'.tokenHash = i.tokenHash ∧ i'.acceptedAt ≠ ""

/-- The request presents the credential of the record. -/
def Revocable.PresentedBy (x : Ext) : Revocable → AuthRequest → Prop
  | .apiToken r, .authenticateBearer token =>
    HasShape x .apiToken token ∧ hashApiToken x token = r.tokenHash
  | .refreshToken r, .refreshSession input =>
    ∃ userId, IsRefreshToken x input.refreshToken r.id userId
  | .refreshToken r, .logout input => ∃ userId, IsRefreshToken x input.refreshToken r.id userId
  | .invite i, .acceptInvite input => hashInviteToken x input.token = i.tokenHash
  | _, _ => False

section runs

variable {x : Ext} {config : Config} {calls : List Call} {w : World} {P₁ P₂ : AuthPool}
  {es₁ es₂ : List (Event Res World)} {cred : Revocable}

/-- **One step** clears no `revoked_at` and no `accepted_at`. -/
theorem Revocable.SpentIn.step (hx : x.Lawful) {q : AuthRequest} {o : Op} {s s' : World}
    (h : cred.SpentIn s) (hch : Changes x q o)
    (ha : layout.applyAll o.writes s.db = some s'.db) : cred.SpentIn s' := by
  cases cred with
  | apiToken r =>
    obtain ⟨r₁, hr₁, hspent⟩ := h
    refine Layout.applyAll_mem (P := fun r' : UserApiTokenRecord => r'.id = r.id ∧
      r'.tokenHash = r.tokenHash ∧ r'.revokedAt.isSome = true) ha (fun f sets hmem r' _ hP => ?_)
      hr₁ hspent
    obtain ⟨hid, hhash, hrevoked⟩ := hP
    cases hch <;> simp [Op.writes] at hmem
    case useApiToken =>
      obtain ⟨-, rfl⟩ := hmem
      exact ⟨hid, hhash, hrevoked⟩
    case revokeApiToken =>
      obtain ⟨-, rfl⟩ := hmem
      exact ⟨hid, hhash, rfl⟩
  | refreshToken r => exact Revoked.step h hch ha
  | invite i =>
    obtain ⟨i₁, hi₁, hspent⟩ := h
    refine Layout.applyAll_mem (P := fun i' : UserInviteRecord => i'.id = i.id ∧
      i'.tokenHash = i.tokenHash ∧ i'.acceptedAt ≠ "") ha (fun f sets hmem i' _ hP => ?_) hi₁ hspent
    obtain ⟨hid, hhash, -⟩ := hP
    cases hch <;> simp [Op.writes] at hmem
    case acceptInvite =>
      obtain ⟨-, rfl⟩ := hmem
      exact ⟨hid, hhash, hx.rfc3339_nonempty _⟩

theorem Revocable.SpentIn.event (hx : x.Lawful) {es : List (Event Res World)} {P' : AuthPool}
    (hr : Runs exec (AuthPool.of x calls w) es P') {e : Event Res World} (he : e ∈ es)
    (h : cred.SpentIn e.pre) : cred.SpentIn e.post := by
  rcases AuthPool.step hr he with hsame | ⟨c, -, hch, -, ha⟩
  · cases cred <;> simpa only [Revocable.SpentIn, Revoked, hsame] using h
  · exact h.step hx hch ha

theorem Db.refreshToken_eq {db : Db} {r r' : UserRefreshTokenRecord}
    (hr : r ∈ db.rows .userRefreshTokens) (hr' : r' ∈ db.rows .userRefreshTokens)
    (h : r.id = r'.id) : r = r' :=
  (db.unique .userRefreshTokens).eq (c := 0) (by decide) hr hr'
    (congrArg (fun u => some (Value.uuid u)) h)

/-- What a request that presents a revoked refresh token goes on with does not exist. -/
theorem ends_revoked {c : Rules Res World} (hc : Tame c) {β : Type} {ok : β → World → Prop}
    {s : World} (hx : x.Lawful) {token : String} {id userId : Uuid}
    (htoken : IsRefreshToken x token id userId) (hspent : ∀ s', c.rely s s' → Revoked id s')
    {f : UserRefreshTokenRecord → Service β} :
    Ends c (activeRefreshTokenRecord x config token >>= f) ok s := by
  refine ends_presented hx hc htoken fun s₁ s₂ r h₁ _ hr hid hlive => ?_
  obtain ⟨r', hr', hid', hrevoked⟩ := hspent s₁ h₁
  rw [Db.refreshToken_eq hr' hr (hid'.trans hid.symm), hlive] at hrevoked
  cases hrevoked

/-- Where the record is revoked and stays so, presenting its credential fails. -/
theorem ends_spent {c : Rules Res World} (hc : Tame c) {s : World} (hx : x.Lawful)
    (hspent : ∀ s', c.rely s s' → cred.SpentIn s') {q : AuthRequest} (hq : cred.PresentedBy x q) :
    Ends c (q.serve x config) (fun _ _ => False) s := by
  cases cred with
  | apiToken r =>
    cases q with
    | authenticateBearer token =>
      obtain ⟨hshape, hhash⟩ := hq
      cases hshape with
      | apiToken raw =>
        refine ends_map (ends_authenticateBearer hc ?_ ?_)
        · exact fun _ claims _ _ hreads => absurd hreads (not_readsAsAccess hx (dot_notMem_apiToken hx raw))
        · intro s₁ r' h₁ _ hr' hhash' hlive
          obtain ⟨r₁, hr₁, -, hhash₁, hrevoked⟩ := hspent s₁ h₁
          rw [Db.apiToken_eq hr₁ hr' (hhash₁.trans (hhash.symm.trans hhash'.symm)), hlive] at hrevoked
          cases hrevoked
    | _ => exact hq.elim
  | refreshToken r =>
    cases q with
    | refreshSession input =>
      obtain ⟨userId, htoken⟩ := hq
      exact ends_map (ends_revoked hc hx htoken hspent)
    | logout input =>
      obtain ⟨userId, htoken⟩ := hq
      exact ends_map (ends_revoked hc hx htoken hspent)
    | _ => exact hq.elim
  | invite i =>
    cases q with
    | acceptInvite input =>
      refine ends_map (ends_findOpenInvite hc fun s₁ i₁ h₁ hi₁ hhash hopen => ?_)
      obtain ⟨i', hi', -, hhash', haccepted⟩ := hspent s₁ h₁
      have hq : hashInviteToken x input.token = i.tokenHash := hq
      rw [Db.invite_eq hi' hi₁ (hhash'.trans (hq.symm.trans hhash.symm))] at haccepted
      exact absurd hopen haccepted
    | _ => exact hq.elim

/-- **Revocation is permanent.** However a run of any requests goes on after a state in which a
record is revoked, or an invite accepted: it is so in every later state, and no request that
begins afterwards and presents its credential succeeds. -/
theorem revocation_permanent (hx : x.Lawful) (hr₁ : Runs exec (AuthPool.of x calls w) es₁ P₁)
    (hr₂ : Runs exec P₁ es₂ P₂) (hspent : cred.SpentIn P₁.state) :
    (∀ e ∈ es₂, cred.SpentIn e.post) ∧ cred.SpentIn P₂.state ∧
      ∀ (i : Nat) (c : Call), calls[i]? = some c → (∀ e ∈ es₁, e.tid ≠ i) →
        cred.PresentedBy x c.request → ¬ P₂.Succeeded i := by
  have hkeep : ∀ e ∈ es₂, cred.SpentIn e.pre → cred.SpentIn e.post := fun e he h =>
    h.event hx (hr₁.append hr₂) (List.mem_append_right _ he)
  obtain ⟨hall, hend⟩ := hr₂.keeps (I := cred.SpentIn) hspent hkeep
  refine ⟨fun e he => (hall e he).2, hend, fun i c hc hlater hq => ?_⟩
  have hthread : P₁.threads[i]? = some (c.prog x) := by
    rw [hr₁.thread_eq hlater]
    simp only [AuthPool.of, List.getElem?_map, hc, Option.map_some]
  exact AuthPool.fails hr₂ hkeep hthread
    (ends_spent calm_holding.toTame hx (fun s' hs => hs hspent) hq)

end runs

namespace Symbolic

/-- A logout, and a refresh with the same token afterwards. -/
def logoutSteps : List (Nat × Ans) :=
  let noon : Ans := .time ⟨10000000000⟩
  [(0, .done), (0, noon), (0, .done), (0, noon), (0, noon), (0, .done)]

def refreshAfter : List (Nat × Ans) :=
  let noon : Ans := .time ⟨10000000000⟩
  [(1, .done), (1, noon), (1, .done)]

theorem revoked_state : (loggedOut.run exec logoutSteps).bind (fun P₁ : AuthPool =>
    (P₁.run exec refreshAfter).map fun _ =>
      (P₁.state.db.rows .userRefreshTokens : List UserRefreshTokenRecord)) =
        some [⟨3, 2, seconds 0, seconds 50, some (seconds 10)⟩] := by
  unfold loggedOut
  rw [of_reading parse_refreshToken (by simp)]
  decide +kernel

theorem revocation_permanent_logout : ∃ (P₁ P₂ : AuthPool) (es₂ : List (Event Res World)),
    Runs exec loggedOut (loggedOut.trace exec logoutSteps) P₁ ∧ Runs exec P₁ es₂ P₂ ∧
      ¬ P₂.Succeeded 1 := by
  obtain ⟨P₁, hrun₁, hrest⟩ := Option.bind_eq_some_iff.mp revoked_state
  obtain ⟨P₂, hrun₂, hrows⟩ := Option.map_eq_some_iff.mp hrest
  have hr₁ := Pool.run_runs hrun₁
  have hr₂ := Pool.run_runs hrun₂
  let r : UserRefreshTokenRecord := ⟨3, 2, seconds 0, seconds 50, some (seconds 10)⟩
  have hspent : (Revocable.refreshToken r).SpentIn P₁.state :=
    ⟨r, hrows ▸ List.mem_cons_self, rfl, rfl⟩
  have hlater : ∀ e ∈ loggedOut.trace exec logoutSteps, e.tid ≠ 1 := by
    unfold loggedOut
    rw [of_reading parse_refreshToken (by simp)]
    decide +kernel
  have hpermanent := revocation_permanent ext_lawful hr₁ hr₂ hspent
  exact ⟨P₁, P₂, _, hr₁, hr₂, hpermanent.2.2 1 _ rfl hlater ⟨2, isRefreshToken⟩⟩

end Symbolic

end Wara
