import Wara.Auth.Credentials
import Wara.Auth.Rotation

/-!
# Disabled users

Each of the four entry points looks the user up and checks the status before it
writes. A disabled user has only credentials that lead to that user
(`leads_of_issued`), so none of them opens anything.
-/

namespace Wara

open Interleave Store Service AuthService

section disabled

variable {x : Ext} {config : Config} {s : World} {u : UserRecord}

theorem barred_of_disabled (hu : u ∈ s.db.rows .users)
    (hd : u.status = UserStatus.disabled.asStr) : Barred s u.id := by
  intro u' hu' hid
  rw [Db.user_eq hu' hu hid]
  exact hd

theorem shutOut_login (hu : u ∈ s.db.rows .users) (hd : u.status = UserStatus.disabled.asStr)
    (password : String) : ShutOut s (login x config ⟨u.email, password⟩) := by
  refine shutOut_of_ends ?_
  unfold login findUserByEmail
  rw [bind_assoc]
  refine ends_first tame_still fun s₁ hs₁ => ends_okOr fun r hr => ?_
  obtain ⟨hm, hemail⟩ := Layout.mem_of_head?_select hr
  have hm : r ∈ s.db.rows .users := by rw [← show s₁.db = s.db from hs₁]; exact hm
  have hsame : r = u := Db.user_eq_email hm hu (text_of_col (Layout.holds_eq.mp hemail))
  rw [hsame]
  exact ends_throwIf fun hactive => absurd (disabled_ne_active hd) hactive

/-- A claim set whose subject is the user leads to nobody else. -/
theorem Barred.of_sub (hx : x.Lawful) {id id' : Uuid} {sub : String} (hb : Barred s id)
    (hsub : sub = x.uuidToString id) (h : x.uuidParseStr sub = some id') : Barred s id' := by
  rw [hsub, hx.parse_uuid] at h
  cases h
  exact hb

variable {credential : String}

theorem Leads.shutOut_acceptInvite (h : Leads x s u.id credential) (hb : Barred s u.id)
    (password : String) : ShutOut s (acceptInvite x config ⟨credential, password⟩) := by
  refine Wara.shutOut_acceptInvite (fun i hi hh => ?_) password
  rw [h.invite i hi hh]
  exact hb

theorem Leads.shutOut_refreshSession (hx : x.Lawful) (h : Leads x s u.id credential)
    (hb : Barred s u.id) : ShutOut s (refreshSession x config ⟨credential⟩) := by
  refine Wara.shutOut_refreshSession fun claims hr id hid => ?_
  exact hb.of_sub hx (h.refresh claims hr) hid

theorem Leads.shutOut_authenticateBearer (hx : x.Lawful) (h : Leads x s u.id credential)
    (hb : Barred s u.id) : ShutOut s (authenticateBearer x config credential) := by
  refine Wara.shutOut_authenticateBearer (fun claims hr id hid => ?_) fun hp r hr hh => ?_
  · exact hb.of_sub hx (h.access claims hr) hid
  · rw [h.api hp r hr hh]
    exact hb

end disabled

/-- **Disabled users stay out.** In every state that a run of any requests reaches, a disabled
user gets an error and no change of the database, by any password and by any credential that the
run has issued to that user, of any instance and whatever the database answers, as long as no two
tokens of the run have one digest. -/
theorem disabled_shutOut {x : Ext} (hx : x.Lawful) {old : Set String} {calls : List Call}
    {w : World} {P' : AuthPool} {es : List (Event Res World)} (h0 : Generated x old w)
    (hcoll : x.CollisionFree (tokensOf x old calls es P'))
    (hr : Runs exec (AuthPool.of x calls w) es P') {u : UserRecord}
    (hu : u ∈ P'.state.db.rows .users) (hd : u.status = UserStatus.disabled.asStr) :
    (∀ config password, ShutOut P'.state (login x config ⟨u.email, password⟩)) ∧
      ∀ kind credential, Issued calls P' kind u.id credential → ∀ config,
        (∀ password, ShutOut P'.state (acceptInvite x config ⟨credential, password⟩)) ∧
          ShutOut P'.state (refreshSession x config ⟨credential⟩) ∧
          ShutOut P'.state (authenticateBearer x config credential) := by
  have hb := barred_of_disabled hu hd
  refine ⟨fun config password => shutOut_login hu hd password, fun kind credential h config => ?_⟩
  have hleads := leads_of_issued hx hcoll h0 hr h
  exact ⟨fun password => hleads.shutOut_acceptInvite hb password,
    hleads.shutOut_refreshSession hx hb, hleads.shutOut_authenticateBearer hx hb⟩

namespace Symbolic

/-- Bob logs in, and is disabled afterwards. -/
def dismissed : AuthPool := AuthPool.of ext [loginAt "A", ⟨config "A", .disableUser 2⟩] oneKey

def dismissal : List (Nat × Ans) :=
  loginSteps 0 21 22 ++ [(1, .done), (1, .done), (1, .done), (1, .done)]

def formerBob : UserRecord :=
  ⟨2, "bob@wara.local", "Bob", "viewer", "disabled", "$argon2id$password"⟩

theorem dismissed_state : ((dismissed.run exec dismissal).map fun P' : AuthPool =>
    ((AuthPool.sessionOf P' 0).map (·.user.id), (P'.state.db.rows .users : List UserRecord))) =
      some (some 2, [formerBob]) := by decide +kernel

theorem generated_oneKey : Generated ext ∅ oneKey := ⟨by nofun, by nofun⟩

/-- His refresh token is of no use to him. -/
theorem disabled_shutOut_session : ∃ P' output,
    Runs exec dismissed (dismissed.trace exec dismissal) P' ∧
      P'.threads[0]? = some (.ret (.ok (.session output))) ∧ output.user.id = 2 ∧
      ShutOut P'.state (refreshSession ext (config "A") ⟨output.refreshToken⟩) := by
  obtain ⟨P', hrun, hstate⟩ := Option.map_eq_some_iff.mp dismissed_state
  obtain ⟨hsession, husers⟩ := Prod.mk.inj hstate
  obtain ⟨output, hout, hid⟩ := Option.map_eq_some_iff.mp hsession
  have hr := Pool.run_runs hrun
  have hend := AuthPool.ended_of_sessionOf hout
  have hu : formerBob ∈ P'.state.db.rows .users := husers ▸ List.mem_cons_self
  have hissued : Issued [loginAt "A", ⟨config "A", .disableUser 2⟩] P' .refreshToken formerBob.id
      output.refreshToken := by
    show Issued _ P' .refreshToken 2 _
    rw [← hid]
    exact .refreshToken hend
  have hout := disabled_shutOut ext_lawful generated_oneKey (ext_collisionFree _) hr hu rfl
  exact ⟨P', output, hr, hend, hid, (hout.2 _ _ hissued (config "A")).2.1⟩

end Symbolic

end Wara
