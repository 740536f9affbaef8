import Wara.Auth.Disabled

/-!
# Kinds of credential

A credential of one kind, presented where another kind is expected, is refused:
the entry point reads nothing from it, in whatever state the run is.
-/

namespace Wara

open Interleave Store Service AuthService

variable {x : Ext}

/-- The request presents the credential, of kind `k`, where another kind is expected. -/
def AuthRequest.Misuses (k : CredentialKind) (credential : String) : AuthRequest → Prop
  | .refreshSession input => input.refreshToken = credential ∧ k ≠ .refreshToken
  | .logout input => input.refreshToken = credential ∧ k ≠ .refreshToken
  | .acceptInvite input => input.token = credential ∧ k ≠ .inviteToken
  | .authenticateBearer token => token = credential ∧ k ≠ .accessToken ∧ k ≠ .apiToken
  | _ => False

section misuse

variable {config : Config} {c : Rules Res World} {s : World} {k : CredentialKind} {credential : String}

theorem ends_misuse (hc : Tame c) (hk : ∀ s', c.rely s s' → OfKind x s' k credential)
    {q : AuthRequest} (hq : q.Misuses k credential) :
    Ends c (q.serve x config) (fun _ _ => False) s := by
  have hnow := hk s (c.rely_refl s)
  cases q with
  | refreshSession input =>
    obtain ⟨rfl, hne⟩ := hq
    refine ends_map ?_
    unfold refreshSession
    exact ends_activeRefreshTokenRecord hc fun _ _ claims _ _ _ hreads _ _ _ _ =>
      absurd (hnow.refresh claims hreads) hne
  | logout input =>
    obtain ⟨rfl, hne⟩ := hq
    refine ends_map ?_
    unfold logout
    exact ends_activeRefreshTokenRecord hc fun _ _ claims _ _ _ hreads _ _ _ _ =>
      absurd (hnow.refresh claims hreads) hne
  | acceptInvite input =>
    obtain ⟨rfl, hne⟩ := hq
    refine ends_map ?_
    unfold acceptInvite
    exact ends_findOpenInvite hc fun s' i hs hi hhash _ => absurd ((hk s' hs).invite i hi hhash) hne
  | authenticateBearer token =>
    obtain ⟨rfl, hne, hne'⟩ := hq
    refine ends_map (ends_authenticateBearer hc ?_ ?_)
    · exact fun _ claims _ _ hreads _ _ _ _ _ _ _ => absurd (hnow.access claims hreads) hne
    · exact fun s' r hs hp hr hhash _ _ _ _ _ _ _ => absurd ((hk s' hs).api hp r hr hhash) hne'
  | _ => exact hq.elim

end misuse

/-- **Kinds are never confused.** A credential that a run has issued is refused wherever another
kind is expected: by a request that runs alone in the state reached, which changes nothing then,
and by every request of the run itself, in whatever order the statements are done, as long as no
two tokens of the run have one digest. -/
theorem kinds_not_confused (hx : x.Lawful) {old : Set String} {calls : List Call}
    {w : World} {P' : AuthPool} {es : List (Event Res World)} (h0 : Generated x old w)
    (hcoll : x.CollisionFree (tokensOf x old calls es P'))
    (hr : Runs exec (AuthPool.of x calls w) es P') {k : CredentialKind} {id : Uuid}
    {credential : String} (h : Issued calls P' k id credential) :
    (∀ q config, AuthRequest.Misuses k credential q → ShutOut P'.state (q.serve x config)) ∧
      ∀ (i : Nat) (c : Call), calls[i]? = some c → c.request.Misuses k credential →
        ¬ P'.Succeeded i := by
  obtain ⟨h0', hstep⟩ := generated_tokensOf hr h0
  have hg := (hr.keeps h0' hstep).2
  constructor
  · intro q config hq
    have hkind : ∀ s', still.rely P'.state s' → OfKind x s' k credential := fun s' hs =>
      ofKind_of_issued hx hcoll hr h (hg.of_db hs)
    exact shutOut_of_ends (ends_misuse tame_still hkind hq)
  · intro i c hc hq
    have hthread : (AuthPool.of x calls w).threads[i]? = some (c.prog x) := by
      simp only [AuthPool.of, List.getElem?_map, hc, Option.map_some]
    have hkind : ∀ s', (holding (Generated x (tokensOf x old calls es P')) i).rely w s' →
        OfKind x s' k credential := fun s' hs => ofKind_of_issued hx hcoll hr h (hs h0')
    exact AuthPool.fails hr hstep hthread
      (ends_misuse calm_holding.toTame hkind hq)

namespace Symbolic

/-- Bob's access token is no refresh token. -/
theorem kinds_not_confused_session : ∃ P' output,
    Runs exec agreed (agreed.trace exec agreement) P' ∧
      P'.threads[0]? = some (.ret (.ok (.session output))) ∧
      ShutOut P'.state (AuthRequest.serve ext (config "A") (.refreshSession ⟨output.token⟩)) := by
  obtain ⟨P', hrun, hsome⟩ := Option.map_eq_some_iff.mp agreed_session
  obtain ⟨output, hout⟩ := Option.isSome_iff_exists.mp hsome
  have hr := Pool.run_runs hrun
  have hend := AuthPool.ended_of_sessionOf hout
  have hissued : Issued [loginAt "A", loginAt "A"] P' .accessToken output.user.id output.token :=
    .accessToken hend
  have hkinds := kinds_not_confused ext_lawful generated_oneKey (ext_collisionFree _) hr hissued
  exact ⟨P', output, hr, hend, hkinds.1 (.refreshSession ⟨output.token⟩) _ ⟨rfl, by decide⟩⟩

end Symbolic

end Wara
