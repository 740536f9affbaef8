import Wara.Api.Escalation
import Wara.Api.Owned
import Wara.External.Symbolic
import Wara.Platform.AtOnce

/-!
# Handlers take effect at once

Behind the extractor, the handlers of the resources behave as if each ran alone
at one moment between its first statement and its last, whatever else goes on:
tasks of any kind, on any number of instances. So handlers that run at the same
time have a serial order.

Not so the handlers that change accounts, which read and write in turn, and
those that make several workspaces or look up one workspace after another.
-/

namespace Wara

open Interleave Store Service Docker AuthService WorkspaceService AppServiceService DomainService
  DeploymentService WorkspaceTemplateService CredentialService ServerService

/-- Handlers with one moment at which they read the rest and write. -/
def UserRoute.Single (user : User) : UserRoute → Prop
  | .revokeApiToken _ | .createWorkspacesFromTemplate _ _ | .listUsers | .inviteUser _
  | .disableUser _ | .reactivateUser _ | .changeUserRole _ _ => False
  | .listWorkspaces => user.role = .superAdmin
  | _ => True

/-- A task, or the handler of a request whose user is known. -/
inductive Activity where
  | task (task : Task)
  | handler (user : User) (route : UserRoute)

def Activity.serve (x : Ext) (config : Config) : Activity → Service (Option ApiReply)
  | .task t => t.serve x config
  | .handler user route => some <$> route.handle x config user

def ActivityPool.of (x : Ext) (activities : List (Config × Activity)) (w : World) : JobPool :=
  ⟨activities.map fun a => a.2.serve x a.1, w⟩

section handlers

variable {x : Ext} {config : Config} {user : User} {i : Nat} {β : Type} {s : World}

theorem atomic_ensureServiceAccess {id : Uuid} {f : AppService → Service β}
    (h : ∀ r s', Beside i s s' → Atomic i (f r) s') :
    Atomic i (ensureServiceAccess user id >>= f) s := by
  unfold ensureServiceAccess
  rw [bind_assoc]
  refine atomic_getService fun r s' hs => ?_
  rw [bind_assoc]
  exact atomic_ensureWorkspaceAccess (h r s' hs)

theorem atomic_validated {valid : Bool} {y : Service ApiReply} {f : ApiReply → Service β}
    (hf : ∀ r, Detached (f r)) (h : Atomic i (y >>= f) s) :
    Atomic i (validated valid y >>= f) s := by
  unfold validated
  split
  · exact h
  · rw [pure_bind]
    exact atomic_of_detached (hf _)

theorem atomic_checked {f : ApiReply → Service β} {y : Service ApiReply}
    (h : Atomic i (y >>= f) s) : Atomic i ((ensureSuperAdmin user >>= fun _ => y) >>= f) s := by
  rw [bind_assoc]
  exact atomic_ensureSuperAdmin h

theorem atomic_accessed {workspaceId : Uuid} {f : ApiReply → Service β} {y : Service ApiReply}
    (h : Atomic i (y >>= f) s) :
    Atomic i ((ensureWorkspaceAccess user workspaceId >>= fun _ => y) >>= f) s := by
  rw [bind_assoc]
  exact atomic_ensureWorkspaceAccess h

/-- A reply made of what an operation returns. -/
theorem atomic_reply {α : Type} {y : Service α} {g : α → ApiReply} {f : ApiReply → Service β}
    (hf : ∀ r, Detached (f r))
    (h : ∀ {f' : α → Service β}, (∀ a, Detached (f' a)) → Atomic i (y >>= f') s) :
    Atomic i ((y >>= fun a => pure (g a)) >>= f) s := by
  rw [bind_assoc]
  exact h fun a => by rw [pure_bind]; exact hf _

/-- **A handler** of the kind, followed by what does not look at the database. -/
theorem atomic_handle {route : UserRoute} (hroute : route.Single user) {f : ApiReply → Service β}
    (hf : ∀ r, Detached (f r)) : Atomic i (route.handle x config user >>= f) s := by
  cases route with
  | me => exact atomic_of_detached (hf _)
  | listApiTokens =>
    refine atomic_reply hf fun hf' => ?_
    unfold AuthService.listApiTokens
    rw [bind_assoc]
    exact atomic_queryLast fun rows => by rw [pure_bind]; exact hf' _
  | createApiToken payload =>
    refine atomic_validated hf (atomic_reply hf fun hf' => ?_)
    unfold AuthService.createApiToken generateApiToken
    simp only [bind_assoc, pure_bind]
    refine atomic_randomBytes fun bs s₁ _ => atomic_now fun time s₂ _ => ?_
    exact atomic_nowV7 fun id s₃ _ _ _ => atomic_createLast (hf' _)
  | listServers =>
    refine atomic_checked (atomic_reply hf fun hf' => ?_)
    unfold ServerService.listServers
    rw [bind_assoc]
    exact atomic_queryLast fun rows => by rw [pure_bind]; exact hf' _
  | createServer payload =>
    exact atomic_validated hf (atomic_checked (atomic_reply hf fun hf' => atomic_createServer hf'))
  | getServer id =>
    refine atomic_checked (atomic_reply hf fun hf' => ?_)
    unfold ServerService.getServer
    rw [bind_assoc]
    refine atomic_firstLast fun r => ?_
    exact Flow.all_bind.mpr ((all_okOr _ _).mpr fun a _ => hf' a)
  | checkServer id => exact atomic_checked (atomic_reply hf fun hf' => atomic_checkServer hf')
  | listWorkspaces =>
    refine atomic_reply hf fun hf' => ?_
    unfold listAccessibleWorkspaces listWorkspaces
    rw [if_pos (show user.role = .superAdmin from hroute)]
    exact atomic_queryLast hf'
  | createWorkspace payload =>
    exact atomic_validated hf (atomic_checked (atomic_reply hf fun hf' =>
      atomic_createWorkspace hf'))
  | getWorkspace id =>
    refine atomic_accessed (atomic_reply hf fun hf' => ?_)
    exact atomic_getWorkspace fun w s' _ => atomic_of_detached (hf' w)
  | listEnvironments workspaceId =>
    exact atomic_accessed (atomic_reply hf fun hf' => atomic_queryLast hf')
  | createEnvironment workspaceId payload =>
    exact atomic_validated hf (atomic_accessed (atomic_reply hf fun hf' =>
      atomic_createEnvironment hf'))
  | listServices workspaceId =>
    refine atomic_accessed (atomic_reply hf fun hf' => ?_)
    unfold AppServiceService.listServices
    rw [bind_assoc]
    exact atomic_queryLast fun rows => by rw [pure_bind]; exact hf' _
  | createService workspaceId payload =>
    exact atomic_validated hf (atomic_accessed (atomic_reply hf fun hf' =>
      atomic_createService hf'))
  | getService id =>
    refine atomic_reply hf fun hf' => ?_
    exact atomic_ensureServiceAccess fun r s' _ => atomic_of_detached (hf' r)
  | listCredentials workspaceId =>
    refine atomic_accessed (atomic_reply hf fun hf' => ?_)
    unfold CredentialService.listCredentials
    rw [bind_assoc]
    exact atomic_queryLast fun rows => by rw [pure_bind]; exact hf' _
  | createCredential workspaceId payload =>
    exact atomic_validated hf (atomic_accessed (atomic_reply hf fun hf' =>
      atomic_createCredential hf'))
  | listEnvVars workspaceId =>
    refine atomic_accessed (atomic_reply hf fun hf' => ?_)
    unfold CredentialService.listEnvVars
    rw [bind_assoc]
    exact atomic_queryLast fun rows => by rw [pure_bind]; exact hf' _
  | createEnvVar workspaceId payload =>
    exact atomic_validated hf (atomic_accessed (atomic_reply hf fun hf' => atomic_createEnvVar hf'))
  | createEnvVars workspaceId payload =>
    exact atomic_validated hf (atomic_accessed (atomic_reply hf fun hf' =>
      atomic_createEnvVars hf'))
  | listDomains id =>
    show Atomic i ((ensureServiceAccess user id >>= _) >>= f) s
    rw [bind_assoc]
    refine atomic_ensureServiceAccess fun _ s₁ _ => atomic_reply hf fun hf' => ?_
    unfold DomainService.listDomains
    rw [bind_assoc]
    exact atomic_queryLast fun rows => by rw [pure_bind]; exact hf' _
  | createDomain id payload =>
    refine atomic_validated hf ?_
    rw [bind_assoc]
    exact atomic_ensureServiceAccess fun _ s₁ _ => atomic_reply hf fun hf' =>
      atomic_createDomain hf'
  | previewProxy id =>
    show Atomic i ((getDomain id >>= _) >>= f) s
    rw [bind_assoc]
    refine atomic_getDomain fun domain s₁ _ => ?_
    rw [bind_assoc]
    exact atomic_ensureServiceAccess fun _ s₂ _ => atomic_of_detached (hf _)
  | listDeployments id =>
    show Atomic i ((ensureServiceAccess user id >>= _) >>= f) s
    rw [bind_assoc]
    exact atomic_ensureServiceAccess fun _ s₁ _ => atomic_reply hf fun hf' =>
      atomic_listDeployments hf'
  | triggerDeploy id =>
    show Atomic i ((ensureServiceAccess user id >>= _) >>= f) s
    rw [bind_assoc]
    exact atomic_ensureServiceAccess fun _ s₁ _ => atomic_reply hf fun hf' =>
      atomic_triggerDeploy hf'
  | getDeployment id =>
    show Atomic i ((getDeployment x id >>= _) >>= f) s
    rw [bind_assoc]
    refine atomic_getDeployment fun deployment s₁ _ => ?_
    rw [bind_assoc]
    exact atomic_ensureServiceAccess fun _ s₂ _ => atomic_of_detached (hf _)
  | restartService id =>
    show Atomic i ((ensureServiceAccess user id >>= _) >>= f) s
    rw [bind_assoc]
    exact atomic_ensureServiceAccess fun _ s₁ _ => atomic_reply hf fun hf' =>
      atomic_restartService hf'
  | serviceLogs id =>
    show Atomic i ((ensureServiceAccess user id >>= _) >>= f) s
    rw [bind_assoc]
    exact atomic_ensureServiceAccess fun _ s₁ _ => atomic_of_detached (hf _)
  | listWorkspaceTemplates workspaceId =>
    refine atomic_accessed (atomic_reply hf fun hf' => ?_)
    unfold WorkspaceTemplateService.listWorkspaceTemplates
    rw [bind_assoc]
    exact atomic_queryLast fun rows => by rw [pure_bind]; exact hf' _
  | createTemplate workspaceId payload =>
    exact atomic_validated hf (atomic_accessed (atomic_reply hf fun hf' =>
      atomic_createTemplate hf'))
  | getSettings => exact atomic_checked (atomic_of_detached (hf _))
  | updateSettings payload =>
    exact atomic_checked (atomic_validated hf (atomic_of_detached (hf _)))
  | revokeApiToken | createWorkspacesFromTemplate | listUsers | inviteUser | disableUser
    | reactivateUser | changeUserRole => exact hroute.elim

theorem atomic_handler {route : UserRoute} (hroute : route.Single user) :
    Atomic i ((Activity.handler user route).serve x config) s := by
  show Atomic i (some <$> route.handle x config user) s
  rw [← bind_pure_comp]
  exact atomic_handle hroute fun _ => detached_pure _

theorem owns_activity (activity : Activity) : OwnsAll _ (activity.serve x config) := by
  cases activity with
  | task t => exact owns_task t
  | handler user route => exact composes_owns.map (owns_handle user route) _

end handlers

section runs

variable {x : Ext} {activities : List (Config × Activity)} {w : World} {P' : JobPool}
  {es : List (Event Res World)}

/-- Whatever goes on, the others keep rows and leave a thread's identifiers alone. -/
theorem beside_of_runs (hr : Runs exec (ActivityPool.of x activities w) es P') :
    ∀ e ∈ es, ∀ i, e.tid ≠ i → Beside i e.pre e.post := by
  refine beside_of_owned hr fun j p hp => ?_
  simp only [ActivityPool.of, List.getElem?_map, Option.map_eq_some_iff] at hp
  obtain ⟨a, -, rfl⟩ := hp
  have howns : OwnsAll _ (a.2.serve x a.1) := owns_activity a.2
  exact ⟨[], fun u hu => (List.not_mem_nil hu).elim,
    Owning.mono (howns.all []) fun _ _ _ _ => trivial⟩

/-- A request is its extractor and then its handler. -/
theorem serve_request (config : Config) (authorization : Option String) (route : UserRoute) :
    (Activity.task (.job (.request (.user authorization route)))).serve x config =
      Prog.bind (extractUser x config authorization)
        (Flow.next fun user => (Activity.handler user route).serve x config) := by
  show some <$> (extractUser x config authorization >>= fun user => route.handle x config user) = _
  rw [map_bind, Flow.bind_eq]
  rfl

/-- The extractor leaves a note of the user that it hands over. -/
theorem caller_of_follows {config : Config} {authorization : Option String} {i : Nat} {user : User}
    (h : Follows i (extractUser x config authorization) es (.ok user)) :
    ∃ e ∈ es, e.tid = i ∧ e.op = .caller user := by
  unfold extractUser at h
  rw [Flow.bind_eq] at h
  obtain ⟨es₁, es₂, r, rfl, -, h⟩ := h.of_bind
  cases r with
  | error e => exact absurd h.ret_eq (fun he => by cases he)
  | ok found =>
    obtain ⟨⟨e, he, hh⟩, _, _, hrest⟩ := Follows.of_op h
    cases hrest.ret_eq
    exact ⟨e, List.mem_append_right _ he, hh⟩

/-- **Requests take effect at once** after their extractor. A request that has ended, among any
activities in any order of their statements, did what its extractor does, which ended with the
error that the request has ended with; or the extractor got a user. If its route is of the kind
then, from there on, the request has ended as its handler does when run alone at one of its events,
and nothing of it is to be seen at the others. -/
theorem request_atOnce (hr : Runs exec (ActivityPool.of x activities w) es P') {i : Nat}
    {config : Config} {authorization : Option String} {route : UserRoute}
    {a : Except Abort (Option ApiReply)}
    (hi : activities[i]? = some (config, .task (.job (.request (.user authorization route)))))
    (hend : P'.threads[i]? = some (.ret a)) :
    (∃ e, a = .error e ∧ Follows i (extractUser x config authorization) es (.error e)) ∨
      ∃ es₁ es₂ user, es = es₁ ++ es₂ ∧
        Follows i (extractUser x config authorization) es₁ (.ok user) ∧
        (∃ e ∈ es₁, e.tid = i ∧ e.op = .caller user) ∧
        (route.Single user →
          AtOnce World.db World.start exec i ((Activity.handler user route).serve x config) es₂ a ∨
            (Activity.handler user route).serve x config = Prog.ret a ∧ ∀ e ∈ es₂, e.tid ≠ i) := by
  have hp : (ActivityPool.of x activities w).threads[i]? = some (Prog.bind
      (extractUser x config authorization)
      (Flow.next fun user => (Activity.handler user route).serve x config)) := by
    rw [← serve_request]
    simp only [ActivityPool.of, List.getElem?_map, hi, Option.map_some]
  obtain ⟨es₁, es₂, P₁, b, rfl, hfollows, hb, hr₁, hr₂⟩ := hr.split_bind hp hend
  cases b with
  | error e =>
    have hidle := hr₂.idle_of_ret hb
    rw [hr₂.thread_eq hidle, hb] at hend
    cases hend
    exact .inl ⟨e, rfl, hfollows.append hidle⟩
  | ok user =>
    refine .inr ⟨es₁, es₂, user, rfl, hfollows, caller_of_follows hfollows, fun hroute => ?_⟩
    refine hr₂.atOnce (c := mover i) hb (atomic_handler hroute).prog (fun e he hne => ?_) hend
    exact beside_of_runs hr e (List.mem_append_right _ he) i hne

/-- **Handlers have a serial order.** Handlers of the kind that have all ended, in any order of
their statements, have ended, and left the database, as they do when each is run alone, one after
another, in an order that keeps every pair of which one had ended before the other began. -/
theorem handlers_serial
    (hsingle : ∀ a ∈ activities, ∃ user route, a.2 = .handler user route ∧ route.Single user)
    (hr : Runs exec (ActivityPool.of x activities w) es P')
    (hended : ∀ i, i < activities.length → ∃ a, P'.threads[i]? = some (.ret a)) :
    ∃ order : List (Nat × Except Abort (Option ApiReply)),
      Serially World.db World.start exec (ActivityPool.of x activities w).threads w.db order
        P'.state.db ∧
      (order.map Prod.fst).Perm (List.range activities.length) ∧
      (∀ p ∈ order, P'.threads[p.1]? = some (.ret p.2)) ∧
      ∀ i j, Before es i j → [i, j].Sublist (order.map Prod.fst) := by
  have hatomic : ∀ t (p : Prog Res (Except Abort (Option ApiReply))),
      (ActivityPool.of x activities w).threads[t]? = some p → p.Atomic (mover t) exec t w := by
    intro t p hp
    simp only [ActivityPool.of, List.getElem?_map, Option.map_eq_some_iff] at hp
    obtain ⟨⟨config, activity⟩, ha, rfl⟩ := hp
    obtain ⟨user, route, hactivity, hroute⟩ := hsingle _ (List.mem_of_getElem? ha)
    obtain rfl : activity = .handler user route := hactivity
    exact (atomic_handler hroute).prog
  have hlen : (ActivityPool.of x activities w).threads.length = activities.length :=
    List.length_map _
  have hserial := hr.serial (c := mover) hatomic (fun e he t hne => beside_of_runs hr e he t hne)
    fun t ht => hended t (hlen ▸ ht)
  rw [hlen] at hserial
  exact hserial

end runs

namespace Symbolic

/-- The platform admin lists the workspaces and makes one. -/
def listAndStore : List (Config × Activity) :=
  [(config "A", .handler ⟨1, "ann@wara.local", "Ann", .superAdmin, .active, []⟩ .listWorkspaces),
    (config "A", .handler ⟨1, "ann@wara.local", "Ann", .superAdmin, .active, []⟩
      (.createWorkspace ⟨"Store", none⟩))]

/-- Meanwhile, Bob makes an environment. -/
def stagingAndStore : List (Config × Activity) :=
  (config "A", .task (.job (.request (.user (some "Bearer wara_t")
    (.createEnvironment 9 ⟨"staging"⟩))))) :: listAndStore

def listAndStoreSteps : List (Nat × Ans) :=
  [(1, .done), (1, .uuid 21), (1, .done), (0, .done), (1, .uuid 22), (1, .done), (1, .done)]

def stagingAndStoreSteps : List (Nat × Ans) :=
  [(0, .done), (0, .done), (0, .time ⟨10000000000⟩), (0, .done), (2, .done), (0, .done), (0, .done),
    (2, .uuid 21), (0, .done), (2, .done), (0, .uuid 11), (2, .uuid 22), (2, .done), (1, .done),
    (0, .done), (2, .done)]

/-- What an activity has replied. -/
def replied : Prog Res (Except Abort (Option ApiReply)) → Option (Option ApiReply)
  | .ret (.ok reply) => some reply
  | _ => none

theorem eq_of_replied {p : Prog Res (Except Abort (Option ApiReply))} {reply : Option ApiReply}
    (h : replied p = some reply) : p = .ret (.ok reply) := by
  cases p with
  | op o k => cases h
  | ret r => cases r with
    | error e => cases h
    | ok r => cases h; rfl

theorem listAndStore_replies :
    ((ActivityPool.of ext listAndStore (.start manager)).run exec listAndStoreSteps).map
      (fun P' : JobPool => P'.threads.map replied) =
        some [some (some (.workspaces [⟨9, "Shop", none⟩])),
          some (some (.workspace ⟨21, "Store", none⟩))] ∧
    ((ActivityPool.of ext stagingAndStore (.start manager)).run exec stagingAndStoreSteps).map
      (fun P' : JobPool => P'.threads.map replied) =
        some [some (some (.environment ⟨11, 9, "staging"⟩)),
          some (some (.workspaces [⟨9, "Shop", none⟩])),
          some (some (.workspace ⟨21, "Store", none⟩))] := by
  decide +kernel

theorem getElem?_of_replied {P' : JobPool} {replies : List (Option (Option ApiReply))} {i : Nat}
    {reply : Option ApiReply} (h : P'.threads.map replied = replies)
    (hi : replies[i]? = some (some reply)) : P'.threads[i]? = some (.ret (.ok reply)) := by
  rw [← h, List.getElem?_map, Option.map_eq_some_iff] at hi
  obtain ⟨p, hp, hreply⟩ := hi
  rw [hp, eq_of_replied hreply]

/-- Bob's environment is made at one moment, among the statements of the others. -/
theorem request_atOnce_staging : ∃ (P' : JobPool) (es₁ es₂ : List (Event Res World)) (user : User),
    Runs exec (ActivityPool.of ext stagingAndStore (.start manager)) (es₁ ++ es₂) P' ∧
      (∃ e ∈ es₁, e.tid = 0 ∧ e.op = .caller user) ∧
      (AtOnce World.db World.start exec 0
          ((Activity.handler user (.createEnvironment 9 ⟨"staging"⟩)).serve ext (config "A")) es₂
          (.ok (some (.environment ⟨11, 9, "staging"⟩))) ∨
        (Activity.handler user (.createEnvironment 9 ⟨"staging"⟩)).serve ext (config "A") =
          Prog.ret (.ok (some (.environment ⟨11, 9, "staging"⟩))) ∧ ∀ e ∈ es₂, e.tid ≠ 0) := by
  obtain ⟨P', hrun, hreplies⟩ := Option.map_eq_some_iff.mp listAndStore_replies.2
  have hr := Pool.run_runs hrun
  rcases request_atOnce hr (i := 0) rfl (getElem?_of_replied hreplies rfl) with
    ⟨e, he, -⟩ | ⟨es₁, es₂, user, hes, -, hcaller, honce⟩
  · cases he
  · exact ⟨P', es₁, es₂, user, hes ▸ hr, hcaller, honce trivial⟩

/-- The list is read before the new workspace is there, and comes first in the order. -/
theorem handlers_serial_listAndStore : ∃ (P' : JobPool)
    (order : List (Nat × Except Abort (Option ApiReply))),
    P'.threads.map replied = [some (some (.workspaces [⟨9, "Shop", none⟩])),
      some (some (.workspace ⟨21, "Store", none⟩))] ∧
    Serially World.db World.start exec
      (ActivityPool.of ext listAndStore (.start manager)).threads manager order P'.state.db ∧
    (order.map Prod.fst).Perm [0, 1] := by
  obtain ⟨P', hrun, hreplies⟩ := Option.map_eq_some_iff.mp listAndStore_replies.1
  have hsingle : ∀ a ∈ listAndStore, ∃ user route,
      a.2 = .handler user route ∧ route.Single user := by
    intro a ha
    rcases List.mem_cons.mp ha with rfl | ha
    · exact ⟨_, _, rfl, rfl⟩
    · obtain rfl := List.mem_singleton.mp ha
      exact ⟨_, _, rfl, trivial⟩
  obtain ⟨order, hserial, hperm, -⟩ := handlers_serial hsingle (Pool.run_runs hrun) fun i hi => by
    match i, hi with
    | 0, _ => exact ⟨_, getElem?_of_replied hreplies rfl⟩
    | 1, _ => exact ⟨_, getElem?_of_replied hreplies rfl⟩
  exact ⟨P', order, hreplies, hserial, hperm⟩

end Symbolic

end Wara
