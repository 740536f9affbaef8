import Wara.Auth.Tokens
import Wara.Interleave.Informed

/-!
# Tokens that are made

Invite and API tokens are made of random bytes, and what is stored of them is a
digest. A request stores the digest of a token only after it has drawn the bytes
(`Op.Stores`, `informed_serve`), so the digests of a run are those that were there
at its start and those of the tokens it has made (`generated_of_event`).
-/

namespace Wara

open Interleave Store Service AuthService

variable {x : Ext} {config : Config}

/-- The random bytes that the result of an operation tells. -/
def drawn : (o : Op) → Res o → Set (Bytes 32)
  | .randomBytes _, bytes => {raw | raw.val = bytes.val}
  | _, _ => ∅

/-- The operation stores digests only of tokens that are made of the bytes. -/
structure Op.Stores (x : Ext) (K : Set (Bytes 32)) (o : Op) : Prop where
  invite : ∀ i : UserInviteRecord, Write.insert (t := Table.userInvites) i ∈ o.writes →
    ∃ raw ∈ K, i.tokenHash = hashInviteToken x (x.urlSafeEncode raw.val)
  apiToken : ∀ r : UserApiTokenRecord, Write.insert (t := Table.userApiTokens) r ∈ o.writes →
    ∃ raw ∈ K, r.tokenHash = hashApiToken x ("wara_" ++ x.urlSafeEncode raw.val)

section stores

variable {K : Set (Bytes 32)} {α β : Type}

theorem grows_stores : Grows (Op.Stores x) := by
  intro K K' o hK h
  refine ⟨fun i hi => ?_, fun r hr => ?_⟩
  · obtain ⟨raw, hraw, hhash⟩ := h.invite i hi
    exact ⟨raw, hK hraw, hhash⟩
  · obtain ⟨raw, hraw, hhash⟩ := h.apiToken r hr
    exact ⟨raw, hK hraw, hhash⟩

theorem Op.stores_of_reads {o : Op} (h : o.writes = []) : o.Stores x K := by
  constructor <;> (rw [h]; nofun)

instance : AboutWrites (Op.Stores x K) := ⟨fun _ => Op.stores_of_reads⟩

/-- The statements of the other requests store no digest. -/
theorem Changes.stores {q : AuthRequest} {o : Op} (h : Changes x q o)
    (hinvite : ∀ input, q ≠ .inviteUser input) (htoken : ∀ input, q ≠ .createApiToken input) :
    o.Stores x K := by
  cases h with
  | invite input => exact absurd rfl (hinvite input)
  | createApiToken input => exact absurd rfl (htoken input)
  | _ => constructor <;> simp [Op.writes]

/-- A part that only reads, and the rest. -/
theorem informed_reads {y : Service α} {f : α → Service β}
    (hy : Flow.All (fun o => o.writes = []) y fun _ => True)
    (hf : ∀ a, Flow.Informed drawn (Op.Stores x) K (f a)) :
    Flow.Informed drawn (Op.Stores x) K (y >>= f) :=
  Flow.informed_bind grows_stores (Flow.All.mono hy (fun _ => Op.stores_of_reads) fun _ h => h)
    fun a _ => hf a

/-- The rest may store the digest of a token that is made of the bytes drawn. -/
theorem informed_randomBytes {f : Bytes 32 → Service β}
    (hf : ∀ raw, Flow.All (Op.Stores x {raw}) (f raw) fun _ => True) :
    Flow.Informed drawn (Op.Stores x) K (randomBytes 32 >>= f) := by
  refine Flow.informed_call (Op.stores_of_reads rfl) fun raw => ?_
  refine Prog.Informed.mono grows_stores (Flow.All.informed grows_stores (hf raw)) ?_
  exact fun bytes hbytes => .inr (congrArg Subtype.val hbytes)

theorem informed_inviteUser (input : InviteUserInput) :
    Flow.Informed drawn (Op.Stores x) K (inviteUser x config input) := by
  unfold inviteUser generateInviteToken
  refine informed_reads (by simp) fun _ => informed_reads (by simp) fun _ => ?_
  refine informed_reads (by simp [findUserByEmail, all_attempt, Op.writes]) fun _ => ?_
  refine informed_reads (by simp) fun _ => ?_
  refine informed_reads (by simp [ensureWorkspaceExists, Op.writes]) fun _ => ?_
  refine informed_reads (by simp [Op.writes]) fun _ => ?_
  refine informed_reads (by simp [afterSeconds]) fun _ => ?_
  rw [bind_assoc]
  refine informed_randomBytes fun raw => ?_
  have hcommit : ∀ (user : UserRecord) (id : Uuid) (expiresAt createdAt : String)
      (role : WorkspaceUserRoleRecord), Op.Stores x {raw} (.commit [.insert .users user,
        .insert .userInvites ⟨id, user.id, hashInviteToken x (x.urlSafeEncode raw.val), expiresAt,
          "", createdAt⟩, .insert .workspaceUserRoles role]) := by
    intro user id expiresAt createdAt role
    refine ⟨fun i hi => ⟨raw, rfl, ?_⟩, fun r hr => ?_⟩
    · simp [Op.writes] at hi
      rw [hi]
    · simp [Op.writes] at hr
  simp [hcommit]

theorem informed_createApiToken (input : CreateApiTokenInput) :
    Flow.Informed drawn (Op.Stores x) K (createApiToken x input) := by
  unfold createApiToken generateApiToken
  rw [bind_assoc]
  refine informed_randomBytes fun raw => ?_
  have hinsert : ∀ (id : Uuid) (createdAt : String), Op.Stores x {raw} (.write
      (.insert .userApiTokens ⟨id, input.user.id, input.name,
        hashApiToken x ("wara_" ++ x.urlSafeEncode raw.val),
        tokenPrefix ("wara_" ++ x.urlSafeEncode raw.val), createdAt, none, none⟩)) := by
    intro id createdAt
    refine ⟨fun i hi => ?_, fun r hr => ⟨raw, rfl, ?_⟩⟩
    · simp [Op.writes] at hi
    · simp [Op.writes] at hr
      rw [hr]
  simp [Executor.op, hinsert]

/-- Every request stores digests only of tokens that it has made. -/
theorem informed_serve (q : AuthRequest) :
    Prog.Informed drawn (Op.Stores x) K (q.serve x config) := by
  have hother (hinvite : ∀ input, q ≠ .inviteUser input)
      (htoken : ∀ input, q ≠ .createApiToken input) :
      Prog.Informed drawn (Op.Stores x) K (q.serve x config) := by
    have hcovers : q.Covers x (q.serve x config) := q.covers_serve
    refine Flow.All.informed grows_stores (Flow.All.mono hcovers (fun o ho => ?_) fun _ h => h)
    exact ho.elim Op.stores_of_reads fun hch => hch.stores hinvite htoken
  cases q with
  | inviteUser input => exact (informed_inviteUser input).map _
  | createApiToken input => exact (informed_createApiToken input).map _
  | _ => exact hother (fun _ h => by cases h) (fun _ h => by cases h)

end stores

/-! ## What is stored of a token -/

/-- The tokens that the bytes make. -/
def madeOf (x : Ext) (K : Set (Bytes 32)) : Set String :=
  {token | ∃ raw ∈ K, token = x.urlSafeEncode raw.val ∨ token = "wara_" ++ x.urlSafeEncode raw.val}

/-- Every stored digest is of a token of `T` that was made as its kind is. -/
structure Generated (x : Ext) (T : Set String) (s : World) : Prop where
  invite : ∀ i : UserInviteRecord, i ∈ s.db.rows .userInvites → ∃ raw : Bytes 32,
    x.urlSafeEncode raw.val ∈ T ∧ i.tokenHash = hashInviteToken x (x.urlSafeEncode raw.val)
  apiToken : ∀ r : UserApiTokenRecord, r ∈ s.db.rows .userApiTokens → ∃ raw : Bytes 32,
    "wara_" ++ x.urlSafeEncode raw.val ∈ T ∧
      r.tokenHash = hashApiToken x ("wara_" ++ x.urlSafeEncode raw.val)

section generated

variable {T T' : Set String} {s s' : World}

theorem Generated.of_db (h : Generated x T s) (hdb : s'.db = s.db) : Generated x T s' :=
  ⟨by rw [hdb]; exact h.invite, by rw [hdb]; exact h.apiToken⟩

theorem Generated.mono (h : Generated x T s) (hT : T ⊆ T') : Generated x T' s where
  invite i hi := by
    obtain ⟨raw, hraw, hhash⟩ := h.invite i hi
    exact ⟨raw, hT hraw, hhash⟩
  apiToken r hr := by
    obtain ⟨raw, hraw, hhash⟩ := h.apiToken r hr
    exact ⟨raw, hT hraw, hhash⟩

/-- **One step** stores digests of tokens that are made of the bytes. -/
theorem Generated.step {q : AuthRequest} {o : Op} {K : Set (Bytes 32)} (h : Generated x T s)
    (hch : Changes x q o) (ho : o.Stores x K) (hK : madeOf x K ⊆ T)
    (ha : layout.applyAll o.writes s.db = some s'.db) : Generated x T s' where
  invite i' hi' := by
    rcases Layout.applyAll_origin ha hch.sets_notMem_fixedCols hi' with ⟨i, hi, hc⟩ | ⟨i, hm, hc⟩
    · rw [text_of_col (hc 2 (by decide))]
      exact h.invite i hi
    · rw [text_of_col (hc 2 (by decide))]
      obtain ⟨raw, hraw, hhash⟩ := ho.invite i hm
      exact ⟨raw, hK ⟨raw, hraw, .inl rfl⟩, hhash⟩
  apiToken r' hr' := by
    rcases Layout.applyAll_origin ha hch.sets_notMem_fixedCols hr' with ⟨r, hr, hc⟩ | ⟨r, hm, hc⟩
    · rw [text_of_col (hc 3 (by decide))]
      exact h.apiToken r hr
    · rw [text_of_col (hc 3 (by decide))]
      obtain ⟨raw, hraw, hhash⟩ := ho.apiToken r hm
      exact ⟨raw, hK ⟨raw, hraw, .inr rfl⟩, hhash⟩

/-- A token of `T` with a stored invite digest has no dots. -/
theorem Generated.no_dot (hx : x.Lawful) (hcoll : x.CollisionFree T) (hg : Generated x T s)
    {token : String} (htoken : token ∈ T) {i : UserInviteRecord}
    (hi : i ∈ s.db.rows .userInvites) (hh : i.tokenHash = hashInviteToken x token) :
    '.' ∉ token.toList := by
  obtain ⟨raw, hraw, hhash⟩ := hg.invite i hi
  rw [hcoll htoken hraw (hh.symm.trans hhash)]
  exact hx.urlSafe_dot _

variable {calls : List Call} {w : World} {P' : AuthPool} {es : List (Event Res World)}

/-- What a run stores digests of is made of the bytes that it has drawn. -/
theorem stores_of_runs (hr : Runs exec (AuthPool.of x calls w) es P') :
    ∀ e ∈ es, e.op.Stores x (told drawn es) := by
  have hthreads : ∀ p ∈ (AuthPool.of x calls w).threads, p.Informed drawn (Op.Stores x) ∅ := by
    intro p hp
    obtain ⟨c, -, rfl⟩ := List.mem_map.mp hp
    exact informed_serve c.request
  intro e he
  have hstores := hr.informed grows_stores hthreads e he
  rwa [Set.empty_union] at hstores

theorem generated_of_event (hr : Runs exec (AuthPool.of x calls w) es P')
    (hT : madeOf x (told drawn es) ⊆ T) {e : Event Res World} (he : e ∈ es)
    (h : Generated x T e.pre) : Generated x T e.post := by
  rcases AuthPool.step hr he with hsame | ⟨c, -, hch, -, ha⟩
  · exact h.of_db hsame
  · exact h.step hch (stores_of_runs hr e he) hT ha

end generated

end Wara
