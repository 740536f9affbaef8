import Wara.Auth.Rotation
import Wara.Auth.Tokens
import Mathlib.Logic.Relation

/-!
# The key store over restarts

One instance that is restarted again and again, with new keys, the same key or an
old one, and serves requests in between. `Synced` says once what a start-up does
to the records; that one record is active, that no two carry the same key and
that no key is lost follows from it, for any number of restarts.
-/

namespace Wara

open Interleave Store Service AuthService

/-! ## One start-up -/

abbrev JwtPublicKeyRecord.deactivated (r : JwtPublicKeyRecord) : JwtPublicKeyRecord :=
  { r with isActive := false }

abbrev JwtPublicKeyRecord.activated (r : JwtPublicKeyRecord) (modulus exponent : String) :
    JwtPublicKeyRecord :=
  ⟨r.id, "RSA", "sig", "RS256", modulus, exponent, true, r.createdAt⟩

/-- The records before and after `sync_active_jwt_public_key` with a key. -/
inductive Synced (modulus exponent : String) (rs : List JwtPublicKeyRecord) :
    List JwtPublicKeyRecord → Prop
  | found {r : JwtPublicKeyRecord} (hr : r ∈ rs) (hm : r.modulus = modulus)
      (he : r.exponent = exponent) :
      Synced modulus exponent rs (rs.map fun r' =>
        if r'.id = r.id then r'.activated modulus exponent else r'.deactivated)
  | created {id : Uuid} {createdAt : String}
      (hno : ∀ r ∈ rs, ¬ (r.modulus = modulus ∧ r.exponent = exponent))
      (hid : ∀ r ∈ rs, r.id ≠ id) :
      Synced modulus exponent rs (rs.map JwtPublicKeyRecord.deactivated ++
        [⟨id, "RSA", "sig", "RS256", modulus, exponent, true, createdAt⟩])

/-- No two records carry the same key. -/
structure KeysSound (rs : List JwtPublicKeyRecord) : Prop where
  rs256 : ∀ r ∈ rs, r.IsRs256
  distinct : ∀ r ∈ rs, ∀ r' ∈ rs, r.modulus = r'.modulus → r.exponent = r'.exponent → r = r'

/-- Exactly one record is active, and it carries the key. -/
def OnlyActive (modulus exponent : String) (rs : List JwtPublicKeyRecord) : Prop :=
  ∃ r ∈ rs, r.isActive = true ∧ r.modulus = modulus ∧ r.exponent = exponent ∧
    ∀ r' ∈ rs, r'.isActive = true → r' = r

section synced

variable {modulus exponent : String} {rs rs' : List JwtPublicKeyRecord}

theorem JwtPublicKeyRecord.activated_eq {r : JwtPublicKeyRecord} (hs : r.IsRs256)
    (hm : r.modulus = modulus) (he : r.exponent = exponent) (ha : r.isActive = true) :
    r.activated modulus exponent = r := by
  obtain ⟨id, keyType, keyUse, algorithm, m, e, isActive, createdAt⟩ := r
  obtain ⟨rfl, rfl, rfl⟩ := hs
  cases hm
  cases he
  cases ha
  rfl

theorem JwtPublicKeyRecord.deactivated_eq {r : JwtPublicKeyRecord} (ha : r.isActive = false) :
    r.deactivated = r := by
  obtain ⟨id, keyType, keyUse, algorithm, m, e, isActive, createdAt⟩ := r
  cases ha
  rfl

/-- **One start-up** keeps the keys apart. -/
theorem Synced.sound (h : Synced modulus exponent rs rs') (hs : KeysSound rs)
    (huniq : ∀ r ∈ rs, ∀ r' ∈ rs, r.id = r'.id → r = r') : KeysSound rs' := by
  cases h with
  | @found r₀ hr₀ hm₀ he₀ =>
    constructor
    · intro r' hr'
      obtain ⟨r, hr, rfl⟩ := List.mem_map.mp hr'
      split
      · exact ⟨rfl, rfl, rfl⟩
      · exact hs.rs256 r hr
    · -- the components of a record are what they were, so equal ones come from one record
      have hcomp : ∀ r ∈ rs, (if r.id = r₀.id then r.activated modulus exponent
          else r.deactivated).modulus = r.modulus ∧ (if r.id = r₀.id then
            r.activated modulus exponent else r.deactivated).exponent = r.exponent := by
        intro r hr
        by_cases hid : r.id = r₀.id
        · rw [if_pos hid, huniq r hr r₀ hr₀ hid]
          exact ⟨hm₀.symm, he₀.symm⟩
        · rw [if_neg hid]
          exact ⟨rfl, rfl⟩
      intro r₁' hr₁' r₂' hr₂' hm he
      obtain ⟨r₁, hr₁, rfl⟩ := List.mem_map.mp hr₁'
      obtain ⟨r₂, hr₂, rfl⟩ := List.mem_map.mp hr₂'
      rw [(hcomp r₁ hr₁).1, (hcomp r₂ hr₂).1] at hm
      rw [(hcomp r₁ hr₁).2, (hcomp r₂ hr₂).2] at he
      rw [hs.distinct r₁ hr₁ r₂ hr₂ hm he]
  | created hno hid =>
    constructor
    · intro r' hr'
      rcases List.mem_append.mp hr' with hr' | hr'
      · obtain ⟨r, hr, rfl⟩ := List.mem_map.mp hr'
        exact hs.rs256 r hr
      · obtain rfl := List.mem_singleton.mp hr'
        exact ⟨rfl, rfl, rfl⟩
    · intro r₁' hr₁' r₂' hr₂' hm he
      rcases List.mem_append.mp hr₁' with hr₁' | hr₁' <;>
        rcases List.mem_append.mp hr₂' with hr₂' | hr₂'
      · obtain ⟨r₁, hr₁, rfl⟩ := List.mem_map.mp hr₁'
        obtain ⟨r₂, hr₂, rfl⟩ := List.mem_map.mp hr₂'
        rw [hs.distinct r₁ hr₁ r₂ hr₂ hm he]
      · obtain ⟨r₁, hr₁, rfl⟩ := List.mem_map.mp hr₁'
        obtain rfl := List.mem_singleton.mp hr₂'
        exact absurd ⟨hm, he⟩ (hno r₁ hr₁)
      · obtain ⟨r₂, hr₂, rfl⟩ := List.mem_map.mp hr₂'
        obtain rfl := List.mem_singleton.mp hr₁'
        exact absurd ⟨hm.symm, he.symm⟩ (hno r₂ hr₂)
      · rw [List.mem_singleton.mp hr₁', List.mem_singleton.mp hr₂']

/-- After a start-up its own key is active, and no other. -/
theorem Synced.onlyActive (h : Synced modulus exponent rs rs')
    (huniq : ∀ r ∈ rs, ∀ r' ∈ rs, r.id = r'.id → r = r') : OnlyActive modulus exponent rs' := by
  cases h with
  | @found r₀ hr₀ hm₀ he₀ =>
    refine ⟨r₀.activated modulus exponent, ?_, rfl, rfl, rfl, fun r' hr' ha => ?_⟩
    · exact List.mem_map.mpr ⟨r₀, hr₀, if_pos rfl⟩
    · obtain ⟨r, hr, rfl⟩ := List.mem_map.mp hr'
      split at ha
      · next hid => rw [if_pos hid, huniq r hr r₀ hr₀ hid]
      · cases ha
  | @created id createdAt hno hid =>
    refine ⟨_, List.mem_append_right _ (List.mem_singleton_self _), rfl, rfl, rfl,
      fun r' hr' ha => ?_⟩
    rcases List.mem_append.mp hr' with hr' | hr'
    · obtain ⟨r, -, rfl⟩ := List.mem_map.mp hr'
      cases ha
    · exact List.mem_singleton.mp hr'

/-- Starting with the key that is active changes no record. -/
theorem Synced.eq (h : Synced modulus exponent rs rs') (hs : KeysSound rs)
    (huniq : ∀ r ∈ rs, ∀ r' ∈ rs, r.id = r'.id → r = r') (ha : OnlyActive modulus exponent rs) :
    rs' = rs := by
  obtain ⟨a, hmem, hactive, hm, he, honly⟩ := ha
  cases h with
  | @found r₀ hr₀ hm₀ he₀ =>
    obtain rfl : r₀ = a := hs.distinct r₀ hr₀ a hmem (hm₀.trans hm.symm) (he₀.trans he.symm)
    conv_rhs => rw [← List.map_id rs]
    refine List.map_congr_left fun r hr => ?_
    by_cases hid : r.id = r₀.id
    · obtain rfl := huniq r hr r₀ hr₀ hid
      rw [if_pos rfl, JwtPublicKeyRecord.activated_eq (hs.rs256 r hr) hm he hactive]
      rfl
    · have hoff : r.isActive = false := by
        by_contra hon
        exact hid (congrArg JwtPublicKeyRecord.id (honly r hr (Bool.not_eq_false _ ▸ hon)))
      rw [if_neg hid, JwtPublicKeyRecord.deactivated_eq hoff]
      rfl
  | created hno _ => exact absurd ⟨hm, he⟩ (hno a hmem)

/-- A start-up keeps every key. -/
theorem Synced.kept (h : Synced modulus exponent rs rs')
    (huniq : ∀ r ∈ rs, ∀ r' ∈ rs, r.id = r'.id → r = r') : ∀ r ∈ rs, ∃ r' ∈ rs', r'.id = r.id ∧
      r'.modulus = r.modulus ∧ r'.exponent = r.exponent ∧ (r.IsRs256 → r'.IsRs256) := by
  intro r hr
  cases h with
  | @found r₀ hr₀ hm₀ he₀ =>
    refine ⟨_, List.mem_map_of_mem hr, ?_⟩
    by_cases hid : r.id = r₀.id
    · rw [if_pos hid, huniq r hr r₀ hr₀ hid]
      exact ⟨rfl, hm₀.symm, he₀.symm, fun _ => ⟨rfl, rfl, rfl⟩⟩
    · rw [if_neg hid]
      exact ⟨rfl, rfl, rfl, fun h => h⟩
  | created => exact ⟨_, List.mem_append_left _ (List.mem_map_of_mem hr), rfl, rfl, rfl, fun h => h⟩

end synced

/-- What a completed start-up does to the database. -/
structure Started (x : Ext) (config : Config) (s s' : World) : Prop where
  keys : ∃ modulus exponent, rsaPublicKeyComponents x config.jwtPublicKey = .ok (modulus, exponent) ∧
    Synced modulus exponent s.keys s'.keys
  others : ∀ t, t ≠ .jwtPublicKeys → t ≠ .users → s'.db.rows t = s.db.rows t
  users : s.db.rows .users ≠ [] → s'.db.rows .users = s.db.rows .users
  nonempty : s'.db.rows .users ≠ []

section alone

variable {x : Ext} {config : Config} {β : Type} {ok : β → World → Prop} {s s' : World}

theorem keys_unique (s : World) : ∀ r ∈ s.keys, ∀ r' ∈ s.keys, r.id = r'.id → r = r' :=
  fun _ hr _ hr' h => Db.key_eq hr hr' h

/-- All rows of the table but the keys are as they were. -/
def KeepsOthers (s s' : World) : Prop := ∀ t, t ≠ .jwtPublicKeys → s'.db.rows t = s.db.rows t

theorem World.keys_eq (h : s'.db = s.db) : s'.keys = s.keys := by rw [World.keys, World.keys, h]

theorem bool_of_col {a b : Bool} (h : some (Value.bool a) = some (.bool b)) : a = b := by
  cases h; rfl

theorem holds_isActive {r : JwtPublicKeyRecord} :
    layout.holds (t := .jwtPublicKeys) (.eq 6 (.bool true)) r = true ↔ r.isActive = true := by
  rw [Layout.holds_eq]
  exact ⟨fun h => bool_of_col h, fun h => by rw [← h]; rfl⟩

theorem keys_deactivate
    (h : layout.apply (.update .jwtPublicKeys (.eq 6 (.bool true)) [(6, .bool false)]) s.db =
      some s'.db) : s'.keys = s.keys.map JwtPublicKeyRecord.deactivated := by
  rw [World.keys, Layout.apply_update h]
  refine List.map_congr_left fun r _ => ?_
  by_cases ha : r.isActive = true
  · rw [if_pos (holds_isActive.mpr ha)]
    rfl
  · rw [if_neg fun h => ha (holds_isActive.mp h),
      JwtPublicKeyRecord.deactivated_eq (Bool.eq_false_iff.mpr ha)]

theorem keys_activate {id : Uuid} {modulus exponent : String}
    (h : layout.apply (.update .jwtPublicKeys (byId id) [(1, .text "RSA"), (2, .text "sig"),
      (3, .text "RS256"), (4, .text modulus), (5, .text exponent), (6, .bool true)]) s.db = some s'.db) :
    s'.keys = s.keys.map fun r => if r.id = id then r.activated modulus exponent else r := by
  rw [World.keys, Layout.apply_update h]
  refine List.map_congr_left fun r _ => ?_
  simp only [holds_byId_keys]
  rfl

theorem ends_sync {f : Unit → Service β}
    (h : ∀ s' modulus exponent,
      rsaPublicKeyComponents x config.jwtPublicKey = .ok (modulus, exponent) →
      Synced modulus exponent s.keys s'.keys → KeepsOthers s s' → Ends alone (f ()) ok s') :
    Ends alone (syncActiveJwtPublicKey x config >>= f) ok s := by
  unfold syncActiveJwtPublicKey
  simp only [bind_assoc]
  refine ends_orThrow fun key hkey => ends_query tame_alone fun s₁ h₁ _ => ?_
  have hall : layout.select s₁.db .jwtPublicKeys .all = s.keys := by
    rw [World.keys, ← show s₁.db = s.db from h₁]
    exact Layout.select_all
  rw [hall]
  cases hfind : s.keys.find?
      fun record : JwtPublicKeyRecord => record.modulus = key.1 && record.exponent = key.2 with
  | some r₀ =>
    have hr₀ := List.mem_of_find?_eq_some hfind
    have hcomp := List.find?_some hfind
    simp only [Bool.and_eq_true, decide_eq_true_eq] at hcomp
    rw [Option.map_some, unwrapOrElse, pure_bind]
    refine ends_update (fun _ _ _ _ _ => trivial) fun s₂ s₃ h₂ hstep₃ => ?_
    obtain ⟨i₃, a₃, ha₃⟩ := hstep₃
    have happ₃ := applyAll_single (exec_succeeded ha₃ rfl)
    have hkeys₃ := keys_deactivate happ₃
    rw [World.keys_eq (h₂.trans h₁)] at hkeys₃
    refine ends_first tame_alone fun s₄ h₄ => ?_
    have hmem : r₀.deactivated ∈ s₄.keys := by
      rw [World.keys_eq h₄, hkeys₃]
      exact List.mem_map_of_mem hr₀
    rw [head?_select_key hmem]
    simp only [Option.isSome_some, if_true]
    refine ends_update (fun _ _ _ _ _ => trivial) fun s₅ s₆ h₅ hstep₆ => ?_
    obtain ⟨i₆, a₆, ha₆⟩ := hstep₆
    have happ₆ := applyAll_single (exec_succeeded ha₆ rfl)
    have hkeys₆ := keys_activate happ₆
    have hdb₅ : s₅.db = s₃.db := h₅.trans h₄
    refine h s₆ key.1 key.2 hkey ?_ fun t ht => ?_
    · have hsynced := Synced.found hr₀ hcomp.1 hcomp.2
      rw [hkeys₆, World.keys_eq hdb₅, hkeys₃, List.map_map]
      exact hsynced
    · rw [Layout.apply_frame happ₆ ht, hdb₅, Layout.apply_frame happ₃ ht,
        show s₂.db = s.db from h₂.trans h₁]
  | none =>
    rw [Option.map_none, unwrapOrElse]
    refine ends_call fun s₂ h₂ id s₃ hstep => ⟨trivial, ?_⟩
    obtain ⟨i₃, a₃, ha₃⟩ := hstep
    obtain ⟨hfresh, hs₃⟩ := exec_newUuid ha₃
    have hdb₃ : s₃.db = s.db := by
      rw [hs₃]
      exact h₂.trans h₁
    have hid : ∀ r ∈ s.keys, r.id ≠ id := by
      intro r hr hid
      rw [World.keys, ← show s₂.db = s.db from h₂.trans h₁] at hr
      exact World.key_of_fresh hfresh (t := .jwtPublicKeys) hr
        (congrArg (fun u => some (Value.uuid u)) hid)
    refine ends_update (fun _ _ _ _ _ => trivial) fun s₄ s₅ h₄ hstep₅ => ?_
    obtain ⟨i₅, a₅, ha₅⟩ := hstep₅
    have happ₅ := applyAll_single (exec_succeeded ha₅ rfl)
    have hkeys₅ := keys_deactivate happ₅
    rw [World.keys_eq (h₄.trans hdb₃)] at hkeys₅
    refine ends_first tame_alone fun s₆ h₆ => ?_
    have hkeys₆ : s₆.keys = s.keys.map JwtPublicKeyRecord.deactivated := by
      rw [World.keys_eq h₆, hkeys₅]
    have hnone : (layout.select s₆.db .jwtPublicKeys (byId id)).head? = none := by
      rw [List.head?_eq_none_iff]
      refine List.filter_eq_nil_iff.mpr fun r hr hholds => ?_
      have hr : r ∈ s₆.keys := hr
      rw [hkeys₆] at hr
      obtain ⟨r', hr', rfl⟩ := List.mem_map.mp hr
      exact hid r' hr' (holds_byId_keys.mp hholds)
    rw [hnone]
    simp only [Option.isSome_none, Bool.false_eq_true, if_false, bind_assoc, pure_bind]
    refine ends_reads tame_alone (Q := fun _ => True) (by simp [Op.writes]) fun t s₇ _ h₇ => ?_
    refine ends_create (fun _ _ _ _ _ => trivial) fun s₈ s₉ h₈ hstep₉ => ?_
    obtain ⟨i₉, a₉, ha₉⟩ := hstep₉
    have happ₉ := applyAll_single (exec_succeeded ha₉ rfl)
    have hdb₈ : s₈.db = s₆.db := h₈.trans h₇
    refine h s₉ key.1 key.2 hkey ?_ fun t ht => ?_
    · have hkeys₉ : s₉.keys = s₈.keys ++
          [⟨id, "RSA", "sig", "RS256", key.1, key.2, true, x.toRfc3339 t⟩] := Layout.apply_insert happ₉
      rw [hkeys₉, World.keys_eq hdb₈, hkeys₆]
      refine .created (fun r hr hboth => ?_) hid
      have := List.find?_eq_none.mp hfind r hr
      simp only [Bool.and_eq_true, decide_eq_true_eq] at this
      exact this hboth
    · rw [Layout.apply_frame happ₉ ht, hdb₈, show s₆.db = s₅.db from h₆,
        Layout.apply_frame happ₅ ht, show s₄.db = s.db from h₄.trans hdb₃]

theorem ends_started : Ends alone (bootstrapAdmin x config) (fun _ s' => Started x config s s') s := by
  unfold bootstrapAdmin
  refine ends_sync fun s₁ modulus exponent hkey hsynced hothers => ?_
  refine ends_query tame_alone fun s₂ h₂ _ => ?_
  have hdb : s₂.db = s₁.db := h₂
  have husersKeys : Table.users ≠ .jwtPublicKeys := by decide
  have hall : layout.select s₂.db .users .all = s.db.rows .users := by
    rw [hdb, ← hothers .users husersKeys]
    exact Layout.select_all
  rw [hall]
  by_cases husers : s.db.rows .users ≠ []
  · rw [if_pos husers]
    refine ends_pure fun s₃ h₃ => ?_
    have hdb₃ : s₃.db = s₁.db := h₃.trans h₂
    have husers₃ : s₃.db.rows .users = s.db.rows .users := by rw [hdb₃, hothers .users husersKeys]
    refine ⟨⟨modulus, exponent, hkey, ?_⟩, fun t ht _ => by rw [hdb₃, hothers t ht],
      fun _ => husers₃, by rw [husers₃]; exact husers⟩
    rw [World.keys_eq hdb₃]
    exact hsynced
  · rw [if_neg husers]
    refine ends_reads tame_alone (Q := fun _ => True) (by simp [hashPassword, Op.writes])
      fun hash s₃ _ h₃ => ?_
    refine ends_reads tame_alone (Q := fun _ => True) (by simp [Op.writes]) fun id s₄ _ h₄ => ?_
    refine ends_create (fun _ _ _ _ _ => trivial) fun s₅ s₆ h₅ hstep => ends_pure fun s₇ h₇ => ?_
    obtain ⟨i, a, ha⟩ := hstep
    have happ := applyAll_single (exec_succeeded ha rfl)
    have hdb₅ : s₅.db = s₁.db := h₅.trans (h₄.trans (h₃.trans h₂))
    have hdb₇ : s₇.db = s₆.db := h₇
    refine ⟨⟨modulus, exponent, hkey, ?_⟩, fun t ht hu => ?_, fun h => absurd h husers, ?_⟩
    · have hkeys₆ : s₆.keys = s₅.keys := Layout.apply_frame happ (fun he => by cases he)
      rw [World.keys_eq hdb₇, hkeys₆, World.keys_eq hdb₅]
      exact hsynced
    · rw [hdb₇, Layout.apply_frame happ hu, hdb₅, hothers t ht]
    · rw [hdb₇, Layout.apply_insert happ]
      exact List.append_ne_nil_of_right_ne_nil _ (List.cons_ne_nil _ _)

end alone

/-! ## Tokens in a later state -/

/-- Until it expires, the instance verifies the access token, under the key that its header
names. -/
def AccessVerifies (x : Ext) (config : Config) (s : World) (token : String) : Prop :=
  ∃ (header : Header) (claims : Claims) (key : EncodingKey),
    x.encode header claims.serialize key = .ok token ∧ ∀ (i : Nat) (t : DateTime), 0 ≤ t.nanos →
      UInt64.ofInt t.timestamp ≤ claims.exp →
        Prog.run exec i (verifyAccessToken x config token) [.done, .time t] s =
          some (.ok claims, s)

def RefreshVerifies (x : Ext) (config : Config) (s : World) (token : String) : Prop :=
  ∃ (header : Header) (claims : RefreshClaims) (key : EncodingKey),
    x.encode header claims.serialize key = .ok token ∧ ∀ (i : Nat) (t : DateTime), 0 ≤ t.nanos →
      UInt64.ofInt t.timestamp ≤ claims.exp →
        Prog.run exec i (verifyRefreshToken x config token) [.done, .time t] s =
          some (.ok claims, s)

/-- `jwks` lists the key that the token names. -/
def Listed (x : Ext) (s : World) (token : String) : Prop :=
  ∀ i, ∃ keys, Prog.run exec i (jwks x) [.done] s = some (.ok keys, s) ∧
    ∃ key ∈ keys, x.decodeHeader token = some ⟨some key.kid⟩

section later

variable {x : Ext} {config config' : Config} {s : World} {token : String} {id userId : Uuid}

theorem run_getCurrentTimestamp {β : Type} {i : Nat} {f : UInt64 → Service β} {xs : List Ans}
    {t : DateTime} (ht : 0 ≤ t.nanos) :
    Prog.run exec i (getCurrentTimestamp >>= f : Service β) (.time t :: xs) s =
      Prog.run exec i (f (UInt64.ofInt t.timestamp)) xs s := by
  have hrun : Prog.run exec i (getCurrentTimestamp >>= f : Service β) (.time t :: xs) s =
      Prog.run exec i ((if t.nanos < 0 then throw (.panic "Time went backwards")
        else return UInt64.ofInt t.timestamp) >>= f : Service β) xs s := rfl
  rw [hrun, if_neg (Int.not_lt.mpr ht), pure_bind]

theorem HasKey.accessVerifies (hx : x.Lawful) (h : HasKey x s token)
    (hsigned : SignedAccess x config token userId) (hiss : config'.jwtIssuer = config.jwtIssuer)
    (haud : config'.jwtAudience = config.jwtAudience) : AccessVerifies x config' s token := by
  obtain ⟨header, claims, signingKey, -, hi, ha, hencode⟩ := hsigned
  refine ⟨header, claims, signingKey, hencode, fun i t ht hexp => ?_⟩
  obtain ⟨key, hv, hrun⟩ := h.run hx
  have hdecode : x.decode (UInt64.ofInt t.timestamp) token key
      (validation config' ["exp", "iss", "aud", "sub"]) = .ok claims.serialize := by
    refine hx.decode_accepts hencode hv rfl hexp ?_ ?_ ?_
    · show some (Claim.str claims.aud) = some (.str config'.jwtAudience)
      rw [ha, haud]
    · show some (Claim.str claims.iss) = some (.str config'.jwtIssuer)
      rw [hi, hiss]
    · intro field hfield
      simp only [validation, List.mem_cons, List.not_mem_nil, or_false] at hfield
      rcases hfield with rfl | rfl | rfl | rfl <;> rfl
  unfold verifyAccessToken
  rw [hrun, run_getCurrentTimestamp ht, hdecode]
  rfl

theorem HasKey.refreshVerifies (hx : x.Lawful) (h : HasKey x s token)
    (hsigned : SignedRefresh x config token id userId)
    (hiss : config'.jwtIssuer = config.jwtIssuer)
    (haud : config'.jwtAudience = config.jwtAudience) : RefreshVerifies x config' s token := by
  obtain ⟨header, claims, signingKey, -, -, htyp, hi, ha, hencode⟩ := hsigned
  refine ⟨header, claims, signingKey, hencode, fun i t ht hexp => ?_⟩
  obtain ⟨key, hv, hrun⟩ := h.run hx
  have hdecode : x.decode (UInt64.ofInt t.timestamp) token key
      (validation config' ["exp", "iss", "aud", "sub", "jti"]) = .ok claims.serialize := by
    refine hx.decode_accepts hencode hv rfl hexp ?_ ?_ ?_
    · show some (Claim.str claims.aud) = some (.str config'.jwtAudience)
      rw [ha, haud]
    · show some (Claim.str claims.iss) = some (.str config'.jwtIssuer)
      rw [hi, hiss]
    · intro field hfield
      simp only [validation, List.mem_cons, List.not_mem_nil, or_false] at hfield
      rcases hfield with rfl | rfl | rfl | rfl | rfl <;> rfl
  unfold verifyRefreshToken
  rw [hrun, run_getCurrentTimestamp ht, hdecode]
  simp only [mapErr, pure_bind, RefreshClaims.deserialize_serialize, okOr, throwIf, htyp, ne_eq,
    not_true_eq_false, if_false]
  rfl

theorem HasKey.listed (h : HasKey x s token) : Listed x s token := by
  obtain ⟨r, hr, -, hh, -⟩ := h
  intro i
  refine ⟨_, rfl, ⟨r.keyType, r.keyUse, r.algorithm, x.uuidToString r.id, r.modulus, r.exponent⟩, ?_,
    hh⟩
  have hall : r ∈ layout.select s.db .jwtPublicKeys .all := Layout.mem_select.mpr ⟨hr, rfl⟩
  exact List.mem_map.mpr ⟨r, List.mem_mergeSort.mpr hall, rfl⟩

end later

/-! ## Restarts -/

/-- An instance: the configuration it runs with, once it has started, and the world. -/
structure Life where
  running : Option Config
  world : World

/-- The instance is started, with whatever valid key pair, or serves requests in any order. -/
inductive Life.Step (x : Ext) (issuer audience : String) : Life → Life → Prop
  | start {l : Life} {config : Config} {i : Nat} {xs : List Ans} {s' : World}
      (hiss : config.jwtIssuer = issuer) (haud : config.jwtAudience = audience)
      (hvalid : ∃ now, config.validateJwtKeyConfig x now = .ok ())
      (hrun : Prog.run exec i (bootstrapAdmin x config) xs l.world = some (.ok (), s')) :
      Step x issuer audience l ⟨some config, s'⟩
  | serve {config : Config} {w : World} {calls : List Call} {es : List (Event Res World)}
      {P' : AuthPool} (hcalls : ∀ c ∈ calls, c.config = config ∧ c.request ≠ .bootstrapAdmin)
      (hr : Runs exec (AuthPool.of x calls w) es P') :
      Step x issuer audience ⟨some config, w⟩ ⟨some config, P'.state⟩

/-- Any number of restarts, and requests in between. -/
abbrev Life.Leads (x : Ext) (issuer audience : String) : Life → Life → Prop :=
  Relation.ReflTransGen (Life.Step x issuer audience)

/-- What holds between start-ups. -/
structure Life.Sound (x : Ext) (issuer audience : String) (l : Life) : Prop where
  keys : KeysSound l.world.keys
  issuer_eq : ∀ config, l.running = some config → config.jwtIssuer = issuer
  audience_eq : ∀ config, l.running = some config → config.jwtAudience = audience
  valid : ∀ config, l.running = some config → ∃ now, config.validateJwtKeyConfig x now = .ok ()
  active : ∀ config, l.running = some config → ∃ modulus exponent,
    rsaPublicKeyComponents x config.jwtPublicKey = .ok (modulus, exponent) ∧
      OnlyActive modulus exponent l.world.keys
  users : l.running ≠ none → l.world.db.rows .users ≠ []

section restarts

variable {x : Ext} {issuer audience : String} {l l' : Life}

/-- Requests leave the keys alone. -/
theorem keys_of_event {calls : List Call} {w : World} {P' : AuthPool}
    {es : List (Event Res World)} (hr : Runs exec (AuthPool.of x calls w) es P')
    (hcalls : ∀ c ∈ calls, c.request ≠ .bootstrapAdmin) {e : Event Res World} (he : e ∈ es) :
    e.post.keys = e.pre.keys := by
  rcases AuthPool.step hr he with hsame | ⟨c, hc, hch, -, ha⟩
  · exact World.keys_eq hsame
  · have hspares := sparesKeys_of_canIssue (hcalls c (List.mem_of_getElem? hc)) hch.canIssue
    exact Layout.applyAll_frame ha fun w hw => (hspares w hw).symm

theorem keys_of_runs {calls : List Call} {w : World} {P' : AuthPool}
    {es : List (Event Res World)} (hr : Runs exec (AuthPool.of x calls w) es P')
    (hcalls : ∀ c ∈ calls, c.request ≠ .bootstrapAdmin) :
    (∀ e ∈ es, e.pre.keys = w.keys) ∧ P'.state.keys = w.keys := by
  obtain ⟨hall, hend⟩ := hr.keeps (I := fun s => s.keys = w.keys) rfl fun e he hpre =>
    (keys_of_event hr hcalls he).trans hpre
  exact ⟨fun e he => (hall e he).1, hend⟩

theorem users_of_runs {calls : List Call} {w : World} {P' : AuthPool}
    {es : List (Event Res World)} (hr : Runs exec (AuthPool.of x calls w) es P')
    (hw : w.db.rows .users ≠ []) : P'.state.db.rows .users ≠ [] := by
  refine (hr.keeps (I := fun s => s.db.rows .users ≠ []) hw fun e he hpre => ?_).2
  obtain ⟨u, hu⟩ := List.exists_mem_of_ne_nil _ hpre
  obtain ⟨u', hu', -⟩ := Db.Keeps.user (AuthPool.keeps hr he) hu
  exact List.ne_nil_of_mem hu'

theorem Life.Sound.step (h : l.Sound x issuer audience) (hs : Step x issuer audience l l') :
    l'.Sound x issuer audience := by
  cases hs with
  | start hiss haud hvalid hrun =>
    have hstarted := ok_of_run ends_started hrun
    obtain ⟨modulus, exponent, hkey, hsynced⟩ := hstarted.keys
    have huniq := keys_unique l.world
    refine ⟨hsynced.sound h.keys huniq, ?_, ?_, ?_, ?_, fun _ => hstarted.nonempty⟩
    · rintro config ⟨⟩; exact hiss
    · rintro config ⟨⟩; exact haud
    · rintro config ⟨⟩; exact hvalid
    · rintro config ⟨⟩; exact ⟨modulus, exponent, hkey, hsynced.onlyActive huniq⟩
  | serve hcalls hr =>
    have hkeys := (keys_of_runs hr fun c hc => (hcalls c hc).2).2
    refine ⟨by rw [hkeys]; exact h.keys, h.issuer_eq, h.audience_eq, h.valid, ?_, fun hne => ?_⟩
    · intro config hconfig
      obtain ⟨modulus, exponent, hkey, hactive⟩ := h.active config hconfig
      exact ⟨modulus, exponent, hkey, by rw [hkeys]; exact hactive⟩
    · exact users_of_runs hr (h.users hne)

theorem Life.Sound.leads (h : l.Sound x issuer audience) (hl : Leads x issuer audience l l') :
    l'.Sound x issuer audience := by
  induction hl with
  | refl => exact h
  | tail _ hs ih => exact ih.step hs

theorem Life.Step.keysKept (hs : Step x issuer audience l l') : KeysKept l.world l'.world := by
  cases hs with
  | start hiss haud hvalid hrun =>
    obtain ⟨modulus, exponent, -, hsynced⟩ := (ok_of_run ends_started hrun).keys
    exact hsynced.kept (keys_unique l.world)
  | serve hcalls hr =>
    intro r hr'
    rw [(keys_of_runs hr fun c hc => (hcalls c hc).2).2]
    exact ⟨r, hr', rfl, rfl, rfl, fun h => h⟩

theorem Life.Leads.keysKept (hl : Leads x issuer audience l l') : KeysKept l.world l'.world := by
  induction hl with
  | refl => exact .refl _
  | tail _ hs ih => exact ih.trans hs.keysKept

/-- In a life the active key is the instance's own. -/
theorem Life.Sound.matches (h : l.Sound x issuer audience) {config : Config}
    (hconfig : l.running = some config) {s : World} (hs : s.keys = l.world.keys) :
    MatchesActiveKey x config s := by
  obtain ⟨modulus, exponent, hkey, a, -, -, hm, he, honly⟩ := h.active config hconfig
  intro r hr
  rw [hs] at hr
  obtain ⟨hmem, hactive⟩ := latestActive_mem hr
  rw [honly r hmem hactive, hkey, hm, he]

/-- Starting with the key that is active changes nothing in the database. -/
theorem Life.Sound.restart (h : l.Sound x issuer audience) {config config' : Config}
    (hconfig : l.running = some config) (hsame : config'.jwtPublicKey = config.jwtPublicKey)
    {s' : World} (hstarted : Started x config' l.world s') : s'.db = l.world.db := by
  obtain ⟨modulus, exponent, hkey, hactive⟩ := h.active config hconfig
  obtain ⟨modulus', exponent', hkey', hsynced⟩ := hstarted.keys
  rw [hsame, hkey] at hkey'
  cases hkey'
  have hkeys := hsynced.eq h.keys (keys_unique l.world) hactive
  have husers := hstarted.users (h.users (by rw [hconfig]; nofun))
  refine Db.eq_of_rows fun t => ?_
  by_cases ht : t = .jwtPublicKeys
  · rw [ht]
    exact hkeys
  · by_cases hu : t = .users
    · rw [hu]
      exact husers
    · exact hstarted.others t ht hu

/-- A session returned while an instance serves comes with stored keys. -/
theorem Life.Sound.sessionHasKeys (hx : x.Lawful) (h : l.Sound x issuer audience)
    {config : Config} (hconfig : l.running = some config) {calls : List Call} {P' : AuthPool}
    {es : List (Event Res World)}
    (hcalls : ∀ c ∈ calls, c.config = config ∧ c.request ≠ .bootstrapAdmin)
    (hr : Runs exec (AuthPool.of x calls l.world) es P') {i : Nat} {output : LoginOutput}
    (hend : P'.threads[i]? = some (.ret (.ok (.session output)))) :
    SessionHasKeys x output P'.state := by
  have hkeys := (keys_of_runs hr fun c hc => (hcalls c hc).2).1
  refine sessionHasKeys_of_runs hx (fun c hc => ?_) hr ?_ hend
  · rw [(hcalls c hc).1]
    exact h.valid config hconfig
  · rintro e he config' ⟨-, c, hc, -, rfl⟩
    rw [(hcalls c (List.mem_of_getElem? hc)).1]
    exact h.matches hconfig (hkeys e he)

theorem OnlyActive.filter_eq {modulus exponent : String} {rs : List JwtPublicKeyRecord}
    (h : OnlyActive modulus exponent rs) (hnodup : rs.Nodup) :
    ∃ r, rs.filter (·.isActive) = [r] ∧ r.modulus = modulus ∧ r.exponent = exponent := by
  obtain ⟨r, hr, ha, hm, he, honly⟩ := h
  refine ⟨r, ?_, hm, he⟩
  have hmem : r ∈ rs.filter (·.isActive) := List.mem_filter.mpr ⟨hr, ha⟩
  have hall : ∀ r' ∈ rs.filter (·.isActive), r' = r := fun r' hr' =>
    honly r' (List.mem_filter.mp hr').1 (List.mem_filter.mp hr').2
  have hfilter : (rs.filter (·.isActive)).Nodup := hnodup.filter _
  generalize rs.filter (·.isActive) = as at hmem hall hfilter
  match as, hmem, hall, hfilter with
  | [a], _, hall, _ => rw [hall a List.mem_cons_self]
  | a :: b :: as, _, hall, hfilter =>
    have hab : a = b := (hall a List.mem_cons_self).trans
      (hall b (List.mem_cons_of_mem _ List.mem_cons_self)).symm
    exact absurd (hab ▸ List.mem_cons_self) (List.nodup_cons.mp hfilter).1

/-- What the key store guarantees in a state of a life. -/
structure KeyStore (x : Ext) (issuer audience : String) (l : Life) : Prop where
  /-- Exactly one record is active, and it carries the configured key. -/
  active : ∀ config, l.running = some config → ∃ r, l.world.keys.filter (·.isActive) = [r] ∧
    rsaPublicKeyComponents x config.jwtPublicKey = .ok (r.modulus, r.exponent)
  /-- No two records carry the same key. -/
  distinct : ∀ r ∈ l.world.keys, ∀ r' ∈ l.world.keys, r.modulus = r'.modulus →
    r.exponent = r'.exponent → r = r'
  /-- No key is lost or changed. -/
  kept : ∀ l', Life.Leads x issuer audience l l' → ∀ r ∈ l.world.keys, ∃ r' ∈ l'.world.keys,
    r'.id = r.id ∧ r'.modulus = r.modulus ∧ r'.exponent = r.exponent
  /-- Starting again with the same key changes nothing. -/
  restart : ∀ config config' i xs s', l.running = some config →
    config'.jwtPublicKey = config.jwtPublicKey →
    Prog.run exec i (bootstrapAdmin x config') xs l.world = some (.ok (), s') → s'.db = l.world.db
  /-- Tokens issued from here on are good in every later state of the life, until they expire. -/
  tokens : ∀ config calls es (P' : AuthPool), l.running = some config →
    (∀ c ∈ calls, Call.config c = config ∧ c.request ≠ .bootstrapAdmin) →
    Runs exec (AuthPool.of x calls l.world) es P' → ∀ (i : Nat) (output : LoginOutput),
    P'.threads[i]? = some (.ret (.ok (.session output))) → ∀ config' s',
    Life.Leads x issuer audience ⟨some config, P'.state⟩ ⟨some config', s'⟩ →
      AccessVerifies x config' s' output.token ∧ Listed x s' output.token ∧
        RefreshVerifies x config' s' output.refreshToken ∧ Listed x s' output.refreshToken

/-- **The key store over restarts.** One instance with a fixed issuer and audience starts on an
empty key table, and is then restarted any number of times, with new keys, the same one or earlier
ones, and serves requests in between. -/
theorem keyStore_of_leads (hx : x.Lawful) {w : World} (hw : w.keys = [])
    (hl : Life.Leads x issuer audience ⟨none, w⟩ l) : KeyStore x issuer audience l := by
  have hfirst : Life.Sound x issuer audience ⟨none, w⟩ := by
    refine ⟨?_, nofun, nofun, nofun, nofun, fun h => absurd rfl h⟩
    show KeysSound w.keys
    rw [hw]
    exact ⟨nofun, nofun⟩
  have hsound := hfirst.leads hl
  constructor
  · intro config hconfig
    obtain ⟨modulus, exponent, hkey, hactive⟩ := hsound.active config hconfig
    have hnodup : l.world.keys.Nodup :=
      List.Nodup.of_map _ (l.world.db.unique .jwtPublicKeys 0 (by decide))
    obtain ⟨r, hfilter, hm, he⟩ := hactive.filter_eq hnodup
    exact ⟨r, hfilter, by rw [hm, he, hkey]⟩
  · exact hsound.keys.distinct
  · intro l' hl' r hr
    obtain ⟨r', hr', hid, hm, he, -⟩ := Life.Leads.keysKept hl' r hr
    exact ⟨r', hr', hid, hm, he⟩
  · intro config config' i xs s' hconfig hsame hrun
    exact hsound.restart hconfig hsame (ok_of_run ends_started hrun)
  · intro config calls es P' hconfig hcalls hr i output hend config' s' hlater
    obtain ⟨haccess, hrefresh⟩ := hsound.sessionHasKeys hx hconfig hcalls hr hend
    have hstep : Life.Step x issuer audience l ⟨some config, P'.state⟩ := by
      obtain ⟨running, world⟩ := l
      obtain rfl : running = some config := hconfig
      exact .serve hcalls hr
    have hlast := (hsound.step hstep).leads hlater
    have hkept := Life.Leads.keysKept hlater
    obtain ⟨c, hc⟩ := AuthPool.call_of_thread hr hend
    obtain ⟨hsaccess, id, hsrefresh⟩ := session_signed hr hc hend
    rw [(hcalls c (List.mem_of_getElem? hc)).1] at hsaccess hsrefresh
    have hiss : config'.jwtIssuer = config.jwtIssuer :=
      (hlast.issuer_eq config' rfl).trans (hsound.issuer_eq config hconfig).symm
    have haud : config'.jwtAudience = config.jwtAudience :=
      (hlast.audience_eq config' rfl).trans (hsound.audience_eq config hconfig).symm
    have haccess' := haccess.mono hkept
    have hrefresh' := hrefresh.mono hkept
    exact ⟨haccess'.accessVerifies hx hsaccess hiss haud, haccess'.listed,
      hrefresh'.refreshVerifies hx hsrefresh hiss haud, hrefresh'.listed⟩

end restarts

/-! ## A roll-back -/

namespace Symbolic

/-- A start on an empty database. -/
def firstStart : List Ans :=
  [.done, .uuid 5, .done, .done, .time ⟨0⟩, .done, .done, .bytes (List.replicate 16 0), .uuid 1,
    .done]

/-- A start with a new key. -/
def nextStart : List Ans := [.done, .uuid 6, .done, .done, .time ⟨0⟩, .done, .done]

/-- A start with a stored key. -/
def rollBack : List Ans := [.done, .done, .done, .done, .done]

theorem rolledBack : ((Prog.run exec 0 (bootstrapAdmin ext (config "A")) firstStart
    (.start (.empty layout))).bind fun p₁ =>
      (Prog.run exec 0 (bootstrapAdmin ext (config "B")) nextStart p₁.2).bind fun p₂ =>
        (Prog.run exec 0 (bootstrapAdmin ext (config "A")) rollBack p₂.2).map fun p₃ =>
          decide (p₁.1 = .ok () ∧ p₂.1 = .ok () ∧ p₃.1 = .ok ())) = some true := by decide +kernel

/-- Back to the first key after a second one: it is the active one again. -/
theorem keyStore_rolledBack : ∃ w r,
    Life.Leads ext "wara" "wara-api" ⟨none, .start (.empty layout)⟩ ⟨some (config "A"), w⟩ ∧
      w.keys.filter (·.isActive) = [r] ∧
        rsaPublicKeyComponents ext (config "A").jwtPublicKey = .ok (r.modulus, r.exponent) := by
  obtain ⟨⟨r₁, w₁⟩, hrun₁, hrest⟩ := Option.bind_eq_some_iff.mp rolledBack
  obtain ⟨⟨r₂, w₂⟩, hrun₂, hrest⟩ := Option.bind_eq_some_iff.mp hrest
  obtain ⟨⟨r₃, w₃⟩, hrun₃, hall⟩ := Option.map_eq_some_iff.mp hrest
  obtain ⟨rfl, rfl, rfl⟩ := of_decide_eq_true hall
  have hfirst : Life.Step ext "wara" "wara-api" ⟨none, .start (.empty layout)⟩
      ⟨some (config "A"), w₁⟩ := .start rfl rfl valid_config.1 hrun₁
  have hnext : Life.Step ext "wara" "wara-api" ⟨some (config "A"), w₁⟩ ⟨some (config "B"), w₂⟩ :=
    .start rfl rfl valid_config.2 hrun₂
  have hback : Life.Step ext "wara" "wara-api" ⟨some (config "B"), w₂⟩ ⟨some (config "A"), w₃⟩ :=
    .start rfl rfl valid_config.1 hrun₃
  have hleads := Relation.ReflTransGen.tail (.tail (.single hfirst) hnext) hback
  obtain ⟨r, hfilter, hkey⟩ := (keyStore_of_leads ext_lawful rfl hleads).active (config "A") rfl
  exact ⟨w₃, r, hleads, hfilter, hkey⟩

end Symbolic

end Wara
