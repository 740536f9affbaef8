import Wara.Auth.Rotation
import Wara.Chrono.Rfc3339
import Wara.Service.Solo

/-!
# Timestamps as texts

Every `created_at` is a column of text. `list_api_tokens`, `jwks` and
`active_jwt_public_key_record` compare these texts, not the times they were
printed from; for the years 0 to 9999 that is the same.
-/

namespace Wara

open Interleave Store Service AuthService

/-! ## Printed times -/

def DateTime.utc (t : DateTime) : Chrono.Instant where
  days := t.nanos / 86400000000000 + 719528
  time := {
    secs := (t.nanos / 1000000000 % 86400).toNat
    frac := (t.nanos % 1000000000).toNat
    secs_lt := by omega
    frac_lt := by omega
    leap := by omega }

def DateTime.toRfc3339 (t : DateTime) : String := t.utc.toRfc3339

/-- `to_rfc3339` is the one of chrono. -/
def Ext.PrintsRfc3339 (x : Ext) : Prop := ∀ t, x.toRfc3339 t = t.toRfc3339

/-- The years 0 to 9999. -/
def DateTime.FourDigitYear (t : DateTime) : Prop := t.utc.FourDigitYear

instance (t : DateTime) : Decidable t.FourDigitYear := inferInstanceAs (Decidable (_ ∧ _))

/-- The text was printed from the time. -/
def Printed (text : String) (t : DateTime) : Prop := text = t.toRfc3339 ∧ t.FourDigitYear

theorem DateTime.utc_before {t u : DateTime} (h : t.nanos < u.nanos) : t.utc.Before u.utc := by
  unfold Chrono.Instant.Before utc
  simp only
  omega

theorem DateTime.compare_utc (t u : DateTime) : compare t.utc u.utc = compare t.nanos u.nanos := by
  cases hcmp : compare t.nanos u.nanos with
  | lt => exact Chrono.Instant.compare_eq_lt.mpr (utc_before (Int.compare_eq_lt.mp hcmp))
  | eq =>
    obtain ⟨n⟩ := t
    obtain rfl : n = u.nanos := Int.compare_eq_eq.mp hcmp
    exact Chrono.Instant.compare_eq_eq.mpr rfl
  | gt => exact Chrono.Instant.compare_eq_gt.mpr (utc_before (Int.compare_eq_gt.mp hcmp))

theorem Printed.compare_eq {a b : String} {t u : DateTime} (ha : Printed a t) (hb : Printed b u) :
    compare a b = compare t.nanos u.nanos := by
  rw [ha.1, hb.1, ← DateTime.compare_utc]
  exact Chrono.Instant.compare_toRfc3339 ha.2 hb.2

theorem Printed.le {a b : String} {t u : DateTime} (ha : Printed a t) (hb : Printed b u)
    (h : a ≤ b) : t.nanos ≤ u.nanos := by
  by_contra hlt
  have hcmp := hb.compare_eq ha
  rw [Int.compare_eq_lt.mpr (by omega)] at hcmp
  exact h (compareOfLessAndEq_eq_lt.mp hcmp)

/-! ## The queries that sort -/

/-- Of any two tokens the first was created no earlier. -/
def NewestFirst (tokens : List UserApiTokenRecord) : Prop :=
  tokens.Pairwise fun r r' => ∀ t t', Printed r.createdAt t → Printed r'.createdAt t' →
    t'.nanos ≤ t.nanos

def OldestFirst (keys : List JwtPublicKeyRecord) : Prop :=
  keys.Pairwise fun r r' => ∀ t t', Printed r.createdAt t → Printed r'.createdAt t' →
    t.nanos ≤ t'.nanos

/-- No active key was created later. -/
def MostRecent (keys : List JwtPublicKeyRecord) (r : JwtPublicKeyRecord) : Prop :=
  r ∈ keys ∧ r.isActive = true ∧ ∀ r' ∈ keys, r'.isActive = true →
    ∀ t t', Printed r.createdAt t → Printed r'.createdAt t' → t'.nanos ≤ t.nanos

section sorting

variable {x : Ext} {i : Nat} {s : World}

/-- Sorting by an order, either way. -/
theorem pairwise_mergeSort_of_total {α : Type} {r : α → α → Prop} [DecidableRel r]
    (htrans : ∀ {a b c}, r a b → r b c → r a c) (htotal : ∀ a b, r a b ∨ r b a) (l : List α) :
    (l.mergeSort fun a b => r a b).Pairwise r := by
  refine (List.pairwise_mergeSort (fun a b c hab hbc => ?_) (fun a b => ?_) l).imp
    fun {a b} hab => of_decide_eq_true hab
  · rw [decide_eq_true_iff] at *
    exact htrans hab hbc
  · rw [Bool.or_eq_true, decide_eq_true_iff, decide_eq_true_iff]
    exact htotal a b

theorem yields_listApiTokens (user : User) :
    Yields i (listApiTokens user) (fun _ r s' => ∀ tokens, r = .ok tokens → s' = s ∧
      tokens.Perm (layout.select s.db .userApiTokens (.eq 1 (.uuid user.id))) ∧
      NewestFirst tokens) s := by
  unfold listApiTokens
  refine yields_query (fun e tokens h => by cases h) (yields_pure ?_)
  rintro tokens ⟨⟩
  refine ⟨rfl, List.mergeSort_perm _ _, ?_⟩
  have hsorted := pairwise_mergeSort_of_total
    (r := fun r r' : UserApiTokenRecord => r'.createdAt ≤ r.createdAt)
    (fun h h' => String.le_trans h' h) (fun _ _ => String.le_total _ _)
    (layout.select s.db .userApiTokens (.eq 1 (.uuid user.id)))
  exact hsorted.imp fun {r r'} hle t t' ht ht' => ht'.le ht hle

theorem yields_jwks :
    Yields i (jwks x) (fun _ r s' => ∀ keys, r = .ok keys → s' = s ∧
      ∃ records : List JwtPublicKeyRecord, records.Perm (s.db.rows .jwtPublicKeys) ∧
        OldestFirst records ∧ keys.map (·.kid) = records.map (x.uuidToString ·.id)) s := by
  unfold jwks
  refine yields_query (fun e keys h => by cases h) (yields_pure ?_)
  rw [Layout.select_all]
  rintro keys ⟨⟩
  refine ⟨rfl, s.db.rows .jwtPublicKeys |>.mergeSort fun l r => l.createdAt ≤ r.createdAt,
    List.mergeSort_perm _ _, ?_, by rw [List.map_map]; rfl⟩
  have hsorted := pairwise_mergeSort_of_total
    (r := fun r r' : JwtPublicKeyRecord => r.createdAt ≤ r'.createdAt)
    (fun h h' => String.le_trans h h') (fun _ _ => String.le_total _ _) (s.db.rows .jwtPublicKeys)
  exact hsorted.imp fun {r r'} hle t t' ht ht' => ht.le ht' hle

theorem laterKey_le {best : Option JwtPublicKeyRecord} {record r : JwtPublicKeyRecord}
    (h : laterKey best record = some r) :
    record.createdAt ≤ r.createdAt ∧ ∀ b, best = some b → b.createdAt ≤ r.createdAt := by
  cases best with
  | none =>
    cases h
    exact ⟨String.le_refl _, nofun⟩
  | some b =>
    unfold laterKey at h
    simp only at h
    split at h
    · next hlt =>
      cases h
      refine ⟨String.not_lt.mp (String.lt_asymm hlt), fun b' hb => ?_⟩
      cases hb
      exact String.le_refl _
    · next hge =>
      cases h
      refine ⟨String.le_refl _, fun b' hb => ?_⟩
      cases hb
      exact String.not_lt.mp hge

/-- What `max_by` ends with is above what it has seen. -/
theorem foldl_laterKey_le (records : List JwtPublicKeyRecord) (best : Option JwtPublicKeyRecord)
    {r : JwtPublicKeyRecord} (h : records.foldl laterKey best = some r) :
    (∀ b, best = some b → b.createdAt ≤ r.createdAt) ∧
      ∀ r' ∈ records, r'.createdAt ≤ r.createdAt := by
  induction records generalizing best with
  | nil =>
    refine ⟨fun b hb => ?_, fun r' hr' => (List.not_mem_nil hr').elim⟩
    obtain rfl : b = r := Option.some.inj (hb.symm.trans h)
    exact String.le_refl _
  | cons record records ih =>
    obtain ⟨hnext, hrest⟩ := ih _ h
    obtain ⟨c, hc⟩ : ∃ c, laterKey best record = some c := by
      unfold laterKey
      split
      · exact ⟨_, rfl⟩
      · split <;> exact ⟨_, rfl⟩
    obtain ⟨hrecord, hbest⟩ := laterKey_le hc
    refine ⟨fun b hb => String.le_trans (hbest b hb) (hnext c hc), fun r' hr' => ?_⟩
    rcases List.mem_cons.mp hr' with rfl | hr'
    · exact String.le_trans hrecord (hnext c hc)
    · exact hrest r' hr'

theorem latestActive_mostRecent {records : List JwtPublicKeyRecord} {r : JwtPublicKeyRecord}
    (h : latestActive records = some r) : MostRecent records r := by
  obtain ⟨hmem, hactive⟩ := latestActive_mem h
  refine ⟨hmem, hactive, fun r' hr' hactive' t t' ht ht' => ht'.le ht ?_⟩
  exact (foldl_laterKey_le _ none h).2 r' (List.mem_filter.mpr ⟨hr', hactive'⟩)

theorem yields_activeJwtPublicKeyRecord :
    Yields i activeJwtPublicKeyRecord (fun _ r s' => ∀ record, r = .ok record → s' = s ∧
      MostRecent (s.db.rows .jwtPublicKeys) record) s := by
  unfold activeJwtPublicKeyRecord
  refine yields_query (fun e record h => by cases h) (yields_okOr (fun _ record h => by cases h) ?_)
  intro record hrecord
  refine yields_throwIf (fun _ record h => by cases h) fun _ => yields_pure ?_
  rw [Layout.select_all] at hrecord
  rintro _ ⟨⟩
  exact ⟨rfl, latestActive_mostRecent hrecord⟩

end sorting

end Wara
