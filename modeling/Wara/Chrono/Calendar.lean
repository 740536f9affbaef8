import Mathlib.Algebra.Order.Ring.Nat
import Mathlib.Tactic.Common

/-!
# The proleptic Gregorian calendar

Days are counted from the first of January of the year 0, which is a leap year.
`civil` is the date of a day, and later days have later dates (`civil_lt`).
-/

namespace Chrono

/-! ## Years -/

/-- The days before the year `y`. -/
def daysBefore (y : Int) : Int := 365 * y + (y + 3) / 4 - (y + 99) / 100 + (y + 399) / 400

def IsLeap (y : Int) : Prop := y % 4 = 0 ∧ (y % 100 ≠ 0 ∨ y % 400 = 0)

instance (y : Int) : Decidable (IsLeap y) := inferInstanceAs (Decidable (_ ∧ _))

theorem daysBefore_succ (y : Int) :
    daysBefore (y + 1) = daysBefore y + if IsLeap y then 366 else 365 := by
  by_cases h : IsLeap y
  · rw [if_pos h]
    unfold daysBefore
    unfold IsLeap at h
    omega
  · rw [if_neg h]
    unfold daysBefore
    unfold IsLeap at h
    omega

theorem daysBefore_mono {y z : Int} (h : y ≤ z) : daysBefore y ≤ daysBefore z := by
  unfold daysBefore
  omega

/-- The year of a day: 400 years have 146097 days, and no year is off by more than one. -/
def yearOf (d : Int) : Int :=
  let y := 400 * d / 146097
  if daysBefore (y + 1) ≤ d then y + 1 else if d < daysBefore y then y - 1 else y

theorem yearOf_spec (d : Int) : daysBefore (yearOf d) ≤ d ∧ d < daysBefore (yearOf d + 1) := by
  have hlow : daysBefore (400 * d / 146097 - 1) ≤ d := by
    unfold daysBefore
    omega
  have hhigh : d < daysBefore (400 * d / 146097 + 1 + 1) := by
    unfold daysBefore
    omega
  simp only [yearOf]
  split
  · next h => exact ⟨h, hhigh⟩
  · next h =>
    split
    · next h' => exact ⟨hlow, by rwa [Int.sub_add_cancel]⟩
    · next h' => exact ⟨by omega, by omega⟩

theorem yearOf_mono {d e : Int} (h : d ≤ e) : yearOf d ≤ yearOf e := by
  obtain ⟨hlow, -⟩ := yearOf_spec d
  obtain ⟨-, hhigh⟩ := yearOf_spec e
  by_contra hlt
  have := daysBefore_mono (y := yearOf e + 1) (z := yearOf d) (by omega)
  omega

/-- The day of the year, from 0. -/
def dayOfYear (d : Int) : Nat := (d - daysBefore (yearOf d)).toNat

theorem dayOfYear_cast (d : Int) : (dayOfYear d : Int) = d - daysBefore (yearOf d) := by
  have := (yearOf_spec d).1
  unfold dayOfYear
  omega

/-! ## Months -/

/-- The segment that `n` is in, and its place there, of segments with these lengths. -/
def place : List Nat → Nat → Nat × Nat
  | [], n => (0, n)
  | l :: ls, n => if n < l then (0, n) else ((place ls (n - l)).1 + 1, (place ls (n - l)).2)

theorem place_lt {ls : List Nat} {n : Nat} (h : n < ls.sum) :
    (place ls n).1 < ls.length ∧ (place ls n).2 < ls.foldr max 0 := by
  induction ls generalizing n with
  | nil => exact absurd h (Nat.not_lt_zero n)
  | cons l ls ih =>
    unfold place
    rw [List.foldr_cons, List.length_cons]
    split
    · exact ⟨by omega, by omega⟩
    · rw [List.sum_cons] at h
      obtain ⟨h1, h2⟩ := ih (n := n - l) (by omega)
      exact ⟨by omega, by omega⟩

theorem place_mono (ls : List Nat) {n m : Nat} (h : n < m) :
    (place ls n).1 < (place ls m).1 ∨
      (place ls n).1 = (place ls m).1 ∧ (place ls n).2 < (place ls m).2 := by
  induction ls generalizing n m with
  | nil => exact .inr ⟨rfl, h⟩
  | cons l ls ih =>
    by_cases hm : m < l
    · have hn : n < l := by omega
      simp only [place, if_pos hn, if_pos hm]
      exact .inr ⟨trivial, h⟩
    by_cases hn : n < l
    · simp only [place, if_pos hn, if_neg hm]
      exact .inl (Nat.succ_pos _)
    · simp only [place, if_neg hn, if_neg hm]
      rcases ih (n := n - l) (m := m - l) (by omega) with h | ⟨h, h'⟩
      · exact .inl (by omega)
      · exact .inr ⟨by omega, h'⟩

def monthLengths (y : Int) : List Nat :=
  [31, if IsLeap y then 29 else 28, 31, 30, 31, 30, 31, 31, 30, 31, 30, 31]

theorem sum_monthLengths (y : Int) :
    ((monthLengths y).sum : Int) = daysBefore (y + 1) - daysBefore y := by
  rw [daysBefore_succ]
  unfold monthLengths
  split
  · simp only [List.sum_cons, List.sum_nil]
    omega
  · simp only [List.sum_cons, List.sum_nil]
    omega

/-! ## Dates -/

structure Date where
  year : Int
  month : Nat
  day : Nat
  deriving DecidableEq, Repr

/-- The date of a day. -/
def civil (d : Int) : Date :=
  let p := place (monthLengths (yearOf d)) (dayOfYear d)
  ⟨yearOf d, p.1 + 1, p.2 + 1⟩

theorem dayOfYear_lt (d : Int) : dayOfYear d < (monthLengths (yearOf d)).sum := by
  have hsum := sum_monthLengths (yearOf d)
  have hcast := dayOfYear_cast d
  have := (yearOf_spec d).2
  omega

theorem civil_bounds (d : Int) : (civil d).month ≤ 12 ∧ (civil d).day ≤ 31 := by
  obtain ⟨hmonth, hday⟩ := place_lt (dayOfYear_lt d)
  have hmax : (monthLengths (yearOf d)).foldr max 0 ≤ 31 := by
    unfold monthLengths
    split <;> decide
  refine ⟨?_, ?_⟩
  · show (place (monthLengths (yearOf d)) (dayOfYear d)).1 + 1 ≤ 12
    have hlen : (monthLengths (yearOf d)).length = 12 := rfl
    omega
  · show (place (monthLengths (yearOf d)) (dayOfYear d)).2 + 1 ≤ 31
    omega

/-- **Later days have later dates.** -/
theorem civil_lt {d e : Int} (h : d < e) :
    (civil d).year < (civil e).year ∨ (civil d).year = (civil e).year ∧
      ((civil d).month < (civil e).month ∨ (civil d).month = (civil e).month ∧
        (civil d).day < (civil e).day) := by
  rcases Int.lt_or_eq_of_le (yearOf_mono (Int.le_of_lt h)) with hyear | hyear
  · exact .inl hyear
  · refine .inr ⟨hyear, ?_⟩
    have hday : dayOfYear d < dayOfYear e := by
      have hd := dayOfYear_cast d
      have he := dayOfYear_cast e
      rw [hyear] at hd
      omega
    simp only [civil, hyear]
    rcases place_mono (monthLengths (yearOf e)) hday with hm | ⟨hm, hd⟩
    · exact .inl (by omega)
    · exact .inr ⟨by omega, by omega⟩

example : civil 719528 = ⟨1970, 1, 1⟩ := by decide

end Chrono
