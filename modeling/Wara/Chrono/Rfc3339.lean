import Wara.Chrono.Calendar

/-!
# The RFC 3339 text of an instant

`DateTime::<Utc>::to_rfc3339`: date, time, a fraction that is left out or has 3,
6 or 9 digits, and the offset. The texts have four lengths. Two of one second
differ first where one goes on with a digit and the other with a digit, the
offset or the point, and `+` is below `.` is below the digits, so the texts of
the years 0 to 9999 are in the order of the instants (`compare_toRfc3339`).
-/

namespace Chrono

/-! ## Instants -/

structure NaiveTime where
  secs : Nat
  frac : Nat
  secs_lt : secs < 86400
  frac_lt : frac < 2000000000
  /-- A leap second is in the last second of a minute. -/
  leap : 1000000000 ≤ frac → secs % 60 = 59
  deriving DecidableEq

namespace NaiveTime

variable (t : NaiveTime)

def hour : Nat := t.secs / 3600

def minute : Nat := t.secs / 60 % 60

/-- 60 in a leap second. -/
def second : Nat := t.secs % 60 + if 1000000000 ≤ t.frac then 1 else 0

def nano : Nat := if 1000000000 ≤ t.frac then t.frac - 1000000000 else t.frac

end NaiveTime

/-- A `DateTime<Utc>`: the days since the first of January of the year 0, and the time. -/
structure Instant where
  days : Int
  time : NaiveTime
  deriving DecidableEq

namespace Instant

/-- Field by field. -/
instance : Ord Instant where
  compare a b := (compare a.days b.days).then
    ((compare a.time.secs b.time.secs).then (compare a.time.frac b.time.frac))

def year (a : Instant) : Int := yearOf a.days

def FourDigitYear (a : Instant) : Prop := 0 ≤ a.year ∧ a.year ≤ 9999

end Instant

/-! ## Text -/

/-- `write_hundreds`, below 100. -/
def hundreds (n : Nat) : List Char := [(n / 10).digitChar, (n % 10).digitChar]

/-- `{:03}` and the like. -/
def zeroPad (width n : Nat) : List Char := List.leftpad width '0' (Nat.toDigits 10 n)

/-- Four digits, or a sign and at least four digits. -/
def yearText (year : Int) : List Char :=
  if 0 ≤ year ∧ year ≤ 9999 then
    hundreds (year.toNat / 100) ++ hundreds (year.toNat % 100)
  else (if year < 0 then '-' else '+') :: zeroPad 4 year.natAbs

/-- `SecondsFormat::AutoSi`. -/
def fraction (nano : Nat) : List Char :=
  if nano = 0 then []
  else if nano % 1000000 = 0 then '.' :: zeroPad 3 (nano / 1000000)
  else if nano % 1000 = 0 then '.' :: zeroPad 6 (nano / 1000)
  else '.' :: zeroPad 9 nano

def offset : List Char := ['+', '0', '0', ':', '0', '0']

def Date.text (date : Date) : List Char :=
  yearText date.year ++ '-' :: (hundreds date.month ++ '-' :: hundreds date.day)

def NaiveTime.text (t : NaiveTime) : List Char :=
  hundreds t.hour ++ ':' :: (hundreds t.minute ++ ':' :: (hundreds t.second ++
    (fraction t.nano ++ offset)))

def Instant.text (a : Instant) : List Char := (civil a.days).text ++ 'T' :: a.time.text

def Instant.toRfc3339 (a : Instant) : String := String.ofList a.text

/-! ## Digits -/

/-- The last `width` digits. -/
def digits : Nat → Nat → List Char
  | 0, _ => []
  | width + 1, n => digits width (n / 10) ++ [(n % 10).digitChar]

@[simp] theorem length_digits (width n : Nat) : (digits width n).length = width := by
  induction width generalizing n with
  | zero => rfl
  | succ width ih => rw [digits, List.length_append, ih, List.length_singleton]

theorem leftpad_concat (width : Nat) (c d : Char) (l : List Char) :
    List.leftpad (width + 1) c (l ++ [d]) = List.leftpad width c l ++ [d] := by
  unfold List.leftpad
  rw [List.length_append, List.length_singleton, Nat.add_sub_add_right, List.append_assoc]

theorem zeroPad_eq (width : Nat) {n : Nat} (h : n < 10 ^ (width + 1)) :
    zeroPad (width + 1) n = digits (width + 1) n := by
  induction width generalizing n with
  | zero =>
    have hn : n < 10 := h
    unfold zeroPad
    rw [Nat.toDigits_of_lt_base hn, digits, digits, Nat.mod_eq_of_lt hn]
    rfl
  | succ width ih =>
    have hdiv : n / 10 < 10 ^ (width + 1) := by
      rw [Nat.div_lt_iff_lt_mul (by decide)]
      exact h
    rw [digits, ← ih hdiv]
    unfold zeroPad
    by_cases hn : n < 10
    · rw [Nat.toDigits_of_lt_base hn, Nat.div_eq_of_lt hn, Nat.mod_eq_of_lt hn, Nat.toDigits_zero]
      unfold List.leftpad
      simp [List.replicate_succ']
    · rw [Nat.toDigits_of_base_le (by decide) (by omega), leftpad_concat]

theorem digits_add (j k n : Nat) :
    digits (j + k) n = digits j (n / 10 ^ k) ++ digits k n := by
  induction k generalizing n with
  | zero => simp [digits]
  | succ k ih =>
    rw [← Nat.add_assoc, digits, ih, digits, Nat.div_div_eq_div_mul, ← Nat.pow_succ',
      List.append_assoc]

/-! ## Order of texts -/

section order

variable {a b u v : List Char} {m n : Nat}

theorem append_lt_append (h : a < b) (hlen : a.length = b.length) : a ++ u < b ++ v := by
  induction a generalizing b with
  | nil =>
    obtain rfl := List.eq_nil_of_length_eq_zero hlen.symm
    exact absurd h (List.lt_irrefl [])
  | cons c a ih =>
    cases b with
    | nil => cases hlen
    | cons d b =>
      rw [List.length_cons, List.length_cons, Nat.add_right_cancel_iff] at hlen
      rw [List.cons_append, List.cons_append, List.cons_lt_cons_iff]
      rcases List.cons_lt_cons_iff.mp h with hcd | ⟨rfl, hab⟩
      · exact .inl hcd
      · exact .inr ⟨rfl, ih hab hlen⟩

theorem digitChar_lt (h : m < n) (hn : n < 10) : m.digitChar < n.digitChar := by
  have hall : ∀ n < 10, ∀ m < n, m.digitChar < n.digitChar := by decide
  exact hall n hn m h

/-- The offset is below any more digits. -/
theorem plus_lt_digits {k : Nat} (hk : 0 < k) : '+' :: u < digits k n ++ v := by
  have hplus : ∀ n < 10, '+' < n.digitChar := by decide
  induction k generalizing n v with
  | zero => exact absurd hk (Nat.lt_irrefl 0)
  | succ k ih =>
    cases k with
    | zero =>
      exact List.cons_lt_cons_iff.mpr (.inl (hplus (n % 10) (Nat.mod_lt n (by decide))))
    | succ k =>
      rw [digits, List.append_assoc]
      exact ih (Nat.succ_pos k)

theorem digits_lt {width : Nat} (h : m < n) (hn : n < 10 ^ width) :
    digits width m < digits width n := by
  induction width generalizing m n with
  | zero =>
    have : n < 1 := hn
    omega
  | succ width ih =>
    have hdiv : n / 10 < 10 ^ width := by
      rw [Nat.div_lt_iff_lt_mul (by decide)]
      exact hn
    rw [digits, digits]
    by_cases hlt : m / 10 < n / 10
    · exact append_lt_append (ih hlt hdiv) (by simp)
    · have heq : m / 10 = n / 10 := by omega
      rw [heq]
      exact List.append_left_lt
        (List.cons_lt_cons_iff.mpr (.inl (digitChar_lt (by omega) (by omega))))

theorem hundreds_eq (h : n < 100) : hundreds n = digits 2 n := by
  have hdiv : n / 10 % 10 = n / 10 := Nat.mod_eq_of_lt (by omega)
  show [(n / 10).digitChar, (n % 10).digitChar] =
    [(n / 10 % 10).digitChar, (n % 10).digitChar]
  rw [hdiv]

/-- A smaller field, or the same and a smaller rest. -/
theorem hundreds_append_lt (hn : n < 100) (h : m < n ∨ m = n ∧ u < v) :
    hundreds m ++ u < hundreds n ++ v := by
  rcases h with h | ⟨rfl, h⟩
  · rw [hundreds_eq hn, hundreds_eq (by omega)]
    exact append_lt_append (digits_lt h hn) (by simp)
  · exact List.append_left_lt h

theorem cons_lt (c : Char) (h : u < v) : c :: u < c :: v :=
  List.cons_lt_cons_iff.mpr (.inr ⟨rfl, h⟩)

/-! ## The fraction -/

/-- What is printed of a fraction: as many digits as it takes, in threes. -/
theorem fraction_eq (hn : n < 1000000000) (h0 : n ≠ 0) :
    ∃ width k, width + k = 9 ∧ n % 10 ^ k = 0 ∧
      fraction n = '.' :: digits width (n / 10 ^ k) := by
  unfold fraction
  rw [if_neg h0]
  split
  · next h =>
    exact ⟨3, 6, rfl, h, congrArg ('.' :: ·) (zeroPad_eq 2 (by omega))⟩
  · next h =>
    split
    · next h' => exact ⟨6, 3, rfl, h', congrArg ('.' :: ·) (zeroPad_eq 5 (by omega))⟩
    · exact ⟨9, 0, rfl, Nat.mod_one n, by
      rw [zeroPad_eq 8 (by omega), Nat.pow_zero, Nat.div_one]⟩

/-- Without its last zeros a number is what its other digits are. -/
theorem eq_of_div_eq {k : Nat} (hm : m % 10 ^ k = 0) (hn : n % 10 ^ k = 0)
    (h : m / 10 ^ k = n / 10 ^ k) : m = n := by
  rw [← Nat.div_add_mod m (10 ^ k), ← Nat.div_add_mod n (10 ^ k), hm, hn, h]

/-- **Fractions** of any two widths: a digit decides, or the shorter one ends and the offset is
below the next digit of the longer one. -/
theorem fraction_lt (h : m < n) (hn : n < 1000000000) :
    fraction m ++ '+' :: u < fraction n ++ '+' :: v := by
  obtain ⟨w, l, hwl, hl, hfn⟩ := fraction_eq hn (by omega)
  have hnw : n / 10 ^ l < 10 ^ w := by
    rw [Nat.div_lt_iff_lt_mul (Nat.pow_pos (by decide)), ← Nat.pow_add, hwl]
    exact hn
  rw [hfn]
  by_cases h0 : m = 0
  · subst h0
    exact List.cons_lt_cons_iff.mpr (.inl (by decide))
  obtain ⟨w', k, hwk, hk, hfm⟩ := fraction_eq (n := m) (by omega) h0
  rw [hfm, List.cons_append, List.cons_append]
  refine cons_lt '.' ?_
  rcases Nat.lt_or_ge k l with hkl | hkl
  · -- the smaller one is longer: its first digits are smaller already
    obtain ⟨j, rfl⟩ := Nat.exists_eq_add_of_le (Nat.le_of_lt hkl)
    obtain rfl : w' = w + j := by omega
    have hfirst : m / 10 ^ (k + j) < n / 10 ^ (k + j) := by
      rw [Nat.div_lt_iff_lt_mul (Nat.pow_pos (by decide)),
        Nat.div_mul_cancel (Nat.dvd_of_mod_eq_zero hl)]
      exact h
    rw [digits_add, Nat.div_div_eq_div_mul, ← Nat.pow_add, List.append_assoc]
    exact append_lt_append (digits_lt hfirst hnw) (by simp)
  · -- the larger one is at least as long
    obtain ⟨j, rfl⟩ := Nat.exists_eq_add_of_le hkl
    obtain rfl : w = w' + j := by omega
    rw [digits_add, Nat.div_div_eq_div_mul, ← Nat.pow_add, List.append_assoc]
    rcases Nat.lt_or_eq_of_le (Nat.div_le_div_right (c := 10 ^ (l + j)) (Nat.le_of_lt h)) with hlt | heq
    · refine append_lt_append (digits_lt hlt ?_) (by simp)
      rw [Nat.div_lt_iff_lt_mul (Nat.pow_pos (by decide)), ← Nat.pow_add, hwk]
      exact hn
    · rw [heq]
      refine List.append_left_lt (plus_lt_digits (Nat.pos_of_ne_zero ?_))
      rintro rfl
      exact absurd (eq_of_div_eq hk hl heq) (by omega)

end order

/-! ## Instants and their texts -/

theorem NaiveTime.hour_lt (t : NaiveTime) : t.hour < 100 := by
  have := t.secs_lt
  unfold hour
  omega

theorem NaiveTime.minute_lt (t : NaiveTime) : t.minute < 100 := by
  unfold minute
  omega

theorem NaiveTime.second_lt (t : NaiveTime) : t.second < 100 := by
  unfold second
  split <;> omega

theorem NaiveTime.nano_lt (t : NaiveTime) : t.nano < 1000000000 := by
  have := t.frac_lt
  unfold nano
  split <;> omega

/-- Later times print later fields; a leap second is the 60th of its minute. -/
theorem NaiveTime.fields_lt {s t : NaiveTime}
    (h : s.secs < t.secs ∨ s.secs = t.secs ∧ s.frac < t.frac) :
    s.hour < t.hour ∨ s.hour = t.hour ∧ (s.minute < t.minute ∨ s.minute = t.minute ∧
      (s.second < t.second ∨ s.second = t.second ∧ s.nano < t.nano)) := by
  have hs := s.leap
  have ht := t.leap
  unfold hour minute second nano
  split
  · next hsl =>
    have hsl' := hs hsl
    split <;> omega
  · split <;> omega

theorem NaiveTime.text_lt {s t : NaiveTime}
    (h : s.secs < t.secs ∨ s.secs = t.secs ∧ s.frac < t.frac) : s.text < t.text := by
  unfold text
  refine hundreds_append_lt t.hour_lt ((fields_lt h).imp_right fun ⟨hhour, h⟩ => ⟨hhour, ?_⟩)
  refine cons_lt ':' (hundreds_append_lt t.minute_lt (h.imp_right fun ⟨hmin, h⟩ => ⟨hmin, ?_⟩))
  refine cons_lt ':' (hundreds_append_lt t.second_lt (h.imp_right fun ⟨hsec, h⟩ => ⟨hsec, ?_⟩))
  exact fraction_lt h t.nano_lt

theorem yearText_eq {y : Int} (h : 0 ≤ y ∧ y ≤ 9999) :
    yearText y = hundreds (y.toNat / 100) ++ hundreds (y.toNat % 100) := if_pos h

theorem Date.length_text {date : Date} (h : 0 ≤ date.year ∧ date.year ≤ 9999) :
    date.text.length = 10 := by
  unfold text
  rw [yearText_eq h]
  rfl

theorem Date.text_lt {d e : Date} (hd : 0 ≤ d.year ∧ d.year ≤ 9999)
    (he : 0 ≤ e.year ∧ e.year ≤ 9999) (hbounds : e.month ≤ 12 ∧ e.day ≤ 31)
    (h : d.year < e.year ∨ d.year = e.year ∧
      (d.month < e.month ∨ d.month = e.month ∧ d.day < e.day)) : d.text < e.text := by
  unfold text
  rw [yearText_eq hd, yearText_eq he, List.append_assoc, List.append_assoc]
  have hfields : d.year.toNat / 100 < e.year.toNat / 100 ∨
      d.year.toNat / 100 = e.year.toNat / 100 ∧ (d.year.toNat % 100 < e.year.toNat % 100 ∨
        d.year.toNat % 100 = e.year.toNat % 100 ∧
          (d.month < e.month ∨ d.month = e.month ∧ d.day < e.day)) := by omega
  refine hundreds_append_lt (by omega) (hfields.imp_right fun ⟨hcentury, h⟩ => ⟨hcentury, ?_⟩)
  refine hundreds_append_lt (by omega) (h.imp_right fun ⟨hyear, h⟩ => ⟨hyear, cons_lt '-' ?_⟩)
  refine hundreds_append_lt (by omega) (h.imp_right fun ⟨hmonth, h⟩ => ⟨hmonth, cons_lt '-' ?_⟩)
  have hday := hundreds_append_lt (u := []) (v := []) (by omega) (Or.inl h)
  rwa [List.append_nil, List.append_nil] at hday

namespace Instant

variable {a b : Instant}

def Before (a b : Instant) : Prop :=
  a.days < b.days ∨ a.days = b.days ∧
    (a.time.secs < b.time.secs ∨ a.time.secs = b.time.secs ∧ a.time.frac < b.time.frac)

theorem compare_eq_lt : compare a b = .lt ↔ a.Before b := by
  show Ordering.then _ _ = .lt ↔ _
  rw [Ordering.then_eq_lt, Ordering.then_eq_lt, Int.compare_eq_lt, Int.compare_eq_eq,
    Nat.compare_eq_lt, Nat.compare_eq_eq, Nat.compare_eq_lt]
  exact Iff.rfl

theorem compare_eq_gt : compare a b = .gt ↔ b.Before a := by
  show Ordering.then _ _ = .gt ↔ _
  rw [Ordering.then_eq_gt, Ordering.then_eq_gt, Int.compare_eq_gt, Int.compare_eq_eq,
    Nat.compare_eq_gt, Nat.compare_eq_eq, Nat.compare_eq_gt, @eq_comm _ a.days,
    @eq_comm _ a.time.secs]
  exact Iff.rfl

theorem compare_eq_eq : compare a b = .eq ↔ a = b := by
  show Ordering.then _ _ = .eq ↔ _
  rw [Ordering.then_eq_eq, Ordering.then_eq_eq, Int.compare_eq_eq, Nat.compare_eq_eq,
    Nat.compare_eq_eq]
  constructor
  · rintro ⟨hd, hs, hf⟩
    obtain ⟨d, s, f, _, _, _⟩ := a
    obtain ⟨d', s', f', _, _, _⟩ := b
    cases hd
    cases hs
    cases hf
    rfl
  · rintro rfl
    exact ⟨rfl, rfl, rfl⟩

/-- **Later instants have later texts.** -/
theorem text_lt (ha : a.FourDigitYear) (hb : b.FourDigitYear) (h : a.Before b) :
    a.text < b.text := by
  have hay : 0 ≤ (civil a.days).year ∧ (civil a.days).year ≤ 9999 := ha
  have hby : 0 ≤ (civil b.days).year ∧ (civil b.days).year ≤ 9999 := hb
  unfold text
  rcases h with hdays | ⟨hdays, htime⟩
  · refine append_lt_append (Date.text_lt hay hby (civil_bounds b.days) (civil_lt hdays)) ?_
    rw [Date.length_text hay, Date.length_text hby]
  · rw [hdays]
    exact List.append_left_lt (cons_lt 'T' (NaiveTime.text_lt htime))

/-- **The order of the texts is the order of the instants**, for the years 0 to 9999. -/
theorem compare_toRfc3339 (ha : a.FourDigitYear) (hb : b.FourDigitYear) :
    compare a.toRfc3339 b.toRfc3339 = compare a b := by
  have hlt : ∀ {s t : Instant}, s.text < t.text → compare s.toRfc3339 t.toRfc3339 = .lt := by
    intro s t h
    refine compareOfLessAndEq_eq_lt.mpr (String.lt_iff.mpr ?_)
    rwa [toRfc3339, toRfc3339, String.toList_ofList, String.toList_ofList]
  cases hcmp : compare a b with
  | lt => exact hlt (text_lt ha hb (compare_eq_lt.mp hcmp))
  | eq => rw [compare_eq_eq.mp hcmp, Std.ReflOrd.compare_self]
  | gt =>
    have hswap := hlt (text_lt hb ha (compare_eq_gt.mp hcmp))
    rw [Std.OrientedOrd.eq_swap, hswap]
    rfl

end Instant

end Chrono
