import Mathlib.Algebra.BigOperators.Group.List.Basic
import Mathlib.Algebra.GroupWithZero.Nat
import Mathlib.Algebra.Order.Group.Int
import Mathlib.Data.List.GetD

/-!
# The Gregorian calendar

Dates and days correspond to each other: the days are counted from the first of January of the year
0, and every day has one date. So do the times of a day in Coordinated Universal Time, without leap
seconds, and the seconds since the first of January 1970.

The year of a day is found from the mean length of a year, `146097 / 400` days, and is at most one
off. The month is found in the list of the lengths of the months.

## Main definitions

* `Calendar.Date`, `Calendar.DateTime`: a date, and a second of it.
* `Calendar.Date.toDay`, `Calendar.Date.ofDay`: the day of a date, and the date of a day.
* `Calendar.DateTime.toSeconds`, `Calendar.DateTime.ofSeconds`: the same for seconds.

## Main results

* `Calendar.Date.ofDay_toDay`, `Calendar.Date.toDay_ofDay`: dates and days correspond.
* `Calendar.DateTime.ofSeconds_toSeconds`, `Calendar.DateTime.toSeconds_ofSeconds`: times and seconds
  correspond.
-/

namespace Calendar

/-! ### Years -/

/-- The days before the year. -/
def yearStart (y : ℤ) : ℤ := 365 * y + (y + 3) / 4 - (y + 99) / 100 + (y + 399) / 400

def isLeap (y : ℤ) : Bool := y % 4 = 0 && y % 100 ≠ 0 || y % 400 = 0

/-- The lengths of the months of the year. -/
def monthLengths (y : ℤ) : List ℕ :=
  [31, if isLeap y then 29 else 28, 31, 30, 31, 30, 31, 31, 30, 31, 30, 31]

theorem yearStart_succ (y : ℤ) : yearStart (y + 1) = yearStart y + (monthLengths y).sum := by
  have hsum : ((monthLengths y).sum : ℤ) = if isLeap y then 366 else 365 := by
    rw [monthLengths]
    split <;> rfl
  rw [hsum, isLeap, yearStart, yearStart]
  simp only [Bool.or_eq_true, Bool.and_eq_true, decide_eq_true_eq, ne_eq]
  split_ifs <;> omega

theorem yearStart_lt_yearStart {y y' : ℤ} (h : y < y') : yearStart y < yearStart y' := by
  rw [yearStart, yearStart]
  omega

theorem lt_of_yearStart_lt {y y' : ℤ} (h : yearStart y < yearStart y') : y < y' := by
  by_contra hnot
  rcases (Int.not_lt.mp hnot).lt_or_eq with hlt | rfl
  · exact absurd (yearStart_lt_yearStart hlt) (Int.not_lt.mpr h.le)
  · exact absurd h (Int.lt_irrefl _)

/-- The year of a day. -/
def yearOf (n : ℤ) : ℤ :=
  let y := 400 * n / 146097
  if n < yearStart y then y - 1 else if yearStart (y + 1) ≤ n then y + 1 else y

theorem yearOf_spec (n : ℤ) : yearStart (yearOf n) ≤ n ∧ n < yearStart (yearOf n + 1) := by
  rw [yearOf]
  split_ifs with hbefore hafter
  · rw [sub_add_cancel]
    refine ⟨?_, hbefore⟩
    rw [yearStart]
    omega
  · refine ⟨hafter, ?_⟩
    rw [yearStart]
    omega
  · exact ⟨not_lt.mp hbefore, not_le.mp hafter⟩

theorem yearOf_eq {n y : ℤ} (hle : yearStart y ≤ n) (hlt : n < yearStart (y + 1)) :
    yearOf n = y := by
  obtain ⟨hle', hlt'⟩ := yearOf_spec n
  have h₁ := lt_of_yearStart_lt (hle.trans_lt hlt')
  have h₂ := lt_of_yearStart_lt (hle'.trans_lt hlt)
  omega

/-! ### Parts of given lengths -/

/-- The part that a position lies in, and the position in it. -/
def locate : List ℕ → ℕ → ℕ × ℕ
  | [], d => (0, d)
  | n :: lengths, d =>
    if d < n then (0, d) else ((locate lengths (d - n)).1 + 1, (locate lengths (d - n)).2)

theorem locate_lt {lengths : List ℕ} {d : ℕ} (h : d < lengths.sum) :
    (locate lengths d).2 < lengths.getD (locate lengths d).1 0 := by
  induction lengths generalizing d with
  | nil => exact absurd h (Nat.not_lt_zero _)
  | cons n lengths ih =>
    rw [locate]
    split_ifs with hd
    · exact hd
    · rw [List.sum_cons] at h
      rw [List.getD_cons_succ]
      exact ih (by omega)

theorem sum_take_locate {lengths : List ℕ} {d : ℕ} :
    (lengths.take (locate lengths d).1).sum + (locate lengths d).2 = d := by
  induction lengths generalizing d with
  | nil => exact Nat.zero_add d
  | cons n lengths ih =>
    rw [locate]
    split_ifs with hd
    · exact Nat.zero_add d
    · rw [List.take_succ_cons, List.sum_cons, Nat.add_assoc, ih]
      omega

theorem locate_sum_take {lengths : List ℕ} {m d : ℕ} (h : d < lengths.getD m 0) :
    locate lengths ((lengths.take m).sum + d) = (m, d) := by
  induction lengths generalizing m with
  | nil => exact absurd h (Nat.not_lt_zero _)
  | cons n lengths ih =>
    cases m with
    | zero =>
      have hd : d < n := h
      rw [List.take_zero, List.sum_nil, Nat.zero_add, locate, if_pos hd]
    | succ m =>
      have hn : ¬n + (lengths.take m).sum + d < n := by omega
      have hsub : n + (lengths.take m).sum + d - n = (lengths.take m).sum + d := by omega
      rw [List.take_succ_cons, List.sum_cons, locate, if_neg hn, hsub, ih h]

theorem sum_take_lt {lengths : List ℕ} {m d : ℕ} (h : d < lengths.getD m 0) :
    (lengths.take m).sum + d < lengths.sum := by
  induction lengths generalizing m with
  | nil => exact absurd h (Nat.not_lt_zero _)
  | cons n lengths ih =>
    rw [List.sum_cons]
    cases m with
    | zero =>
      have hd : d < n := h
      rw [List.take_zero, List.sum_nil]
      omega
    | succ m =>
      have hlt : (lengths.take m).sum + d < lengths.sum := ih h
      rw [List.take_succ_cons, List.sum_cons]
      omega

/-! ### Dates -/

/-- A date. The months and the days of a month are counted from zero. -/
structure Date where
  year : ℤ
  month : ℕ
  day : ℕ
  day_lt : day < (monthLengths year).getD month 0
  deriving DecidableEq

namespace Date

theorem month_lt (date : Date) : date.month < 12 := by
  by_contra hnot
  have hlength : (monthLengths date.year).length ≤ date.month := Nat.not_lt.mp hnot
  have hday := date.day_lt
  rw [List.getD_eq_default _ _ hlength] at hday
  exact Nat.not_lt_zero _ hday

theorem day_lt_thirtyOne (date : Date) : date.day < 31 := by
  have hle : ∀ n ∈ monthLengths date.year, n ≤ 31 := by
    rw [monthLengths]
    split <;> decide
  have hday := date.day_lt
  rw [List.getD_eq_getElem _ _ date.month_lt] at hday
  exact hday.trans_le (hle _ (List.getElem_mem _))

/-- The day of a date. -/
def toDay (date : Date) : ℤ :=
  yearStart date.year + (((monthLengths date.year).take date.month).sum + date.day : ℕ)

private theorem dayOfYear_lt (n : ℤ) :
    (n - yearStart (yearOf n)).toNat < (monthLengths (yearOf n)).sum := by
  obtain ⟨hle, hlt⟩ := yearOf_spec n
  rw [yearStart_succ] at hlt
  omega

/-- The date of a day. -/
def ofDay (n : ℤ) : Date where
  year := yearOf n
  month := (locate (monthLengths (yearOf n)) (n - yearStart (yearOf n)).toNat).1
  day := (locate (monthLengths (yearOf n)) (n - yearStart (yearOf n)).toNat).2
  day_lt := locate_lt (dayOfYear_lt n)

theorem toDay_ofDay (n : ℤ) : (ofDay n).toDay = n := by
  have hle := (yearOf_spec n).1
  rw [toDay, ofDay]
  dsimp only
  rw [sum_take_locate]
  omega

theorem ofDay_toDay (date : Date) : ofDay date.toDay = date := by
  obtain ⟨year, month, day, hday⟩ := date
  have hyear : yearOf (toDay ⟨year, month, day, hday⟩) = year := by
    have hlt := sum_take_lt hday
    refine yearOf_eq ?_ ?_
    · rw [toDay]
      dsimp only
      omega
    · rw [yearStart_succ, toDay]
      dsimp only
      omega
  have hpos : (toDay ⟨year, month, day, hday⟩ - yearStart year).toNat =
      ((monthLengths year).take month).sum + day := by
    rw [toDay]
    dsimp only
    omega
  rw [ofDay, Date.mk.injEq, hyear, hpos, locate_sum_take hday]
  exact ⟨rfl, rfl, rfl⟩

end Date

/-! ### Times -/

/-- A second of a date. -/
structure DateTime where
  date : Date
  hour : ℕ
  minute : ℕ
  second : ℕ
  hour_lt : hour < 24
  minute_lt : minute < 60
  second_lt : second < 60
  deriving DecidableEq

namespace DateTime

/-- The seconds since the first of January 1970. -/
def toSeconds (u : DateTime) : ℤ :=
  (u.date.toDay - 719528) * 86400 + u.hour * 3600 + u.minute * 60 + u.second

/-- The time that many seconds after the first of January 1970. -/
def ofSeconds (t : ℤ) : DateTime where
  date := .ofDay (t / 86400 + 719528)
  hour := (t % 86400 / 3600).toNat
  minute := (t % 3600 / 60).toNat
  second := (t % 60).toNat
  hour_lt := by omega
  minute_lt := by omega
  second_lt := by omega

theorem toSeconds_ofSeconds (t : ℤ) : (ofSeconds t).toSeconds = t := by
  rw [toSeconds, ofSeconds, Date.toDay_ofDay]
  dsimp only
  omega

theorem ofSeconds_toSeconds (u : DateTime) : ofSeconds u.toSeconds = u := by
  obtain ⟨date, hour, minute, second, hhour, hminute, hsecond⟩ := u
  have hday : toSeconds ⟨date, hour, minute, second, hhour, hminute, hsecond⟩ / 86400 + 719528 =
      date.toDay := by
    rw [toSeconds]
    dsimp only
    omega
  rw [ofSeconds, DateTime.mk.injEq, hday, Date.ofDay_toDay, toSeconds]
  dsimp only
  refine ⟨rfl, ?_, ?_, ?_⟩ <;> omega

/-- The first second of March 2000. -/
example : (ofSeconds 951868800).date = ⟨2000, 2, 0, by decide⟩ := by decide +kernel

end DateTime

end Calendar
