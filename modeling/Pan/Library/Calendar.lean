import Mathlib.Algebra.Order.Ring.Int
import Mathlib.Data.Int.ConditionallyCompleteOrder
import Mathlib.Data.Int.LeastGreatest
import Mathlib.Order.Monotone.Basic
import Mathlib.Tactic.IntervalCases

namespace Calendar

/-- Every fourth year, but of the centuries only every fourth. -/
def IsLeap (year : ℤ) : Prop := year % 4 = 0 ∧ (year % 100 ≠ 0 ∨ year % 400 = 0)

instance : DecidablePred IsLeap := fun _ => inferInstanceAs (Decidable (_ ∧ _))

def monthLength (year : ℤ) (month : ℕ) : ℕ :=
  if month = 2 then if IsLeap year then 29 else 28
  else if month = 4 ∨ month = 6 ∨ month = 9 ∨ month = 11 then 30
  else 31

theorem one_le_monthLength (year : ℤ) (month : ℕ) : 1 ≤ monthLength year month := by
  unfold monthLength
  split_ifs <;> omega

@[ext] structure Date where
  year : ℤ
  month : ℕ
  day : ℕ
  one_le_month : 1 ≤ month
  month_le : month ≤ 12
  one_le_day : 1 ≤ day
  day_le : day ≤ monthLength year month

namespace Date

def next (date : Date) : Date :=
  if hday : date.day < monthLength date.year date.month then
    ⟨date.year, date.month, date.day + 1, date.one_le_month, date.month_le,
      Nat.le_add_left 1 date.day, hday⟩
  else if hmonth : date.month < 12 then
    ⟨date.year, date.month + 1, 1, Nat.le_add_left 1 date.month, hmonth, le_rfl,
      one_le_monthLength date.year (date.month + 1)⟩
  else
    ⟨date.year + 1, 1, 1, le_rfl, Nat.one_le_ofNat, le_rfl, one_le_monthLength (date.year + 1) 1⟩

end Date

/-! ## Years that begin in March -/

/-- The days from 1 March of the year 0 to 1 March of this year. -/
def daysBeforeYear (y : ℤ) : ℤ := 365 * y + y / 4 - y / 100 + y / 400

/-- The days from 1 March to the first of the month that comes so many months after. -/
def daysBeforeMonth (m : ℤ) : ℤ := (153 * m + 2) / 5

theorem daysBeforeYear_succ (y : ℤ) :
    daysBeforeYear (y + 1) = daysBeforeYear y + if IsLeap (y + 1) then 366 else 365 := by
  unfold daysBeforeYear IsLeap
  split_ifs <;> omega

theorem daysBeforeYear_strictMono : StrictMono daysBeforeYear := by
  refine strictMono_int_of_lt_succ fun y => ?_
  rw [daysBeforeYear_succ]
  split_ifs <;> omega

/-- A day is in one year only. -/
theorem eq_of_daysBeforeYear {y y' n : ℤ} (h : daysBeforeYear y ≤ n)
    (hn : n < daysBeforeYear (y + 1)) (h' : daysBeforeYear y' ≤ n)
    (hn' : n < daysBeforeYear (y' + 1)) : y = y' := by
  have hle : y < y' + 1 := daysBeforeYear_strictMono.lt_iff_lt.mp (h.trans_lt hn')
  have hge : y' < y + 1 := daysBeforeYear_strictMono.lt_iff_lt.mp (h'.trans_lt hn)
  omega

/-- Every day is in a year. -/
theorem exists_year (n : ℤ) : ∃ y, daysBeforeYear y ≤ n ∧ n < daysBeforeYear (y + 1) := by
  obtain ⟨y, hy, hgreatest⟩ := Int.exists_greatest_of_bdd
    (P := fun y => daysBeforeYear y ≤ n)
    ⟨max n 0, fun y hy => by unfold daysBeforeYear at hy; omega⟩
    ⟨min n 0 - 1, by unfold daysBeforeYear; omega⟩
  refine ⟨y, hy, not_le.mp fun hle => ?_⟩
  have := hgreatest _ hle
  omega

namespace Date

variable (date : Date)

def marchYear : ℤ := if date.month ≤ 2 then date.year - 1 else date.year

def marchMonth : ℕ := (date.month + 9) % 12

def dayOfYear : ℤ := daysBeforeMonth date.marchMonth + date.day - 1

/-- The days since 1 March of the year 0. -/
def dayNumber : ℤ := daysBeforeYear date.marchYear + date.dayOfYear

theorem dayOfYear_nonneg : 0 ≤ date.dayOfYear := by
  have hday := date.one_le_day
  unfold dayOfYear daysBeforeMonth
  omega

/-- A month other than February lasts until the next. -/
theorem dayOfYear_lt_month (h : date.marchMonth < 11) :
    date.dayOfYear < daysBeforeMonth (date.marchMonth + 1) := by
  obtain ⟨year, month, day, hpos, hle, _, hday⟩ := date
  unfold dayOfYear daysBeforeMonth
  unfold marchMonth at h ⊢
  unfold monthLength at hday
  dsimp only at h hday ⊢
  interval_cases month <;> simp at hday ⊢ <;> omega

theorem dayNumber_lt : date.dayNumber < daysBeforeYear (date.marchYear + 1) := by
  obtain ⟨year, month, day, hpos, hle, _, hday⟩ := date
  rw [daysBeforeYear_succ]
  unfold dayNumber dayOfYear daysBeforeMonth marchMonth marchYear
  unfold monthLength at hday
  dsimp only at hday ⊢
  -- only in February, the last of its year, does the length depend on the year
  interval_cases month <;> simp at hday ⊢ <;> split_ifs at hday ⊢ <;> omega

theorem dayNumber_eq : date.dayNumber =
    daysBeforeYear (if date.month ≤ 2 then date.year - 1 else date.year) +
      (daysBeforeMonth ((date.month + 9) % 12 : ℕ) + date.day - 1) := rfl

theorem dayNumber_next : date.next.dayNumber = date.dayNumber + 1 := by
  obtain ⟨year, month, day, hpos, hle, -, hday⟩ := date
  unfold next
  dsimp only
  -- within a month, from a month to the next, from a year to the next
  split_ifs with hlt hmonth
  · rw [dayNumber_eq, dayNumber_eq]
    dsimp only
    push_cast
    omega
  · have hlast : day = monthLength year month := le_antisymm hday (not_lt.mp hlt)
    subst hlast
    have hyear := daysBeforeYear_succ (year - 1)
    rw [Int.sub_add_cancel] at hyear
    rw [dayNumber_eq, dayNumber_eq]
    unfold daysBeforeMonth monthLength
    dsimp only
    interval_cases month <;> simp <;> split_ifs at hyear ⊢ <;> omega
  · obtain rfl : month = 12 := by omega
    have hlast : day = 31 := le_antisymm hday (not_lt.mp hlt)
    subst hlast
    rw [dayNumber_eq, dayNumber_eq]
    unfold daysBeforeMonth
    simp
    omega

/-- Days are in order of their months. -/
theorem marchMonth_le_of_dayOfYear_le {date date' : Date} (h : date.dayOfYear ≤ date'.dayOfYear) :
    date.marchMonth ≤ date'.marchMonth := by
  -- otherwise the second date lies before the month of the first
  by_contra hlt
  have hmonth : date.marchMonth < 12 := Nat.mod_lt _ (by omega)
  have hlast := date'.dayOfYear_lt_month (by omega)
  have hday := date.one_le_day
  unfold dayOfYear daysBeforeMonth at *
  omega

theorem month_eq_of_marchMonth_eq {date date' : Date} (h : date.marchMonth = date'.marchMonth) :
    date.month = date'.month := by
  have hle := date.month_le
  have hle' := date'.month_le
  have hpos := date.one_le_month
  have hpos' := date'.one_le_month
  unfold marchMonth at h
  omega

/-- Dates with one number are the same. -/
theorem dayNumber_injective : Function.Injective dayNumber := by
  intro date date' h
  have hle : daysBeforeYear date.marchYear ≤ date.dayNumber :=
    le_add_of_nonneg_right date.dayOfYear_nonneg
  have hle' : daysBeforeYear date'.marchYear ≤ date.dayNumber :=
    h ▸ le_add_of_nonneg_right date'.dayOfYear_nonneg
  have hyear : date.marchYear = date'.marchYear :=
    eq_of_daysBeforeYear hle date.dayNumber_lt hle' (h ▸ date'.dayNumber_lt)
  -- in one year the days decide, among them the months, and in one month the days of the month
  have hday : date.dayOfYear = date'.dayOfYear := by
    unfold dayNumber at h
    rw [hyear] at h
    exact Int.add_left_cancel h
  have hmarch : date.marchMonth = date'.marchMonth :=
    le_antisymm (marchMonth_le_of_dayOfYear_le hday.le) (marchMonth_le_of_dayOfYear_le hday.ge)
  have hmonth : date.month = date'.month := month_eq_of_marchMonth_eq hmarch
  refine Date.ext ?_ hmonth ?_
  · unfold marchYear at hyear
    rw [hmonth] at hyear
    split_ifs at hyear <;> omega
  · unfold dayOfYear at hday
    rw [hmarch] at hday
    omega

end Date

end Calendar
