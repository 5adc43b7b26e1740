import Pan.Library.Calendar
import Mathlib.Algebra.Group.Int.Defs

namespace Pan

/-! ## 64-bit integers -/

namespace I64

def checked (n : ℤ) : Option ℤ := if -2 ^ 63 ≤ n ∧ n < 2 ^ 63 then some n else none

def add (a b : ℤ) : Option ℤ := checked (a + b)

def sub (a b : ℤ) : Option ℤ := checked (a - b)

def mul (a b : ℤ) : Option ℤ := checked (a * b)

/-- `as u32` -/
def asU32 (n : ℤ) : ℕ := (n % 2 ^ 32).toNat

section Checked

variable {a b : ℤ}

theorem bind_of_eq {α β : Type} {x : Option α} {v : α} {f : α → Option β} {r : Option β}
    (hx : x = some v) (hf : f v = r) : (x >>= f) = r := by
  rw [hx]
  exact hf

theorem add_eq (h : -2 ^ 63 ≤ a + b ∧ a + b < 2 ^ 63) : add a b = some (a + b) := if_pos h

theorem sub_eq (h : -2 ^ 63 ≤ a - b ∧ a - b < 2 ^ 63) : sub a b = some (a - b) := if_pos h

theorem mul_eq (h : -2 ^ 63 ≤ a * b ∧ a * b < 2 ^ 63) : mul a b = some (a * b) := if_pos h

theorem asU32_eq (h : 0 ≤ a ∧ a < 2 ^ 32) : asU32 a = a.toNat := by
  rw [asU32, Int.emod_eq_of_lt h.1 h.2]

end Checked

end I64

open I64

def civilFromDays (z : ℤ) : Option (ℤ × ℕ × ℕ) := do
  let z ← add z 719468
  let era := (← (if 0 ≤ z then some z else sub z 146096 : Option ℤ)).tdiv 146097
  let doe ← sub z (← mul era 146097)
  let yoe := (← sub (← add (← sub doe (doe.tdiv 1460)) (doe.tdiv 36524))
    (doe.tdiv 146096)).tdiv 365
  let y ← add yoe (← mul era 400)
  let doy ← sub doe (← sub (← add (← mul 365 yoe) (yoe.tdiv 4)) (yoe.tdiv 100))
  let mp := (← add (← mul 5 doy) 2).tdiv 153
  let d ← add (← sub doy ((← add (← mul 153 mp) 2).tdiv 5)) 1
  let m ← (if mp < 10 then add mp 3 else sub mp 9 : Option ℤ)
  let y ← (if m ≤ 2 then add y 1 else some y : Option ℤ)
  return (y, asU32 m, asU32 d)

open Calendar

/-! ## The steps of the conversion -/

/-- The quotient rounds down, also below zero. -/
theorem tdiv_era (z : ℤ) : (if 0 ≤ z then z else z - 146096).tdiv 146097 = z / 146097 := by
  split
  case isTrue h => exact Int.tdiv_eq_ediv_of_nonneg h
  case isFalse h =>
    -- a negative dividend is lowered by one less than the divisor before it is truncated
    have hsign : Int.sign 146097 = 1 := rfl
    rw [Int.tdiv_eq_ediv, hsign]
    split_ifs <;> omega

section Era

variable {y doe : ℤ} (hdoe : 0 ≤ doe ∧ doe < 146097)
  (hy : daysBeforeYear y ≤ doe ∧ doe < daysBeforeYear (y + 1))

include hdoe hy

theorem year_of_era : 0 ≤ y ∧ y < 400 := by
  have hfirst : daysBeforeYear 0 < daysBeforeYear (y + 1) := hdoe.1.trans_lt hy.2
  have hlast : daysBeforeYear y < daysBeforeYear 400 := hy.1.trans_lt hdoe.2
  rw [daysBeforeYear_strictMono.lt_iff_lt] at hfirst hlast
  omega

/-- The days since the year began. A leap day is the last of them. -/
theorem day_of_year : ∃ doy, doe = 365 * y + y / 4 - y / 100 + doy ∧ 0 ≤ doy ∧
    (doy < 365 ∨ doy = 365 ∧ y % 4 = 3 ∧ (y % 100 ≠ 99 ∨ y = 399)) := by
  have hyear := year_of_era hdoe hy
  refine ⟨doe - (365 * y + y / 4 - y / 100), by omega, ?_⟩
  rw [daysBeforeYear_succ] at hy
  unfold daysBeforeYear IsLeap at hy
  split_ifs at hy <;> omega

/-- The leap days of the era so far, the last day of the year counted with those of the next. -/
theorem tdiv_1460 : doe / 1460 =
    y / 4 + if 1460 ≤ doe - 1460 * (y / 4) then 1 else 0 := by
  obtain ⟨doy, hdoy, hpos, hlast⟩ := day_of_year hdoe hy
  have hyear := year_of_era hdoe hy
  split_ifs <;> omega

/-- The centuries of the era so far. -/
theorem tdiv_36524 : doe / 36524 - doe / 146096 = y / 100 := by
  obtain ⟨doy, hdoy, hpos, hlast⟩ := day_of_year hdoe hy
  have hyear := year_of_era hdoe hy
  -- the last day of an era is the leap day that its last century has more than the others
  by_cases hend : doe = 146096
  · omega
  · have hcentury : doe = 36524 * (y / 100) + (365 * (y % 100) + y % 100 / 4 + doy) := by omega
    have hlt : 365 * (y % 100) + y % 100 / 4 + doy < 36524 := by omega
    have hquot : doe / 36524 = y / 100 := by omega
    have hzero : doe / 146096 = 0 := by omega
    omega

theorem yoe_eq : (doe - doe / 1460 + doe / 36524 - doe / 146096) / 365 = y := by
  obtain ⟨doy, hdoy, hpos, hlast⟩ := day_of_year hdoe hy
  have hyear := year_of_era hdoe hy
  have hsum : doe - doe / 1460 + doe / 36524 - doe / 146096 = doe - doe / 1460 + y / 100 := by
    have := tdiv_36524 hdoe hy
    omega
  have hleap := tdiv_1460 hdoe hy
  rw [hsum]
  clear hsum hy
  split_ifs at hleap <;> omega

end Era

/-- The month and the day of the month, from the days since 1 March. -/
theorem date_of_doy {y doy mp d m year : ℤ} (hdoy : 0 ≤ doy)
    (hlast : doy < if IsLeap (y + 1) then 366 else 365) (hmp : mp = (5 * doy + 2) / 153)
    (hd : d = doy - (153 * mp + 2) / 5 + 1) (hm : m = if mp < 10 then mp + 3 else mp - 9)
    (hyear : year = if m ≤ 2 then y + 1 else y) :
    ∃ date : Date, date.year = year ∧ (date.month : ℤ) = m ∧ (date.day : ℤ) = d ∧
      date.dayNumber = daysBeforeYear y + doy := by
  have hle : mp < 12 := by split_ifs at hlast <;> omega
  have hmonth : 1 ≤ m ∧ m ≤ 12 := by split_ifs at hm <;> omega
  have hmarch : (m + 9) % 12 = mp := by split_ifs at hm <;> omega
  have hfirst : (if m ≤ 2 then year - 1 else year) = y := by rw [hyear]; split_ifs <;> omega
  have hday : 1 ≤ d ∧ d ≤ monthLength year m.toNat := by
    refine ⟨by omega, ?_⟩
    have hpos : 0 ≤ mp := by omega
    unfold monthLength
    subst hd
    -- month by month, from March; only February depends on the year
    interval_cases mp <;> simp at hm <;> subst hm <;> simp at hyear ⊢ <;> subst hyear <;>
      split_ifs at hlast ⊢ <;> omega
  refine ⟨⟨year, m.toNat, d.toNat, by omega, by omega, by omega, by omega⟩, rfl,
    Int.toNat_of_nonneg (by omega), Int.toNat_of_nonneg (by omega), ?_⟩
  rw [Date.dayNumber_eq]
  dsimp only
  push_cast
  rw [Int.toNat_of_nonneg (by omega), Int.toNat_of_nonneg (by omega), hmarch]
  have hle2 : (m.toNat ≤ 2) ↔ m ≤ 2 := by omega
  simp only [hle2]
  rw [hfirst]
  unfold daysBeforeMonth
  omega

theorem daysBeforeYear_era (y era : ℤ) :
    daysBeforeYear (y + era * 400) = daysBeforeYear y + era * 146097 := by
  unfold daysBeforeYear
  omega

section Values

variable {z n era doe y doy mp d m : ℤ} (hz : -2 ^ 63 ≤ z) (hz' : n < 2 ^ 63)
  (hn : n = z + 719468) (hera : era = n / 146097) (hdoe : doe = n - era * 146097)
  (hy : daysBeforeYear y ≤ doe ∧ doe < daysBeforeYear (y + 1))
  (hdoy : doe = 365 * y + y / 4 - y / 100 + doy) (hrange : 0 ≤ doy ∧ doy ≤ 365)
  (hmp : mp = (5 * doy + 2) / 153) (hd : d = doy - (153 * mp + 2) / 5 + 1)
  (hm : m = if mp < 10 then mp + 3 else mp - 9)

include hz hz' hn hera hdoe hy hdoy hrange hmp hd hm

/-- No step overflows but the first, and each has the value that it has without truncation. -/
theorem civilFromDays_of_values : civilFromDays z =
    some (if m ≤ 2 then y + era * 400 + 1 else y + era * 400, m.toNat, d.toNat) := by
  have hera' : 0 ≤ doe ∧ doe < 146097 := by omega
  have hyear := year_of_era hera' hy
  have hyoe := yoe_eq hera' hy
  have htdiv : ∀ a b : ℤ, 0 ≤ a → a.tdiv b = a / b := fun a b ha =>
    Int.tdiv_eq_ediv_of_nonneg ha
  have hdividend : (if 0 ≤ n then some n else sub n 146096) =
      some (if 0 ≤ n then n else n - 146096) := by
    split_ifs
    · rfl
    · exact sub_eq (by omega)
  have hdoy' : doe - (365 * y + y / 4 - y / 100) = doy := by omega
  have hmonth : (if mp < 10 then add mp 3 else sub mp 9) = some m := by
    rw [hm]
    split_ifs
    · exact add_eq (by omega)
    · exact sub_eq (by omega)
  have hjanuary : (if m ≤ 2 then add (y + era * 400) 1 else some (y + era * 400)) =
      some (if m ≤ 2 then y + era * 400 + 1 else y + era * 400) := by
    split_ifs
    · exact add_eq (by omega)
    · rfl
  -- the operations in the order of the source
  unfold civilFromDays
  refine bind_of_eq (hn ▸ add_eq (by omega)) ?_
  refine bind_of_eq hdividend ?_
  rw [tdiv_era, ← hera]
  refine bind_of_eq (mul_eq (by omega)) ?_
  refine bind_of_eq (hdoe ▸ sub_eq (by omega)) ?_
  rw [htdiv doe 1460 hera'.1, htdiv doe 36524 hera'.1, htdiv doe 146096 hera'.1]
  refine bind_of_eq (sub_eq (by omega)) ?_
  refine bind_of_eq (add_eq (by omega)) ?_
  refine bind_of_eq (sub_eq (by omega)) ?_
  rw [htdiv _ 365 (by omega), hyoe]
  refine bind_of_eq (mul_eq (by omega)) ?_
  refine bind_of_eq (add_eq (by omega)) ?_
  rw [htdiv y 4 hyear.1, htdiv y 100 hyear.1]
  refine bind_of_eq (mul_eq (by omega)) ?_
  refine bind_of_eq (add_eq (by omega)) ?_
  refine bind_of_eq (sub_eq (by omega)) ?_
  refine bind_of_eq (hdoy' ▸ sub_eq (by omega)) ?_
  refine bind_of_eq (mul_eq (by omega)) ?_
  refine bind_of_eq (add_eq (by omega)) ?_
  rw [htdiv _ 153 (by omega), ← hmp]
  refine bind_of_eq (mul_eq (by omega)) ?_
  refine bind_of_eq (add_eq (by omega)) ?_
  rw [htdiv _ 5 (by omega)]
  refine bind_of_eq (sub_eq (by omega)) ?_
  refine bind_of_eq (hd ▸ add_eq (by omega)) ?_
  refine bind_of_eq hmonth ?_
  refine bind_of_eq hjanuary ?_
  have hm' : 0 ≤ m ∧ m ≤ 12 := by split_ifs at hm <;> omega
  rw [asU32_eq (by omega), asU32_eq (by omega)]
  rfl

end Values

def ymd (date : Date) : ℤ × ℕ × ℕ := (date.year, date.month, date.day)

/-- Unless the first sum overflows, the conversion returns the date whose number it is. -/
theorem civilFromDays_eq {z : ℤ} (hz : -2 ^ 63 ≤ z) (hz' : z + 719468 < 2 ^ 63) :
    ∃ date : Date, civilFromDays z = some (ymd date) ∧ date.dayNumber = z + 719468 := by
  obtain ⟨era, hera⟩ : ∃ era, era = (z + 719468) / 146097 := ⟨_, rfl⟩
  obtain ⟨doe, hdoe⟩ : ∃ doe, doe = z + 719468 - era * 146097 := ⟨_, rfl⟩
  -- the year is the one that the day of the era is in, not the one that is computed
  obtain ⟨y, hy⟩ := exists_year doe
  obtain ⟨doy, hdoy, hpos, hlast⟩ := day_of_year (by omega) hy
  have hyear := year_of_era (by omega) hy
  have hlength : doy < if IsLeap (y + era * 400 + 1) then 366 else 365 := by
    unfold IsLeap
    split_ifs <;> omega
  obtain ⟨date, hdate, hmonth, hday, hnumber⟩ := date_of_doy hpos hlength rfl rfl rfl rfl
  refine ⟨date, ?_, ?_⟩
  · rw [civilFromDays_of_values hz hz' rfl hera hdoe hy hdoy ⟨hpos, by omega⟩ rfl rfl rfl,
      ← hdate, ← hmonth, ← hday]
    rfl
  · rw [hnumber, daysBeforeYear_era]
    unfold daysBeforeYear
    omega

/-- What the conversion returns without an overflow is a date of the calendar, the next day is the
next date, and the days count from 1970-01-01. Only the last days that fit in 64 bits overflow. -/
theorem civilFromDays_calendar :
    civilFromDays 0 = some (1970, 1, 1) ∧
      (∀ z, -2 ^ 63 ≤ z → z < 2 ^ 63 →
        ((civilFromDays z).isSome = true ↔ z + 719468 < 2 ^ 63)) ∧
      ∀ z r, -2 ^ 63 ≤ z → civilFromDays z = some r → ∃ date : Date, r = ymd date ∧
        ∀ r', civilFromDays (z + 1) = some r' → r' = ymd date.next := by
  have hfits : ∀ {z r}, civilFromDays z = some r → z + 719468 < 2 ^ 63 := by
    intro z r h
    by_contra hover
    have hnone : add z 719468 = none := if_neg fun h => hover h.2
    unfold civilFromDays at h
    rw [hnone] at h
    cases h
  refine ⟨by decide, fun z hz _ => ⟨fun h => ?_, fun h => ?_⟩, fun z r hz hr => ?_⟩
  · obtain ⟨r, hr⟩ := Option.isSome_iff_exists.mp h
    exact hfits hr
  · obtain ⟨date, hdate, -⟩ := civilFromDays_eq hz h
    rw [hdate]
    rfl
  · obtain ⟨date, hdate, hnumber⟩ := civilFromDays_eq hz (hfits hr)
    refine ⟨date, Option.some.inj (hr.symm.trans hdate), fun r' hr' => ?_⟩
    obtain ⟨date', hdate', hnumber'⟩ := civilFromDays_eq (by omega) (hfits hr')
    have hnext : date' = date.next := by
      refine Date.dayNumber_injective ?_
      rw [hnumber', Date.dayNumber_next, hnumber]
      omega
    rw [← hnext]
    exact Option.some.inj (hr'.symm.trans hdate')

/-- In a century year that is a leap year, 29 February follows 28 February. -/
theorem civilFromDays_calendar_leap :
    ∃ date : Date, ymd date = (2000, 2, 28) ∧ ymd date.next = (2000, 2, 29) := by
  obtain ⟨date, hdate, hnext⟩ :=
    civilFromDays_calendar.2.2 11015 (2000, 2, 28) (by decide) (by decide)
  exact ⟨date, hdate.symm, (hnext (2000, 2, 29) (by decide)).symm⟩

end Pan
