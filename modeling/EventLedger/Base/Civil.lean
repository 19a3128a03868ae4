import EventLedger.Base.Text
import Mathlib.Data.Int.Order.Basic
import Mathlib.Tactic.IntervalCases
import Mathlib.Order.Lattice

-- The proleptic Gregorian calendar of the years 1 to 9999.
def isLeap (year : ℕ) : Bool :=
  year % 4 = 0 && (year % 100 ≠ 0 || year % 400 = 0)

def daysBeforeYear (year : ℕ) : ℕ :=
  (year - 1) * 365 + (year - 1) / 4 - (year - 1) / 100 + (year - 1) / 400

def monthLengths : List ℕ :=
  [31, 28, 31, 30, 31, 30, 31, 31, 30, 31, 30, 31]

def daysInMonth (leap : Bool) (month : ℕ) : ℕ :=
  monthLengths.getD (month - 1) 0 + (if leap && month = 2 then 1 else 0)

def daysBeforeMonth (leap : Bool) (month : ℕ) : ℕ :=
  (monthLengths.take (month - 1)).sum + (if leap && 2 < month then 1 else 0)

def daysInYear (leap : Bool) : ℕ :=
  if leap then 366 else 365

theorem isLeap_iff {year : ℕ} : isLeap year ↔ 4 ∣ year ∧ (¬100 ∣ year ∨ 400 ∣ year) := by
  simp [isLeap, Nat.dvd_iff_mod_eq_zero]

theorem daysBeforeYear_succ {year : ℕ} (h : 1 ≤ year) :
    daysBeforeYear (year + 1) = daysBeforeYear year + daysInYear (isLeap year) := by
  obtain ⟨k, rfl⟩ := Nat.exists_eq_add_of_le' h
  have h₁ : 400 ∣ k + 1 → 100 ∣ k + 1 := Dvd.dvd.trans (by decide)
  have h₂ : 100 ∣ k + 1 → 4 ∣ k + 1 := Dvd.dvd.trans (by decide)
  have hk : k / 100 ≤ k / 4 := Nat.div_le_div_left (by decide) (by decide)
  simp only [daysBeforeYear, daysInYear, Nat.add_sub_cancel, isLeap_iff, Nat.succ_div]
  split_ifs <;> omega

theorem daysBeforeYear_lt {y z : ℕ} (h : 1 ≤ y) (hl : y < z) :
    daysBeforeYear y + daysInYear (isLeap y) ≤ daysBeforeYear z := by
  induction hl
  case refl => exact (daysBeforeYear_succ h).ge
  case step z hz hi =>
    rw [daysBeforeYear_succ (h.trans (Nat.le_of_lt hz))]
    omega

theorem daysBeforeMonth_succ (leap : Bool) {month : ℕ} (h : 1 ≤ month ∧ month ≤ 12) :
    daysBeforeMonth leap (month + 1) = daysBeforeMonth leap month + daysInMonth leap month := by
  have ⟨h₁, h₂⟩ := h
  interval_cases month <;> cases leap <;> rfl

theorem daysBeforeMonth_lt (leap : Bool) {m n : ℕ} (h : 1 ≤ m) (hn : n ≤ 13) (hl : m < n) :
    daysBeforeMonth leap m + daysInMonth leap m ≤ daysBeforeMonth leap n := by
  induction hl
  case refl => exact (daysBeforeMonth_succ leap ⟨h, by omega⟩).ge
  case step n hm hi =>
    have hm : m < n := hm
    rw [daysBeforeMonth_succ leap (by omega : 1 ≤ n ∧ n ≤ 12)]
    have := hi (by omega)
    omega

theorem daysBeforeMonth_last (leap : Bool) : daysBeforeMonth leap 13 = daysInYear leap := by
  cases leap <;> rfl

structure Date where
  year : ℕ
  month : ℕ
  day : ℕ
  year_bounds : 1 ≤ year ∧ year ≤ 9999
  month_bounds : 1 ≤ month ∧ month ≤ 12
  day_bounds : 1 ≤ day ∧ day ≤ daysInMonth (isLeap year) month

namespace Date

@[ext]
theorem ext {a b : Date} (hy : a.year = b.year) (hm : a.month = b.month) (hd : a.day = b.day) :
    a = b := by
  cases a; cases b; simp_all

-- The number of days before the date, from the first of January of the year 1.
def ordinal (d : Date) : ℕ :=
  daysBeforeYear d.year + daysBeforeMonth (isLeap d.year) d.month + (d.day - 1)

theorem dayOfYear_lt (d : Date) :
    daysBeforeMonth (isLeap d.year) d.month + (d.day - 1) < daysInYear (isLeap d.year) := by
  have := daysBeforeMonth_lt (isLeap d.year) (n := 13) d.month_bounds.1 le_rfl
    (by have := d.month_bounds; omega)
  rw [daysBeforeMonth_last] at this
  have := d.day_bounds
  omega

theorem ordinal_lt_of_year {a b : Date} (h : a.year < b.year) : a.ordinal < b.ordinal := by
  have := daysBeforeYear_lt a.year_bounds.1 h
  have := a.dayOfYear_lt
  unfold ordinal
  omega

theorem ordinal_lt_of_month {a b : Date} (hy : a.year = b.year) (h : a.month < b.month) :
    a.ordinal < b.ordinal := by
  have := daysBeforeMonth_lt (isLeap a.year) a.month_bounds.1
    (by have := b.month_bounds; omega) h
  have := a.day_bounds
  unfold ordinal
  rw [← hy]
  omega

theorem ordinal_lt_of_day {a b : Date} (hy : a.year = b.year) (hm : a.month = b.month)
    (h : a.day < b.day) : a.ordinal < b.ordinal := by
  have := a.day_bounds
  unfold ordinal
  rw [← hy, ← hm]
  omega

-- The order of the days is the lexicographic order of year, month and day.
theorem ordinal_lt_iff {a b : Date} : a.ordinal < b.ordinal ↔
    a.year < b.year ∨
    (a.year = b.year ∧ (a.month < b.month ∨ (a.month = b.month ∧ a.day < b.day))) where
  mp h := by
    by_contra hc
    have hle : b.ordinal ≤ a.ordinal := by
      rcases Nat.lt_trichotomy a.year b.year with hy | hy | hy
      case inl => exact absurd (.inl hy) hc
      case inr.inr => exact (ordinal_lt_of_year hy).le
      case inr.inl =>
        rcases Nat.lt_trichotomy a.month b.month with hm | hm | hm
        case inl => exact absurd (.inr ⟨hy, .inl hm⟩) hc
        case inr.inr => exact (ordinal_lt_of_month hy.symm hm).le
        case inr.inl =>
          rcases Nat.lt_trichotomy a.day b.day with hd | hd | hd
          case inl => exact absurd (.inr ⟨hy, .inr ⟨hm, hd⟩⟩) hc
          case inr.inr => exact (ordinal_lt_of_day hy.symm hm.symm hd).le
          case inr.inl => exact (congrArg ordinal (Date.ext hy hm hd)).ge
    omega
  mpr h := by
    rcases h with h | ⟨hy, h | ⟨hm, h⟩⟩
    case inl => exact ordinal_lt_of_year h
    case inr.inl => exact ordinal_lt_of_month hy h
    case inr.inr => exact ordinal_lt_of_day hy hm h

theorem ordinal_injective : Function.Injective ordinal := by
  intro a b h
  have h₁ := mt ordinal_lt_iff.mpr (by omega : ¬a.ordinal < b.ordinal)
  have h₂ := mt ordinal_lt_iff.mpr (by omega : ¬b.ordinal < a.ordinal)
  have hy : a.year = b.year := by omega
  have hm : a.month = b.month := by omega
  exact Date.ext hy hm (by omega)

-- The year of a day is found by cycles of 400, 100, 4 and 1 years.
def cycle400 (n : ℕ) : ℕ := n / 146097
def cycle100 (n : ℕ) : ℕ := min (n % 146097 / 36524) 3
def cycle4 (n : ℕ) : ℕ := (n % 146097 - 36524 * cycle100 n) / 1461
def cycle1 (n : ℕ) : ℕ := min ((n % 146097 - 36524 * cycle100 n) % 1461 / 365) 3

def yearOfOrdinal (n : ℕ) : ℕ :=
  400 * cycle400 n + 100 * cycle100 n + 4 * cycle4 n + cycle1 n + 1

theorem cycle100_spec (n : ℕ) : cycle100 n ≤ 3 ∧ 36524 * cycle100 n ≤ n % 146097 ∧
    n % 146097 < 36524 * cycle100 n + 36524 + (if cycle100 n = 3 then 1 else 0) := by
  have : n % 146097 < 146097 := Nat.mod_lt _ (by decide)
  unfold cycle100
  generalize n % 146097 = m at *
  split <;> omega

-- What remains of a day's number after its cycles is a day of its year.
theorem cycles_spec (n : ℕ) : cycle100 n ≤ 3 ∧ cycle4 n ≤ 24 ∧ cycle1 n ≤ 3 ∧ ∃ r,
    n = 146097 * cycle400 n + 36524 * cycle100 n + 1461 * cycle4 n + 365 * cycle1 n + r ∧
    (r < 365 ∨ (r = 365 ∧ cycle1 n = 3 ∧ (cycle4 n ≠ 24 ∨ cycle100 n = 3))) := by
  have ⟨hb, hl, hu⟩ := cycle100_spec n
  have hn := Nat.div_add_mod n 146097
  unfold cycle1 cycle4 cycle400
  generalize cycle100 n = b at *
  generalize n % 146097 = m at *
  generalize n / 146097 = a at *
  obtain ⟨k, rfl⟩ := Nat.exists_eq_add_of_le hl
  have hk := Nat.div_add_mod k 1461
  have hr : k % 1461 < 1461 := Nat.mod_lt _ (by decide)
  have hc : k / 1461 ≤ 24 := by split at hu <;> omega
  simp only [Nat.add_sub_cancel_left]
  refine ⟨hb, hc, by omega, k % 1461 - 365 * min (k % 1461 / 365) 3, by omega, ?_⟩
  generalize k % 1461 = r at *
  generalize k / 1461 = c at *
  split at hu <;> omega

theorem yearOfOrdinal_spec (n : ℕ) :
    daysBeforeYear (yearOfOrdinal n) ≤ n ∧
    n < daysBeforeYear (yearOfOrdinal n) + daysInYear (isLeap (yearOfOrdinal n)) := by
  have ⟨hb, hc, hd, r, hn, hr⟩ := cycles_spec n
  unfold yearOfOrdinal
  generalize cycle400 n = a at *
  generalize cycle100 n = b at *
  generalize cycle4 n = c at *
  generalize cycle1 n = d at *
  have h₄ : (400 * a + 100 * b + 4 * c + d) / 4 = 100 * a + 25 * b + c := by omega
  have h₁₀₀ : (400 * a + 100 * b + 4 * c + d) / 100 = 4 * a + b := by omega
  have h₄₀₀ : (400 * a + 100 * b + 4 * c + d) / 400 = a := by omega
  have hl : isLeap (400 * a + 100 * b + 4 * c + d + 1) ↔ d = 3 ∧ (c ≠ 24 ∨ b = 3) := by
    rw [isLeap_iff]
    omega
  simp only [daysBeforeYear, Nat.add_sub_cancel, h₄, h₁₀₀, h₄₀₀, daysInYear, hl]
  split <;> omega

def monthOfDay (leap : Bool) (n : ℕ) : ℕ :=
  if n < daysBeforeMonth leap ((n + 50) / 32) then (n + 50) / 32 - 1 else (n + 50) / 32

theorem monthOfDay_spec : ∀ leap, ∀ n < daysInYear leap,
    (1 ≤ monthOfDay leap n ∧ monthOfDay leap n ≤ 12) ∧
    daysBeforeMonth leap (monthOfDay leap n) ≤ n ∧
    n < daysBeforeMonth leap (monthOfDay leap n) + daysInMonth leap (monthOfDay leap n) := by
  decide +kernel

-- The number of days of the years 1 to 9999.
def maxOrdinal : ℕ := 3652059

theorem yearOfOrdinal_le {n : ℕ} (h : n < maxOrdinal) : yearOfOrdinal n ≤ 9999 := by
  by_contra hy
  have hs := (yearOfOrdinal_spec n).1
  have hm : daysBeforeYear 10000 = maxOrdinal := rfl
  rcases Nat.lt_or_ge 10000 (yearOfOrdinal n) with hl | hl
  case inl =>
    have := daysBeforeYear_lt (by decide) hl
    omega
  case inr =>
    rw [(by omega : yearOfOrdinal n = 10000)] at hs
    omega

def ofOrdinal (n : ℕ) (h : n < maxOrdinal) : Date :=
  have hs := yearOfOrdinal_spec n
  have hm := monthOfDay_spec (isLeap (yearOfOrdinal n)) (n - daysBeforeYear (yearOfOrdinal n))
    (by omega)
  { year := yearOfOrdinal n
    month := monthOfDay (isLeap (yearOfOrdinal n)) (n - daysBeforeYear (yearOfOrdinal n))
    day := n - daysBeforeYear (yearOfOrdinal n) - daysBeforeMonth (isLeap (yearOfOrdinal n))
      (monthOfDay (isLeap (yearOfOrdinal n)) (n - daysBeforeYear (yearOfOrdinal n))) + 1
    year_bounds := ⟨Nat.le_add_left _ _, yearOfOrdinal_le h⟩
    month_bounds := hm.1
    day_bounds := ⟨Nat.le_add_left _ _, by omega⟩ }

theorem ordinal_ofOrdinal {n : ℕ} (h : n < maxOrdinal) : (ofOrdinal n h).ordinal = n := by
  have hs := yearOfOrdinal_spec n
  have hm := monthOfDay_spec (isLeap (yearOfOrdinal n)) (n - daysBeforeYear (yearOfOrdinal n))
    (by omega)
  simp only [ordinal, ofOrdinal]
  omega

theorem ordinal_lt_max (d : Date) : d.ordinal < maxOrdinal := by
  have := d.dayOfYear_lt
  have hm : daysBeforeYear 10000 = maxOrdinal := rfl
  have := daysBeforeYear_lt d.year_bounds.1 (by have := d.year_bounds; omega : d.year < 10000)
  unfold ordinal
  omega

end Date

-- A date and a time of day, to the microsecond.
structure Civil where
  date : Date
  hour : ℕ
  minute : ℕ
  second : ℕ
  micro : ℕ
  hour_lt : hour < 24
  minute_lt : minute < 60
  second_lt : second < 60
  micro_lt : micro < 1000000

namespace Civil

@[ext]
theorem ext {a b : Civil} (hd : a.date = b.date) (hh : a.hour = b.hour)
    (hm : a.minute = b.minute) (hs : a.second = b.second) (hu : a.micro = b.micro) : a = b := by
  cases a; cases b; simp_all

theorem clock_lt (c : Civil) : c.hour < 24 ∧ c.minute < 60 ∧ c.second < 60 :=
  ⟨c.hour_lt, c.minute_lt, c.second_lt⟩

-- Seconds from the first of January of the year 1, without the fraction.
def wholeSecond (c : Civil) : ℕ :=
  ((c.date.ordinal * 24 + c.hour) * 60 + c.minute) * 60 + c.second

-- Microseconds from the first of January of the year 1.
def instant (c : Civil) : ℕ :=
  c.wholeSecond * 1000000 + c.micro

theorem wholeSecond_lt_iff {a b : Civil} : a.wholeSecond < b.wholeSecond ↔
    a.date.ordinal < b.date.ordinal ∨ (a.date.ordinal = b.date.ordinal ∧
    (a.hour < b.hour ∨ (a.hour = b.hour ∧ (a.minute < b.minute ∨
    (a.minute = b.minute ∧ a.second < b.second))))) := by
  have := a.clock_lt
  have := b.clock_lt
  unfold wholeSecond
  omega

theorem instant_lt_iff {a b : Civil} : a.instant < b.instant ↔
    a.wholeSecond < b.wholeSecond ∨ (a.wholeSecond = b.wholeSecond ∧ a.micro < b.micro) := by
  have := a.micro_lt
  have := b.micro_lt
  unfold instant
  omega

theorem wholeSecond_inj {a b : Civil} (h : a.wholeSecond = b.wholeSecond) :
    a.date = b.date ∧ a.hour = b.hour ∧ a.minute = b.minute ∧ a.second = b.second := by
  have := a.clock_lt
  have := b.clock_lt
  unfold wholeSecond at h
  exact ⟨Date.ordinal_injective (by omega), by omega, by omega, by omega⟩

theorem instant_injective : Function.Injective instant := by
  intro a b h
  have := a.micro_lt
  have := b.micro_lt
  unfold instant at h
  have ⟨hd, hh, hm, hs⟩ := wholeSecond_inj (by omega : a.wholeSecond = b.wholeSecond)
  exact Civil.ext hd hh hm hs (by omega)

-- The number of microseconds of the years 1 to 9999.
def maxInstant : ℕ := 315537897600000000

theorem instant_lt_max (c : Civil) : c.instant < maxInstant := by
  have := c.date.ordinal_lt_max
  have := c.clock_lt
  have := c.micro_lt
  unfold instant wholeSecond maxInstant
  unfold Date.maxOrdinal at *
  omega

def ofInstant (n : ℕ) (h : n < maxInstant) : Civil where
  date := .ofOrdinal (n / 86400000000) (by unfold maxInstant at h; unfold Date.maxOrdinal; omega)
  hour := n / 3600000000 % 24
  minute := n / 60000000 % 60
  second := n / 1000000 % 60
  micro := n % 1000000
  hour_lt := Nat.mod_lt _ (by decide)
  minute_lt := Nat.mod_lt _ (by decide)
  second_lt := Nat.mod_lt _ (by decide)
  micro_lt := Nat.mod_lt _ (by decide)

theorem instant_ofInstant {n : ℕ} (h : n < maxInstant) : (ofInstant n h).instant = n := by
  simp only [instant, wholeSecond, ofInstant, Date.ordinal_ofOrdinal]
  omega

theorem ofInstant_instant (c : Civil) : ofInstant c.instant c.instant_lt_max = c :=
  instant_injective (instant_ofInstant _)

-- The instants of the years 1 to 9999.
def InCalendar (instant : ℤ) : Prop :=
  0 ≤ instant ∧ instant < maxInstant

theorem exists_instant_iff {i : ℤ} : (∃ c : Civil, (c.instant : ℤ) = i) ↔ InCalendar i := by
  constructor
  case mp =>
    rintro ⟨c, rfl⟩
    exact ⟨Int.natCast_nonneg _, Int.ofNat_lt.mpr c.instant_lt_max⟩
  case mpr =>
    intro h
    obtain ⟨n, rfl⟩ := Int.eq_ofNat_of_zero_le h.1
    have hn : n < maxInstant := Int.ofNat_lt.mp h.2
    exact ⟨ofInstant n hn, by rw [instant_ofInstant]⟩

end Civil

def microsPerDay : ℕ := 86400000000

-- A date and time with the offset of its clock from UTC in microseconds, if the offset is known.
structure DateTime where
  civil : Civil
  offset : Option ℤ
  offset_bounds : ∀ o ∈ offset, -(microsPerDay : ℤ) < o ∧ o < microsPerDay

namespace DateTime

def ofInstant? (n : ℕ) : Option Civil :=
  if h : n < Civil.maxInstant then some (.ofInstant n h) else none

-- The instant in UTC, when it lies within the calendar.
def toUtc (d : DateTime) (offset : ℤ) : Option Civil :=
  match d.civil.instant - offset with
  | .ofNat n   => ofInstant? n
  | .negSucc _ => none

theorem ofInstant?_instant (c : Civil) : ofInstant? c.instant = some c := by
  rw [ofInstant?, dif_pos c.instant_lt_max, Civil.ofInstant_instant]

theorem toUtc_eq_some_iff {d : DateTime} {o : ℤ} {c : Civil} :
    d.toUtc o = some c ↔ (c.instant : ℤ) = d.civil.instant - o where
  mp h := by
    unfold toUtc at h
    split at h
    case h_1 n hn =>
      unfold ofInstant? at h
      split at h
      case isTrue => rw [hn, ← Option.some.inj h, Civil.instant_ofInstant, Int.ofNat_eq_natCast]
      case isFalse => cases h
    case h_2 => cases h
  mpr h := by
    rw [toUtc, ← h]
    exact ofInstant?_instant c

theorem toUtc_eq_none_iff {d : DateTime} {o : ℤ} :
    d.toUtc o = none ↔ ¬Civil.InCalendar (d.civil.instant - o) := by
  rw [← Civil.exists_instant_iff, Option.eq_none_iff_forall_ne_some, not_exists]
  exact forall_congr' fun _ => toUtc_eq_some_iff.not

-- The instant that a time denotes when its offset is known.
def Denotes (d : DateTime) (instant : ℤ) : Prop :=
  ∃ o ∈ d.offset, instant = d.civil.instant - o

def utc (c : Civil) : DateTime where
  civil := c
  offset := some 0
  offset_bounds _ h := by cases h; decide

@[simp]
theorem toUtc_utc (c : Civil) : (utc c).toUtc 0 = some c :=
  toUtc_eq_some_iff.mpr (Int.sub_zero _).symm

theorem denotes_utc (c : Civil) : (utc c).Denotes c.instant :=
  ⟨0, rfl, (Int.sub_zero _).symm⟩

end DateTime
