import Mathlib.Algebra.BigOperators.Group.List.Basic
import Mathlib.Order.Monotone.Basic
import Mathlib.Order.Nat
import Mathlib.Tactic.IntervalCases

/-!
# Dates and digits

The proleptic Gregorian calendar as `datetime` counts it, and the digits that regular
expressions and `int` accept.
-/

namespace FastTAK.Calendar

/-! ## Dates -/

def isLeap (year : ℕ) : Bool := year % 4 = 0 && (year % 100 ≠ 0 || year % 400 = 0)

def daysInMonth (year month : ℕ) : ℕ :=
  if month = 2 then (if isLeap year then 29 else 28)
  else if month ∈ [4, 6, 9, 11] then 30
  else 31

/-- The components of a date and time of day. -/
structure Stamp where
  year : ℕ
  month : ℕ
  day : ℕ
  hour : ℕ
  minute : ℕ
  second : ℕ
deriving DecidableEq

/-- The components that `datetime` accepts. -/
structure Stamp.Valid (s : Stamp) : Prop where
  year : 1 ≤ s.year ∧ s.year ≤ 9999
  month : 1 ≤ s.month ∧ s.month ≤ 12
  day : 1 ≤ s.day ∧ s.day ≤ daysInMonth s.year s.month
  hour : s.hour ≤ 23
  minute : s.minute ≤ 59
  second : s.second ≤ 59

theorem Stamp.valid_iff (s : Stamp) : s.Valid ↔
    (1 ≤ s.year ∧ s.year ≤ 9999) ∧ (1 ≤ s.month ∧ s.month ≤ 12) ∧
      (1 ≤ s.day ∧ s.day ≤ daysInMonth s.year s.month) ∧ s.hour ≤ 23 ∧ s.minute ≤ 59 ∧
      s.second ≤ 59 := by
  constructor
  · intro hvalid
    exact ⟨hvalid.year, hvalid.month, hvalid.day, hvalid.hour, hvalid.minute, hvalid.second⟩
  · intro hall
    exact ⟨hall.1, hall.2.1, hall.2.2.1, hall.2.2.2.1, hall.2.2.2.2.1, hall.2.2.2.2.2⟩

instance (s : Stamp) : Decidable s.Valid := decidable_of_iff _ s.valid_iff.symm

theorem daysInMonth_le (year month : ℕ) : daysInMonth year month ≤ 31 := by
  unfold daysInMonth
  split_ifs <;> decide

/-- A point in time to the second. -/
structure DateTime extends Stamp where
  valid : toStamp.Valid
deriving DecidableEq

/-- The components, read as the digits of one number. -/
def DateTime.key (t : DateTime) : ℕ :=
  ((((t.year * 100 + t.month) * 100 + t.day) * 100 + t.hour) * 100 + t.minute) * 100
    + t.second

theorem DateTime.key_injective : Function.Injective DateTime.key := by
  intro first second hkey
  have hbounds : ∀ t : DateTime, t.month < 100 ∧ t.day < 100 ∧ t.hour < 100 ∧
      t.minute < 100 ∧ t.second < 100 := by
    intro t
    have hmonth := t.valid.month.2
    have hday := t.valid.day.2.trans (daysInMonth_le _ _)
    have hhour := t.valid.hour
    have hminute := t.valid.minute
    have hsecond := t.valid.second
    omega
  have hfirst := hbounds first
  have hlast := hbounds second
  obtain ⟨⟨_, _, _, _, _, _⟩, _⟩ := first
  obtain ⟨⟨_, _, _, _, _, _⟩, _⟩ := second
  simp only [DateTime.key] at hkey hfirst hlast
  simp only [DateTime.mk.injEq, Stamp.mk.injEq]
  omega

/-- Earlier times are smaller. -/
instance : LinearOrder DateTime := LinearOrder.lift' DateTime.key DateTime.key_injective

def daysBeforeYear (year : ℕ) : ℕ :=
  let y := year - 1
  y * 365 + y / 4 - y / 100 + y / 400

def daysBeforeMonth (year month : ℕ) : ℕ :=
  ((List.range (month - 1)).map (fun m => daysInMonth year (m + 1))).sum

/-- Seconds since the first day that `datetime` knows. -/
def DateTime.seconds (t : DateTime) : ℕ :=
  ((daysBeforeYear t.year + daysBeforeMonth t.year t.month + t.day) * 24 + t.hour)
    * 3600 + t.minute * 60 + t.second

/-! ## The order of times -/

def daysInYear (year : ℕ) : ℕ := if isLeap year then 366 else 365

theorem daysBeforeYear_succ {year : ℕ} (hyear : 1 ≤ year) :
    daysBeforeYear (year + 1) = daysBeforeYear year + daysInYear year := by
  obtain ⟨y, rfl⟩ : ∃ y, year = y + 1 := ⟨year - 1, by omega⟩
  simp only [daysBeforeYear, daysInYear, isLeap, Nat.add_sub_cancel]
  have h4 : (y + 1) / 4 = y / 4 + if (y + 1) % 4 = 0 then 1 else 0 := by split_ifs <;> omega
  have h100 : (y + 1) / 100 = y / 100 + if (y + 1) % 100 = 0 then 1 else 0 := by
    split_ifs <;> omega
  have h400 : (y + 1) / 400 = y / 400 + if (y + 1) % 400 = 0 then 1 else 0 := by
    split_ifs <;> omega
  rw [h4, h100, h400]
  by_cases hfour : (y + 1) % 4 = 0 <;> by_cases hcentury : (y + 1) % 100 = 0 <;>
    by_cases hera : (y + 1) % 400 = 0 <;> simp [hfour, hcentury, hera] <;> omega

theorem daysBeforeYear_mono : Monotone daysBeforeYear := by
  apply monotone_nat_of_le_succ
  intro year
  cases year with
  | zero => decide
  | succ year =>
      rw [daysBeforeYear_succ (Nat.succ_pos year)]
      exact Nat.le_add_right _ _

theorem daysBeforeMonth_succ (year : ℕ) {month : ℕ} (hmonth : 1 ≤ month) :
    daysBeforeMonth year (month + 1) = daysBeforeMonth year month + daysInMonth year month := by
  obtain ⟨m, rfl⟩ : ∃ m, month = m + 1 := ⟨month - 1, by omega⟩
  rw [daysBeforeMonth, daysBeforeMonth, Nat.add_sub_cancel, Nat.add_sub_cancel,
    List.range_succ, List.map_append, List.sum_append, List.map_singleton, List.sum_singleton]

theorem daysBeforeMonth_mono (year : ℕ) : Monotone (daysBeforeMonth year) := by
  apply monotone_nat_of_le_succ
  intro month
  cases month with
  | zero => exact le_rfl
  | succ month =>
      rw [daysBeforeMonth_succ year (Nat.succ_pos month)]
      exact Nat.le_add_right _ _

theorem daysBeforeMonth_thirteen (year : ℕ) : daysBeforeMonth year 13 = daysInYear year := by
  simp [daysBeforeMonth, daysInYear, daysInMonth, List.range_succ]
  split_ifs <;> rfl

/-- The days of its year up to a date. -/
theorem daysBeforeMonth_add_day_le (t : DateTime) (month : ℕ) (hmonth : t.month < month) :
    daysBeforeMonth t.year t.month + t.day ≤ daysBeforeMonth t.year month := by
  have hnext := daysBeforeMonth_mono t.year hmonth
  have hday := t.valid.day.2
  rw [Nat.succ_eq_add_one, daysBeforeMonth_succ t.year t.valid.month.1] at hnext
  omega

theorem DateTime.seconds_lt_seconds {s t : DateTime} (h : s < t) : s.seconds < t.seconds := by
  have hkey : s.key < t.key := h
  have hs := s.valid
  have ht := t.valid
  have hsDay := hs.day.2.trans (daysInMonth_le _ _)
  have htDay := ht.day.2.trans (daysInMonth_le _ _)
  obtain ⟨-, hsMonth, hsDay', hsHour, hsMinute, hsSecond⟩ := hs
  obtain ⟨-, htMonth, htDay', htHour, htMinute, htSecond⟩ := ht
  simp only [DateTime.key] at hkey
  simp only [DateTime.seconds]
  by_cases hyear : s.year < t.year
  · have hwhole := daysBeforeMonth_add_day_le s 13 (by omega)
    have hyears := daysBeforeYear_mono hyear
    rw [daysBeforeMonth_thirteen] at hwhole
    rw [Nat.succ_eq_add_one, daysBeforeYear_succ s.valid.year.1] at hyears
    omega
  · have hsame : s.year = t.year := by omega
    by_cases hmonth : s.month < t.month
    · have hmonths := daysBeforeMonth_add_day_le s t.month hmonth
      rw [hsame] at hmonths ⊢
      omega
    · have hsameMonth : s.month = t.month := by omega
      rw [hsame, hsameMonth]
      omega

theorem DateTime.seconds_lt_iff {s t : DateTime} : s.seconds < t.seconds ↔ s < t := by
  constructor
  · intro h
    by_contra hle
    rcases (not_lt.mp hle).eq_or_lt with heq | hlt
    · rw [heq] at h
      exact lt_irrefl _ h
    · exact lt_asymm h (DateTime.seconds_lt_seconds hlt)
  · exact DateTime.seconds_lt_seconds

/-- A date and time, if the calendar has it. -/
def DateTime.ofStamp (s : Stamp) : Option DateTime :=
  if h : s.Valid then some ⟨s, h⟩ else none

@[simp]
theorem DateTime.ofStamp_toStamp (t : DateTime) : DateTime.ofStamp t.toStamp = some t :=
  dif_pos t.valid

/-! ## Digits -/

/-- The zeros of the decimal digits of Unicode.  Each starts a block of ten, except the
mathematical digits, which are five blocks in a row. -/
def digitZeros : List ℕ :=
  [0x30, 0x660, 0x6f0, 0x7c0, 0x966, 0x9e6, 0xa66, 0xae6, 0xb66, 0xbe6, 0xc66, 0xce6, 0xd66,
    0xde6, 0xe50, 0xed0, 0xf20, 0x1040, 0x1090, 0x17e0, 0x1810, 0x1946, 0x19d0, 0x1a80,
    0x1a90, 0x1b50, 0x1bb0, 0x1c40, 0x1c50, 0xa620, 0xa8d0, 0xa900, 0xa9d0, 0xa9f0, 0xaa50,
    0xabf0, 0xff10, 0x104a0, 0x10d30, 0x11066, 0x110f0, 0x11136, 0x111d0, 0x112f0, 0x11450,
    0x114d0, 0x11650, 0x116c0, 0x11730, 0x118e0, 0x11950, 0x11c50, 0x11d50, 0x11da0,
    0x11f50, 0x16a60, 0x16ac0, 0x16b50, 0x1d7ce, 0x1d7d8, 0x1d7e2, 0x1d7ec, 0x1d7f6,
    0x1e140, 0x1e2f0, 0x1e4d0, 0x1e950, 0x1fbf0]

/-- The value of a character that `\d` matches. -/
def digit (c : Char) : Option ℕ :=
  (digitZeros.find? (fun first => first ≤ c.toNat && c.toNat < first + 10)).map (c.toNat - ·)

/-- The value of a character that `[0-9]` matches. -/
def asciiDigit (c : Char) : Option ℕ :=
  if 0x30 ≤ c.toNat && c.toNat < 0x3a then some (c.toNat - 0x30) else none

/-- The digit character of a value below ten. -/
def digitChar (n : ℕ) : Char := Char.ofNat (0x30 + n)

theorem asciiDigit_digitChar {n : ℕ} (hn : n < 10) : asciiDigit (digitChar n) = some n := by
  interval_cases n <;> rfl

theorem digit_digitChar {n : ℕ} (hn : n < 10) : digit (digitChar n) = some n := by
  interval_cases n <;> rfl

end FastTAK.Calendar
