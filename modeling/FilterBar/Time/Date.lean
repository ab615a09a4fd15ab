import FilterBar.Text.Decimal

/-!
# Dates

Days of the proleptic Gregorian calendar in the years -262143 to 262142, with the day before and
the day after.
-/

namespace FilterBar

namespace Date

/-- The first year that has dates. -/
def firstYear : Int := -262143

/-- The last year that has dates. -/
def lastYear : Int := 262142

/-- Whether a year has a twenty-ninth of February. -/
def isLeapYear (year : Int) : Bool :=
  year % 4 = 0 && (year % 100 ≠ 0 || year % 400 = 0)

/-- The number of days of a month; there are twelve. -/
def daysInMonth (year : Int) (month : Nat) : Nat :=
  if month = 2 then (if isLeapYear year then 29 else 28)
  else if month = 4 ∨ month = 6 ∨ month = 9 ∨ month = 11 then 30
  else 31

/-- The numbers name a day of the calendar. -/
def IsDay (year : Int) (month day : Nat) : Prop :=
  (firstYear ≤ year ∧ year ≤ lastYear) ∧ (1 ≤ month ∧ month ≤ 12) ∧
    (1 ≤ day ∧ day ≤ daysInMonth year month)

instance (year : Int) (month day : Nat) : Decidable (IsDay year month day) :=
  inferInstanceAs (Decidable (_ ∧ _ ∧ _))

end Date

/-- A day of the calendar. -/
structure Date where
  year : Int
  month : Nat
  day : Nat
  isDay : Date.IsDay year month day
  deriving DecidableEq

namespace Date

/-- The date with the given numbers, if there is such a day. -/
def of? (year : Int) (month day : Nat) : Option Date :=
  if h : IsDay year month day then some ⟨year, month, day, h⟩ else none

/-- The day after. -/
def next? (d : Date) : Option Date :=
  if d.day < daysInMonth d.year d.month then of? d.year d.month (d.day + 1)
  else if d.month < 12 then of? d.year (d.month + 1) 1
  else of? (d.year + 1) 1 1

/-- The day before. -/
def previous? (d : Date) : Option Date :=
  if 1 < d.day then of? d.year d.month (d.day - 1)
  else if 1 < d.month then of? d.year (d.month - 1) (daysInMonth d.year (d.month - 1))
  else of? (d.year - 1) 12 31

/-- The year has the four digits that a date in a URL can carry. -/
def HasFourDigitYear (d : Date) : Prop :=
  0 ≤ d.year ∧ d.year ≤ 9999

instance (d : Date) : Decidable d.HasFourDigitYear :=
  inferInstanceAs (Decidable (_ ∧ _))

/-- A year as text: four digits for the years 0 to 9999, and for the others a sign and at least
four digits. -/
def yearText (year : Int) : List Char :=
  if 0 ≤ year ∧ year ≤ 9999 then Text.paddedDigits 4 year.toNat
  else (if year < 0 then '-' else '+') :: Text.paddedDigits 4 year.natAbs

/-- A date as text: year, month and day with a hyphen between each two. -/
def text (d : Date) : List Char :=
  yearText d.year ++ '-' :: Text.paddedDigits 2 d.month ++ '-' :: Text.paddedDigits 2 d.day

end Date

end FilterBar
