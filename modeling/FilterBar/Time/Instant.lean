import FilterBar.Time.Date

/-!
# Instants

A point of time in UTC, to the nanosecond.  A leap second is the second 60 of its minute, which any
minute may have.  A clock reading at an offset from UTC becomes an instant by moving its minute, and
with it perhaps the day.
-/

namespace FilterBar

/-- A reading of a clock; the second 60 is a leap second. -/
structure Clock where
  hour : Nat
  minute : Nat
  second : Nat
  nano : Nat
  hour_lt : hour < 24
  minute_lt : minute < 60
  second_le : second ≤ 60
  nano_lt : nano < 1000000000
  deriving DecidableEq

/-- A date and a clock reading, both in UTC. -/
structure Instant where
  date : Date
  clock : Clock
  deriving DecidableEq

namespace Clock

/-- The reading with the given numbers, if a clock can show it. -/
def of? (hour minute second nano : Nat) : Option Clock :=
  if h : hour < 24 ∧ minute < 60 ∧ second ≤ 60 ∧ nano < 1000000000 then
    some ⟨hour, minute, second, nano, h.1, h.2.1, h.2.2.1, h.2.2.2⟩
  else none

/-- The minute of the day. -/
def minuteOfDay (c : Clock) : Nat :=
  60 * c.hour + c.minute

/-- The same reading at another minute of the day. -/
def atMinute? (c : Clock) (minute : Nat) : Option Clock :=
  of? (minute / 60) (minute % 60) c.second c.nano

/-- Hour, minute and second, two digits each, with a colon between each two. -/
def text (c : Clock) : List Char :=
  Text.paddedDigits 2 c.hour ++ ':' :: Text.paddedDigits 2 c.minute ++
    ':' :: Text.paddedDigits 2 c.second

/-- The fraction of the second with its point, in the fewest of no, three, six or nine digits that
lose nothing. -/
def fractionText (c : Clock) : List Char :=
  if c.nano = 0 then []
  else if c.nano % 1000000 = 0 then '.' :: Text.paddedDigits 3 (c.nano / 1000000)
  else if c.nano % 1000 = 0 then '.' :: Text.paddedDigits 6 (c.nano / 1000)
  else '.' :: Text.paddedDigits 9 c.nano

/-- The whole milliseconds of the fraction, in three digits behind a point. -/
def millisText (c : Clock) : List Char :=
  '.' :: Text.paddedDigits 3 (c.nano / 1000000)

end Clock

namespace Instant

/-- The instant at which a clock that is `offset` minutes ahead of UTC gives a date and a reading;
offsets are shorter than a day. -/
def ofLocal? (date : Date) (clock : Clock) (offset : Int) : Option Instant := do
  let minute := (clock.minuteOfDay : Int) - offset
  let date ←
    if minute < 0 then date.previous?
    else if 1440 ≤ minute then date.next?
    else some date
  let clock ← clock.atMinute? (minute % 1440).toNat
  some ⟨date, clock⟩

/-- The text of an instant in stored presets: no digit of the fraction is lost, and none is
written without need. -/
def text (t : Instant) : List Char :=
  t.date.text ++ 'T' :: t.clock.text ++ t.clock.fractionText ++ ['Z']

/-- The text of an instant in a URL: the fraction always has three digits, the rest is cut off. -/
def millisText (t : Instant) : List Char :=
  t.date.text ++ 'T' :: t.clock.text ++ t.clock.millisText ++ ['Z']

end Instant

end FilterBar
