import FilterBar.Text.Blank
import FilterBar.Text.Decimal
import FilterBar.Text.Split
import FilterBar.Time.Instant

/-!
# Reading instants

Two grammars for a date, a clock reading and an offset.  URL parameters follow the strict one: every
number has its full width and nothing stands between the parts.  Stored presets and requests follow
the relaxed one: blanks may stand before a number, a hyphen, a colon and the offset and at the end,
numbers may be short, and a signed year may have any number of digits.
-/

namespace FilterBar.Instant

open Text

/-- The letter or space between a date and a clock reading. -/
def isSeparator (c : Char) : Bool :=
  c == 'T' || c == 't' || c == ' '

/-- What follows the separator between a date and a clock reading. -/
def afterSeparator? : List Char → Option (List Char)
  | [] => none
  | c :: rest => if isSeparator c then some rest else none

/-- The nanoseconds that the digits of a fraction spell; those past the ninth do not count. -/
def nanosOfDigits (digits : List Char) : Nat :=
  ofDigits (digits.take 9) * Nat.pow 10 (9 - digits.length)

/-- Reads the fraction of a second, if a point follows: at least one digit. -/
def readFraction? : List Char → Option (Nat × List Char)
  | '.' :: rest =>
    let digits := rest.takeWhile Char.isDigit
    if digits.isEmpty then none else some (nanosOfDigits digits, rest.dropWhile Char.isDigit)
  | s => some (0, s)

/-- The sign in front of an offset; U+2212 is a minus as well. -/
def offsetSign? (c : Char) : Option Int :=
  if c = '+' then some 1
  else if c = '-' ∨ c = '\u2212' then some (-1)
  else none

/-- Reads an offset from UTC in minutes: the letter Z, or a sign and two numbers of two digits, with
between them what `skip` passes over. -/
def readOffset? (skip : List Char → Option (List Char)) : List Char → Option (Int × List Char)
  | [] => none
  | c :: rest =>
    if c = 'Z' ∨ c = 'z' then some (0, rest)
    else do
      let sign ← offsetSign? c
      let (hours, rest) ← readNumber? 2 2 rest
      let rest ← skip rest
      let (minutes, rest) ← readNumber? 2 2 rest
      if hours < 24 ∧ minutes < 60 then some (sign * (60 * hours + minutes : Nat), rest) else none

/-- Reads an instant that a URL parameter holds. -/
def parse? (raw : String) : Option Instant := do
  let (year, s) ← readNumber? 4 4 raw.toList
  let (month, s) ← readNumber? 2 2 (← after? '-' s)
  let (day, s) ← readNumber? 2 2 (← after? '-' s)
  let (hour, s) ← readNumber? 2 2 (← afterSeparator? s)
  let (minute, s) ← readNumber? 2 2 (← after? ':' s)
  let (second, s) ← readNumber? 2 2 (← after? ':' s)
  let (nano, s) ← readFraction? s
  let (offset, s) ← readOffset? (after? ':') s
  if s.isEmpty then
    ofLocal? (← Date.of? year month day) (← Clock.of? hour minute second nano) offset
  else none

/-- Reads a year behind blanks: up to four digits, or a sign and any number of them. -/
def readYear? (s : List Char) : Option (Int × List Char) :=
  match trimStart s with
  | '-' :: rest => (readNumber? 1 rest.length rest).map fun (n, rest) => (-(n : Int), rest)
  | '+' :: rest => (readNumber? 1 rest.length rest).map fun (n, rest) => ((n : Int), rest)
  | s => (readNumber? 1 4 s).map fun (n, rest) => ((n : Int), rest)

/-- Reads a number of one or two digits behind blanks. -/
def readShort? (s : List Char) : Option (Nat × List Char) :=
  readNumber? 1 2 (trimStart s)

/-- Passes over colons and blanks. -/
def skipColons (s : List Char) : List Char :=
  s.dropWhile fun c => c == ':' || isBlank c

/-- Reads an offset behind blanks, the letters UTC of any case included. -/
def readZone? (s : List Char) : Option (Int × List Char) :=
  let s := trimStart s
  if (s.take 3).map Char.toUpper = ['U', 'T', 'C'] then some (0, s.drop 3)
  else readOffset? (some ∘ skipColons) s

/-- Reads an instant of a stored preset or a request. -/
def parseRelaxed? (raw : String) : Option Instant := do
  let (year, s) ← readYear? raw.toList
  let (month, s) ← readShort? (← after? '-' (trimStart s))
  let (day, s) ← readShort? (← after? '-' (trimStart s))
  let (hour, s) ← readShort? (← afterSeparator? s)
  let (minute, s) ← readShort? (← after? ':' (trimStart s))
  let (second, s) ← readShort? (← after? ':' (trimStart s))
  let (nano, s) ← readFraction? s
  let (offset, s) ← readZone? s
  if (trimStart s).isEmpty then
    ofLocal? (← Date.of? year month day) (← Clock.of? hour minute second nano) offset
  else none

end FilterBar.Instant
