/-!
# UTF-8

Characters as bytes and back.  Reading runs a machine over the bytes, which between two characters
is at its start and inside one knows how many continuation bytes are still owed and in which range
the next one lies.  It answers one piece for each character and one for each maximal sequence of
bytes that begins no character.
-/

namespace FilterBar.Text.Utf8

def encodeChar (c : Char) : List UInt8 :=
  let n := c.toNat
  if n < 0x80 then
    [UInt8.ofNat n]
  else if n < 0x800 then
    [UInt8.ofNat (0xC0 + n / 0x40), UInt8.ofNat (0x80 + n % 0x40)]
  else if n < 0x10000 then
    [UInt8.ofNat (0xE0 + n / 0x1000), UInt8.ofNat (0x80 + n / 0x40 % 0x40),
      UInt8.ofNat (0x80 + n % 0x40)]
  else
    [UInt8.ofNat (0xF0 + n / 0x40000), UInt8.ofNat (0x80 + n / 0x1000 % 0x40),
      UInt8.ofNat (0x80 + n / 0x40 % 0x40), UInt8.ofNat (0x80 + n % 0x40)]

def encode (s : List Char) : List UInt8 :=
  s.flatMap encodeChar

/-- Where the reader stands between two bytes. -/
inductive State where
  | start
  /-- Inside a character: `owed + 1` bytes are to come, the next from `low` to `high`, and `value`
  holds the bits read so far. -/
  | inside (owed low high value : Nat)
  deriving DecidableEq, Repr

/-- What a byte does to a reader that is at its start: the next state, and the piece that the byte
completes, a character or `none` for a byte that begins no character. -/
def first (b : Nat) : State × List (Option Char) :=
  if b < 0x80 then (.start, [some (Char.ofNat b)])
  else if b < 0xC2 then (.start, [none])
  else if b < 0xE0 then (.inside 0 0x80 0xBF (b - 0xC0), [])
  else if b = 0xE0 then (.inside 1 0xA0 0xBF 0, [])
  else if b = 0xED then (.inside 1 0x80 0x9F 0x0D, [])
  else if b < 0xF0 then (.inside 1 0x80 0xBF (b - 0xE0), [])
  else if b = 0xF0 then (.inside 2 0x90 0xBF 0, [])
  else if b < 0xF4 then (.inside 2 0x80 0xBF (b - 0xF0), [])
  else if b = 0xF4 then (.inside 2 0x80 0x8F 0x04, [])
  else (.start, [none])

/-- What a byte does to a reader.  A byte that cannot continue the character under way ends it as
an invalid piece and is then read from the start. -/
def step : State → Nat → State × List (Option Char)
  | .start, b => first b
  | .inside owed low high value, b =>
    if low ≤ b ∧ b ≤ high then
      let value := value * 0x40 + (b - 0x80)
      match owed with
      | 0 => (.start, [some (Char.ofNat value)])
      | owed + 1 => (.inside owed 0x80 0xBF value, [])
    else
      let (next, pieces) := first b
      (next, none :: pieces)

/-- The pieces of a byte sequence that a reader in the given state comes upon. -/
def pieces : State → List UInt8 → List (Option Char)
  | .start, [] => []
  | .inside .., [] => [none]
  | state, b :: rest =>
    let (next, done) := step state b.toNat
    done ++ pieces next rest

/-- The text that the bytes spell, if all of them are part of a character. -/
def decode? (bytes : List UInt8) : Option (List Char) :=
  (pieces .start bytes).mapM id

/-- The text that the bytes spell, with U+FFFD for each piece that is no character. -/
def decodeLossy (bytes : List UInt8) : List Char :=
  (pieces .start bytes).map (·.getD '\uFFFD')

end FilterBar.Text.Utf8
