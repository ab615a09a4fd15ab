import FilterBar.Text.PercentEscape

/-!
# Form encoding

The way names and values are written inside a query string: a space as `+`, letters, digits and
`*-._` as they are, every other byte of the UTF-8 form as an escape with upper-case digits.  Reading
accepts escapes of either case, keeps what is no escape, and puts U+FFFD for invalid bytes.
-/

namespace FilterBar.Text.Form

/-- The bytes that are written as they are. -/
def isPlain (b : UInt8) : Bool :=
  (0x30 ≤ b && b ≤ 0x39) || (0x41 ≤ b && b ≤ 0x5A) || (0x61 ≤ b && b ≤ 0x7A) ||
    b == 0x2A || b == 0x2D || b == 0x2E || b == 0x5F

def hexDigit (n : Nat) : Char :=
  Char.ofNat (if n < 10 then 0x30 + n else 0x37 + n)

def encodeByte (b : UInt8) : List Char :=
  if b = 0x20 then ['+']
  else if isPlain b then [Char.ofNat b.toNat]
  else ['%', hexDigit (b.toNat / 16), hexDigit (b.toNat % 16)]

def encode (s : String) : List Char :=
  (Utf8.encode s.toList).flatMap encodeByte

/-- The name or value that a written form stands for. -/
def decode (written : List Char) : String :=
  let spaced := (Utf8.encode written).map fun b => if b = 0x2B then 0x20 else b
  String.ofList (Utf8.decodeLossy (unescapeBytes spaced))

end FilterBar.Text.Form
