import FilterBar.Json.Basic
import FilterBar.Text.Decimal
import FilterBar.Text.Split

/-!
# JSON tokens

The tokens of JSON text: punctuation, the three words, numbers and strings.  Between tokens there
may be spaces, tabs, line feeds and carriage returns.
-/

namespace FilterBar.Json

open Text

inductive Token where
  | openArray
  | closeArray
  | openObject
  | closeObject
  | comma
  | colon
  | null
  | bool (value : Bool)
  | number (value : Numeral)
  | text (value : Option String)
  deriving DecidableEq, Repr

/-- What a string consists of: characters, and 16-bit units that are given by number. -/
inductive TextUnit where
  | char (c : Char)
  | numbered (n : Nat)
  deriving DecidableEq, Repr

def hexValue? (c : Char) : Option Nat :=
  if '0' ≤ c ∧ c ≤ '9' then some (c.toNat - 0x30)
  else if 'A' ≤ c ∧ c ≤ 'F' then some (c.toNat - 0x37)
  else if 'a' ≤ c ∧ c ≤ 'f' then some (c.toNat - 0x57)
  else none

def hexNumber? (a b c d : Char) : Option Nat := do
  let a ← hexValue? a
  let b ← hexValue? b
  let c ← hexValue? c
  let d ← hexValue? d
  some (((a * 16 + b) * 16 + c) * 16 + d)

def shortEscape? (c : Char) : Option Char :=
  if c = '"' then some '"'
  else if c = '\\' then some '\\'
  else if c = '/' then some '/'
  else if c = 'b' then some '\x08'
  else if c = 'f' then some '\x0c'
  else if c = 'n' then some '\n'
  else if c = 'r' then some '\r'
  else if c = 't' then some '\t'
  else none

def consUnit (u : TextUnit) (read : List TextUnit × List Char) : List TextUnit × List Char :=
  (u :: read.1, read.2)

/-- Reads a string behind its opening quote; control characters have to be escaped. -/
def readUnits? : List Char → Option (List TextUnit × List Char)
  | '\\' :: 'u' :: a :: b :: c :: d :: rest => do
    let n ← hexNumber? a b c d
    (readUnits? rest).map (consUnit (.numbered n))
  | '\\' :: c :: rest => do
    let c ← shortEscape? c
    (readUnits? rest).map (consUnit (.char c))
  | c :: rest =>
    if c = '"' then some ([], rest)
    else if c = '\\' ∨ c.toNat < 0x20 then none
    else (readUnits? rest).map (consUnit (.char c))
  | [] => none

def isHighSurrogate (n : Nat) : Bool :=
  0xD800 ≤ n && n < 0xDC00

def isLowSurrogate (n : Nat) : Bool :=
  0xDC00 ≤ n && n < 0xE000

/-- The text of a string, unless half of a surrogate pair stands alone in it. -/
def assemble? : List TextUnit → Option (List Char)
  | [] => some []
  | .char c :: rest => (assemble? rest).map (c :: ·)
  | .numbered high :: .numbered low :: rest =>
    if isHighSurrogate high then
      if isLowSurrogate low then
        (assemble? rest).map (Char.ofNat (0x10000 + (high - 0xD800) * 0x400 + (low - 0xDC00)) :: ·)
      else none
    else if isLowSurrogate high then none
    else (assemble? (.numbered low :: rest)).map (Char.ofNat high :: ·)
  | .numbered n :: rest =>
    if isHighSurrogate n || isLowSurrogate n then none
    else (assemble? rest).map (Char.ofNat n :: ·)

/-- Reads the digits of a whole number; only zero itself starts with a zero. -/
def readWhole? (s : List Char) : Option (List Char × List Char) :=
  match s with
  | [] => none
  | c :: rest =>
    if c = '0' then some (['0'], rest)
    else
      let digits := s.takeWhile Char.isDigit
      if digits.isEmpty then none else some (digits, s.dropWhile Char.isDigit)

def readDecimals? : List Char → Option (List Char × List Char)
  | '.' :: rest =>
    let digits := rest.takeWhile Char.isDigit
    if digits.isEmpty then none else some (digits, rest.dropWhile Char.isDigit)
  | s => some ([], s)

/-- Reads the sign of an exponent, if there is one; true is a minus. -/
def readSign : List Char → Bool × List Char
  | '-' :: rest => (true, rest)
  | '+' :: rest => (false, rest)
  | s => (false, s)

def readExponent? (s : List Char) : Option (Int × List Char) :=
  match s with
  | [] => some (0, s)
  | c :: rest =>
    if c = 'e' ∨ c = 'E' then
      let (negative, rest) := readSign rest
      let digits := rest.takeWhile Char.isDigit
      let size : Int := ofDigits digits
      if digits.isEmpty then none
      else some (if negative then -size else size, rest.dropWhile Char.isDigit)
    else some (0, s)

def readNumeral? (negative : Bool) (s : List Char) : Option (Numeral × List Char) := do
  let (whole, s) ← readWhole? s
  let (decimals, s) ← readDecimals? s
  let (exponent, s) ← readExponent? s
  some (⟨negative, ofDigits (whole ++ decimals), exponent - decimals.length⟩, s)

def readWord? (word : String) (token : Token) (s : List Char) : Option (Token × List Char) :=
  (word.toList.isPrefixOf? s).map fun rest => (token, rest)

/-- Reads the token that starts with a character. -/
def readToken? (c : Char) (rest : List Char) : Option (Token × List Char) :=
  if c = '[' then some (.openArray, rest)
  else if c = ']' then some (.closeArray, rest)
  else if c = '\x7b' then some (.openObject, rest)
  else if c = '\x7d' then some (.closeObject, rest)
  else if c = ',' then some (.comma, rest)
  else if c = ':' then some (.colon, rest)
  else if c = '"' then
    (readUnits? rest).map fun (units, rest) => (.text ((assemble? units).map String.ofList), rest)
  else if c = 'n' then readWord? "ull" .null rest
  else if c = 't' then readWord? "rue" (.bool true) rest
  else if c = 'f' then readWord? "alse" (.bool false) rest
  else if c = '-' then (readNumeral? true rest).map fun (n, rest) => (.number n, rest)
  else (readNumeral? false (c :: rest)).map fun (n, rest) => (.number n, rest)

def isGap (c : Char) : Bool :=
  c == ' ' || c == '\t' || c == '\n' || c == '\r'

/-- Reads at most `limit` tokens and gaps. -/
def readTokens? : Nat → List Char → Option (List Token)
  | _, [] => some []
  | 0, _ :: _ => none
  | limit + 1, c :: rest =>
    if isGap c then readTokens? limit rest
    else do
      let (token, rest) ← readToken? c rest
      (readTokens? limit rest).map (token :: ·)

/-- The tokens of a text.  Each token and each gap has a character, so the length of the text is
limit enough. -/
def tokens? (s : List Char) : Option (List Token) :=
  readTokens? s.length s

end FilterBar.Json
