/-!
# JSON values

Values of JSON as they are written: objects keep the order of their members and members of one name.
A string may hold an escape for half of a surrogate pair, and then stands for no text.
-/

namespace FilterBar

/-- A number: a significand times a power of ten, with a sign. -/
structure Numeral where
  negative : Bool
  significand : Nat
  exponent : Int
  deriving DecidableEq, Repr

namespace Numeral

def ofNat (n : Nat) : Numeral :=
  ⟨false, n, 0⟩

/-- The natural number that a numeral is written as, if it is written so. -/
def toNat? (n : Numeral) : Option Nat :=
  if !n.negative && n.exponent == 0 then some n.significand else none

/-- The least number that rounds to no finite double: half a unit above the greatest of them. -/
def doubleLimit : Nat :=
  Nat.pow 2 1024 - Nat.pow 2 970

/-- Whether the number rounds to a finite double.  Beyond the 400th power of ten, on either side,
the digits need not be compared. -/
def isDouble (n : Numeral) : Bool :=
  let size := (Nat.toDigits 10 n.significand).length + n.exponent
  if n.significand = 0 ∨ size < -400 then true
  else if 400 < size then false
  else if 0 ≤ n.exponent then n.significand * Nat.pow 10 n.exponent.toNat < doubleLimit
  else n.significand < doubleLimit * Nat.pow 10 (-n.exponent).toNat

end Numeral

inductive Json where
  | null
  | bool (value : Bool)
  | number (value : Numeral)
  /-- A string; `none` if it stands for no text. -/
  | text (value : Option String)
  | array (items : List Json)
  | object (members : List (Option String × Json))
  deriving Repr

namespace Json

def ofString (s : String) : Json :=
  text (some s)

def ofStrings (values : List String) : Json :=
  array (values.map ofString)

def ofNat (n : Nat) : Json :=
  number (.ofNat n)

def ofFields (fields : List (String × Json)) : Json :=
  object (fields.map fun (name, value) => (some name, value))

def string? : Json → Option String
  | text value => value
  | _ => none

def items? : Json → Option (List Json)
  | array items => some items
  | _ => none

mutual

def depth : Json → Nat
  | array items => depthOfItems items + 1
  | object members => depthOfMembers members + 1
  | _ => 0

def depthOfItems : List Json → Nat
  | [] => 0
  | v :: rest => max v.depth (depthOfItems rest)

def depthOfMembers : List (Option String × Json) → Nat
  | [] => 0
  | (_, v) :: rest => max v.depth (depthOfMembers rest)

end

mutual

/-- Every string in the value stands for a text and every number rounds to a finite double. -/
def isSound : Json → Bool
  | number n => n.isDouble
  | text value => value.isSome
  | array items => areItemsSound items
  | object members => areMembersSound members
  | _ => true

def areItemsSound : List Json → Bool
  | [] => true
  | v :: rest => v.isSound && areItemsSound rest

def areMembersSound : List (Option String × Json) → Bool
  | [] => true
  | (name, v) :: rest => name.isSome && v.isSound && areMembersSound rest

end

/-- The value of the member with a name, the first one if there are several. -/
def member? (members : List (Option String × Json)) (name : String) : Option Json :=
  (members.find? (·.1 = some name)).map (·.2)

/-- The members can be read as fields with the given names: all of their own names are texts, and
none of the given ones occurs twice.  Members with other names are not looked at. -/
def areFields (names : List String) (members : List (Option String × Json)) : Bool :=
  members.all (·.1.isSome) &&
    names.all fun name => (members.filter (·.1 = some name)).length ≤ 1

/-- The fields of a record with the given names, each with its value if it has one: the members of
an object, or the items of an array that has one for each name. -/
def fields? (names : List String) : Json → Option (List (Option Json))
  | object members => if areFields names members then some (names.map (member? members)) else none
  | array items => if items.length = names.length then some (items.map some) else none
  | _ => none

end Json

end FilterBar
