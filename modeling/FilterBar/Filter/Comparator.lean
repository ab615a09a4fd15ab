/-!
# Comparators

How a filter relates its key to its value: a closed list, each with the token that URLs and stored
presets use and the label that people read.
-/

namespace FilterBar

inductive Comparator where
  | equals
  | notEquals
  | isIn
  | notIn
  | contains
  | startsWith
  | endsWith
  | prefixed
  | regex
  | greaterThan
  | greaterThanOrEqualTo
  | lessThan
  | lessThanOrEqualTo
  deriving DecidableEq, Repr

namespace Comparator

def all : List Comparator :=
  [equals, notEquals, isIn, notIn, contains, startsWith, endsWith, prefixed, regex, greaterThan,
    greaterThanOrEqualTo, lessThan, lessThanOrEqualTo]

theorem mem_all (c : Comparator) : c ∈ all := by
  cases c <;> decide

/-- The token of a comparator in URLs and stored presets. -/
def token : Comparator → String
  | equals => "EQUALS"
  | notEquals => "NOT_EQUALS"
  | isIn => "IN"
  | notIn => "NOT_IN"
  | contains => "CONTAINS"
  | startsWith => "STARTS_WITH"
  | endsWith => "ENDS_WITH"
  | prefixed => "PREFIX"
  | regex => "REGEX"
  | greaterThan => "GREATER_THAN"
  | greaterThanOrEqualTo => "GREATER_THAN_OR_EQUAL_TO"
  | lessThan => "LESS_THAN"
  | lessThanOrEqualTo => "LESS_THAN_OR_EQUAL_TO"

def label : Comparator → String
  | equals => "Is"
  | notEquals => "Is not"
  | isIn => "Is one of"
  | notIn => "Is not one of"
  | contains => "Contains"
  | startsWith => "Starts with"
  | endsWith => "Ends with"
  | prefixed => "Prefix"
  | regex => "Matches regex"
  | greaterThan => "Greater than"
  | greaterThanOrEqualTo => "Greater than or equal to"
  | lessThan => "Less than"
  | lessThanOrEqualTo => "Less than or equal to"

/-- The comparator with a token; case matters. -/
def ofToken? (text : String) : Option Comparator :=
  all.find? (·.token = text)

/-- A comparator on text carries a single value, also on a key that takes several. -/
def isText : Comparator → Bool
  | contains | startsWith | endsWith => true
  | _ => false

theorem ofToken?_token (c : Comparator) : ofToken? c.token = some c := by
  cases c <;> decide

end Comparator

end FilterBar
