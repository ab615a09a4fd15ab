import FilterBar.Time.Instant

/-!
# Filter values

What a filter compares its key with: a text, a list of texts, or a range of time.
-/

namespace FilterBar

inductive FilterValue where
  | text (value : String)
  | list (values : List String)
  | timeRange (start stop : Instant)
  deriving DecidableEq

namespace FilterValue

/-- The texts of a value; a range of time has none. -/
def items : FilterValue → List String
  | text value => [value]
  | list values => values
  | timeRange .. => []

def isTimeRange : FilterValue → Bool
  | timeRange .. => true
  | _ => false

end FilterValue

/-- A list of texts in one line, a comma and a space between each two. -/
def commaList (values : List String) : String :=
  String.intercalate ", " values

/-- Details in one line: the first of them, and how many more there are. -/
def detailsLabel : List String → String
  | [] => ""
  | [only] => only
  | first :: rest => first ++ " +" ++ toString rest.length

end FilterBar
