import FilterBar.Query.Basic
import FilterBar.Text.PercentEscape
import FilterBar.Url.ParamName

/-!
# Filter parameters of a query

The parameters of a query whose names are those of filter parameters, taken apart, with the escapes
of their values decoded.
-/

namespace FilterBar

/-- The values of a parameter: a single one, or those of a repeated name. -/
inductive ParamValues where
  | one (value : String)
  | many (values : List String)
  deriving DecidableEq, Repr

namespace ParamValues

def toList : ParamValues → List String
  | one value => [value]
  | many values => values

def first? (v : ParamValues) : Option String :=
  v.toList.head?

def map (f : String → String) : ParamValues → ParamValues
  | one value => one (f value)
  | many values => many (values.map f)

end ParamValues

structure SearchParam where
  name : ParamName
  /-- The values as given, with escapes decoded. -/
  given : ParamValues
  deriving DecidableEq, Repr

namespace SearchParam

/-- The values of the parameter; those of a label with a name carry it, with a colon behind it. -/
def values (p : SearchParam) : ParamValues :=
  match p.name.labelName with
  | some label => p.given.map fun value => label ++ ":" ++ value
  | none => p.given

/-- What a query holds under a name, with escapes decoded; nothing for a name that stands alone. -/
def decodeValue? : ParamValue → Option ParamValues
  | .null => none
  | .one value => some (.one (Text.decodeComponent value))
  | .many values => some (.many ((values.filterMap id).map Text.decodeComponent))

/-- A parameter taken apart, if it is a filter parameter with a value. -/
def ofParam? (param : String × ParamValue) : Option SearchParam := do
  let given ← decodeValue? param.2
  let name ← ParamName.parse? param.1
  some ⟨name, given⟩

/-- The filter parameters of a query, in the order of their names. -/
def ofQuery (q : Query) : List SearchParam :=
  q.toList.filterMap ofParam?

end SearchParam

end FilterBar
