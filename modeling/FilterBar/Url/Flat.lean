import FilterBar.Filter.Basic
import FilterBar.Filter.Keyed
import FilterBar.Query.Basic
import FilterBar.Text.PercentEscape
import FilterBar.Text.Split
import FilterBar.Time.Reading
import FilterBar.Url.ParamName

/-!
# The flat format

Each filter is written as `key=value`, once for each of its values.  Comparators are not written, so
reading gives every filter the default one of its key.  Details are written under names of their
own, `details.name=value`, and a range of time as `startDate` and `endDate`.
-/

namespace FilterBar

def searchName : String := "q"

/-- A former parameter of a search term, which is read as none and removed. -/
def formerSearchName : String := "search"

/-- The parameter of a search term in the bracketed format. -/
def bracketedSearchName : String := ParamName.ofKey searchName .equals

namespace Flat

open Text

def detailOpening : String := Key.details ++ "."

/-! ## Writing -/

/-- Adds a detail, which needs a name. -/
def encodeDetail (q : Query) (entry : String) : Query :=
  match cut? ':' entry.toList with
  | some (name, value) => q.append (detailOpening ++ String.ofList name) (String.ofList value)
  | none => q

def encodeOne (q : Query) (f : Criterion) : Query :=
  match f.value with
  | .timeRange start stop =>
    (q.insertOne Key.startDate (String.ofList start.millisText)).insertOne Key.endDate
      (String.ofList stop.millisText)
  | .list values =>
    if f.key = Key.details then values.foldl encodeDetail q
    else q.appendAll f.key values
  | .text value => q.insertOne f.key value

def encode (fs : List Criterion) : Query :=
  fs.foldl encodeOne Query.empty

/-! ## Reading -/

/-- Whether a parameter is read as neither filter nor detail: search terms and dates. -/
def isReserved (name : String) : Bool :=
  name == searchName || name == formerSearchName || name == bracketedSearchName || Key.isDate name

/-- The value of a parameter.  A single value of a key that takes several is cut at its commas. -/
def paramValue (k : FilterKey) : ParamValue → FilterValue
  | .null => .text ""
  | .one value =>
    let value := decodeComponent value
    if k.isMultiSelect then
      .list (((splitOn ',' value.toList).filter (!·.isEmpty)).map String.ofList)
    else .text value
  | .many values => .list ((values.filterMap id).map decodeComponent)

/-- The criterion of a parameter that is neither reserved nor a detail. -/
def paramCriterion? (c : Configuration) (param : String × ParamValue) : Option Criterion :=
  if isReserved param.1 || (Key.after? detailOpening param.1).isSome then none
  else (c.find? param.1).map fun k =>
    let value := paramValue k param.2
    Criterion.ofParts k param.1 k.defaultComparator value (commaList value.items)

/-- The entries of the details in a parameter. -/
def paramDetails (param : String × ParamValue) : List String :=
  if isReserved param.1 then []
  else
    match Key.after? detailOpening param.1 with
    | some name => param.2.values.map fun value => name ++ ":" ++ decodeComponent value
    | none => []

/-- The criterion of the details of a query. -/
def details? (q : Query) (c : Configuration) : Option Criterion :=
  let entries := q.toList.flatMap paramDetails
  if entries.isEmpty then none
  else (c.find? Key.details).map fun k =>
    Criterion.ofParts k Key.details k.defaultComparator (.list entries) (detailsLabel entries)

/-- The range of time of a query: both of its dates can be read. -/
def timeRange? (q : Query) (c : Configuration) : Option Criterion := do
  let start ← Instant.parse? (← q.first? Key.startDate)
  let stop ← Instant.parse? (← q.first? Key.endDate)
  let k ← c.find? Key.timeRange
  some (Criterion.ofTimeRange k start stop .equals)

/-- The criteria of a query: those of the parameters in their order, then the details, then the
range of time, which displaces a duration under its key. -/
def decode (q : Query) (c : Configuration) : List Criterion :=
  let found := q.toList.filterMap (paramCriterion? c) ++ (details? q c).toList
  match timeRange? q c with
  | some range => Keyed.drop Criterion.key Key.timeRange found ++ [range]
  | none => found

/-! ## Parameters that belong to the format -/

/-- Whether the format writes a parameter for a configuration. -/
def isOwned (c : Configuration) (name : String) : Bool :=
  if Key.isDate name then c.has Key.timeRange
  else if (Key.after? detailOpening name).isSome then c.has Key.details
  else c.has name

end Flat

end FilterBar
