import FilterBar.Filter.Key

/-!
# Names of filter parameters

The name of a filter parameter is `filters[field][operation]`, and for a label with a name
`filters[labels][operation][name]`.  The field ends at the first `][` and the operation at the next
`]`; neither holds a line feed.  What follows is free, but a further pair of brackets names a label.
-/

namespace FilterBar

/-- The parts of the name of a filter parameter. -/
structure ParamName where
  field : String
  operation : String
  labelName : Option String := none
  deriving DecidableEq, Repr

namespace ParamName

/-- How the name of every filter parameter starts. -/
def opening : String := "filters["

/-- Reads up to the first `][`, which no line feed may precede. -/
def readField? : List Char → Option (List Char × List Char)
  | [] => none
  | c :: rest =>
    match c, rest with
    | ']', '[' :: rest => some ([], rest)
    | _, _ =>
      if c = '\n' then none
      else (readField? rest).map fun (field, rest) => (c :: field, rest)

/-- Reads up to the first `]`, which no line feed may precede. -/
def readBracketed? : List Char → Option (List Char × List Char)
  | [] => none
  | c :: rest =>
    if c = ']' then some ([], rest)
    else if c = '\n' then none
    else (readBracketed? rest).map fun (inner, rest) => (c :: inner, rest)

/-- The text in the brackets at the front of what follows the operation, if it is not empty. -/
def readLabelName? : List Char → Option (List Char)
  | '[' :: rest =>
    match readBracketed? rest with
    | some (name, _) => if name.isEmpty then none else some name
    | none => none
  | _ => none

/-- The parts of a name, if it is that of a filter parameter. -/
def parse? (name : String) : Option ParamName := do
  let rest ← opening.toList.isPrefixOf? name.toList
  let (field, rest) ← readField? rest
  let (operation, rest) ← readBracketed? rest
  let field := String.ofList field
  let labelName := if field = Key.labels then readLabelName? rest else none
  some { field, operation := String.ofList operation, labelName := labelName.map String.ofList }

/-- The name of the parameter of a key and a comparator. -/
def ofKey (key : String) (c : Comparator) : String :=
  opening ++ key ++ "][" ++ c.token ++ "]"

/-- The name of the parameter of a label with a name. -/
def ofLabel (c : Comparator) (name : String) : String :=
  ofKey Key.labels c ++ "[" ++ name ++ "]"

end ParamName

end FilterBar
