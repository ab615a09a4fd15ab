import FilterBar.Table

/-!
# Queries

A query maps parameter names to values.  A name that is given once has one value, a name that is
repeated has a list of them, and a name without a value has `null`.
-/

namespace FilterBar

/-- What a query holds under one name. -/
inductive ParamValue where
  | null
  | one (value : String)
  /-- The name is repeated; an occurrence that stands alone is a `none`. -/
  | many (values : List (Option String))
  deriving DecidableEq, Repr

namespace ParamValue

def values : ParamValue → List String
  | null => []
  | one value => [value]
  | many values => values.filterMap id

def first? (v : ParamValue) : Option String :=
  v.values.head?

def isNull : ParamValue → Bool
  | null => true
  | _ => false

def isMany : ParamValue → Bool
  | many _ => true
  | _ => false

def append (value : String) : Option ParamValue → ParamValue
  | none => one value
  | some null => many [none, some value]
  | some (one first) => many [some first, some value]
  | some (many values) => many (values ++ [some value])

end ParamValue

/-- Parameters by name. -/
structure Query where
  params : Table ParamValue
  deriving DecidableEq

namespace Query

def empty : Query := ⟨Table.empty⟩

instance : Inhabited Query := ⟨empty⟩

/-- The names and what they hold, in increasing order of the names. -/
def toList (q : Query) : List (String × ParamValue) :=
  q.params.entries

def names (q : Query) : List String :=
  q.params.names

def get? (q : Query) (name : String) : Option ParamValue :=
  q.params.get? name

def first? (q : Query) (name : String) : Option String :=
  (q.get? name).bind ParamValue.first?

def size (q : Query) : Nat :=
  q.params.size

def isEmpty (q : Query) : Bool :=
  q.params.isEmpty

def insert (q : Query) (name : String) (value : ParamValue) : Query :=
  ⟨q.params.insert name value⟩

def insertOne (q : Query) (name value : String) : Query :=
  q.insert name (.one value)

def append (q : Query) (name value : String) : Query :=
  q.insert name (.append value (q.get? name))

def appendAll (q : Query) (name : String) (values : List String) : Query :=
  values.foldl (fun q value => q.append name value) q

def erase (q : Query) (name : String) : Query :=
  ⟨q.params.erase name⟩

def retain (q : Query) (keep : String → ParamValue → Bool) : Query :=
  ⟨q.params.retain keep⟩

def merge (q other : Query) : Query :=
  ⟨q.params.merge other.params⟩

/-- The query in which each parameter of a list is set, the later after the earlier. -/
def ofList (params : List (String × ParamValue)) : Query :=
  ⟨Table.ofList params⟩

/-- A set name holds what it was set to, every other name what it held. -/
theorem get?_insert (q : Query) (name other : String) (value : ParamValue) :
    (q.insert name value).get? other = if name = other then some value else q.get? other :=
  Table.get?_insert q.params name other value

/-- A removed name holds nothing, every other name what it held. -/
theorem get?_erase (q : Query) (name other : String) :
    (q.erase name).get? other = if name = other then none else q.get? other :=
  Table.get?_erase q.params name other

/-- A kept query holds exactly the parameters that satisfy the test. -/
theorem get?_retain (q : Query) (keep : String → ParamValue → Bool) (name : String) :
    (q.retain keep).get? name = (q.get? name).filter (keep name) :=
  Table.get?_retain q.params keep name

/-- Two queries that hold the same under every name are equal. -/
theorem ext_get? {p q : Query} (h : ∀ name, p.get? name = q.get? name) : p = q := by
  cases p; cases q
  exact congrArg Query.mk (Table.ext_get? h)

end Query

end FilterBar
