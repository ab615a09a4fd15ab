import FilterBar.Filter.Comparator

/-!
# Filter keys and configurations

A configuration lists the keys that a view can be filtered by.  A key says which comparators it
allows, how its value is entered and where candidate values come from.  The first comparator is the
one a filter gets when none is chosen, so a key always has one.
-/

namespace FilterBar

namespace Key

def timeRange : String := "timeRange"

def startDate : String := "startDate"

def endDate : String := "endDate"

def details : String := "details"

def labels : String := "labels"

/-- The start of the key of a label with a name. -/
def namedLabel : String := "labels."

/-- The configured key that stands for every label with a name. -/
def labelPattern : String := "labels.\x7bkey\x7d"

def isDate (name : String) : Bool :=
  name == startDate || name == endDate

/-- The name in the key of a label, and in general what follows a start of a text. -/
def after? (start name : String) : Option String :=
  (start.toList.isPrefixOf? name.toList).map String.ofList

/-- Whether a key is `labels.` with a name behind it. -/
def isNamedLabel (name : String) : Bool :=
  match after? namedLabel name with
  | some rest => !rest.isEmpty
  | none => false

end Key

inductive InputKind where
  | text
  | select
  | multiSelect
  | radio
  deriving DecidableEq, Repr

namespace InputKind

def name : InputKind → String
  | text => "text"
  | select => "select"
  | multiSelect => "multi-select"
  | radio => "radio"

def ofName? (text : String) : Option InputKind :=
  [InputKind.text, select, multiSelect, radio].find? (·.name = text)

end InputKind

/-- A value that is offered, with the text that is shown for it. -/
structure Choice where
  label : String
  value : String
  deriving DecidableEq, Repr

def Choice.plain (value : String) : Choice :=
  ⟨value, value⟩

/-- Where the values that a key offers come from. -/
inductive ChoiceSource where
  | none
  | fixed (choices : List Choice)
  /-- Every namespace and its ancestors, for those who may read namespaces. -/
  | namespaces
  /-- The flows of the namespace in view, for those who may read flows. -/
  | flowsOfNamespace
  | tasksWithMetrics
  | metrics
  | pickDate
  deriving DecidableEq, Repr

/-- One key that a view can be filtered by. -/
structure FilterKey where
  name : String
  label : String
  description : String := ""
  defaultComparator : Comparator
  otherComparators : List Comparator := []
  input : InputKind
  source : ChoiceSource := .none
  searchable : Bool := false
  showsComparators : Bool := true
  /-- The keys that are no longer offered once this one is in use. -/
  related : List String := []
  deriving DecidableEq, Repr

namespace FilterKey

/-- A key with a list of comparators; equality stands in for an empty list. -/
def ofComparators (name label : String) (comparators : List Comparator) (input : InputKind) :
    FilterKey :=
  match comparators with
  | [] => { name, label, defaultComparator := .equals, input }
  | first :: others => { name, label, defaultComparator := first, otherComparators := others, input }

def comparators (k : FilterKey) : List Comparator :=
  k.defaultComparator :: k.otherComparators

def allows (k : FilterKey) (c : Comparator) : Bool :=
  k.comparators.contains c

/-- Whether this is the key for a name: its own, or for the pattern of labels any named label. -/
def isFor (k : FilterKey) (name : String) : Bool :=
  k.name == name || (k.name == Key.labelPattern && Key.isNamedLabel name)

def isMultiSelect (k : FilterKey) : Bool :=
  k.input == .multiSelect

end FilterKey

structure Configuration where
  title : String
  searchPlaceholder : String
  keys : List FilterKey
  deriving DecidableEq, Repr

namespace Configuration

/-- The key for a name: the one with that name, or else the pattern of labels. -/
def find? (c : Configuration) (name : String) : Option FilterKey :=
  (c.keys.find? (·.name == name)).or (c.keys.find? (·.isFor name))

def has (c : Configuration) (name : String) : Bool :=
  (c.find? name).isSome

def hasKeys (c : Configuration) : Bool :=
  !c.keys.isEmpty

end Configuration

end FilterBar
