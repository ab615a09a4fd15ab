import FilterBar.View.Configuration

/-!
# Filter languages

The keys that can be typed into the filter bar of a view, with their comparators and values.  Some
views have a language of their own; in the others the keys of the configuration can be typed.
-/

namespace FilterBar

open Comparator

structure LanguageKey where
  name : String
  label : String
  description : String := ""
  comparators : List Comparator
  source : ChoiceSource := .none
  /-- Whether several values may be typed with commas between them. -/
  multiple : Bool := false
  /-- The key is no longer offered once one of these is used. -/
  related : List String := []
  deriving DecidableEq, Repr

namespace LanguageKey

def named (name : String) (comparators : List Comparator) (source : ChoiceSource := .none) :
    LanguageKey :=
  { name, label := name, comparators, source }

def ofKey (k : FilterKey) : LanguageKey where
  name := k.name
  label := k.label
  description := k.description
  comparators := k.comparators
  source := k.source
  multiple := k.isMultiSelect
  related := k.related

def isPattern (k : LanguageKey) : Bool :=
  k.name == Key.labelPattern

/-- The text that is inserted for the key: of a pattern the part before its brace. -/
def insertText (k : LanguageKey) : String :=
  String.ofList (k.name.toList.takeWhile (· != '\x7b'))

/-- Whether this is the key for a name: its own, or for a pattern any that continues its text. -/
def isFor (k : LanguageKey) (name : String) : Bool :=
  k.name == name ||
    (k.isPattern && match Key.after? k.insertText name with
      | some rest => !rest.isEmpty
      | none => false)

/-- Whether a key in use keeps this one from being offered. -/
def isHiddenBy (k : LanguageKey) (used : List String) : Bool :=
  k.related.any used.contains

end LanguageKey

namespace Language

def namespaceKey : LanguageKey :=
  { LanguageKey.named "namespace"
      [prefixed, equals, notEquals, contains, startsWith, endsWith, regex] .namespaces with
    multiple := true }

def flowKey : LanguageKey :=
  { LanguageKey.named "flowId" [equals, notEquals, contains, startsWith, endsWith, regex] with
    multiple := true }

def scopeKey : LanguageKey :=
  { LanguageKey.named "scope" [equals, notEquals] (.fixed Choices.scopes) with
    related := ["scope"] }

def timeRangeKey : LanguageKey :=
  { LanguageKey.named Key.timeRange [equals] (.fixed Choices.relativeDates) with
    related := [Key.timeRange, Key.startDate, Key.endDate] }

def startDateKey : LanguageKey :=
  LanguageKey.named Key.startDate
    [greaterThanOrEqualTo, greaterThan, lessThanOrEqualTo, lessThan, equals, notEquals] .pickDate

def endDateKey : LanguageKey :=
  LanguageKey.named Key.endDate
    [lessThanOrEqualTo, lessThan, greaterThanOrEqualTo, greaterThan, equals, notEquals] .pickDate

def dateKeys : List LanguageKey :=
  [timeRangeKey, { startDateKey with related := [Key.timeRange] },
    { endDateKey with related := [Key.timeRange] }]

def labelsKey : LanguageKey :=
  { LanguageKey.named Key.labelPattern [equals, notEquals] with multiple := true }

def stateKey : LanguageKey :=
  { LanguageKey.named "state" [equals, notEquals] (.fixed Choices.executionStates) with
    multiple := true }

def childKey : LanguageKey :=
  LanguageKey.named "childFilter" [equals, notEquals] (.fixed Choices.hierarchies)

def textKey (name : String) : LanguageKey :=
  { LanguageKey.named name [equals, notEquals, contains, startsWith, endsWith] with
    multiple := true }

end Language

/-- The keys that can be typed in a view, in the order in which they are offered. -/
def View.language : View → List LanguageKey
  | executions =>
    [Language.namespaceKey, Language.flowKey, Language.stateKey, Language.scopeKey,
      Language.childKey] ++ Language.dateKeys ++
      [Language.labelsKey, Language.textKey "triggerExecutionId", Language.textKey "kind"]
  | flowExecutions =>
    [Language.stateKey, Language.scopeKey, Language.childKey] ++ Language.dateKeys ++
      [Language.labelsKey, Language.textKey "triggerExecutionId"]
  | flows => [Language.namespaceKey, Language.scopeKey, Language.labelsKey]
  | secrets => [Language.namespaceKey]
  | triggers =>
    [Language.namespaceKey, Language.flowKey] ++ Language.dateKeys ++
      [Language.scopeKey, Language.textKey "triggerId", Language.textKey "workerId"]
  | dashboards => [Language.namespaceKey] ++ Language.dateKeys ++ [Language.labelsKey]
  | namespaceDashboards =>
    [{ Language.flowKey with source := .flowsOfNamespace }] ++ Language.dateKeys ++ [Language.labelsKey]
  | flowMetrics =>
    [.named "task" [equals] .tasksWithMetrics, .named "metric" [equals] .metrics,
      .named "aggregation" [equals] (.fixed Choices.aggregations), Language.startDateKey,
      Language.endDateKey]
  | v => v.keys.map LanguageKey.ofKey

/-- The key for a name in a view: the one with that name, or else the pattern of labels. -/
def View.languageKey? (v : View) (name : String) : Option LanguageKey :=
  (v.language.find? (·.name == name)).or (v.language.find? (·.isFor name))

end FilterBar
