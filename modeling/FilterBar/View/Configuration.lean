import FilterBar.View.Basic
import FilterBar.View.Choices

/-!
# The configurations of the views

What each view can be filtered by.  Views declare their keys independently, so keys of one name may
differ between them.
-/

namespace FilterBar

open Comparator

def namespaceKey : FilterKey where
  name := "namespace"
  label := "Namespace"
  description := "Filter by namespace"
  defaultComparator := isIn
  otherComparators := [notIn, contains, prefixed]
  input := .multiSelect
  source := .namespaces
  searchable := true

/-- A key on text whose value is typed. -/
def textKey (name label description : String) (default : Comparator) (others : List Comparator) :
    FilterKey where
  name := name
  label := label
  description := description
  defaultComparator := default
  otherComparators := others
  input := .text

def flowKey : FilterKey :=
  textKey "flowId" "Flow" "Filter by flow id" equals
    [notEquals, contains, startsWith, endsWith, regex]

/-- The flow of something, without regular expressions. -/
def plainFlowKey : FilterKey :=
  textKey "flowId" "Flow" "Filter by flow id" equals [notEquals, contains, startsWith, endsWith]

def scopeKey (description : String) : FilterKey where
  name := "scope"
  label := "Scope"
  description := description
  defaultComparator := equals
  otherComparators := [notEquals]
  input := .radio
  source := .fixed Choices.scopes
  showsComparators := false

/-- When something happened.  Once used it hides itself and the two dates it consists of. -/
def timeRangeKey (description : String) : FilterKey where
  name := Key.timeRange
  label := "Time range"
  description := description
  defaultComparator := equals
  input := .select
  source := .fixed Choices.relativeDates
  related := [Key.timeRange, Key.startDate, Key.endDate]

def labelsKey : FilterKey where
  name := Key.labels
  label := "Labels"
  description := "Filter by labels, as key:value"
  defaultComparator := equals
  otherComparators := [notEquals]
  input := .multiSelect
  searchable := true

def stateKey : FilterKey where
  name := "state"
  label := "State"
  description := "Filter by execution state"
  defaultComparator := isIn
  otherComparators := [notIn]
  input := .multiSelect
  source := .fixed Choices.executionStates
  searchable := true

def childKey : FilterKey where
  name := "childFilter"
  label := "Subflow"
  description := "Show child or parent executions only"
  defaultComparator := equals
  otherComparators := [notEquals]
  input := .radio
  source := .fixed Choices.hierarchies
  showsComparators := false

def parentExecutionKey : FilterKey :=
  textKey "triggerExecutionId" "Parent execution" "Filter by the execution that triggered this one"
    equals [notEquals, contains, startsWith, endsWith]

/-- A key whose value is one of a list. -/
def selectKey (name label description : String) (source : ChoiceSource)
    (others : List Comparator) : FilterKey where
  name := name
  label := label
  description := description
  defaultComparator := equals
  otherComparators := others
  input := .select
  source := source

/-- The keys of a view, in the order in which they are offered. -/
def View.keys : View → List FilterKey
  | executions =>
    [namespaceKey, flowKey, stateKey, scopeKey "Show user or system executions", childKey,
      timeRangeKey "Executions started within", labelsKey, parentExecutionKey,
      selectKey "kind" "Kind" "Filter by execution kind" (.fixed Choices.executionKinds)
        [notEquals]]
  | flowExecutions =>
    [stateKey, scopeKey "Show user or system executions", childKey,
      timeRangeKey "Executions started within", labelsKey, parentExecutionKey]
  | flows => [namespaceKey, scopeKey "Show user or system flows", labelsKey]
  | logs =>
    [namespaceKey,
      selectKey "level" "Level" "Minimum log level" (.fixed Choices.logLevels) [notEquals],
      timeRangeKey "Logs emitted within", scopeKey "Show user or system logs",
      textKey "triggerId" "Trigger" "Filter by trigger id" equals
        [notEquals, contains, startsWith, endsWith],
      plainFlowKey]
  | triggers =>
    [namespaceKey, plainFlowKey, timeRangeKey "Triggers evaluated within",
      scopeKey "Show user or system triggers",
      textKey "triggerId" "Trigger" "Filter by trigger id" isIn
        [notIn, equals, notEquals, contains, startsWith, endsWith],
      { textKey "workerId" "Worker" "Filter by worker id" isIn
          [notIn, equals, notEquals, contains, startsWith, endsWith] with searchable := true }]
  | secrets => [namespaceKey]
  | auditLogs =>
    [namespaceKey, textKey "userId" "User" "Filter by acting user" equals [],
      { name := Key.details
        label := "Details"
        description := "Filter by detail entries, as key:value"
        defaultComparator := equals
        input := .multiSelect },
      timeRangeKey "Events recorded within"]
  | dashboards => [namespaceKey, timeRangeKey "Data within", labelsKey]
  | namespaceDashboards =>
    [{ name := "flowId"
       label := "Flow"
       description := "Filter by flow of this namespace"
       defaultComparator := equals
       otherComparators := [notEquals, contains, startsWith, endsWith, regex]
       input := .select
       source := .flowsOfNamespace
       searchable := true },
      timeRangeKey "Data within", labelsKey]
  | flowMetrics =>
    [selectKey "task" "Task" "Task that emitted the metric" .tasksWithMetrics [],
      selectKey "metric" "Metric" "Metric name" .metrics [],
      selectKey "aggregation" "Aggregation" "Aggregation applied to the metric"
        (.fixed Choices.aggregations) [],
      timeRangeKey "Metrics recorded within"]
  | kv | namespaces | plugins | blueprints => []

def View.title : View → String
  | executions | flowExecutions => "Execution filters"
  | flows => "Flow filters"
  | logs => "Log filters"
  | triggers => "Trigger filters"
  | secrets => "Secret filters"
  | auditLogs => "Audit log filters"
  | dashboards | namespaceDashboards => "Dashboard filters"
  | flowMetrics => "Metric filters"
  | kv => "Key-value filters"
  | namespaces => "Namespace filters"
  | plugins => "Plugin filters"
  | blueprints => "Blueprint filters"

def View.searchPlaceholder : View → String
  | executions | flowExecutions => "Search executions"
  | flows => "Search flows"
  | logs => "Search logs"
  | triggers => "Search triggers"
  | secrets => "Search secrets"
  | auditLogs => "Search audit logs"
  | dashboards | namespaceDashboards => "Search dashboards"
  | flowMetrics => "Search metrics"
  | kv => "Search keys"
  | namespaces => "Search namespaces"
  | plugins => "Search plugins"
  | blueprints => "Search blueprints"

def View.configuration (v : View) : Configuration :=
  ⟨v.title, v.searchPlaceholder, v.keys⟩

end FilterBar
