/-!
# Views

The pages that carry a filter bar, by name, and the routes among which it appears on list pages.
-/

namespace FilterBar

inductive View where
  | executions
  | flowExecutions
  | flows
  | logs
  | triggers
  | secrets
  | auditLogs
  | dashboards
  | namespaceDashboards
  | flowMetrics
  | kv
  | namespaces
  | plugins
  | blueprints
  deriving DecidableEq, Repr

namespace View

def all : List View :=
  [executions, flowExecutions, flows, logs, triggers, secrets, auditLogs, dashboards,
    namespaceDashboards, flowMetrics, kv, namespaces, plugins, blueprints]

theorem mem_all (v : View) : v ∈ all := by
  cases v <;> decide

def name : View → String
  | executions => "executions"
  | flowExecutions => "flow-executions"
  | flows => "flows"
  | logs => "logs"
  | triggers => "triggers"
  | secrets => "secrets"
  | auditLogs => "audit-logs"
  | dashboards => "dashboards"
  | namespaceDashboards => "namespace-dashboards"
  | flowMetrics => "flow-metrics"
  | kv => "kv"
  | namespaces => "namespaces"
  | plugins => "plugins"
  | blueprints => "blueprints"

/-- The view with a name; case matters. -/
def ofName? (text : String) : Option View :=
  all.find? (·.name = text)

theorem ofName?_name (v : View) : ofName? v.name = some v := by
  cases v <;> decide

/-- The wording for a name that no view has. -/
def unknownMessage (text : String) : String :=
  "unknown view: " ++ text ++ " (expected one of: " ++ String.intercalate ", " (all.map name) ++ ")"

end View

/-- The names of the routes whose list pages carry a filter bar. -/
def searchRoutes : List String :=
  ["home", "flows/list", "executions/list", "logs/list", "admin/triggers"]

def isSearchRoute (name : String) : Bool :=
  searchRoutes.contains name

end FilterBar
