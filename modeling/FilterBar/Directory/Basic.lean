import FilterBar.Directory.Namespace
import FilterBar.View.Configuration

/-!
# Directories

A directory knows the namespaces, flows, tasks and metrics that exist and what the present user may
do.  It resolves the source of a key to the values that are offered.  What a user may not see, and
what a directory fails to look up, is not offered.
-/

namespace FilterBar

inductive Resource where
  | namespaces
  | flows
  deriving DecidableEq, Repr

inductive Action where
  | create
  | read
  | update
  | delete
  deriving DecidableEq, Repr

/-- The answers of a directory; a lookup that fails has none. -/
structure Directory where
  namespaces : Option (List String) := some []
  /-- Whether the user may do this in any namespace. -/
  allows : Resource → Action → Bool := fun _ _ => false
  currentNamespace : Option String := none
  flowsOf : String → Option (List String) := fun _ => some []
  tasksWithMetrics : Option (List String) := some []
  metrics : Option (List String) := some []

namespace Directory

/-- The namespaces that the user may see, with their ancestors. -/
def visibleNamespaces (d : Directory) : Option (List String) :=
  if d.allows .namespaces .read then d.namespaces.map Namespace.expand else some []

/-- The flows of the namespace in view that the user may see. -/
def visibleFlows (d : Directory) : Option (List String) :=
  match d.currentNamespace with
  | none => some []
  | some here => if d.allows .flows .read then d.flowsOf here else some []

/-- The values that a source offers; a failed lookup offers none. -/
def resolve (d : Directory) : ChoiceSource → List Choice
  | .none | .pickDate => []
  | .fixed choices => choices
  | .namespaces => plain d.visibleNamespaces
  | .flowsOfNamespace => plain d.visibleFlows
  | .tasksWithMetrics => plain d.tasksWithMetrics
  | .metrics => plain d.metrics
where
  plain (values : Option (List String)) : List Choice :=
    (values.getD []).map Choice.plain

/-- The values that a key of a view offers; a name without a key offers none. -/
def values (d : Directory) (v : View) (name : String) : List Choice :=
  match v.configuration.find? name with
  | some k => d.resolve k.source
  | none => []

end Directory

end FilterBar
