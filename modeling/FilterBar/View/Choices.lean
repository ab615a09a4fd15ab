import FilterBar.Filter.Key

/-!
# Fixed choices

Lists of values that the keys of several views offer.
-/

namespace FilterBar.Choices

/-- The levels of a log, the most detailed first. -/
def logLevels : List Choice :=
  ["TRACE", "DEBUG", "INFO", "WARN", "ERROR"].map Choice.plain

def scopes : List Choice :=
  [⟨"User", "USER"⟩, ⟨"System", "SYSTEM"⟩]

/-- Ranges of time that end now, as durations. -/
def relativeDates : List Choice :=
  [⟨"Last 5 minutes", "PT5M"⟩, ⟨"Last 15 minutes", "PT15M"⟩, ⟨"Last 1 hour", "PT1H"⟩,
    ⟨"Last 12 hours", "PT12H"⟩, ⟨"Last 24 hours", "PT24H"⟩, ⟨"Last 48 hours", "PT48H"⟩,
    ⟨"Last 7 days", "P7D"⟩, ⟨"Last 30 days", "P30D"⟩, ⟨"Last 365 days", "P365D"⟩]

def executionStates : List Choice :=
  ["CREATED", "RUNNING", "PAUSED", "RESTARTED", "KILLING", "SUCCESS", "WARNING", "FAILED", "KILLED",
    "CANCELLED", "QUEUED", "RETRYING", "RETRIED", "SKIPPED", "BREAKPOINT"].map Choice.plain

def hierarchies : List Choice :=
  [⟨"Child executions", "CHILD"⟩, ⟨"Parent executions", "MAIN"⟩]

def executionKinds : List Choice :=
  ["NORMAL", "TEST", "PLAYGROUND"].map Choice.plain

def aggregations : List Choice :=
  ["SUM", "AVG", "MIN", "MAX"].map Choice.plain

end FilterBar.Choices
