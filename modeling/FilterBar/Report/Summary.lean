import FilterBar.Report.Suite

/-!
# Summaries of reports

The Markdown summary of a list of suites: a mark for success or failure, the totals, a table of the
suites unless only errors are wanted, and the failing tests.  A run on a build server puts a line in
front that says which one it was.
-/

namespace FilterBar

/-- The run of a build server that reports come from. -/
structure BuildRun where
  repository : String
  branch : Option String
  commit : Option String
  server : String
  number : Option String
  deriving DecidableEq, Repr

namespace BuildRun

def variableNames : List String :=
  ["GITHUB_REPOSITORY", "GITHUB_REF_NAME", "GITHUB_SHA", "GITHUB_SERVER_URL", "GITHUB_RUN_ID"]

/-- The run that environment variables describe.  It has a repository; empty variables count as
missing. -/
def ofEnvironment? (get : String → Option String) : Option BuildRun :=
  let nonEmpty (name : String) : Option String := (get name).filter (· ≠ "")
  (nonEmpty "GITHUB_REPOSITORY").map fun repository =>
    { repository
      branch := nonEmpty "GITHUB_REF_NAME"
      commit := nonEmpty "GITHUB_SHA"
      server := (nonEmpty "GITHUB_SERVER_URL").getD "https://github.com"
      number := nonEmpty "GITHUB_RUN_ID" }

def shortCommit (commit : String) : String :=
  String.ofList (commit.toList.take 7)

def header (r : BuildRun) : String :=
  "**" ++ r.repository ++ "**" ++
    (match r.branch with
      | some branch => " on `" ++ branch ++ "`"
      | none => "") ++
    (match r.commit with
      | some commit => " at `" ++ shortCommit commit ++ "`"
      | none => "") ++
    (match r.number with
      | some number =>
        " ([run " ++ number ++ "](" ++ r.server ++ "/" ++ r.repository ++ "/actions/runs/" ++
          number ++ "))"
      | none => "")

end BuildRun

structure SummaryOptions where
  onlyErrors : Bool := false
  run : Option BuildRun := none
  deriving DecidableEq, Repr

namespace Summary

/-- The sum of a count over suites, in 64 bits. -/
def total (suites : List Suite) (count : Suite → Nat) : UInt64 :=
  suites.foldl (fun sum s => sum + UInt64.ofNat (count s)) 0

/-- The mark of a run: success if no suite states a failure or an error. -/
def mark (suites : List Suite) : String :=
  if total suites (·.failures) + total suites (·.errors) = 0 then "✅" else "❌"

def totals (suites : List Suite) : String :=
  mark suites ++ " " ++ toString (total suites (·.tests)) ++ " tests, " ++
    toString (total suites (·.failures)) ++ " failures, " ++
    toString (total suites (·.errors)) ++ " errors, " ++
    toString (total suites (·.skipped)) ++ " skipped\n\n"

def row (s : Suite) : String :=
  "| " ++ s.name ++ " | " ++ toString s.tests ++ " | " ++ toString s.failures ++ " | " ++
    toString s.errors ++ " | " ++ toString s.skipped ++ " | " ++
    String.ofList s.seconds.twoDecimals ++ " |\n"

def table (suites : List Suite) : String :=
  "| Suite | Tests | Failures | Errors | Skipped | Time (s) |\n" ++
    "|---|---:|---:|---:|---:|---:|\n" ++ String.join (suites.map row) ++ "\n"

def failedLine (f : FailedCase) : String :=
  "- `" ++ f.className ++ "." ++ f.name ++ "`: " ++ f.message ++ "\n"

def failing (suites : List Suite) (o : SummaryOptions) : String :=
  match suites.flatMap (·.failed) with
  | [] => if o.onlyErrors then "No failing tests.\n" else ""
  | failed => "### Failing tests\n\n" ++ String.join (failed.map failedLine)

def render (suites : List Suite) (o : SummaryOptions) : String :=
  "## Test report summary\n\n" ++
    (match o.run with
      | some run => run.header ++ "\n\n"
      | none => "") ++
    (if suites.isEmpty then "No test reports found.\n"
     else totals suites ++ (if o.onlyErrors then "" else table suites) ++ failing suites o)

end Summary

end FilterBar
