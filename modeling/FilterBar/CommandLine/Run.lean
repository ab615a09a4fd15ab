import FilterBar.CommandLine.Arguments
import FilterBar.Filter.Json
import FilterBar.Json.Printer
import FilterBar.Query.Text
import FilterBar.Report.Tree
import FilterBar.Url.Codec
import FilterBar.View.Configuration

/-!
# Running a request

What the program writes for a request, and its exit code.  What it learns from outside is an
argument: the environment, the tree of a directory, and the supply of identifiers.
-/

namespace FilterBar.CommandLine

structure World where
  environment : String → Option String := fun _ => none
  /-- The tree below a directory, if it can be walked. -/
  tree : String → Option FileTree := fun _ => none
  ids : IdSupply := ⟨0, 0⟩

structure Outcome where
  code : Nat
  out : String := ""
  err : String := ""
  deriving DecidableEq, Repr

namespace Outcome

def success (out : String) : Outcome :=
  { code := 0, out }

def failure (reason : String) : Outcome :=
  { code := 1, err := "Error: " ++ reason ++ "\n" }

end Outcome

def programName : String := "sift-devtools"

def programVersion : String := "0.1.0"

def greeting (name : Option String) : String :=
  "Hello, " ++ name.getD "world" ++ "!\n"

/-- The summary of the reports below a directory. -/
def summarize (w : World) (directory : Option String) (onBuildServer onlyErrors : Bool) :
    Outcome :=
  match directory with
  | none =>
    .failure ("missing working directory argument.\nUsage: " ++ programName ++
      " generateTestReportSummary <absolute-path>")
  | some directory =>
    match w.tree directory with
    | none => .failure ("walking " ++ directory)
    | some tree =>
      let run := if onBuildServer then BuildRun.ofEnvironment? w.environment else none
      .success (tree.summary { onlyErrors, run } ++ "\n")

/-- The filters and the search term of a query as JSON. -/
def decodedJson (w : World) (v : View) (q : Query) (format : UrlFormat) : Json :=
  .ofFields
    [("view", .ofString v.name),
      ("filters", .array ((decodeFilters w.ids q v.configuration format).1.map Filter.toJson)),
      ("searchQuery", .ofString (decodeSearch q))]

def keyJson (k : FilterKey) : Json :=
  .ofFields
    [("key", .ofString k.name), ("label", .ofString k.label),
      ("comparators", .ofStrings (k.comparators.map Comparator.token))]

def keyLine (k : FilterKey) : String :=
  k.name ++ " • " ++ k.label ++ " • " ++ commaList (k.comparators.map Comparator.token) ++ "\n"

def keyLines (v : View) : String :=
  if v.keys.isEmpty then v.name ++ ": no filter keys (search only)\n"
  else String.join (v.keys.map keyLine)

def withView (name : String) (run : View → String) : Outcome :=
  match View.ofName? name with
  | some v => .success (run v)
  | none => .failure (View.unknownMessage name)

def Request.run (w : World) : Request → Outcome
  | greet name => .success (greeting name)
  | summarize directory onBuildServer onlyErrors =>
    CommandLine.summarize w directory onBuildServer onlyErrors
  | decode view query flat =>
    withView view fun v =>
      (decodedJson w v (Query.parse query) (if flat then .flat else .bracketed)).pretty ++ "\n"
  | keys view asJson =>
    withView view fun v =>
      if asJson then (Json.array (v.keys.map keyJson)).pretty ++ "\n" else keyLines v

def versionLine : String :=
  programName ++ " " ++ programVersion ++ "\n"

end FilterBar.CommandLine
