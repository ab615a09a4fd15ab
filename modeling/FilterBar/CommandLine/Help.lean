import FilterBar.CommandLine.Run

/-!
# Help

The texts that explain how the program is called.
-/

namespace FilterBar.CommandLine

def usageLine : Option Command → String
  | none => "Usage: " ++ programName ++ " [OPTIONS] [NAME]\n       " ++ programName ++ " <COMMAND>\n"
  | some .summarize =>
    "Usage: " ++ programName ++ " generateTestReportSummary [--ci] [--only-errors] [DIR]\n"
  | some .decode => "Usage: " ++ programName ++ " decode [--legacy] <VIEW> <QUERY>\n"
  | some .keys => "Usage: " ++ programName ++ " keys [--output human|json] <VIEW>\n"

/-- What the arguments of a command, or of the program without one, mean. -/
def explanation : Option Command → List String
  | none =>
    ["Commands:",
      "  generateTestReportSummary  Summarize JUnit XML reports (TEST-*.xml) under a directory",
      "  decode                     Decode a URL query string into the filters of a view",
      "  keys                       List the filter keys of a view with their comparators",
      "  help                       Print this text or that of a command",
      "",
      "Arguments:",
      "  [NAME]  Who to greet",
      "",
      "Options:",
      "  -v, --version  Show version",
      "  -h, --help     Print help"]
  | some .summarize =>
    ["Arguments:",
      "  [DIR]  Directory to scan",
      "",
      "Options:",
      "      --ci           Put the run of the build server in front of the summary",
      "      --only-errors  List failing tests only",
      "  -h, --help         Print help"]
  | some .decode =>
    ["Arguments:",
      "  <VIEW>   Name of the view",
      "  <QUERY>  Query string, with or without the leading '?'",
      "",
      "Options:",
      "      --legacy  Read the flat format",
      "  -h, --help    Print help"]
  | some .keys =>
    ["Arguments:",
      "  <VIEW>  Name of the view",
      "",
      "Options:",
      "  -o, --output <OUTPUT>  human or json, human unless given",
      "  -h, --help             Print help"]

def helpText (c : Option Command) : String :=
  usageLine c ++ "\n" ++ String.join ((explanation c).map (· ++ "\n"))

def usageText : String :=
  "error: the arguments do not fit\n\n" ++ usageLine none ++
    "\nFor more information, try '--help'.\n"

end FilterBar.CommandLine
