import FilterBar.CommandLine.Help

/-!
# The program

Reads the arguments, the environment and the directory to be scanned, runs the request and writes
what comes of it.
-/

namespace FilterBar.Program

open CommandLine

/-- What lies at a directory entry: a file with its bytes if it may be a report, or a directory.
Links are neither.  Entries come with a text as their name, so nothing is found under one whose name
spells no text. -/
partial def readEntry (entry : IO.FS.DirEntry) : IO (List (String × FileTree)) := do
  let name := entry.fileName
  let type? ← try pure (some (← entry.path.symlinkMetadata).type) catch _ => pure none
  match type? with
  | some .dir =>
    let entries ← (← entry.path.readDir).toList.mapM readEntry
    return [(name, .directory entries.flatten)]
  | some .file =>
    if FileTree.isReportName name then
      try
        return [(name, .file (← IO.FS.readBinFile entry.path).toList)]
      catch _ => return []
    else
      return [(name, .file [])]
  | _ => return []

/-- The tree at a path, if all of its directories can be listed. -/
def readTree (path : String) : IO (Option FileTree) := do
  try
    let path ← IO.FS.realPath path
    return some (.directory (← readEntry ⟨path.parent.getD path, path.fileName.getD "."⟩))
  catch _ => return none

def readEnvironment : IO (List (String × String)) := do
  let found ← BuildRun.variableNames.mapM fun name => do
    return (← IO.getEnv name).map fun value => (name, value)
  return found.filterMap id

def readWorld (r : Request) : IO World := do
  let environment ← readEnvironment
  let tree ← match r with
    | .summarize (some directory) _ _ => readTree directory
    | _ => pure none
  return {
    environment := fun name => environment.lookup name
    tree := fun _ => tree
    ids := ⟨← IO.monoMsNow, 0⟩ }

/-- Writes an outcome and answers its exit code. -/
def write (o : Outcome) : IO UInt32 := do
  IO.print o.out
  IO.eprint o.err
  return o.code.toUInt32

def run (arguments : List String) : IO UInt32 := do
  match read arguments with
  | .help command => write (.success (helpText command))
  | .version => write (.success versionLine)
  | .usage => write { code := 1, err := usageText }
  | .request r => write (r.run (← readWorld r))

end FilterBar.Program

def main (arguments : List String) : IO UInt32 :=
  FilterBar.Program.run arguments
