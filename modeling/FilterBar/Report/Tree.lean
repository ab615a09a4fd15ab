import FilterBar.Report.Summary
import FilterBar.Text.Utf8

/-!
# Trees of reports

Reports lie in a tree of directories.  The order in which a directory lists its entries is of no
account: reports are taken in the order of their paths, which are compared name by name.  Names are
bytes; only a name that spells a text can be that of a report.
-/

namespace FilterBar

/-- The name of a file or of a directory. -/
structure FileName where
  bytes : List UInt8
  deriving DecidableEq, Repr

namespace FileName

def ofText (text : String) : FileName :=
  ⟨Text.Utf8.encode text.toList⟩

instance : Coe String FileName :=
  ⟨ofText⟩

/-- The text that a name spells, if it spells one. -/
def text? (name : FileName) : Option String :=
  (Text.Utf8.decode? name.bytes).map String.ofList

/-- A name as it is shown, whether it spells a text or not. -/
def shown (name : FileName) : String :=
  String.ofList (Text.Utf8.decodeLossy name.bytes)

/-- Names are compared byte by byte. -/
instance : LT FileName :=
  ⟨fun a b => a.bytes < b.bytes⟩

instance : DecidableLT FileName := fun a b =>
  inferInstanceAs (Decidable (a.bytes < b.bytes))

end FileName

/-- A file with its bytes, or a directory with its entries. -/
inductive FileTree where
  | file (bytes : List UInt8)
  | node (entries : List (FileName × FileTree))

namespace FileTree

/-- A directory in which every name spells a text. -/
def directory (entries : List (String × FileTree)) : FileTree :=
  .node (entries.map fun e => (.ofText e.1, e.2))

abbrev Path : Type := List FileName

instance : Coe Path (List String) :=
  ⟨List.map FileName.shown⟩

mutual

def filesAt (path : Path) : FileTree → List (Path × List UInt8)
  | file bytes => [(path, bytes)]
  | node entries => filesOfEntries path entries

def filesOfEntries (path : Path) : List (FileName × FileTree) → List (Path × List UInt8)
  | [] => []
  | (name, tree) :: rest => filesAt (path ++ [name]) tree ++ filesOfEntries path rest

end

def files (t : FileTree) : List (Path × List UInt8) :=
  t.filesAt []

/-- Whether a name is that of a report.  One that spells no text is not. -/
def isReportName (name : FileName) : Bool :=
  match name.text? with
  | some text => "TEST-".toList.isPrefixOf text.toList && ".xml".toList.isSuffixOf text.toList
  | none => false

def isReportPath (path : Path) : Bool :=
  match path.getLast? with
  | some name => isReportName name
  | none => false

/-- Whether a path does not come after another: the first names that differ decide, and a path
comes before those that it begins. -/
def notAfter : Path → Path → Bool
  | [], _ => true
  | _ :: _, [] => false
  | name :: rest, other :: others =>
    if name < other then true
    else if other < name then false
    else notAfter rest others

/-- The reports of a tree with their paths, in the order of the paths. -/
def reports (t : FileTree) : List (Path × List UInt8) :=
  (t.files.filter fun f => isReportPath f.1).mergeSort fun a b => notAfter a.1 b.1

/-- The suites of a file; one that is no text has none. -/
def suitesOf (bytes : List UInt8) : List Suite :=
  match Text.Utf8.decode? bytes with
  | some text => Suite.ofReport (String.ofList text)
  | none => []

def suites (t : FileTree) : List Suite :=
  t.reports.flatMap fun f => suitesOf f.2

def summary (t : FileTree) (o : SummaryOptions) : String :=
  Summary.render t.suites o

end FileTree

end FilterBar
