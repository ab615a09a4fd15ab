import FilterBar.Text.Split

/-!
# Namespace hierarchy

The id of a namespace is a path of names with dots between them.  Expansion lists every namespace of
a list after its ancestors, each of them once.
-/

namespace FilterBar.Namespace

open Text

/-- The path that a further name makes of a path.  Under the empty path it stands alone, so dots at
the front of an id are lost. -/
def extend (path part : List Char) : List Char :=
  if path.isEmpty then part else path ++ '.' :: part

/-- The paths that a list of names makes step by step, starting below a path. -/
def pathsFrom (path : List Char) : List (List Char) → List (List Char)
  | [] => []
  | part :: parts =>
    let next := extend path part
    next :: pathsFrom next parts

/-- The ancestors of an id, the topmost first, and the id itself. -/
def lineage (id : String) : List String :=
  (pathsFrom [] (splitOn '.' id.toList)).map String.ofList

/-- Every id of a list with its ancestors, in order of first occurrence. -/
def expand (ids : List String) : List String :=
  (ids.flatMap lineage).eraseDups

end FilterBar.Namespace
