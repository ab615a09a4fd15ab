import FilterBar.Number.Binary64
import FilterBar.Report.Markup

/-!
# Test suites

What a report says about its test suites: the counts and the time that each suite states, and the
test cases that hold a failure or an error.  What a suite does not state, or not as a number, counts
as zero.
-/

namespace FilterBar

structure FailedCase where
  className : String
  name : String
  message : String
  deriving DecidableEq, Repr

structure Suite where
  name : String
  tests : Nat
  failures : Nat
  errors : Nat
  skipped : Nat
  seconds : Binary64
  failed : List FailedCase
  deriving DecidableEq, Repr

namespace Suite

open Markup

def textOf (attributes : List Attribute) (name default : String) : String :=
  ((valueOf? attributes name).map String.ofList).getD default

def countOf (attributes : List Attribute) (name : String) : Nat :=
  ((valueOf? attributes name).bind fun value => parseCount? (Text.trim value)).getD 0

def secondsOf (attributes : List Attribute) : Binary64 :=
  ((valueOf? attributes "time").bind fun value => Binary64.parse? (Text.trim value)).getD .zero

/-- Reads the start of a failure or an error; answers which of them and what stands behind it. -/
def readFailure : Reader (String × List Char) := fun s =>
  match readOpening "failure" s, readOpening "error" s with
  | some (inner, size), _ => some (("failure", inner), size)
  | none, some (inner, size) => some (("error", inner), size)
  | none, none => none

/-- The message of a failure: the first line of what it states, or else which kind it is. -/
def messageOf (kind : String) (inner : List Char) : String :=
  match valueOf? (attributes inner) "message" with
  | some message => String.ofList (Text.firstLine message)
  | none => kind

/-- The failed case of a test case and the text behind it, if that holds a failure.  A case that
closes itself holds none. -/
def failedCase? (inner body : List Char) : Option FailedCase :=
  if isSelfClosing inner then none
  else
    match sections readFailure body with
    | ((kind, failure), _) :: _ =>
      let attributes := attributes inner
      some
        { className := textOf attributes "classname" ""
          name := textOf attributes "name" ""
          message := messageOf kind failure }
    | [] => none

def failedCases (body : List Char) : List FailedCase :=
  (sections (readTag "testcase") body).filterMap fun (inner, text) => failedCase? inner text

def ofTag (inner body : List Char) : Suite :=
  let attributes := attributes inner
  { name := textOf attributes "name" "unnamed"
    tests := countOf attributes "tests"
    failures := countOf attributes "failures"
    errors := countOf attributes "errors"
    skipped := countOf attributes "skipped"
    seconds := secondsOf attributes
    failed := failedCases body }

def ofReport (report : String) : List Suite :=
  (sections (readTag "testsuite") report.toList).map fun (inner, body) => ofTag inner body

end Suite

end FilterBar
