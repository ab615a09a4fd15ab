import FilterBar.Text.Blank
import FilterBar.Text.Split
import FilterBar.Text.Word

/-!
# Scanning markup

Test reports are scanned for a few tags; they are not parsed as documents.  A tag is found wherever
its name stands behind `<` and no word character follows, and it ends at the next `>`.
-/

namespace FilterBar.Markup

open Text

/-- Reads something at the front of a text; answers it and the number of characters it takes. -/
abbrev Reader (τ : Type) : Type := List Char → Option (τ × Nat)

/-- Everything that a reader finds, each with the text behind it up to the next, and the text in
front of the first.  `sectionsFrom skip` passes over characters that the last find has used. -/
def sectionsFrom {τ : Type} (read : Reader τ) : Nat → List Char → List Char × List (τ × List Char)
  | _, [] => ([], [])
  | skip + 1, _ :: rest => sectionsFrom read skip rest
  | 0, c :: rest =>
    match read (c :: rest) with
    | some (found, size) =>
      let (text, later) := sectionsFrom read (size - 1) rest
      ([], (found, text) :: later)
    | none =>
      let (text, later) := sectionsFrom read 0 rest
      (c :: text, later)

/-- Everything that a reader finds from the left, each with the text behind it up to the next. -/
def sections {τ : Type} (read : Reader τ) (s : List Char) : List (τ × List Char) :=
  (sectionsFrom read 0 s).2

def startsWord : List Char → Bool
  | [] => false
  | c :: _ => isWord c

def readOpening (name : String) : Reader (List Char) := fun s =>
  match ('<' :: name.toList).isPrefixOf? s with
  | some rest =>
    if startsWord rest then none
    else
      let inner := rest.takeWhile (· != '>')
      some (inner, 1 + name.toList.length + inner.length)
  | none => none

/-- Reads a whole tag with a name and answers what stands behind the name. -/
def readTag (name : String) : Reader (List Char) := fun s =>
  match readOpening name s with
  | some (inner, size) => if (s.drop size).isEmpty then none else some (inner, size + 1)
  | none => none

/-- A tag closes itself if a slash stands before its end. -/
def isSelfClosing (inner : List Char) : Bool :=
  inner.getLast? == some '/'

def isNameChar (c : Char) : Bool :=
  isWord c || c == ':' || c == '-'

/-- Replaces the five entities by their characters; the ampersand comes last. -/
def unescape (s : List Char) : List Char :=
  let s := replaceAll "&lt;".toList ['<'] s
  let s := replaceAll "&gt;".toList ['>'] s
  let s := replaceAll "&quot;".toList ['"'] s
  let s := replaceAll "&apos;".toList ['\x27'] s
  replaceAll "&amp;".toList ['&'] s

structure Attribute where
  name : List Char
  value : List Char
  deriving DecidableEq, Repr

/-- Reads an attribute: a name, an equals sign with or without blanks around it, and a value in
double quotes. -/
def readAttribute : Reader Attribute := fun s =>
  let name := s.takeWhile isNameChar
  if name.isEmpty then none
  else
    match trimStart (s.drop name.length) with
    | '=' :: rest =>
      match trimStart rest with
      | '"' :: rest =>
        match cut? '"' rest with
        | some (value, rest) => some (⟨name, unescape value⟩, s.length - rest.length)
        | none => none
      | _ => none
    | _ => none

def attributes (inner : List Char) : List Attribute :=
  (sections readAttribute inner).map (·.1)

def valueOf? (attributes : List Attribute) (name : String) : Option (List Char) :=
  (attributes.find? (·.name == name.toList)).map (·.value)

end FilterBar.Markup
