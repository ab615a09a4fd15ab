import FilterBar.Completion.Fuzzy
import FilterBar.Completion.Language
import FilterBar.Directory.Basic
import FilterBar.Text.Blank
import FilterBar.Text.Split

/-!
# Completion

What can be typed next into a filter bar.  Input has the form `key:COMPARATOR:value`; the number of
its parts says which of them is being typed.  Candidates that fit what is typed so far are ranked by
a score; without anything typed all of them are listed in their own order.
-/

namespace FilterBar

inductive CompletionKind where
  | key
  | comparator
  | value
  deriving DecidableEq, Repr

def CompletionKind.name : CompletionKind → String
  | key => "key"
  | comparator => "comparator"
  | value => "value"

structure Completion where
  label : String
  value : String
  kind : CompletionKind
  detail : String := ""
  deriving DecidableEq, Repr

namespace Completion

/-- How well a text fits what is typed, if it does. -/
abbrev Scorer : Type := String → String → Option Int

/-- The greater of the scores of label and value, if one of them fits. -/
def score? (score : Scorer) (typed : String) (c : Completion) : Option Int :=
  match score c.label typed, score c.value typed with
  | some a, some b => some (max a b)
  | some a, none => some a
  | none, b => b

/-- Higher scores go first, and of equal scores the lesser label. -/
def ranksBefore (a b : Int × Completion) : Bool :=
  b.1 < a.1 || (b.1 == a.1 && a.2.label ≤ b.2.label)

/-- The candidates that fit what is typed, the best first; all of them in their order if nothing is
typed. -/
def rank (score : Scorer) (typed : String) (candidates : List Completion) : List Completion :=
  if typed.isEmpty then candidates
  else
    let scored := candidates.filterMap fun c => (c.score? score typed).map fun s => (s, c)
    (scored.mergeSort ranksBefore).map (·.2)

/-- The keys of a view that are offered while some are in use. -/
def keyCandidates (v : View) (used : List String) : List Completion :=
  (v.language.filter fun k => !k.isHiddenBy used).map fun k =>
    ⟨k.label, k.insertText, .key, k.description⟩

def comparatorCandidates (v : View) (key : String) : List Completion :=
  match v.languageKey? key with
  | some k => k.comparators.map fun c => { label := c.label, value := c.token, kind := .comparator }
  | none => []

def valueCandidates (d : Directory) (k : LanguageKey) : List Completion :=
  (d.resolve k.source).map fun c => { label := c.label, value := c.value, kind := .value }

def datePicker : Completion where
  label := "Pick a date"
  value := "$\x7bpickDate\x7d"
  kind := .value

def keys (score : Scorer) (v : View) (used : List String) (typed : String) : List Completion :=
  rank score typed (keyCandidates v used)

def comparators (score : Scorer) (v : View) (key typed : String) : List Completion :=
  rank score typed (comparatorCandidates v key)

/-- The values of a key that fit what is typed; a date is picked whatever is typed. -/
def values (score : Scorer) (d : Directory) (v : View) (key typed : String) : List Completion :=
  match v.languageKey? key with
  | none => []
  | some k =>
    if k.source = .pickDate then [datePicker] else rank score typed (valueCandidates d k)

/-- The value that is being typed: of a key with several values the one behind the last comma. -/
def typedValue (v : View) (key : String) (value : List Char) : List Char :=
  match v.languageKey? key with
  | some k => if k.multiple then Text.afterLast ',' value else value
  | none => value

/-- What can be typed next behind an input, given the keys in use.  Only the first two colons
divide the input. -/
def complete (score : Scorer) (d : Directory) (v : View) (input : String) (used : List String) :
    List Completion :=
  let input := Text.trimStart input.toList
  match Text.cut? ':' input with
  | none => keys score v used (String.ofList input)
  | some (key, rest) =>
    let key := String.ofList key
    match Text.cut? ':' rest with
    | none => comparators score v key (String.ofList rest)
    | some (_, value) => values score d v key (String.ofList (typedValue v key value))

end Completion

end FilterBar
