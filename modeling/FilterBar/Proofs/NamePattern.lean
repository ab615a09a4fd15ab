import FilterBar.Proofs.ParamName

/-!
# The pattern of parameter names

The names of filter parameters are those that match `^filters\[(.*?)\]\[(.*?)\](?:\[(.*?)\])?`.  The
groups are lazy, nothing anchors the end, and the last part is optional, so a search for the pattern
may have to go back and try a longer field or operation.  It never succeeds with one: a bracket that
would end the longer field already ends the operation behind the shorter.  So reading each part up
to the first brackets that can end it gives what the first match captures.
-/

namespace FilterBar

namespace Text

/-- Patterns of text, as far as parameter names need them. -/
inductive Pattern where
  | literal (text : String)
  /-- A captured run of characters other than line feeds, the shorter before the longer: `(.*?)`. -/
  | lazyGroup
  | seq (p q : Pattern)
  /-- The pattern if it matches, otherwise nothing: `(?:p)?`. -/
  | optional (p : Pattern)
  deriving DecidableEq, Repr

namespace Pattern

/-- What the groups of a pattern captured, `none` for a group that was left out. -/
abbrev Captures := List (Option (List Char))

def groupCount : Pattern → Nat
  | literal _ => 0
  | lazyGroup => 1
  | seq p q => p.groupCount + q.groupCount
  | optional p => p.groupCount

/-- The ways to cut a text behind a run without line feeds, shorter runs first. -/
def lazyRuns : List Char → List (List Char × List Char)
  | [] => [([], [])]
  | c :: rest =>
    ([], c :: rest) ::
      if c = '\n' then [] else (lazyRuns rest).map fun cut => (c :: cut.1, cut.2)

/-- The ways in which a pattern matches the front of a text, with what follows, in the order in
which a search that backtracks comes upon them. -/
def attempts : Pattern → List Char → List (Captures × List Char)
  | literal text, s => (text.toList.isPrefixOf? s).toList.map fun rest => ([], rest)
  | lazyGroup, s => (lazyRuns s).map fun cut => ([some cut.1], cut.2)
  | seq p q, s =>
    (p.attempts s).flatMap fun first =>
      (q.attempts first.2).map fun second => (first.1 ++ second.1, second.2)
  | optional p, s => p.attempts s ++ [(List.replicate p.groupCount none, s)]

/-- The match that a search at the front of a text returns. -/
def firstMatch? (p : Pattern) (s : List Char) : Option (Captures × List Char) :=
  (p.attempts s).head?

def captures? (p : Pattern) (s : List Char) : Option Captures :=
  (p.firstMatch? s).map Prod.fst

/-- A match behind a captured run. -/
def behind (run : List Char) (found : Captures × List Char) : Captures × List Char :=
  (some run :: found.1, found.2)

variable {β : Type} {s : List Char}

theorem firstMatch?_literal (text : String) (s : List Char) :
    (literal text).firstMatch? s = (text.toList.isPrefixOf? s).map fun rest => ([], rest) := by
  rw [firstMatch?, attempts, List.head?_map, Option.head?_toList]

theorem firstMatch?_literal_append (text : String) (rest : List Char) :
    (literal text).firstMatch? (text.toList ++ rest) = some ([], rest) := by
  have hrest : text.toList.isPrefixOf? (text.toList ++ rest) = some rest :=
    List.isPrefixOf?_eq_some_iff_append_eq.mpr rfl
  rw [firstMatch?_literal, hrest, Option.map_some]

theorem firstMatch?_literal_eq_none {text : String} (h : ∀ rest, s ≠ text.toList ++ rest) :
    (literal text).firstMatch? s = none := by
  rw [firstMatch?_literal, Option.map_eq_none_iff, Option.eq_none_iff_forall_ne_some]
  intro rest hrest
  exact h rest (List.isPrefixOf?_eq_some_iff_append_eq.mp hrest).symm

/-- A text matches in one way at most, so nothing is tried again behind it. -/
theorem firstMatch?_literal_seq (text : String) (q : Pattern) (s : List Char) :
    ((literal text).seq q).firstMatch? s =
      ((literal text).firstMatch? s).bind fun found => q.firstMatch? found.2 := by
  rw [firstMatch?_literal, firstMatch?, attempts, attempts]
  cases text.toList.isPrefixOf? s with
  | none => rfl
  | some rest => simp [firstMatch?]

theorem firstMatch?_lazyGroup_seq (q : Pattern) (s : List Char) :
    (lazyGroup.seq q).firstMatch? s =
      (lazyRuns s).findSome? fun cut => (q.firstMatch? cut.2).map (behind cut.1) := by
  rw [firstMatch?, attempts, attempts, List.flatMap_map, List.head?_flatMap]
  simp only [List.head?_map]
  rfl

theorem firstMatch?_optional (p : Pattern) (s : List Char) :
    p.optional.firstMatch? s =
      some ((p.firstMatch? s).getD (List.replicate p.groupCount none, s)) := by
  rw [firstMatch?, attempts, List.head?_append, firstMatch?]
  cases (p.attempts s).head? <;> rfl

/-- A search behind a lazy group tries the empty run first, then those with one more character. -/
theorem findSome?_lazyRuns_cons (c : Char) (s : List Char)
    (found : List Char × List Char → Option β) :
    (lazyRuns (c :: s)).findSome? found = (found ([], c :: s)).or
      (if c = '\n' then none else (lazyRuns s).findSome? fun cut => found (c :: cut.1, cut.2)) := by
  rw [lazyRuns, List.findSome?_cons]
  by_cases hc : c = '\n'
  · rw [if_pos hc, if_pos hc]
    cases found ([], c :: s) <;> rfl
  · rw [if_neg hc, if_neg hc, List.findSome?_map]
    cases found ([], c :: s) <;> rfl

end Pattern

end Text

namespace ParamName

open Text Pattern

variable {α β : Type} {s : List Char}

/-! ## Lazy groups in front of brackets -/

/-- Where what follows a lazy group needs `]` and then always matches, the group captures all up to
the first `]`. -/
theorem findSome?_lazyRuns_bracket {follow : List Char → Option α} {found : List Char → α}
    (hbracket : ∀ rest, follow (']' :: rest) = some (found rest))
    (hother : ∀ s, (∀ rest, s ≠ ']' :: rest) → follow s = none) (s : List Char)
    (capture : List Char → α → β) :
    (lazyRuns s).findSome? (fun cut => (follow cut.2).map (capture cut.1)) =
      (readBracketed? s).map fun read => capture read.1 (found read.2) := by
  induction s generalizing capture with
  | nil =>
    rw [lazyRuns, List.findSome?_singleton, hother [] (by simp), readBracketed?, Option.map_none,
      Option.map_none]
  | cons c rest ih =>
    rw [findSome?_lazyRuns_cons, readBracketed?]
    by_cases hc : c = ']'
    · rw [hc, hbracket, Option.map_some, Option.some_or, if_pos rfl, Option.map_some]
    · rw [hother (c :: rest) (by simp [hc]), Option.map_none, Option.none_or, if_neg hc]
      by_cases hline : c = '\n'
      · rw [if_pos hline, if_pos hline, Option.map_none]
      · rw [if_neg hline, if_neg hline, ih fun run => capture (c :: run), Option.map_map]
        rfl

/-- Where no `]` stands in the first line, nothing that needs one follows a lazy group. -/
theorem findSome?_lazyRuns_eq_none {follow : List Char → Option α}
    (hother : ∀ s, (∀ rest, s ≠ ']' :: rest) → follow s = none) (h : readBracketed? s = none)
    (capture : List Char → α → β) :
    (lazyRuns s).findSome? (fun cut => (follow cut.2).map (capture cut.1)) = none := by
  induction s generalizing capture with
  | nil => rw [lazyRuns, List.findSome?_singleton, hother [] (by simp), Option.map_none]
  | cons c rest ih =>
    rw [readBracketed?] at h
    by_cases hc : c = ']'
    · rw [if_pos hc] at h
      contradiction
    · rw [findSome?_lazyRuns_cons, hother (c :: rest) (by simp [hc]), Option.map_none,
        Option.none_or]
      by_cases hline : c = '\n'
      · rw [if_pos hline]
      · rw [if_neg hc, if_neg hline, Option.map_eq_none_iff] at h
        rw [if_neg hline, ih h fun run => capture (c :: run)]

/-- Where `][` follows a lazy group, and behind it a pattern that fails only for want of a `]`, the
group captures all up to the first `][`: where that fails, each longer run fails too. -/
theorem findSome?_lazyRuns_field {follow operation : List Char → Option α}
    (hends : ∀ rest, follow (']' :: '[' :: rest) = operation rest)
    (hother : ∀ s, (∀ rest, s ≠ ']' :: '[' :: rest) → follow s = none)
    (hfails : ∀ rest, operation rest = none → readBracketed? rest = none) (s : List Char)
    (capture : List Char → α → β) :
    (lazyRuns s).findSome? (fun cut => (follow cut.2).map (capture cut.1)) =
      (readField? s).bind fun read => (operation read.2).map (capture read.1) := by
  induction s generalizing capture with
  | nil =>
    rw [lazyRuns, List.findSome?_singleton, hother [] (by simp), readField?, Option.map_none,
      Option.bind_none]
  | cons c rest ih =>
    rw [findSome?_lazyRuns_cons]
    by_cases hshape : ∃ tail, c :: rest = ']' :: '[' :: tail
    · obtain ⟨tail, heq⟩ := hshape
      obtain ⟨rfl, rfl⟩ := List.cons_eq_cons.mp heq
      rw [hends, readField?, Option.bind_some]
      cases htail : operation tail with
      | some found => rw [Option.map_some, Option.some_or]
      | none =>
        -- a longer field would need another `][`, and its `]` would end this operation
        have hneeds : ∀ s, (∀ rest, s ≠ ']' :: rest) → follow s = none := fun s hs =>
          hother s fun rest => hs ('[' :: rest)
        have hbrackets : readBracketed? ('[' :: tail) = none := by
          rw [readBracketed?, if_neg (by decide), if_neg (by decide), hfails tail htail,
            Option.map_none]
        rw [if_neg (by decide), findSome?_lazyRuns_eq_none hneeds hbrackets fun run =>
          capture (']' :: run), Option.map_none, Option.none_or]
    · have hshape : ∀ tail, c :: rest ≠ ']' :: '[' :: tail := not_exists.mp hshape
      rw [hother (c :: rest) hshape, Option.map_none, Option.none_or, readField?_cons hshape]
      by_cases hline : c = '\n'
      · rw [if_pos hline, if_pos hline, Option.bind_none]
      · rw [if_neg hline, if_neg hline, ih fun run => capture (c :: run), Option.bind_map]
        rfl

/-! ## The pattern -/

/-- `[(.*?)]`, a label in its brackets. -/
def labelPattern : Pattern :=
  (literal "[").seq (lazyGroup.seq (literal "]"))

/-- `(.*?)](?:[(.*?)])?`, from the operation on. -/
def operationPattern : Pattern :=
  lazyGroup.seq ((literal "]").seq labelPattern.optional)

/-- The pattern of the names of filter parameters, `filters[(.*?)][(.*?)](?:[(.*?)])?`. -/
def pattern : Pattern :=
  (literal opening).seq (lazyGroup.seq ((literal "][").seq operationPattern))

/-- The parts of a name from the captures of the pattern: the field, the operation, and for the
field of labels the name of a label, if one was captured and is not empty. -/
def ofCaptures? : Captures → Option ParamName
  | [some field, some operation, label] =>
    let field := String.ofList field
    let label := if field = Key.labels then label.filter (!·.isEmpty) else none
    some ⟨field, String.ofList operation, label.map String.ofList⟩
  | _ => none

theorem firstMatch?_labelPattern_bracket (rest : List Char) :
    labelPattern.firstMatch? ('[' :: rest) =
      (readBracketed? rest).map fun read => ([some read.1], read.2) := by
  have hopen : (literal "[").firstMatch? ('[' :: rest) = some ([], rest) :=
    firstMatch?_literal_append "[" rest
  have hclose : ∀ rest, (literal "]").firstMatch? (']' :: rest) = some ([], rest) :=
    firstMatch?_literal_append "]"
  rw [labelPattern, firstMatch?_literal_seq, hopen, Option.bind_some, firstMatch?_lazyGroup_seq]
  apply findSome?_lazyRuns_bracket hclose
  intro s hs
  exact firstMatch?_literal_eq_none hs

theorem firstMatch?_labelPattern_eq_none (h : ∀ rest, s ≠ '[' :: rest) :
    labelPattern.firstMatch? s = none := by
  rw [labelPattern, firstMatch?_literal_seq, firstMatch?_literal_eq_none h, Option.bind_none]

/-- What the optional part of the pattern makes of a text, which it never refuses. -/
def labelMatch (s : List Char) : Captures × List Char :=
  (labelPattern.firstMatch? s).getD ([none], s)

/-- The optional part captures the name of a label, or an empty text, or nothing. -/
theorem captures_labelMatch (s : List Char) :
    ∃ label, (labelMatch s).1 = [label] ∧ label.filter (!·.isEmpty) = readLabelName? s := by
  by_cases hopen : ∃ rest, s = '[' :: rest
  · obtain ⟨rest, rfl⟩ := hopen
    rw [labelMatch, firstMatch?_labelPattern_bracket, readLabelName?]
    cases hread : readBracketed? rest with
    | none => exact ⟨none, rfl, rfl⟩
    | some read =>
      refine ⟨some read.1, rfl, ?_⟩
      simp only [Option.filter_some]
      cases read.1.isEmpty <;> rfl
  · have hopen (rest : List Char) : s ≠ '[' :: rest := fun heq => hopen ⟨rest, heq⟩
    refine ⟨none, ?_, ?_⟩
    · rw [labelMatch, firstMatch?_labelPattern_eq_none hopen]
      rfl
    · rw [readLabelName?]
      · rfl
      · exact hopen

theorem firstMatch?_operationPattern (s : List Char) :
    operationPattern.firstMatch? s =
      (readBracketed? s).map fun read => behind read.1 (labelMatch read.2) := by
  rw [operationPattern, firstMatch?_lazyGroup_seq]
  refine findSome?_lazyRuns_bracket ?_ ?_ s behind
  · intro rest
    have hclose : (literal "]").firstMatch? (']' :: rest) = some ([], rest) :=
      firstMatch?_literal_append "]" rest
    rw [firstMatch?_literal_seq, hclose, Option.bind_some, firstMatch?_optional]
    rfl
  · intro s hs
    rw [firstMatch?_literal_seq, firstMatch?_literal_eq_none hs, Option.bind_none]

theorem firstMatch?_pattern (s : List Char) :
    pattern.firstMatch? s = ((literal opening).firstMatch? s).bind fun start =>
      (readField? start.2).bind fun read =>
        (operationPattern.firstMatch? read.2).map (behind read.1) := by
  rw [pattern, firstMatch?_literal_seq]
  congr 1
  funext start
  rw [firstMatch?_lazyGroup_seq]
  refine findSome?_lazyRuns_field ?_ ?_ ?_ start.2 behind
  · intro rest
    have hends : (literal "][").firstMatch? (']' :: '[' :: rest) = some ([], rest) :=
      firstMatch?_literal_append "][" rest
    rw [firstMatch?_literal_seq, hends, Option.bind_some]
  · intro s hs
    rw [firstMatch?_literal_seq, firstMatch?_literal_eq_none hs, Option.bind_none]
  · intro rest hrest
    rwa [firstMatch?_operationPattern, Option.map_eq_none_iff] at hrest

/-- A name is taken apart into what the first match of the pattern captures. -/
theorem parse?_eq_captures (name : String) :
    parse? name = (pattern.captures? name.toList).bind ofCaptures? := by
  rw [captures?, firstMatch?_pattern, firstMatch?_literal, parse?]
  cases opening.toList.isPrefixOf? name.toList with
  | none => rfl
  | some rest =>
    simp only [Option.bind_eq_bind, Option.bind_some, Option.map_some]
    cases readField? rest with
    | none => rfl
    | some field =>
      simp only [Option.bind_some, firstMatch?_operationPattern]
      cases readBracketed? field.2 with
      | none => rfl
      | some operation =>
        obtain ⟨label, hlabel, hname⟩ := captures_labelMatch operation.2
        simp only [Option.bind_some, Option.map_some, behind, hlabel, ofCaptures?, hname]

example : pattern.captures? "filters[a]]b][][c".toList =
    some [some "a]]b".toList, some [], none] := by
  decide +kernel

end ParamName

end FilterBar
