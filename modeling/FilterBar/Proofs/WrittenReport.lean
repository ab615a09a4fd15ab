import Mathlib.Data.List.Forall2
import FilterBar.Proofs.StoredInstant
import FilterBar.Proofs.WrittenMarkup
import FilterBar.Report.Suite

/-!
# Reports are read back

A report is written as elements within elements: suites, their cases, and in a case what it has
skipped, printed or failed with.  Scanning finds the tags of the suites, within the text up to the
next suite those of the cases, and within the text up to the next case that of a failure.  All other
tags have other names, and no value or text holds a tag, so each suite and each failed case is read
as it was written, and nothing else is.
-/

namespace FilterBar

/-- The first line of a text, without the line feed that ends it and a carriage return in front of
that. -/
def Text.IsFirstLine (text line : List Char) : Prop :=
  '\n' ∉ line ∧
    (text = line ∨ ∃ rest, text = line ++ '\r' :: '\n' :: rest ∨
      (text = line ++ '\n' :: rest ∧ line.getLast? ≠ some '\r'))

theorem Text.isFirstLine_firstLine (s : List Char) : IsFirstLine s (firstLine s) := by
  rw [firstLine]
  by_cases hfeed : '\n' ∈ s
  · obtain ⟨line, rest, rfl, hline⟩ := List.eq_append_cons_of_mem hfeed
    rw [cut?_append hline]
    by_cases hreturn : line.getLast? = some '\r'
    · obtain ⟨front, rfl⟩ := List.getLast?_eq_some_iff.mp hreturn
      simp only [hreturn, if_true, List.dropLast_concat]
      exact ⟨fun hmem => hline (List.mem_append_left _ hmem), Or.inr ⟨rest, Or.inl (by simp)⟩⟩
    · simp only [hreturn, if_false]
      exact ⟨hline, Or.inr ⟨rest, Or.inr ⟨rfl, hreturn⟩⟩⟩
  · rw [cut?_of_notMem hfeed]
    exact ⟨hfeed, Or.inl rfl⟩

/-- A test case with what its failure says, if it failed. -/
structure WrittenCase where
  className : String
  name : String
  failure : Option String

structure WrittenSuite where
  name : String
  tests : UInt64
  failures : UInt64
  errors : UInt64
  skipped : UInt64
  cases : List WrittenCase

open Markup

/-! ## Reports as they are written -/

/-- What a case may hold beside a failure: text, and elements for what was skipped or printed. -/
inductive WritesAside : List Char → Prop
  | text (t : List Char) : WritesAside (escape t)
  | element {name : String} {s rest : List Char} (t : List Char)
      (hname : name ∈ ["skipped", "system-out"]) (h : WritesElement name [] IsText s)
      (hrest : WritesAside rest) : WritesAside (escape t ++ (s ++ rest))

/-- The content of a case: one failure or error with its message if the case failed, and none
otherwise. -/
inductive WritesContent : Option String → List Char → Prop
  | passed {s : List Char} (h : WritesAside s) : WritesContent none s
  | failed {message kind : String} {before element behind : List Char}
      (hkind : kind ∈ ["failure", "error"]) (hbefore : WritesAside before)
      (helement : WritesElement kind [("message", message)] IsText element)
      (hbehind : WritesAside behind) :
      WritesContent (some message) (before ++ (element ++ behind))

/-- Members of a list one after the other, with text around them. -/
inductive WritesEach {α : Type} (writes : α → List Char → Prop) : List α → List Char → Prop
  | nil (t : List Char) : WritesEach writes [] (escape t)
  | cons {a : α} {more : List α} {s rest : List Char} (t : List Char) (h : writes a s)
      (hrest : WritesEach writes more rest) :
      WritesEach writes (a :: more) (escape t ++ (s ++ rest))

def WrittenCase.attributes (c : WrittenCase) : List (String × String) :=
  [("classname", c.className), ("name", c.name)]

def WrittenCase.Writes (c : WrittenCase) : List Char → Prop :=
  WritesElement "testcase" c.attributes (WritesContent c.failure)

def WrittenSuite.attributes (w : WrittenSuite) : List (String × String) :=
  [("name", w.name), ("tests", toString w.tests.toNat), ("failures", toString w.failures.toNat),
    ("errors", toString w.errors.toNat), ("skipped", toString w.skipped.toNat)]

def WrittenSuite.Writes (w : WrittenSuite) : List Char → Prop :=
  WritesElement "testsuite" w.attributes (WritesEach WrittenCase.Writes w.cases)

/-- What stands in front of a document: text, and perhaps a declaration. -/
inductive WritesProlog : List Char → Prop
  | text (t : List Char) : WritesProlog (escape t)
  | declaration {d : List Char} (t : List Char) (hd : '<' ∉ d) :
      WritesProlog ('<' :: ("?".toList ++ (d ++ ("?>".toList ++ escape t))))

/-- A report on suites, with or without a root around them. -/
inductive WritesReport (suites : List WrittenSuite) : List Char → Prop
  | plain {prolog s : List Char} (hprolog : WritesProlog prolog)
      (h : WritesEach WrittenSuite.Writes suites s) : WritesReport suites (prolog ++ s)
  | rooted {prolog s : List Char} (t : List Char) (hprolog : WritesProlog prolog)
      (h : WritesElement "testsuites" [] (WritesEach WrittenSuite.Writes suites) s) :
      WritesReport suites (prolog ++ (s ++ escape t))

/-! ## What is to be read -/

structure WrittenCase.IsReadAs (c : WrittenCase) (f : FailedCase) : Prop where
  className_eq : f.className = c.className
  name_eq : f.name = c.name
  message_eq : ∃ message, c.failure = some message ∧
    Text.IsFirstLine message.toList f.message.toList

/-- A suite is read with its name, its counts and its failed cases in their order. -/
structure WrittenSuite.IsReadAs (w : WrittenSuite) (s : Suite) : Prop where
  name_eq : s.name = w.name
  tests_eq : s.tests = w.tests.toNat
  failures_eq : s.failures = w.failures.toNat
  errors_eq : s.errors = w.errors.toNat
  skipped_eq : s.skipped = w.skipped.toNat
  failed : List.Forall₂ WrittenCase.IsReadAs (w.cases.filter (·.failure.isSome)) s.failed

/-! ## Tags of other names -/

variable {s rest : List Char}

theorem WritesAside.hasTagsOf (h : WritesAside s) :
    HasTagsOf ["skipped", "system-out", "/"] s := by
  induction h with
  | text t => exact hasTagsOf_of_isText ⟨t, rfl⟩
  | element t hname h _ ih =>
    have hnames : ∀ name ∈ ["skipped", "system-out"], '<' ∉ name.toList ∧
        name ∈ ["skipped", "system-out", "/"] := by decide
    obtain ⟨hlt, hmem⟩ := hnames _ hname
    refine hasTagsOf_append (hasTagsOf_of_isText ⟨t, rfl⟩) (hasTagsOf_append ?_ ih)
    exact hasTagsOf_element h hlt hmem (by decide) fun body hbody => hasTagsOf_of_isText hbody

theorem WritesContent.hasTagsOf {failure : Option String} (h : WritesContent failure s) :
    HasTagsOf ["skipped", "system-out", "/", "failure", "error"] s := by
  cases h with
  | passed h => exact h.hasTagsOf.mono (by decide)
  | failed hkind hbefore helement hbehind =>
    have hkinds : ∀ kind ∈ ["failure", "error"], '<' ∉ kind.toList ∧
        kind ∈ ["skipped", "system-out", "/", "failure", "error"] := by decide
    obtain ⟨hlt, hmem⟩ := hkinds _ hkind
    refine hasTagsOf_append (hbefore.hasTagsOf.mono (by decide))
      (hasTagsOf_append ?_ (hbehind.hasTagsOf.mono (by decide)))
    exact hasTagsOf_element helement hlt hmem (by decide) fun body hbody =>
      hasTagsOf_of_isText hbody

theorem WritesEach.hasTagsOf {α : Type} {writes : α → List Char → Prop} {as : List α}
    {names : List String} (h : WritesEach writes as s)
    (hwrites : ∀ a s, writes a s → HasTagsOf names s) : HasTagsOf names s := by
  induction h with
  | nil t => exact hasTagsOf_of_isText ⟨t, rfl⟩
  | cons t h _ ih =>
    exact hasTagsOf_append (hasTagsOf_of_isText ⟨t, rfl⟩) (hasTagsOf_append (hwrites _ _ h) ih)

theorem WritesEach.hasTagsOf_cases {cases : List WrittenCase}
    (h : WritesEach WrittenCase.Writes cases s) :
    HasTagsOf ["testcase", "skipped", "system-out", "/", "failure", "error"] s :=
  h.hasTagsOf fun _ _ hcase => hasTagsOf_element hcase (by decide) (by decide) (by decide)
    fun _ hbody => hbody.hasTagsOf.mono (by decide)

/-- The reader of suites passes over the tags of cases and all that stands in them. -/
theorem isQuiet_testsuite
    (h : HasTagsOf ["testcase", "skipped", "system-out", "/", "failure", "error"] s) :
    IsQuiet (readTag "testsuite") s := by
  refine isQuiet_readTag ?_ h
  intro name hname rest
  fin_cases hname <;> rfl

theorem isQuiet_testcase (h : HasTagsOf ["skipped", "system-out", "/", "failure", "error"] s) :
    IsQuiet (readTag "testcase") s := by
  refine isQuiet_readTag ?_ h
  intro name hname rest
  fin_cases hname <;> rfl

theorem readFailure_of_ne {c : Char} (h : c ≠ '<') (rest : List Char) :
    Suite.readFailure (c :: rest) = none := by
  rw [Suite.readFailure, readOpening_of_ne h, readOpening_of_ne h]

theorem isQuiet_failure (h : HasTagsOf ["skipped", "system-out", "/"] s) :
    IsQuiet Suite.readFailure s := by
  refine isQuiet_of_hasTagsOf (fun c hc => readFailure_of_ne hc) ?_ h
  intro name hname rest
  fin_cases hname <;> rfl

/-! ## Failed cases -/

/-- The text of an attribute is what was written. -/
theorem textOf_of_writes {required : List (String × String)} {inner last : List Char}
    (h : WritesRequired required inner) (hnodup : (required.map (·.1)).Nodup)
    (hlast : last = [] ∨ last = ['/']) {name value : String} (hmem : (name, value) ∈ required)
    (default : String) : Suite.textOf (attributes (inner ++ last)) name default = value := by
  rw [Suite.textOf, valueOf?_of_writes h hnodup hmem hlast]
  exact String.ofList_toList

/-- A failure is found by its opening tag, whatever stands behind that. -/
theorem sections_failure {kind : String} (hkind : kind ∈ ["failure", "error"])
    {before inner rest : List Char} (hbefore : WritesAside before) (hend : '>' ∉ inner)
    (hword : startsWord (inner ++ '>' :: rest) = false) :
    ∃ text later, sections Suite.readFailure (before ++ (openingTag kind inner ++ rest)) =
      ((kind, inner), text) :: later := by
  have hread : Suite.readFailure (openingTag kind inner ++ rest) =
      some ((kind, inner), 1 + kind.toList.length + inner.length) := by
    have hopening : readOpening kind (openingTag kind inner ++ rest) = _ :=
      readOpening_openingTag hend hword
    rcases List.mem_pair.mp hkind with rfl | rfl
    · rw [Suite.readFailure, hopening]
    · have hfailure : readOpening "failure" (openingTag "error" inner ++ rest) = none := rfl
      rw [Suite.readFailure, hopening, hfailure]
  rw [sections, isQuiet_failure hbefore.hasTagsOf]
  rw [openingTag, List.cons_append] at hread ⊢
  rw [sectionsFrom, hread]
  exact ⟨_, _, rfl⟩

/-- What is reported of a case: its failure if it failed, and nothing otherwise. -/
def WrittenCase.IsReportedAs (c : WrittenCase) : Option FailedCase → Prop
  | none => c.failure = none
  | some f => c.IsReadAs f

theorem isReportedAs_failedCase? {c : WrittenCase} {inner last body text : List Char}
    (hinner : WritesRequired c.attributes inner) (hlast : last = [] ∨ last = ['/'] ∧ body = [])
    (hbody : WritesContent c.failure body) (htext : HasTagsOf ["/"] text) :
    c.IsReportedAs (Suite.failedCase? (inner ++ last) (body ++ text)) := by
  generalize hfailure : c.failure = failure at hbody
  cases hbody with
  | passed haside =>
    have hnone : sections Suite.readFailure (body ++ text) = [] := by
      rw [sections, sectionsFrom_of_isQuiet (isQuiet_failure
        (hasTagsOf_append haside.hasTagsOf (htext.mono (by decide))))]
    rw [Suite.failedCase?, hnone, ite_self]
    exact hfailure
  | @failed message kind before element behind hkind hbefore helement hbehind =>
    have hlt : '<' ∉ kind.toList := by
      rcases List.mem_pair.mp hkind with rfl | rfl <;> decide
    obtain ⟨inner', last', body', ending, rfl, hinner', -, -, hlast'⟩ :=
      exists_of_element helement hlt
    -- a case that closes itself has no content, so this one does not
    have hnil : last = [] := by
      rcases hlast with hlast | ⟨-, hempty⟩
      · exact hlast
      · simp [openingTag] at hempty
    subst hnil
    have hclosing : isSelfClosing inner = false := by
      obtain ⟨_, _, -, -, hwrites⟩ := hinner
      exact isSelfClosing_of_writes hwrites
    have htag := hinner'.ends_tag (hlast'.imp_right And.left)
      (body' ++ (ending ++ (behind ++ text)))
    obtain ⟨_, _, hsections⟩ := sections_failure hkind hbefore htag.1 htag.2
    have htext {name value : String} (hmem : (name, value) ∈ c.attributes) :
        Suite.textOf (attributes inner) name "" = value := by
      have hvalue := textOf_of_writes hinner (by simp [WrittenCase.attributes]) (Or.inl rfl) hmem ""
      rwa [List.append_nil] at hvalue
    have hmessage : Suite.messageOf kind (inner' ++ last') =
        String.ofList (Text.firstLine message.toList) := by
      rw [Suite.messageOf, valueOf?_of_writes hinner' (by simp) List.mem_cons_self
        (hlast'.imp_right And.left)]
    simp only [List.append_assoc, List.append_nil] at hsections ⊢
    rw [Suite.failedCase?, hclosing, hsections]
    exact
      { className_eq := htext (by simp [WrittenCase.attributes])
        name_eq := htext (by simp [WrittenCase.attributes])
        message_eq := ⟨message, hfailure, by
          simpa [hmessage] using Text.isFirstLine_firstLine message.toList⟩ }

/-! ## Suites -/

/-- Of members of a list, one is found for each in their order, with text and closing tags at most
behind the last. -/
theorem WritesEach.sectionsFrom {α : Type} {writes : α → List Char → Prop} {as : List α}
    {name : String} {P : α → List Char × List Char → Prop} (h : WritesEach writes as s)
    (hwrites : ∀ a s, writes a s → Markup.IsFoundAs name (P a) s)
    (hquiet : ∀ t, HasTagsOf ["/"] t → IsQuiet (readTag name) t) (hrest : HasTagsOf ["/"] rest) :
    HasTagsOf ["/"] (Markup.sectionsFrom (readTag name) 0 (s ++ rest)).1 ∧
      List.Forall₂ P as (Markup.sectionsFrom (readTag name) 0 (s ++ rest)).2 := by
  have htext (t : List Char) : HasTagsOf ["/"] (escape t) := hasTagsOf_of_isText ⟨t, rfl⟩
  induction h with
  | nil t =>
    have hall := hasTagsOf_append (htext t) hrest
    rw [sectionsFrom_of_isQuiet (hquiet _ hall)]
    exact ⟨hall, List.Forall₂.nil⟩
  | cons t ha _ ih =>
    obtain ⟨inner, body, hsections, hP⟩ := hwrites _ _ ha
    rw [List.append_assoc, List.append_assoc, hquiet _ (htext t), hsections]
    exact ⟨hasTagsOf_append (htext t) (hasTagsOf_of_notMem List.not_mem_nil),
      List.Forall₂.cons (hP _ ih.1) ih.2⟩

theorem forall₂_filterMap {β : Type} {f : β → Option FailedCase} {cases : List WrittenCase}
    {found : List β} (h : List.Forall₂ (fun c b => c.IsReportedAs (f b)) cases found) :
    List.Forall₂ WrittenCase.IsReadAs (cases.filter (·.failure.isSome)) (found.filterMap f) := by
  induction h with
  | nil => exact List.Forall₂.nil
  | @cons c b _ _ hcase _ ih =>
    cases hf : f b with
    | none =>
      have hfailure : c.failure = none := by rwa [hf] at hcase
      rw [List.filter_cons_of_neg (by simp [hfailure]), List.filterMap_cons_none hf]
      exact ih
    | some failed =>
      have hread : c.IsReadAs failed := by rwa [hf] at hcase
      obtain ⟨message, hfailure, -⟩ := hread.message_eq
      rw [List.filter_cons_of_pos (by simp [hfailure]), List.filterMap_cons_some hf]
      exact List.Forall₂.cons hread ih

theorem forall₂_failedCases {cases : List WrittenCase} (h : WritesEach WrittenCase.Writes cases s)
    (hrest : HasTagsOf ["/"] rest) :
    List.Forall₂ WrittenCase.IsReadAs (cases.filter (·.failure.isSome))
      (Suite.failedCases (s ++ rest)) := by
  have hending (t : List Char) (ht : HasTagsOf ["/"] t) : IsQuiet (readTag "testcase") t :=
    isQuiet_testcase (ht.mono (by decide))
  refine forall₂_filterMap (h.sectionsFrom (P := fun c found => c.IsReportedAs
    (Suite.failedCase? found.1 found.2)) ?_ hending hrest).2
  intro c s hcase
  exact isFoundAs_element hcase (by decide) (fun _ hbody => isQuiet_testcase hbody.hasTagsOf)
    hending fun _ _ _ _ hinner hlast hbody htext =>
      isReportedAs_failedCase? hinner hlast hbody htext

theorem Text.trim_of_forall {s : List Char} (h : ∀ c ∈ s, Text.isBlank c = false) :
    Text.trim s = s := by
  have hself (t : List Char) (ht : ∀ c ∈ t, Text.isBlank c = false) :
      t.dropWhile Text.isBlank = t := by
    cases t with
    | nil => rfl
    | cons c more => exact List.dropWhile_cons_of_neg (by simp [ht c List.mem_cons_self])
  rw [Text.trim, Text.trimStart, hself s h, Text.trimEnd,
    hself s.reverse fun c hc => h c (List.mem_reverse.mp hc), List.reverse_reverse]

/-- A count below 2^64 is read from its digits. -/
theorem parseCount?_toString (n : UInt64) :
    parseCount? (Text.trim (toString n.toNat).toList) = some n.toNat := by
  have htext : (toString n.toNat).toList = Text.digits n.toNat := String.toList_ofList
  have hdigit : ∀ d ∈ Text.digits n.toNat, d.isDigit = true := fun _ hd =>
    Text.isDigit_of_mem_paddedDigits (Text.paddedDigits_zero n.toNat ▸ hd)
  have hvalue : Text.ofDigits (Text.digits n.toNat) = n.toNat := by
    rw [← Text.paddedDigits_zero, Text.ofDigits_paddedDigits]
  have hbound : n.toNat < Nat.pow 2 64 := n.toNat_lt
  have hempty : (Text.digits n.toNat).isEmpty = false :=
    List.isEmpty_eq_false_iff.mpr Nat.toDigits_ne_nil
  have hsign : ∀ rest, Text.digits n.toNat = '+' :: rest → False := by
    intro rest heq
    exact absurd (hdigit '+' (heq ▸ List.mem_cons_self)) (by decide)
  rw [htext, Text.trim_of_forall fun d hd => Text.isBlank_of_isDigit (hdigit d hd),
    parseCount?.eq_2 _ hsign, hvalue]
  simp [hempty, hbound, List.all_eq_true.mpr hdigit]

theorem isReadAs_ofTag {w : WrittenSuite} {inner last body text : List Char}
    (hinner : WritesRequired w.attributes inner) (hlast : last = [] ∨ last = ['/'])
    (hbody : WritesEach WrittenCase.Writes w.cases body) (htext : HasTagsOf ["/"] text) :
    w.IsReadAs (Suite.ofTag (inner ++ last) (body ++ text)) := by
  have hnodup : (w.attributes.map (·.1)).Nodup := by simp [WrittenSuite.attributes]
  have hcount {name : String} {n : UInt64} (hmem : (name, toString n.toNat) ∈ w.attributes) :
      Suite.countOf (attributes (inner ++ last)) name = n.toNat := by
    rw [Suite.countOf, valueOf?_of_writes hinner hnodup hmem hlast, Option.bind_some,
      parseCount?_toString, Option.getD_some]
  exact
    { name_eq := textOf_of_writes hinner hnodup hlast (by simp [WrittenSuite.attributes]) _
      tests_eq := hcount (by simp [WrittenSuite.attributes])
      failures_eq := hcount (by simp [WrittenSuite.attributes])
      errors_eq := hcount (by simp [WrittenSuite.attributes])
      skipped_eq := hcount (by simp [WrittenSuite.attributes])
      failed := forall₂_failedCases hbody htext }

theorem WrittenSuite.Writes.isFoundAs {w : WrittenSuite} (h : w.Writes s) :
    Markup.IsFoundAs "testsuite" (fun found => w.IsReadAs (Suite.ofTag found.1 found.2)) s :=
  isFoundAs_element h (by decide) (fun _ hbody => isQuiet_testsuite hbody.hasTagsOf_cases)
    (fun _ hending => isQuiet_testsuite (hending.mono (by decide)))
    fun _ _ _ _ hinner hlast hbody htext =>
      isReadAs_ofTag hinner (hlast.imp_right And.left) hbody htext

/-! ## Whole reports -/

theorem WritesProlog.hasTagsOf (h : WritesProlog s) : HasTagsOf ["?", "testsuites"] s := by
  cases h with
  | text t => exact hasTagsOf_of_isText ⟨t, rfl⟩
  | declaration t hd =>
    apply hasTagsOf_tag List.mem_cons_self
    simp [hd, notMem_escape (show '<' ∈ special by decide)]

/-- Around its suites, a report holds no tag of a suite. -/
theorem WritesReport.exists_suites {suites : List WrittenSuite} (h : WritesReport suites s) :
    ∃ front body back, s = front ++ (body ++ back) ∧ HasTagsOf ["?", "testsuites"] front ∧
      WritesEach WrittenSuite.Writes suites body ∧ HasTagsOf ["/"] back := by
  cases h with
  | @plain prolog s hprolog h =>
    exact ⟨prolog, s, [], by simp, hprolog.hasTagsOf, h, hasTagsOf_of_notMem List.not_mem_nil⟩
  | @rooted prolog s t hprolog h =>
    obtain ⟨inner, last, body, ending, rfl, hinner, hbody, hending, hlast⟩ :=
      exists_of_element h (by decide)
    have hslash : '<' ∉ last := by
      rcases hlast with rfl | ⟨rfl, -⟩ <;> decide
    refine ⟨prolog ++ openingTag "testsuites" (inner ++ last), body, ending ++ escape t,
      by simp, hasTagsOf_append hprolog.hasTagsOf ?_, hbody,
      hasTagsOf_append hending (hasTagsOf_of_isText ⟨t, rfl⟩)⟩
    apply hasTagsOf_tag (by decide)
    simp [hinner.notMem, hslash]

theorem isQuiet_front (h : HasTagsOf ["?", "testsuites"] s) : IsQuiet (readTag "testsuite") s := by
  refine isQuiet_readTag ?_ h
  intro name hname rest
  fin_cases hname <;> rfl

/-- A text for each member of a list gives a text for the list. -/
theorem exists_writesEach {α : Type} {writes : α → List Char → Prop} (h : ∀ a, ∃ s, writes a s)
    (as : List α) : ∃ s, WritesEach writes as s := by
  induction as with
  | nil => exact ⟨_, .nil []⟩
  | cons a more ih =>
    obtain ⟨s, hs⟩ := h a
    obtain ⟨rest, hrest⟩ := ih
    exact ⟨_, .cons [] hs hrest⟩

theorem exists_writesContent (failure : Option String) : ∃ s, WritesContent failure s := by
  cases failure with
  | none => exact ⟨_, .passed (.text [])⟩
  | some message =>
    have hname : ∀ name ∈ ["message"], IsName name := by decide
    have hbody : IsText (escape []) := ⟨[], rfl⟩
    obtain ⟨element, helement⟩ :=
      exists_writesElement "failure" [("message", message)] hname hbody
    exact ⟨_, .failed List.mem_cons_self (.text []) helement (.text [])⟩

theorem WrittenCase.exists_writes (c : WrittenCase) : ∃ s, c.Writes s := by
  have hnames : ∀ name ∈ ["classname", "name"], IsName name := by decide
  obtain ⟨body, hbody⟩ := exists_writesContent c.failure
  exact exists_writesElement "testcase" c.attributes hnames hbody

theorem WrittenSuite.exists_writes (w : WrittenSuite) : ∃ s, w.Writes s := by
  have hnames : ∀ name ∈ ["name", "tests", "failures", "errors", "skipped"], IsName name := by
    decide
  obtain ⟨body, hbody⟩ := exists_writesEach WrittenCase.exists_writes w.cases
  exact exists_writesElement "testsuite" w.attributes hnames hbody

/-- Every list of suites can be written, and however it is written, one suite is read for each in
their order, with its name and counts and with its failed cases and no others. -/
theorem Suite.ofReport_of_writes (suites : List WrittenSuite) :
    (∃ report : String, WritesReport suites report.toList) ∧
      ∀ report : String, WritesReport suites report.toList →
        List.Forall₂ WrittenSuite.IsReadAs suites (Suite.ofReport report) := by
  constructor
  · obtain ⟨body, hbody⟩ := exists_writesEach WrittenSuite.exists_writes suites
    refine ⟨String.ofList (escape [] ++ body), ?_⟩
    rw [String.toList_ofList]
    exact .plain (.text []) hbody
  · intro report h
    obtain ⟨front, body, back, hreport, hfront, hbody, hback⟩ := h.exists_suites
    have hfound := (hbody.sectionsFrom (fun _ _ hsuite => hsuite.isFoundAs)
      (fun _ hending => isQuiet_testsuite (hending.mono (by decide))) hback).2
    rw [Suite.ofReport, sections, hreport, isQuiet_front hfront, List.forall₂_map_right_iff]
    exact hfound

/-- A report with a root, attributes in another order, entities and a message of two lines. -/
theorem Suite.ofReport_of_writes_rooted :
    List.Forall₂ WrittenSuite.IsReadAs
      [⟨"io & json", 2, 1, 0, 0,
        [⟨"Codec", "reads", none⟩, ⟨"Codec", "a < b", some "1 > 2\nat 7"⟩]⟩]
      (Suite.ofReport (
        "<?xml version=\"1.0\"?><testsuites>" ++
        "<testsuite tests=\"2\" failures=\"1\" errors=\"0\" skipped=\"0\" name=\"io &amp; json\">" ++
        "<testcase name=\"reads\" classname=\"Codec\"/>" ++
        "<testcase classname=\"Codec\" name=\"a &lt; b\">" ++
        "<failure message=\"1 &gt; 2\nat 7\">&lt;b&gt;</failure></testcase>" ++
        "</testsuite></testsuites>")) := by
  have hreads : WrittenCase.Writes ⟨"Codec", "reads", none⟩ _ :=
    .closed ⟨[("name", "reads"), ("classname", "Codec")], [], by decide, by decide,
      writesAttributes_spaced (by decide)⟩ (.passed (.text []))
  have hfails : WrittenCase.Writes ⟨"Codec", "a < b", some "1 > 2\nat 7"⟩ _ :=
    .filled ⟨[("classname", "Codec"), ("name", "a < b")], [], by decide, by decide,
      writesAttributes_spaced (by decide)⟩
      (.failed List.mem_cons_self (.text [])
        (.filled ⟨[("message", "1 > 2\nat 7")], [], by decide, by decide,
          writesAttributes_spaced (by decide)⟩ ⟨"<b>".toList, rfl⟩ isSpace_nil) (.text []))
      isSpace_nil
  have hsuite : WrittenSuite.Writes ⟨"io & json", 2, 1, 0, 0,
      [⟨"Codec", "reads", none⟩, ⟨"Codec", "a < b", some "1 > 2\nat 7"⟩]⟩ _ :=
    .filled ⟨[("tests", "2"), ("failures", "1"), ("errors", "0"), ("skipped", "0"),
      ("name", "io & json")], [], by decide, by decide, writesAttributes_spaced (by decide)⟩
      (.cons [] hreads (.cons [] hfails (.nil []))) isSpace_nil
  have hreport : WritesReport [_] _ :=
    .rooted [] (.declaration (d := "xml version=\"1.0\"".toList) [] (by decide))
      (.filled ⟨[], [], by decide, by decide, writesAttributes_spaced (by decide)⟩
        (.cons [] hsuite (.nil [])) isSpace_nil)
  refine (Suite.ofReport_of_writes _).2 _ ((?_ : _ = String.toList _) ▸ hreport)
  simp only [String.toList_append]
  decide +kernel

end FilterBar
