import FilterBar.Proofs.WrittenMarkup
import FilterBar.Report.Summary

/-!
# The mark of a summary

The mark of a summary depends on what the tags of the suites state, and the list of failing tests on
the elements within them.  A failing test therefore excludes the mark of success exactly if some tag
states a failure or an error; a suite whose tag states none, or states them otherwise than as a
number, does not.  This holds as long as the stated counts add up to a number of 64 bits, in which
the totals are computed.
-/

namespace FilterBar.Summary

open Markup

/-- What stands in front of the totals: the heading and the line on the run. -/
def opening (o : SummaryOptions) : String :=
  "## Test report summary\n\n" ++
    (match o.run with
      | some run => run.header ++ "\n\n"
      | none => "")

/-- A summary carries the mark of success where its totals stand. -/
def IsSuccess (o : SummaryOptions) (text : String) : Prop :=
  (opening o ++ "✅").toList <+: text.toList

instance {o : SummaryOptions} {text : String} : Decidable (IsSuccess o text) :=
  inferInstanceAs (Decidable (_ <+: _))

/-! ## Totals in 64 bits -/

/-- The sum of a count over suites. -/
def exactTotal (suites : List Suite) (count : Suite → Nat) : Nat :=
  suites.foldr (fun s sum => count s + sum) 0

/-- How many failures and errors suites state together. -/
def stated (suites : List Suite) : Nat :=
  exactTotal suites (·.failures) + exactTotal suites (·.errors)

theorem exactTotal_eq_zero_iff {suites : List Suite} {count : Suite → Nat} :
    exactTotal suites count = 0 ↔ ∀ s ∈ suites, count s = 0 := by
  induction suites with
  | nil => simp [exactTotal]
  | cons s more ih =>
    rw [exactTotal] at ih
    rw [exactTotal, List.foldr_cons, Nat.add_eq_zero_iff, ih, List.forall_mem_cons]

theorem toNat_total (suites : List Suite) (count : Suite → Nat) :
    (total suites count).toNat = exactTotal suites count % UInt64.size := by
  have hfold (start : UInt64) :
      (suites.foldl (fun sum s => sum + UInt64.ofNat (count s)) start).toNat =
        (start.toNat + exactTotal suites count) % UInt64.size := by
    induction suites generalizing start with
    | nil => exact (Nat.mod_eq_of_lt start.toNat_lt).symm
    | cons s more ih =>
      rw [List.foldl_cons, ih, UInt64.toNat_add, UInt64.toNat_ofNat']
      simp only [exactTotal, List.foldr_cons, UInt64.size]
      omega
  rw [total, hfold, UInt64.toNat_zero, Nat.zero_add]

/-- Where the totals fit 64 bits, they are zero only if every count is. -/
theorem total_add_total_eq_zero_iff {suites : List Suite} (h : stated suites < UInt64.size) :
    total suites (·.failures) + total suites (·.errors) = 0 ↔
      ∀ s ∈ suites, s.failures = 0 ∧ s.errors = 0 := by
  have hstated : (total suites (·.failures) + total suites (·.errors)).toNat = stated suites := by
    rw [UInt64.toNat_add, toNat_total, toNat_total]
    simp only [stated, UInt64.size] at *
    omega
  rw [← UInt64.toNat_inj, hstated, UInt64.toNat_zero, stated, Nat.add_eq_zero_iff,
    exactTotal_eq_zero_iff, exactTotal_eq_zero_iff]
  exact ⟨fun h s hs => ⟨h.1 s hs, h.2 s hs⟩,
    fun h => ⟨fun s hs => (h s hs).1, fun s hs => (h s hs).2⟩⟩

theorem mark_eq {suites : List Suite} (h : stated suites < UInt64.size) :
    mark suites = if ∀ s ∈ suites, s.failures = 0 ∧ s.errors = 0 then "✅" else "❌" := by
  simp only [mark, total_add_total_eq_zero_iff h]

/-! ## The mark of a summary -/

/-- Behind its opening, a summary of some suites starts with their mark. -/
theorem render_eq {suites : List Suite} (h : suites ≠ []) (o : SummaryOptions) :
    ∃ rest, render suites o = opening o ++ (mark suites ++ rest) := by
  have hopening : render suites o = opening o ++
      (if suites.isEmpty then "No test reports found.\n"
       else totals suites ++ (if o.onlyErrors then "" else table suites) ++ failing suites o) := rfl
  obtain ⟨counts, htotals⟩ : ∃ counts, totals suites = mark suites ++ counts := by
    simp only [totals, String.append_assoc]
    exact ⟨_, rfl⟩
  rw [hopening, List.isEmpty_eq_false_iff.mpr h, htotals]
  simp only [Bool.false_eq_true, if_false, String.append_assoc]
  exact ⟨_, rfl⟩

theorem isSuccess_opening_append {o : SummaryOptions} {text : String} :
    IsSuccess o (opening o ++ text) ↔ "✅".toList <+: text.toList := by
  rw [IsSuccess, String.toList_append, String.toList_append, List.prefix_append_right_inj]

/-- A summary carries the mark of success if there are suites and none states a failure or an
error, whatever its options are. -/
theorem isSuccess_render_iff {suites : List Suite} (h : stated suites < UInt64.size)
    (o : SummaryOptions) :
    IsSuccess o (render suites o) ↔
      suites ≠ [] ∧ ∀ s ∈ suites, s.failures = 0 ∧ s.errors = 0 := by
  by_cases hne : suites = []
  · subst hne
    have hnone : render [] o = opening o ++ "No test reports found.\n" := rfl
    rw [hnone, isSuccess_opening_append]
    exact ⟨fun h => absurd h (by decide), fun h => absurd rfl h.1⟩
  · obtain ⟨rest, hrender⟩ := render_eq hne o
    rw [hrender, isSuccess_opening_append, mark_eq h, String.toList_append]
    split
    next hzero => exact ⟨fun _ => ⟨hne, hzero⟩, fun _ => List.prefix_append _ _⟩
    next hnot =>
      exact ⟨fun h => absurd (List.cons_prefix_cons.mp h).1 (by decide), fun h => absurd h.2 hnot⟩

/-! ## What tags state -/

/-- A number other than zero and below 2^64, in digits, with a plus sign or without. -/
def IsPositiveCount (s : List Char) : Prop :=
  ∃ digits, (s = digits ∨ s = '+' :: digits) ∧ (∀ d ∈ digits, d.isDigit = true) ∧
    0 < Text.ofDigits digits ∧ Text.ofDigits digits < Nat.pow 2 64

/-- A tag states a count other than zero in the first of its attributes of a name. -/
def StatesCount (inner : List Char) (name : String) : Prop :=
  ∃ value, valueOf? (attributes inner) name = some value ∧ IsPositiveCount (Text.trim value)

theorem exists_parseCount?_eq (s : List Char) :
    ∃ digits, (s = digits ∧ (∀ rest, s ≠ '+' :: rest) ∨ s = '+' :: digits) ∧
      parseCount? s =
        if !digits.isEmpty && digits.all Char.isDigit then
          if Text.ofDigits digits < Nat.pow 2 64 then some (Text.ofDigits digits) else none
        else none := by
  by_cases hsign : ∃ rest, s = '+' :: rest
  · obtain ⟨digits, rfl⟩ := hsign
    exact ⟨digits, Or.inr rfl, parseCount?.eq_1 digits⟩
  · have hne : ∀ rest, s ≠ '+' :: rest := not_exists.mp hsign
    exact ⟨s, Or.inl ⟨rfl, hne⟩, parseCount?.eq_2 s hne⟩

theorem isPositiveCount_iff {s : List Char} :
    IsPositiveCount s ↔ ∃ n, parseCount? s = some n ∧ 0 < n := by
  obtain ⟨digits, hs, hparse⟩ := exists_parseCount?_eq s
  rw [hparse]
  constructor
  · rintro ⟨digits', hs', hdigit, hpos, hbound⟩
    have heq : digits' = digits := by
      rcases hs with ⟨rfl, hne⟩ | rfl
      · rcases hs' with rfl | rfl
        · rfl
        · exact absurd rfl (hne digits')
      · rcases hs' with rfl | hs'
        · exact absurd (hdigit '+' List.mem_cons_self) (by decide)
        · exact (List.cons.inj hs').2.symm
    subst heq
    have hempty : digits'.isEmpty = false := by
      cases digits' with
      | nil => exact absurd hpos (by decide)
      | cons d more => rfl
    exact ⟨_, by simp [hempty, hbound, List.all_eq_true.mpr hdigit], hpos⟩
  · rintro ⟨n, hn, hpos⟩
    split at hn
    next hdigits =>
      split at hn
      next hbound =>
        obtain rfl := Option.some.inj hn
        have hdigit := List.all_eq_true.mp (Bool.and_eq_true_iff.mp hdigits).2
        exact ⟨digits, hs.imp_left And.left, hdigit, hpos, hbound⟩
      next => contradiction
    next => contradiction

theorem countOf_pos_iff {inner : List Char} {name : String} :
    0 < Suite.countOf (attributes inner) name ↔ StatesCount inner name := by
  rw [Suite.countOf, StatesCount]
  cases hvalue : valueOf? (attributes inner) name with
  | none => simp
  | some value =>
    simp only [Option.bind_some, Option.some.injEq, exists_eq_left', isPositiveCount_iff]
    cases parseCount? (Text.trim value) <;> simp

/-- Over a failing test, the mark of success is left out exactly if the tag of some suite states a
failure or an error, as long as the stated counts add up to a number of 64 bits. -/
theorem not_isSuccess_iff (reports : List String) (o : SummaryOptions)
    (hstated : stated (reports.flatMap Suite.ofReport) < UInt64.size)
    (hfailing : ∃ report ∈ reports, ∃ s ∈ Suite.ofReport report, s.failed ≠ []) :
    ¬ IsSuccess o (render (reports.flatMap Suite.ofReport) o) ↔
      ∃ report ∈ reports, ∃ found ∈ sections (readTag "testsuite") report.toList,
        StatesCount found.1 "failures" ∨ StatesCount found.1 "errors" := by
  have hsuites : reports.flatMap Suite.ofReport ≠ [] := by
    obtain ⟨report, hreport, s, hs, -⟩ := hfailing
    exact List.ne_nil_of_mem (List.mem_flatMap.mpr ⟨report, hreport, hs⟩)
  have hstates (found : List Char × List Char) :
      ¬ ((Suite.ofTag found.1 found.2).failures = 0 ∧ (Suite.ofTag found.1 found.2).errors = 0) ↔
        StatesCount found.1 "failures" ∨ StatesCount found.1 "errors" := by
    rw [not_and_or, ← countOf_pos_iff, ← countOf_pos_iff, Nat.pos_iff_ne_zero, Nat.pos_iff_ne_zero]
    rfl
  rw [isSuccess_render_iff hstated, and_iff_right hsuites]
  simp only [List.mem_flatMap, Suite.ofReport, List.mem_map, ← hstates]
  constructor
  · intro h
    obtain ⟨s, hs⟩ := not_forall.mp h
    obtain ⟨⟨report, hreport, found, hfound, rfl⟩, hnot⟩ := Classical.not_imp.mp hs
    exact ⟨report, hreport, found, hfound, hnot⟩
  · rintro ⟨report, hreport, found, hfound, hnot⟩ hall
    exact hnot (hall _ ⟨report, hreport, found, hfound, rfl⟩)

/-- A suite that states its failure, in a run with a header. -/
theorem not_isSuccess_iff_stated :
    ¬ IsSuccess ⟨true, some ⟨"acme/sift", some "main", none, "https://github.com", none⟩⟩
      (render
        (["<testsuite failures=\" +01\"><testcase><failure/></testcase></testsuite>"].flatMap
          Suite.ofReport)
        ⟨true, some ⟨"acme/sift", some "main", none, "https://github.com", none⟩⟩) := by
  have hread : Suite.ofReport
      "<testsuite failures=\" +01\"><testcase><failure/></testcase></testsuite>" =
        [⟨"unnamed", 0, 1, 0, 0, .zero, [⟨"", "", "failure"⟩]⟩] := by decide +kernel
  refine (not_isSuccess_iff _ _ ?_ ⟨_, List.mem_cons_self, ?_⟩).mpr
    ⟨_, List.mem_cons_self,
      (" failures=\" +01\"".toList, "<testcase><failure/></testcase></testsuite>".toList),
      by decide +kernel, Or.inl ⟨" +01".toList, by decide +kernel, "01".toList,
        Or.inr (by decide), List.all_eq_true.mp (by decide), by decide⟩⟩
  · rw [List.flatMap_singleton, hread]
    decide
  · rw [hread]
    exact ⟨_, List.mem_cons_self, List.cons_ne_nil _ _⟩

/-- A suite that states no failure and no error is marked as a success over its failing test. -/
theorem isSuccess_of_unstated :
    let report := "<testsuite name=\"core\" tests=\"1\">" ++
      "<testcase name=\"reads\" classname=\"Codec\"><failure message=\"boom\"/></testcase>" ++
      "</testsuite>"
    (∃ s ∈ Suite.ofReport report, s.failed ≠ []) ∧
      IsSuccess ⟨false, none⟩ (render ([report].flatMap Suite.ofReport) ⟨false, none⟩) := by
  intro report
  have hread : Suite.ofReport report =
      [⟨"core", 1, 0, 0, 0, .zero, [⟨"Codec", "reads", "boom"⟩]⟩] := by decide +kernel
  rw [List.flatMap_singleton, hread]
  refine ⟨⟨_, List.mem_cons_self, List.cons_ne_nil _ _⟩, ?_⟩
  exact (isSuccess_render_iff (by decide) _).mpr (by decide)

end FilterBar.Summary
