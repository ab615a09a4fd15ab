import FilterBar.Completion.Basic
import FilterBar.Proofs.Utf8Order

/-!
# The ranking of candidates

With nothing typed all candidates are offered as they are listed.  Otherwise those are offered whose
label or value scores, whatever the scores are: the better first, of equal scores in the byte order
of their labels, and of equal labels as they are listed.  There is one such list only.
-/

namespace FilterBar.Completion

open Text

variable {score : Scorer} {typed : String} {listed result : List Completion}

/-! ## Scores -/

/-- The scores of a candidate: that of its label and that of its value, as far as they fit. -/
def scores (score : Scorer) (typed : String) (c : Completion) : List Int :=
  (score c.label typed).toList ++ (score c.value typed).toList

/-- The label or the value of the candidate fits what is typed. -/
def fits (score : Scorer) (typed : String) (c : Completion) : Bool :=
  !(c.scores score typed).isEmpty

/-- The greatest of the scores of a candidate that fits. -/
def bestScore (score : Scorer) (typed : String) (c : Completion) : Int :=
  (c.scores score typed).max?.getD 0

theorem score?_eq_max? (c : Completion) : c.score? score typed = (c.scores score typed).max? := by
  unfold score? scores
  cases score c.label typed with
  | none => cases score c.value typed <;> rfl
  | some a => cases score c.value typed <;> rfl

theorem score?_of_fits {c : Completion} (h : c.fits score typed = true) :
    c.score? score typed = some (c.bestScore score typed) := by
  rw [score?_eq_max?, bestScore]
  have hne : c.scores score typed ≠ [] := by simpa [fits] using h
  cases hmax : (c.scores score typed).max? with
  | none => exact absurd (List.max?_eq_none_iff.mp hmax) hne
  | some best => rfl

theorem score?_of_not_fits {c : Completion} (h : ¬c.fits score typed = true) :
    c.score? score typed = none := by
  rw [score?_eq_max?]
  have hnil : c.scores score typed = [] := by simpa [fits] using h
  rw [hnil]
  rfl

/-- The candidates are scored that fit. -/
theorem filterMap_score? (listed : List Completion) :
    (listed.filterMap fun c => (c.score? score typed).map fun s => (s, c)) =
      (listed.filter (fits score typed)).map fun c => (c.bestScore score typed, c) := by
  induction listed with
  | nil => rfl
  | cons c rest ih =>
    by_cases hc : c.fits score typed = true
    · rw [List.filter_cons_of_pos hc, List.map_cons, ← ih]
      apply List.filterMap_cons_some
      rw [score?_of_fits hc]
      rfl
    · rw [List.filter_cons_of_neg hc, ← ih]
      apply List.filterMap_cons_none
      rw [score?_of_not_fits hc]
      rfl

/-! ## The order -/

/-- Of two candidates with their places in a list the first goes before the second: it has a better
score, or the same and the lesser label in the order of bytes, or the same label and the earlier
place. -/
def GoesBefore (score : Scorer) (typed : String) (a b : Completion × Nat) : Prop :=
  b.1.bestScore score typed < a.1.bestScore score typed ∨
    a.1.bestScore score typed = b.1.bestScore score typed ∧
      (Utf8.encode a.1.label.toList < Utf8.encode b.1.label.toList ∨
        a.1.label = b.1.label ∧ a.2 < b.2)

/-- The list that is offered of the candidates that are listed: all of them if nothing is typed, and
otherwise those that fit, each as often as it is listed, in their order. -/
structure IsRanking (score : Scorer) (typed : String) (listed result : List Completion) : Prop where
  of_empty : typed = "" → result = listed
  of_typed : typed ≠ "" → ∃ ranked : List (Completion × Nat),
    ranked.Perm (listed.filter (fits score typed)).zipIdx ∧
      ranked.Pairwise (GoesBefore score typed) ∧ result = ranked.map (·.1)

theorem GoesBefore.asymm {a b : Completion × Nat} (hab : GoesBefore score typed a b) :
    ¬GoesBefore score typed b a := by
  intro hba
  rcases hab with hscore | ⟨hscore, hab⟩
  · rcases hba with hscore' | ⟨hscore', -⟩
    · exact Int.lt_asymm hscore hscore'
    · exact Int.lt_irrefl _ (hscore' ▸ hscore)
  · rcases hba with hscore' | ⟨-, hba⟩
    · exact Int.lt_irrefl _ (hscore ▸ hscore')
    · rcases hab with hlabel | ⟨hlabel, hplace⟩
      · rcases hba with hlabel' | ⟨hlabel', -⟩
        · exact List.lt_asymm hlabel hlabel'
        · exact List.lt_irrefl _ (hlabel' ▸ hlabel)
      · rcases hba with hlabel' | ⟨-, hplace'⟩
        · exact List.lt_irrefl _ (hlabel ▸ hlabel')
        · exact Nat.lt_asymm hplace hplace'

/-- Two lists that are offered of the same candidates are equal. -/
theorem IsRanking.unique {result' : List Completion} (h : IsRanking score typed listed result)
    (h' : IsRanking score typed listed result') : result = result' := by
  by_cases htyped : typed = ""
  · rw [h.of_empty htyped, h'.of_empty htyped]
  · obtain ⟨ranked, hperm, hsorted, rfl⟩ := h.of_typed htyped
    obtain ⟨ranked', hperm', hsorted', rfl⟩ := h'.of_typed htyped
    have heq : ranked = ranked' :=
      List.Perm.eq_of_pairwise (fun _ _ _ _ hab hba => absurd hba hab.asymm) hsorted hsorted'
        (hperm.trans hperm'.symm)
    rw [heq]

/-! ## Sorting -/

/-- How two candidates that fit are compared when they are sorted. -/
def notAfter (score : Scorer) (typed : String) (a b : Completion) : Bool :=
  ranksBefore (a.bestScore score typed, a) (b.bestScore score typed, b)

theorem notAfter_iff {a b : Completion} :
    notAfter score typed a b = true ↔
      b.bestScore score typed < a.bestScore score typed ∨
        b.bestScore score typed = a.bestScore score typed ∧ a.label ≤ b.label := by
  simp [notAfter, ranksBefore]

theorem notAfter_trans (a b c : Completion) (hab : notAfter score typed a b = true)
    (hbc : notAfter score typed b c = true) : notAfter score typed a c = true := by
  rw [notAfter_iff] at hab hbc ⊢
  rcases hab with hab | ⟨hab, hlabel⟩
  · rcases hbc with hbc | ⟨hbc, -⟩
    · exact Or.inl (Int.lt_trans hbc hab)
    · exact Or.inl (hbc ▸ hab)
  · rcases hbc with hbc | ⟨hbc, hlabel'⟩
    · exact Or.inl (hab ▸ hbc)
    · exact Or.inr ⟨hbc.trans hab, String.le_trans hlabel hlabel'⟩

theorem notAfter_total (a b : Completion) :
    (notAfter score typed a b || notAfter score typed b a) = true := by
  rw [Bool.or_eq_true, notAfter_iff, notAfter_iff]
  rcases Int.lt_trichotomy (a.bestScore score typed) (b.bestScore score typed) with hlt | heq | hgt
  · exact Or.inr (Or.inl hlt)
  · rcases String.le_total a.label b.label with hlabel | hlabel
    · exact Or.inl (Or.inr ⟨heq.symm, hlabel⟩)
    · exact Or.inr (Or.inr ⟨heq, hlabel⟩)
  · exact Or.inl (Or.inl hgt)

/-- A sort that keeps the places of candidates that compare alike puts them in their order. -/
theorem goesBefore_of_zipIdxLE {a b : Completion × Nat} (hne : a.2 ≠ b.2)
    (h : List.zipIdxLE (notAfter score typed) a b = true) : GoesBefore score typed a b := by
  have hle : notAfter score typed a.1 b.1 = true ∧
      (notAfter score typed b.1 a.1 = true → a.2 ≤ b.2) := by
    simp only [List.zipIdxLE] at h
    split at h
    next hab =>
      refine ⟨hab, fun hba => ?_⟩
      rw [if_pos hba] at h
      exact of_decide_eq_true h
    next => contradiction
  obtain ⟨hab, htie⟩ := hle
  rcases notAfter_iff.mp hab with hscore | ⟨hscore, hlabel⟩
  · exact Or.inl hscore
  · refine Or.inr ⟨hscore.symm, ?_⟩
    by_cases hlt : a.1.label < b.1.label
    · exact Or.inl (Utf8.encode_lt_encode_iff.mpr (String.lt_iff.mp hlt))
    · have heq : a.1.label = b.1.label := String.le_antisymm hlabel (String.not_lt.mp hlt)
      have hba : notAfter score typed b.1 a.1 = true :=
        notAfter_iff.mpr (Or.inr ⟨hscore.symm, heq ▸ String.le_refl _⟩)
      exact Or.inr ⟨heq, Nat.lt_of_le_of_ne (htie hba) hne⟩

theorem rank_eq_mergeSort (h : typed ≠ "") (listed : List Completion) :
    rank score typed listed =
      (listed.filter (fits score typed)).mergeSort (notAfter score typed) := by
  have hempty : typed.isEmpty = false := by simpa using h
  have hsort := List.map_mergeSort (l := listed.filter (fits score typed))
    (r := notAfter score typed) (s := ranksBefore) (f := fun c => (c.bestScore score typed, c))
    fun _ _ _ _ => rfl
  simp only [rank, hempty, Bool.false_eq_true, if_false, filterMap_score?]
  rw [← hsort, List.map_map]
  exact List.map_id _

/-- Sorting the candidates that fit ranks them. -/
theorem isRanking_rank (score : Scorer) (typed : String) (listed : List Completion) :
    IsRanking score typed listed (rank score typed listed) where
  of_empty := by
    rintro rfl
    rfl
  of_typed := by
    intro htyped
    let found := listed.filter (fits score typed)
    let ranked := found.zipIdx.mergeSort (List.zipIdxLE (notAfter score typed))
    have hperm : ranked.Perm found.zipIdx := List.mergeSort_perm _ _
    have hplaces : (ranked.map Prod.snd).Nodup := by
      rw [(hperm.map Prod.snd).nodup_iff, List.zipIdx_map_snd]
      exact List.nodup_range'
    have hsorted : ranked.Pairwise fun a b => List.zipIdxLE (notAfter score typed) a b = true :=
      List.pairwise_mergeSort (List.zipIdxLE_trans notAfter_trans)
        (List.zipIdxLE_total notAfter_total) found.zipIdx
    refine ⟨ranked, hperm, ?_, ?_⟩
    · refine (hsorted.and (List.pairwise_map.mp hplaces)).imp ?_
      rintro a b ⟨hle, hne⟩
      exact goesBefore_of_zipIdxLE hne hle
    · rw [rank_eq_mergeSort htyped, List.mergeSort_zipIdx]

/-- What is offered is the one ranking of the candidates. -/
theorem rank_eq_iff : rank score typed listed = result ↔ IsRanking score typed listed result := by
  constructor
  · rintro rfl
    exact isRanking_rank score typed listed
  · exact (isRanking_rank score typed listed).unique

/-! ## The three stages -/

/-- The keys that are offered in the order of the language are those with no related key in use. -/
theorem keyCandidates_eq (v : View) (used : List String) :
    keyCandidates v used =
      (v.language.filter fun k => ∀ name ∈ k.related, name ∉ used).map fun k =>
        ⟨k.label, k.insertText, .key, k.description⟩ := by
  have hhidden (k : LanguageKey) :
      (!k.isHiddenBy used) = decide (∀ name ∈ k.related, name ∉ used) := by
    rw [Bool.eq_iff_iff]
    simp [LanguageKey.isHiddenBy]
  simp only [keyCandidates, hhidden]

variable {v : View} {key : String} {k : LanguageKey}

theorem comparators_of_languageKey? (score : Scorer) (h : v.languageKey? key = some k)
    (typed : String) :
    comparators score v key typed =
      rank score typed (k.comparators.map fun op => ⟨op.label, op.token, .comparator, ""⟩) := by
  rw [comparators, comparatorCandidates, h]

theorem values_of_languageKey? (score : Scorer) (d : Directory) (h : v.languageKey? key = some k)
    (typed : String) :
    values score d v key typed =
      if k.source = .pickDate then [datePicker]
      else rank score typed
        ((d.resolve k.source).map fun choice => ⟨choice.label, choice.value, .value, ""⟩) := by
  rw [values, h]
  rfl

/-- A list is offered for the keys of a view exactly if it is the ranking of the keys, in the order
of the language, of which no related key is in use; for the comparators of a key exactly if it is the
ranking of those that the key lists; and for its values exactly if it is the ranking of what the
source of the key offers, or the date picker alone if dates are picked.  Nothing is offered for a
text that is no key. -/
theorem offered_are_ranked (score : Scorer) (d : Directory) (v : View) (used : List String)
    (key typed : String) (result : List Completion) :
    (keys score v used typed = result ↔
      IsRanking score typed
        ((v.language.filter fun k => ∀ name ∈ k.related, name ∉ used).map fun k =>
          ⟨k.label, k.insertText, .key, k.description⟩) result) ∧
    (match v.languageKey? key with
      | none => comparators score v key typed = [] ∧ values score d v key typed = []
      | some k =>
        (comparators score v key typed = result ↔
          IsRanking score typed (k.comparators.map fun op => ⟨op.label, op.token, .comparator, ""⟩)
            result) ∧
        if k.source = .pickDate then
          values score d v key typed = [⟨"Pick a date", "$\x7bpickDate\x7d", .value, ""⟩]
        else
          values score d v key typed = result ↔
            IsRanking score typed
              ((d.resolve k.source).map fun choice => ⟨choice.label, choice.value, .value, ""⟩)
              result) := by
  constructor
  · rw [keys, keyCandidates_eq]
    exact rank_eq_iff
  · cases hkey : v.languageKey? key with
    | none =>
      refine ⟨?_, ?_⟩
      · rw [comparators, comparatorCandidates, hkey]
        simp [rank]
      · rw [values, hkey]
    | some k =>
      refine ⟨?_, ?_⟩
      · rw [comparators_of_languageKey? score hkey]
        exact rank_eq_iff
      · rw [values_of_languageKey? score d hkey]
        split
        · rfl
        · exact rank_eq_iff

end FilterBar.Completion
