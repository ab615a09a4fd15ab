import FilterBar.Proofs.ReadValues
import FilterBar.Proofs.SessionUrl
import FilterBar.Proofs.TimeRanges

/-!
# Filters as people create them

A filter that is read from a query is the one that a person creates from its key, comparator and
value, with the same texts.  Only two or more details that stand together under the key itself are
shown in another way: they are read with commas between them, and created with the first of them and
a count of the rest.
-/

namespace FilterBar

/-! ## Texts of values -/

theorem commaList_singleton (value : String) : commaList [value] = value :=
  String.intercalate_singleton

/-- The two ways to show a list agree where it has at most one member. -/
theorem commaList_eq_detailsLabel_iff (values : List String) :
    commaList values = detailsLabel values ↔ values.length < 2 := by
  match values with
  | [] => simp [commaList, detailsLabel]
  | [only] => simp [commaList_singleton, detailsLabel]
  | first :: second :: rest =>
    have hne : commaList (first :: second :: rest) ≠ detailsLabel (first :: second :: rest) := by
      simp only [commaList, String.intercalate_cons_cons, detailsLabel, String.append_assoc]
      intro heq
      -- behind the first entry stands a comma in one text and a blank in the other
      have hbehind := (String.append_right_inj first).mp heq
      rw [← String.toList_inj, String.toList_append, String.toList_append] at hbehind
      exact absurd (List.head_eq_of_cons_eq hbehind) (by decide)
    exact iff_of_false hne (by simp)

namespace Criterion

variable {k : FilterKey} {g : Criterion} {key : String} {op : Comparator} {value : FilterValue}

/-- The text that a created filter shows for a value that is no range of time. -/
def createdLabel (key : String) (value : FilterValue) : String :=
  if key = Key.details then detailsLabel value.items else commaList value.items

theorem createdLabel_eq_commaList (h : key = Key.details → value.items.length < 2) :
    createdLabel key value = commaList value.items := by
  unfold createdLabel
  split
  next hkey => exact ((commaList_eq_detailsLabel_iff _).mpr (h hkey)).symm
  next => rfl

theorem create_of_items (hfor : k.isFor key = true) (hallows : k.allows op = true)
    (hrange : value.isTimeRange = false) :
    create k key (some op) value = .ok (ofParts k key op value (createdLabel key value)) := by
  simp only [create, Option.getD_some, hfor, hallows, Bool.not_true, Bool.false_eq_true, if_false]
  cases value with
  | text text =>
    have hlabel : createdLabel key (.text text) = commaList [text] :=
      createdLabel_eq_commaList fun _ => Nat.one_lt_two
    rw [hlabel, commaList_singleton]
  | list values => rfl
  | timeRange start stop => contradiction

theorem create_of_timeRange (hfor : k.isFor Key.timeRange = true) (hallows : k.allows op = true)
    (start stop : Instant) :
    create k Key.timeRange (some op) (.timeRange start stop) =
      .ok (ofTimeRange k start stop op) := by
  simp only [create, Option.getD_some, hfor, hallows, Bool.not_true, Bool.false_eq_true, if_false,
    if_true]

/-- A criterion that shows its texts in some way is created with the texts of a created one. -/
theorem create_of_eq_ofParts (hfor : k.isFor g.key = true) (hallows : k.allows g.comparator = true)
    (hrange : g.value.isTimeRange = false) {label : String}
    (h : g = ofParts k g.key g.comparator g.value label) :
    create k g.key (some g.comparator) g.value =
      .ok { g with valueLabel := createdLabel g.key g.value } := by
  rw [create_of_items hfor hallows hrange, h]
  rfl

end Criterion

/-! ## Texts of criteria that are read -/

theorem Bracketed.label_fieldValue (k : FilterKey) (field : String) (op : Comparator)
    (ps : List FieldParam) :
    (fieldValue k field op ps).2 = commaList (fieldValue k field op ps).1.items := by
  unfold fieldValue
  split
  · rfl
  · exact (commaList_singleton _).symm

theorem Bracketed.eq_ofParts_of_mem_fieldCriteria {c : Configuration} {ps : List FieldParam}
    {g : Criterion} (h : g ∈ fieldCriteria c ps) :
    ∃ k, c.find? g.key = some k ∧
      g = Criterion.ofParts k g.key g.comparator g.value (commaList g.value.items) := by
  obtain ⟨k, first, rest, hk, -, -, hparts⟩ := exists_of_mem_fieldCriteria h
  have hvalue : g.value = (fieldValue k g.key g.comparator (first :: rest)).1 :=
    congrArg Criterion.value hparts
  refine ⟨k, hk, ?_⟩
  rwa [label_fieldValue, ← hvalue] at hparts

namespace Flat

variable {q : Query} {c : Configuration} {g : Criterion}

theorem eq_ofParts_of_mem_params (h : g ∈ q.toList.filterMap (paramCriterion? c)) :
    ∃ k, c.find? g.key = some k ∧
      g = Criterion.ofParts k g.key g.comparator g.value (commaList g.value.items) := by
  obtain ⟨param, -, hparam⟩ := List.mem_filterMap.mp h
  obtain ⟨-, -, k, hk, rfl⟩ := exists_of_paramCriterion? hparam
  exact ⟨k, hk, rfl⟩

theorem eq_ofParts_of_details? (h : details? q c = some g) :
    ∃ k, c.find? g.key = some k ∧
      g = Criterion.ofParts k g.key g.comparator g.value (detailsLabel g.value.items) := by
  obtain ⟨k, entries, hk, -, -, rfl⟩ := exists_of_details? h
  exact ⟨k, hk, rfl⟩

end Flat

/-- Several details that are read from parameters of the key itself, with commas between them.  In
the flat format those that are written under names of their own do not count. -/
def JoinsDetails (q : Query) (c : Configuration) (format : UrlFormat) (g : Criterion) : Prop :=
  g.key = Key.details ∧ 2 ≤ g.value.items.length ∧
    (format = .flat → g ∈ q.toList.filterMap (Flat.paramCriterion? c))

instance (q : Query) (c : Configuration) (format : UrlFormat) (g : Criterion) :
    Decidable (JoinsDetails q c format g) :=
  inferInstanceAs (Decidable (_ ∧ _ ∧ (_ → _)))

variable {q : Query} {c : Configuration} {format : UrlFormat} {g : Criterion}

theorem not_joinsDetails_of_isTimeRange (h : g.value.isTimeRange = true) :
    ¬ JoinsDetails q c format g := by
  rintro ⟨-, htwo, -⟩
  obtain ⟨start, stop, hvalue⟩ := FilterValue.exists_of_isTimeRange h
  rw [hvalue] at htwo
  contradiction

theorem createdLabel_of_not_joinsDetails
    (hparam : format = .flat → g ∈ q.toList.filterMap (Flat.paramCriterion? c))
    (hjoins : ¬ JoinsDetails q c format g) :
    Criterion.createdLabel g.key g.value = commaList g.value.items := by
  apply Criterion.createdLabel_eq_commaList
  intro hkey
  by_contra htwo
  exact hjoins ⟨hkey, not_lt.mp htwo, hparam⟩

/-- A criterion that is read shows its texts as a created one does, or with commas where several
details are read from the key itself. -/
theorem eq_ofParts_of_mem_decodeCriteria (h : g ∈ decodeCriteria q c format)
    (hrange : g.value.isTimeRange = false) :
    ∃ k, c.find? g.key = some k ∧
      g = Criterion.ofParts k g.key g.comparator g.value
        (if JoinsDetails q c format g then commaList g.value.items
         else Criterion.createdLabel g.key g.value) := by
  by_cases hparam : format = .flat → g ∈ q.toList.filterMap (Flat.paramCriterion? c)
  · obtain ⟨k, hk, hg⟩ : ∃ k, c.find? g.key = some k ∧
        g = Criterion.ofParts k g.key g.comparator g.value (commaList g.value.items) := by
      cases format with
      | bracketed =>
        exact Bracketed.eq_ofParts_of_mem_fieldCriteria
          (Bracketed.mem_fieldCriteria_of_mem_decode h hrange)
      | flat => exact Flat.eq_ofParts_of_mem_params (hparam rfl)
    refine ⟨k, hk, ?_⟩
    split
    next => exact hg
    next hjoins =>
      rw [createdLabel_of_not_joinsDetails hparam hjoins]
      exact hg
  · obtain ⟨rfl, hnone⟩ := Classical.not_imp.mp hparam
    have hdetails : Flat.details? q c = some g := by
      rcases Flat.mem_decode.mp h with htime | ⟨hmem | hdetails, -⟩
      · rw [Flat.isTimeRange_of_timeRange? htime] at hrange
        contradiction
      · contradiction
      · exact hdetails
    obtain ⟨k, hk, hg⟩ := Flat.eq_ofParts_of_details? hdetails
    refine ⟨k, hk, ?_⟩
    rw [if_neg fun hjoins => hnone (hjoins.2.2 rfl), Criterion.createdLabel,
      if_pos (Flat.key_of_details? hdetails)]
    exact hg

/-- The range of time of a query is read as it is created. -/
theorem create_of_rangeCriterion? (h : rangeCriterion? q c format = some g) :
    ∃ k, c.find? g.key = some k ∧ (k.allows g.comparator = true →
      Criterion.create k g.key (some g.comparator) g.value = .ok g) := by
  obtain ⟨k, start, stop, hk, -, -, rfl⟩ := rangeCriterion?_eq_some.mp h
  refine ⟨k, hk, fun hallows => ?_⟩
  have hfor : k.isFor Key.timeRange = true := (Configuration.mem_keys_of_find? hk).2
  exact Criterion.create_of_timeRange hfor hallows start stop

/-- A filter that is read is the one that is created from its key, comparator and value if the key
allows the comparator.  Only where several details are read from the key itself do the two differ,
and then in nothing but the text of the value. -/
theorem create_of_decodeFilters {ids : IdSupply} {f : Filter}
    (hf : f ∈ (decodeFilters ids q c format).1) :
    ∃ k, c.find? f.key = some k ∧ (k.allows f.comparator = true →
      (¬ JoinsDetails q c format f.toCriterion →
        Criterion.create k f.key (some f.comparator) f.value = .ok f.toCriterion) ∧
      (JoinsDetails q c format f.toCriterion →
        f.valueLabel = commaList f.value.items ∧
        detailsLabel f.value.items ≠ f.valueLabel ∧
        Criterion.create k f.key (some f.comparator) f.value =
          .ok { f.toCriterion with valueLabel := detailsLabel f.value.items })) := by
  have hg := toCriterion_mem_of_decodeFilters hf
  by_cases hrange : f.value.isTimeRange = true
  · obtain ⟨k, hk, hcreate⟩ :=
      create_of_rangeCriterion? (mem_decodeCriteria_isTimeRange.mp ⟨hg, hrange⟩)
    refine ⟨k, hk, fun hallows => ⟨fun _ => hcreate hallows, fun hjoins => ?_⟩⟩
    exact absurd hjoins (not_joinsDetails_of_isTimeRange hrange)
  · rw [Bool.not_eq_true] at hrange
    obtain ⟨k, hk, hparts⟩ := eq_ofParts_of_mem_decodeCriteria hg hrange
    have hlabel : f.valueLabel =
        if JoinsDetails q c format f.toCriterion then commaList f.value.items
        else Criterion.createdLabel f.key f.value :=
      congrArg Criterion.valueLabel hparts
    refine ⟨k, hk, fun hallows => ?_⟩
    have hfor : k.isFor f.key = true := (Configuration.mem_keys_of_find? hk).2
    have hcreate := Criterion.create_of_eq_ofParts hfor hallows hrange hparts
    constructor
    · intro hjoins
      rw [if_neg hjoins] at hlabel
      rw [hcreate, ← hlabel]
    · intro hjoins
      rw [if_pos hjoins] at hlabel
      obtain ⟨hkey, htwo, -⟩ := hjoins
      have hne : detailsLabel f.value.items ≠ f.valueLabel := by
        intro heq
        have hless := (commaList_eq_detailsLabel_iff _).mp (hlabel.symm.trans heq.symm)
        exact absurd htwo (not_le.mpr hless)
      rw [Criterion.createdLabel, if_pos hkey] at hcreate
      exact ⟨hlabel, hne, hcreate⟩

/-- Details under names of their own are read as they are created. -/
theorem create_of_decodeFilters_details :
    let q := Query.ofList [("details.env", .one "prod"), ("details.region", .one "eu")]
    let c := View.auditLogs.configuration
    let entries := FilterValue.list ["env:prod", "region:eu"]
    ∃ f ∈ (decodeFilters ⟨0, 0⟩ q c .flat).1, ∃ k, c.find? f.key = some k ∧
      f.value = entries ∧ f.valueLabel = "env:prod +1" ∧
      Criterion.create k f.key (some f.comparator) f.value = .ok f.toCriterion := by
  intro q c entries
  obtain ⟨f, hf, hvalue, hlabel, hallows, hjoins⟩ :
      ∃ f ∈ (decodeFilters ⟨0, 0⟩ q c .flat).1, f.value = entries ∧ f.valueLabel = "env:prod +1" ∧
        (c.find? f.key).all (·.allows f.comparator) = true ∧
        ¬ JoinsDetails q c .flat f.toCriterion := by
    decide +kernel
  obtain ⟨k, hk, hcreate⟩ := create_of_decodeFilters hf
  rw [hk, Option.all_some] at hallows
  exact ⟨f, hf, k, hk, hvalue, hlabel, (hcreate hallows).1 hjoins⟩

/-- The same details under the key itself are read with a comma between them, and created with a
count. -/
theorem details_read_otherwise_than_created :
    let q := Query.ofList [("filters[details][EQUALS]", .one "env:prod,region:eu")]
    let c := View.auditLogs.configuration
    ∃ f ∈ (decodeFilters ⟨0, 0⟩ q c .bracketed).1, ∃ k ∈ c.keys,
      c.find? f.key = some k ∧ k.allows f.comparator = true ∧
      f.valueLabel = "env:prod, region:eu" ∧
      Criterion.create k f.key (some f.comparator) f.value =
        .ok { f.toCriterion with valueLabel := "env:prod +1" } := by
  decide +kernel

end FilterBar
