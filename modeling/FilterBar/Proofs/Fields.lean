import Mathlib.Data.List.Nodup
import FilterBar.Proofs.Query
import FilterBar.Proofs.Keyed
import FilterBar.Url.Codec

/-!
# Reading the bracketed format field by field

Every filter that is read comes from the parameters of one field, and those depend only on the names
that count for that field.  So a query is read as one filter at most for each key, and parameters of
fields without a key make no difference.
-/

namespace FilterBar

/-! ## First occurrences -/

theorem nodup_eraseDups (l : List String) : l.eraseDups.Nodup := by
  cases l with
  | nil => simp
  | cons a rest =>
    rw [List.eraseDups_cons, List.nodup_cons]
    exact ⟨by simp, nodup_eraseDups (rest.filter fun b => !b == a)⟩
termination_by l.length
decreasing_by exact Nat.lt_succ_of_le (List.length_filter_le _ rest)

/-- The first occurrences of what satisfies a test are those first occurrences that satisfy it. -/
theorem eraseDups_filter (keep : String → Bool) (l : List String) :
    (l.filter keep).eraseDups = l.eraseDups.filter keep := by
  cases l with
  | nil => rfl
  | cons a rest =>
    have ih := eraseDups_filter keep (rest.filter fun b => !b == a)
    have hcomm : (rest.filter keep).filter (fun b => !b == a) =
        (rest.filter fun b => !b == a).filter keep := by
      rw [List.filter_filter, List.filter_filter]
      congr 1
      funext b
      exact Bool.and_comm _ _
    by_cases ha : keep a = true
    · rw [List.filter_cons_of_pos ha, List.eraseDups_cons, List.eraseDups_cons,
        List.filter_cons_of_pos ha, hcomm, ih]
    · have hkept : (rest.filter fun b => !b == a).filter keep = rest.filter keep := by
        rw [← hcomm, List.filter_eq_self]
        intro b hb
        have hne : b ≠ a := by
          rintro rfl
          exact ha (List.mem_filter.mp hb).2
        simpa using hne
      rw [List.filter_cons_of_neg ha, List.eraseDups_cons, List.filter_cons_of_neg ha, ← ih, hkept]
termination_by l.length
decreasing_by exact Nat.lt_succ_of_le (List.length_filter_le _ rest)

namespace Bracketed

variable {c : Configuration} {ps : List FieldParam} {g : Criterion}

/-! ## The parameters of one field -/

/-- The field that the name of a filter parameter counts for. -/
def fieldName (c : Configuration) (p : ParamName) : String :=
  match p.labelName with
  | some label => if c.has Key.labels then p.field else Key.namedLabel ++ label
  | none => p.field

/-- The field that a name counts for, if it is that of a filter parameter. -/
def fieldOf? (c : Configuration) (name : String) : Option String :=
  (ParamName.parse? name).map (fieldName c)

theorem field_fieldParam (c : Configuration) (p : SearchParam) :
    (fieldParam c p).field = fieldName c p.name := by
  unfold fieldParam fieldName
  cases p.name.labelName with
  | none => rfl
  | some label =>
    by_cases hlabels : c.has Key.labels = true
    · simp only [hlabels, if_true]
    · simp only [Bool.eq_false_iff.mpr hlabels, Bool.false_eq_true, if_false]

theorem operation_fieldParam (c : Configuration) (p : SearchParam) :
    (fieldParam c p).operation = p.name.operation := by
  unfold fieldParam
  cases p.name.labelName with
  | none => rfl
  | some label =>
    by_cases hlabels : c.has Key.labels = true
    · simp only [hlabels, if_true]
    · simp only [Bool.eq_false_iff.mpr hlabels, Bool.false_eq_true, if_false]

theorem parse?_of_ofParam? {param : String × ParamValue} {p : SearchParam}
    (h : SearchParam.ofParam? param = some p) : ParamName.parse? param.1 = some p.name := by
  simp only [SearchParam.ofParam?, Option.bind_eq_bind, Option.bind_eq_some_iff] at h
  obtain ⟨given, -, name, hname, hp⟩ := h
  obtain rfl := Option.some.inj hp
  exact hname

theorem decodeValue?_of_ofParam? {param : String × ParamValue} {p : SearchParam}
    (h : SearchParam.ofParam? param = some p) :
    SearchParam.decodeValue? param.2 = some p.given := by
  simp only [SearchParam.ofParam?, Option.bind_eq_bind, Option.bind_eq_some_iff] at h
  obtain ⟨given, hgiven, name, -, hp⟩ := h
  obtain rfl := Option.some.inj hp
  exact hgiven

theorem fieldOf?_eq_of_ofParam? {param : String × ParamValue} {p : SearchParam}
    (h : SearchParam.ofParam? param = some p) :
    fieldOf? c param.1 = some (fieldParam c p).field := by
  rw [fieldOf?, parse?_of_ofParam? h, Option.map_some, field_fieldParam]

/-- The parameters of the fields that satisfy a test are those of the names that count for them. -/
theorem filter_fieldParams (q : Query) (c : Configuration) (keep : String → Bool) :
    (fieldParams q c).filter (fun p => keep p.field) =
      fieldParams (q.retain fun name _ => (fieldOf? c name).any keep) c := by
  rw [fieldParams, fieldParams, SearchParam.ofQuery, SearchParam.ofQuery, Query.toList_retain]
  induction q.toList with
  | nil => rfl
  | cons param rest ih =>
    cases hparam : SearchParam.ofParam? param with
    | none =>
      rw [List.filterMap_cons_none hparam, ih, List.filter_cons]
      split
      · rw [List.filterMap_cons_none hparam]
      · rfl
    | some p =>
      rw [List.filterMap_cons_some hparam, List.map_cons, List.filter_cons, ih, List.filter_cons,
        fieldOf?_eq_of_ofParam? hparam, Option.any_some]
      split
      · rw [List.filterMap_cons_some hparam, List.map_cons]
      · rfl

/-! ## What is read -/

/-- A field that is read has a key, and the comparator of its first parameter. -/
theorem exists_of_fieldCriterion? {field : String} (h : fieldCriterion? c field ps = some g) :
    ∃ k first rest, c.find? field = some k ∧ ps = first :: rest ∧
      Comparator.ofToken? first.operation = some g.comparator ∧
      g = Criterion.ofParts k field g.comparator (fieldValue k field g.comparator ps).1
        (fieldValue k field g.comparator ps).2 := by
  simp only [fieldCriterion?, Option.bind_eq_bind, Option.bind_eq_some_iff, Option.some.injEq] at h
  obtain ⟨k, hk, first, hfirst, op, hop, rfl⟩ := h
  obtain ⟨rest, hps⟩ := List.head?_eq_some_iff.mp hfirst
  exact ⟨k, first, rest, hk, hps, hop, rfl⟩

theorem key_of_fieldCriterion? {field : String} (h : fieldCriterion? c field ps = some g) :
    g.key = field := by
  obtain ⟨k, first, rest, -, -, -, hg⟩ := exists_of_fieldCriterion? h
  exact congrArg Criterion.key hg

theorem fieldCriterion?_of_not_has {field : String} (h : c.has field = false)
    (ps : List FieldParam) : fieldCriterion? c field ps = none := by
  have hfind : c.find? field = none := by simpa [Configuration.has] using h
  rw [fieldCriterion?, hfind]
  rfl

theorem fieldCriterion?_nil (c : Configuration) (field : String) :
    fieldCriterion? c field [] = none := by
  rw [fieldCriterion?]
  cases c.find? field <;> rfl

theorem key_of_timeRange? {q : Query} (h : timeRange? q c ps = some g) : g.key = Key.timeRange := by
  simp only [timeRange?, Option.bind_eq_bind, Option.bind_eq_some_iff] at h
  obtain ⟨start, -, stop, -, k, -, first, -, last, -, hg⟩ := h
  obtain rfl := Option.some.inj hg
  rfl

theorem isTimeRange_of_timeRange? {q : Query} (h : timeRange? q c ps = some g) :
    g.value.isTimeRange = true := by
  simp only [timeRange?, Option.bind_eq_bind, Option.bind_eq_some_iff, Option.some.injEq] at h
  obtain ⟨_, -, _, -, k, -, start, -, stop, -, rfl⟩ := h
  rfl

theorem isTimeRange_of_mem_fieldCriteria (h : g ∈ fieldCriteria c ps) :
    g.value.isTimeRange = false := by
  obtain ⟨field, -, hfield⟩ := List.mem_filterMap.mp h
  obtain ⟨k, first, rest, -, -, -, hg⟩ := exists_of_fieldCriterion? hfield
  rw [hg]
  simp only [fieldValue, Criterion.ofParts]
  split
  · rfl
  · rfl

/-- A field that satisfies a test keeps all its parameters. -/
theorem filter_field {keep : String → Bool} (ps : List FieldParam) {field : String}
    (h : keep field = true) :
    (ps.filter fun p => keep p.field).filter (·.field == field) =
      ps.filter (·.field == field) := by
  rw [List.filter_filter]
  apply List.filter_congr
  intro p _
  by_cases hfield : p.field = field
  · simp [hfield, h]
  · simp [hfield]

theorem filter_not_isDate (ps : List FieldParam) {field : String} (h : Key.isDate field = false) :
    (ps.filter fun p => !Key.isDate p.field).filter (·.field == field) =
      ps.filter (·.field == field) :=
  @filter_field (fun field => !Key.isDate field) ps field (by simp [h])

/-- The criteria that are read are those of the fields that are no dates. -/
theorem mem_fieldCriteria : g ∈ fieldCriteria c ps ↔
    Key.isDate g.key = false ∧
      fieldCriterion? c g.key (ps.filter (·.field == g.key)) = some g := by
  simp only [fieldCriteria, List.mem_filterMap, List.mem_eraseDups, List.mem_map]
  constructor
  · rintro ⟨field, ⟨p, hp, rfl⟩, hg⟩
    have hdate : Key.isDate p.field = false := by simpa using (List.mem_filter.mp hp).2
    rw [filter_not_isDate ps hdate] at hg
    rw [key_of_fieldCriterion? hg]
    exact ⟨hdate, hg⟩
  · rintro ⟨hdate, hg⟩
    obtain ⟨p, rest, hps⟩ : ∃ p rest, ps.filter (·.field == g.key) = p :: rest := by
      cases hps : ps.filter (·.field == g.key) with
      | nil =>
        rw [hps, fieldCriterion?_nil] at hg
        contradiction
      | cons p rest => exact ⟨p, rest, rfl⟩
    have hp : p ∈ (ps.filter fun p => !Key.isDate p.field).filter (·.field == g.key) := by
      rw [filter_not_isDate ps hdate, hps]
      exact List.mem_cons_self
    obtain ⟨hmem, hfield⟩ := List.mem_filter.mp hp
    refine ⟨g.key, ⟨p, hmem, beq_iff_eq.mp hfield⟩, ?_⟩
    rw [filter_not_isDate ps hdate]
    exact hg

/-- A criterion that is read from a field has the comparator of the first parameter of that field. -/
theorem exists_of_mem_fieldCriteria (h : g ∈ fieldCriteria c ps) :
    ∃ k first rest, c.find? g.key = some k ∧
      ps.filter (·.field == g.key) = first :: rest ∧
      Comparator.ofToken? first.operation = some g.comparator ∧
      g = Criterion.ofParts k g.key g.comparator
        (fieldValue k g.key g.comparator (first :: rest)).1
        (fieldValue k g.key g.comparator (first :: rest)).2 := by
  obtain ⟨-, hfield⟩ := mem_fieldCriteria.mp h
  obtain ⟨k, first, rest, hk, hps, hop, hparts⟩ := exists_of_fieldCriterion? hfield
  rw [hps] at hparts
  exact ⟨k, first, rest, hk, hps, hop, hparts⟩

/-- No two criteria that are read from fields have the same key. -/
theorem nodup_keys_fieldCriteria (c : Configuration) (ps : List FieldParam) :
    ((fieldCriteria c ps).map Criterion.key).Nodup := by
  have hfields : (((ps.filter fun p => !Key.isDate p.field).map (·.field)).eraseDups.map id).Nodup := by
    rw [List.map_id]
    exact nodup_eraseDups _
  refine (Keyed.map_filterMap_sublist ?_).nodup hfields
  intro field _ g hg
  exact key_of_fieldCriterion? hg

/-- The criteria that are read: a range of time, and those of the fields under other keys. -/
theorem mem_decode {q : Query} : g ∈ decode q c ↔
    timeRange? q c (fieldParams q c) = some g ∨
      g ∈ fieldCriteria c (fieldParams q c) ∧
        ∀ range, timeRange? q c (fieldParams q c) = some range → g.key ≠ Key.timeRange := by
  rw [decode]
  cases hrange : timeRange? q c (fieldParams q c) with
  | none => simp
  | some range =>
    simp only [Keyed.mem_put_iff (nodup_keys_fieldCriteria c _), key_of_timeRange? hrange,
      Option.some.injEq, forall_eq', eq_comm]

/-- No two criteria that are read have the same key. -/
theorem nodup_keys_decode (q : Query) (c : Configuration) :
    ((decode q c).map Criterion.key).Nodup := by
  rw [decode]
  cases timeRange? q c (fieldParams q c) with
  | none => exact nodup_keys_fieldCriteria c _
  | some range => exact Keyed.nodup_map_put _ _ _ (nodup_keys_fieldCriteria c _)

/-! ## Fields that make no difference -/

/-- Fields without a key can be left out. -/
theorem fieldCriteria_filter {keep : String → Bool}
    (hkeep : ∀ field, keep field = false → c.has field = false) (ps : List FieldParam) :
    fieldCriteria c (ps.filter fun p => keep p.field) = fieldCriteria c ps := by
  have hfields : ((ps.filter fun p => keep p.field).filter fun p => !Key.isDate p.field).map (·.field) =
      ((ps.filter fun p => !Key.isDate p.field).map (·.field)).filter keep := by
    rw [List.filter_filter, List.filter_map, List.filter_filter]
    congr 2
    funext p
    exact Bool.and_comm _ _
  simp only [fieldCriteria]
  rw [hfields, eraseDups_filter, List.filterMap_filter]
  apply List.filterMap_congr
  intro field hmem
  have hdate : Key.isDate field = false := by
    obtain ⟨p, hp, rfl⟩ := List.mem_map.mp (List.mem_eraseDups.mp hmem)
    simpa using (List.mem_filter.mp hp).2
  by_cases hfield : keep field = true
  · rw [if_pos hfield, filter_not_isDate _ hdate, filter_not_isDate _ hdate, filter_field ps hfield]
  · rw [if_neg hfield]
    exact (fieldCriterion?_of_not_has (hkeep field (Bool.eq_false_iff.mpr hfield)) _).symm

/-- Queries that agree on the bare dates and on the parameters of some fields are read alike if the
other fields are neither keys nor dates. -/
theorem decode_eq_of_agree_fields {keep : String → Bool} {p q : Query}
    (hhas : ∀ field, keep field = false → c.has field = false)
    (hdate : ∀ field, Key.isDate field = true →
      keep field = true ∧ p.first? field = q.first? field)
    (hparams : (fieldParams p c).filter (fun r => keep r.field) =
      (fieldParams q c).filter (fun r => keep r.field)) :
    decode p c = decode q c := by
  have hfound : fieldCriteria c (fieldParams p c) = fieldCriteria c (fieldParams q c) := by
    rw [← fieldCriteria_filter hhas, hparams, fieldCriteria_filter hhas]
  have hdateOf (field : String) (hfield : Key.isDate field = true) :
      dateOf? p (fieldParams p c) field = dateOf? q (fieldParams q c) field := by
    obtain ⟨hkeep, hfirst⟩ := hdate field hfield
    rw [dateOf?, dateOf?, ← filter_field (fieldParams p c) hkeep, hparams, filter_field _ hkeep,
      hfirst]
  have hrange : timeRange? p c (fieldParams p c) = timeRange? q c (fieldParams q c) := by
    rw [timeRange?, timeRange?, hdateOf _ (by decide), hdateOf _ (by decide)]
  simp only [decode, hfound, hrange]

end Bracketed

end FilterBar
