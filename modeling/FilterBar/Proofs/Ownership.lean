import FilterBar.Proofs.Query
import FilterBar.Proofs.Names
import FilterBar.View.Configuration

/-!
# Parameters that belong to filters and search

Reading the filters and the search term of a query uses only the parameters that belong to them.
Each reader is first shown to answer alike on a query and on its owned part; two queries that agree
on what is owned have the same owned part.
-/

namespace FilterBar

variable {c : Configuration} {format : UrlFormat} {name : String}

/-- The parameters of a query that belong to filters or search. -/
def ownedPart (q : Query) (c : Configuration) (format : UrlFormat) : Query :=
  q.retain fun name _ => isOwnedParam c format name

/-! ## Which parameters are owned -/

theorem isOwnedParam_of_opening (h : (Key.after? ParamName.opening name).isSome = true) :
    isOwnedParam c format name = true := by
  simp [isOwnedParam, h]

theorem isOwnedParam_searchName : isOwnedParam c format searchName = true := by
  simp [isOwnedParam]

theorem opening_bracketedSearchName :
    (Key.after? ParamName.opening bracketedSearchName).isSome = true := by
  rw [bracketedSearchName, ParamName.ofKey, String.append_assoc, String.append_assoc,
    String.append_assoc, Key.after?_append]
  rfl

theorem isOwnedParam_bracketedSearchName : isOwnedParam c format bracketedSearchName = true :=
  isOwnedParam_of_opening opening_bracketedSearchName

/-- Bare dates belong to the views that have a range of time. -/
theorem isOwnedParam_of_isDate (hdate : Key.isDate name = true) (h : c.has Key.timeRange = true) :
    isOwnedParam c format name = true := by
  simp [isOwnedParam, hdate, h]

/-- What no view of the flat format owns is neither read for search nor as a date, and no key of the
configuration; it is a detail only where details are no key. -/
theorem not_owned_flat (h : isOwnedParam c .flat name = false) (hdate : Key.isDate name = false) :
    (Key.after? Flat.detailOpening name).isSome = true ∧ c.has Key.details = false ∨
      (Key.after? Flat.detailOpening name).isSome = false ∧ c.has name = false := by
  simp only [isOwnedParam, hdate, Flat.isOwned, Bool.or_eq_false_iff] at h
  have howned := h.2
  by_cases hdetail : (Key.after? Flat.detailOpening name).isSome = true
  · left
    simpa [hdetail] using howned
  · right
    simpa [Bool.eq_false_iff.mpr hdetail] using howned

/-! ## Reading the owned part -/

theorem get?_ownedPart (q : Query) (h : isOwnedParam c format name = true) :
    (ownedPart q c format).get? name = q.get? name := by
  rw [ownedPart, Query.get?_retain, h]
  cases q.get? name <;> simp

/-- An owned name has the same first value in the owned part. -/
theorem first?_ownedPart (q : Query) (h : isOwnedParam c format name = true) :
    (ownedPart q c format).first? name = q.first? name := by
  rw [Query.first?, get?_ownedPart q h, Query.first?]

/-- The name of a filter parameter starts as all of them do. -/
theorem ParamName.opening_of_parse? {p : ParamName} (h : ParamName.parse? name = some p) :
    (Key.after? ParamName.opening name).isSome = true := by
  rw [ParamName.parse?, Option.bind_eq_bind, Option.bind_eq_some_iff] at h
  obtain ⟨rest, hrest, -⟩ := h
  simp [Key.after?, hrest]

theorem SearchParam.ofQuery_ownedPart (q : Query) :
    SearchParam.ofQuery (ownedPart q c format) = SearchParam.ofQuery q := by
  apply Query.filterMap_retain
  intro param hparam
  cases hparse : ParamName.parse? param.1 with
  | some p =>
    have howned : isOwnedParam c format param.1 = true :=
      isOwnedParam_of_opening (ParamName.opening_of_parse? hparse)
    rw [howned] at hparam
    contradiction
  | none => cases hvalue : SearchParam.decodeValue? param.2 <;> simp [ofParam?, hparse, hvalue]

/-- Where a range of time is a key its dates are owned, and where it is none no dates are read. -/
theorem Bracketed.timeRange?_ownedPart (q : Query) (ps : List FieldParam) :
    timeRange? (ownedPart q c .bracketed) c ps = timeRange? q c ps := by
  cases hfind : c.find? Key.timeRange with
  | none => simp [timeRange?, hfind]
  | some k =>
    have hhas : c.has Key.timeRange = true := Configuration.has_iff_find?.mpr ⟨k, hfind⟩
    have hdate (field : String) (hfield : Key.isDate field = true) :
        dateOf? (ownedPart q c .bracketed) ps field = dateOf? q ps field := by
      simp only [dateOf?]
      rw [first?_ownedPart q (isOwnedParam_of_isDate hfield hhas)]
    rw [timeRange?, timeRange?, hdate _ (by decide), hdate _ (by decide)]

theorem Bracketed.decode_ownedPart (q : Query) :
    decode (ownedPart q c .bracketed) c = decode q c := by
  have hparams : fieldParams (ownedPart q c .bracketed) c = fieldParams q c := by
    rw [fieldParams, SearchParam.ofQuery_ownedPart, fieldParams]
  simp only [decode, hparams, timeRange?_ownedPart]

theorem Flat.isReserved_eq_false (h : isReserved name = false) : Key.isDate name = false := by
  simp only [isReserved, Bool.or_eq_false_iff] at h
  exact h.2

theorem Flat.paramCriterion?_eq_none {param : String × ParamValue}
    (h : isOwnedParam c .flat param.1 = false) : paramCriterion? c param = none := by
  by_cases hreserved : isReserved param.1 = true
  · simp [paramCriterion?, hreserved]
  · have hdate := isReserved_eq_false (Bool.eq_false_iff.mpr hreserved)
    rcases not_owned_flat h hdate with ⟨hdetail, -⟩ | ⟨-, hhas⟩
    · simp [paramCriterion?, hdetail]
    · have hfind : c.find? param.1 = none := by simpa [Configuration.has] using hhas
      simp [paramCriterion?, hfind]

theorem Flat.paramDetails_eq_nil {param : String × ParamValue}
    (h : isOwnedParam c .flat param.1 = false) (hhas : c.has Key.details = true) :
    paramDetails param = [] := by
  by_cases hreserved : isReserved param.1 = true
  · simp [paramDetails, hreserved]
  · have hdate := isReserved_eq_false (Bool.eq_false_iff.mpr hreserved)
    rcases not_owned_flat h hdate with ⟨-, hdetails⟩ | ⟨hdetail, -⟩
    · rw [hhas] at hdetails
      contradiction
    · have hnone : Key.after? detailOpening param.1 = none := by simpa using hdetail
      simp [paramDetails, hnone]

theorem Flat.details?_ownedPart (q : Query) :
    details? (ownedPart q c .flat) c = details? q c := by
  cases hfind : c.find? Key.details with
  | none => simp [details?, hfind]
  | some k =>
    have hhas : c.has Key.details = true := Configuration.has_iff_find?.mpr ⟨k, hfind⟩
    have hentries : (ownedPart q c .flat).toList.flatMap paramDetails =
        q.toList.flatMap paramDetails := by
      apply Query.flatMap_retain
      intro param hparam
      exact paramDetails_eq_nil hparam hhas
    rw [details?, details?, hentries]

theorem Flat.timeRange?_ownedPart (q : Query) :
    timeRange? (ownedPart q c .flat) c = timeRange? q c := by
  cases hfind : c.find? Key.timeRange with
  | none => simp [timeRange?, hfind]
  | some k =>
    have hhas : c.has Key.timeRange = true := Configuration.has_iff_find?.mpr ⟨k, hfind⟩
    have hfirst (field : String) (hfield : Key.isDate field = true) :
        (ownedPart q c .flat).first? field = q.first? field :=
      first?_ownedPart q (isOwnedParam_of_isDate hfield hhas)
    rw [timeRange?, timeRange?, hfirst _ (by decide), hfirst _ (by decide)]

theorem Flat.decode_ownedPart (q : Query) : decode (ownedPart q c .flat) c = decode q c := by
  have hfound : (ownedPart q c .flat).toList.filterMap (paramCriterion? c) =
      q.toList.filterMap (paramCriterion? c) := by
    apply Query.filterMap_retain
    intro param hparam
    exact paramCriterion?_eq_none hparam
  simp only [decode, hfound, details?_ownedPart, timeRange?_ownedPart]

theorem decodeCriteria_ownedPart (q : Query) :
    decodeCriteria (ownedPart q c format) c format = decodeCriteria q c format := by
  cases format with
  | bracketed => exact Bracketed.decode_ownedPart q
  | flat => exact Flat.decode_ownedPart q

theorem decodeSearch_ownedPart (q : Query) (c : Configuration) (format : UrlFormat) :
    decodeSearch (ownedPart q c format) = decodeSearch q := by
  rw [decodeSearch, decodeSearch, first?_ownedPart q isOwnedParam_bracketedSearchName,
    first?_ownedPart q isOwnedParam_searchName]

/-- Queries that agree on what is owned are read alike. -/
theorem decode_eq_of_agree {c : Configuration} {format : UrlFormat} {p q : Query}
    (h : ∀ name, isOwnedParam c format name = true → p.get? name = q.get? name) :
    decodeCriteria p c format = decodeCriteria q c format ∧ decodeSearch p = decodeSearch q := by
  have hpart : ownedPart p c format = ownedPart q c format := Query.retain_eq_retain h
  constructor
  · rw [← decodeCriteria_ownedPart p, hpart, decodeCriteria_ownedPart]
  · rw [← decodeSearch_ownedPart p c format, hpart, decodeSearch_ownedPart]

/-! ## Clearing what is owned -/

theorem get?_clearOwnedParams (q : Query) (h : isOwnedParam c format name = false) :
    (clearOwnedParams q c format).get? name = q.get? name := by
  rw [clearOwnedParams, Query.get?_retain, h]
  cases q.get? name <;> simp

theorem get?_clearOwnedParams_of_owned (q : Query) (h : isOwnedParam c format name = true) :
    (clearOwnedParams q c format).get? name = none := by
  rw [clearOwnedParams, Query.get?_retain, h]
  cases q.get? name <;> simp

theorem decodeCriteria_empty (c : Configuration) (format : UrlFormat) :
    decodeCriteria Query.empty c format = [] := by
  cases format with
  | bracketed => rfl
  | flat => rfl

/-- Nothing is read from a query without its owned parameters. -/
theorem decode_clearOwnedParams (q : Query) (c : Configuration) (format : UrlFormat) :
    decodeCriteria (clearOwnedParams q c format) c format = [] ∧
      decodeSearch (clearOwnedParams q c format) = "" := by
  have hagree : ∀ name, isOwnedParam c format name = true →
      (clearOwnedParams q c format).get? name = Query.empty.get? name := by
    intro name howned
    rw [get?_clearOwnedParams_of_owned q howned, Query.get?_empty]
  obtain ⟨hcriteria, hsearch⟩ := decode_eq_of_agree hagree
  constructor
  · rw [hcriteria, decodeCriteria_empty]
  · rw [hsearch]
    rfl

theorem updateQuery_nil (q : Query) (c : Configuration) (o : UrlOptions) :
    updateQuery q [] "" c o = clearOwnedParams q c o.format := by
  cases o with
  | mk format showsSearch =>
    cases format with
    | bracketed => rfl
    | flat => rfl

/-- Filters and search term are read from the owned parameters alone, whatever else a query holds; so
none are left once the owned parameters are cleared, or rewritten for no filters and no term.  Only
the identifiers of the filters depend on the supply. -/
theorem decode_uses_owned_params_only (c : Configuration) (o : UrlOptions) (ids ids' : IdSupply) :
    (∀ p q : Query, (∀ name, isOwnedParam c o.format name = true → p.get? name = q.get? name) →
      (decodeFilters ids p c o.format).1.map Filter.toCriterion =
          (decodeFilters ids' q c o.format).1.map Filter.toCriterion ∧
        decodeSearch p = decodeSearch q) ∧
      ∀ q : Query,
        ((decodeFilters ids (clearOwnedParams q c o.format) c o.format).1 = [] ∧
          decodeSearch (clearOwnedParams q c o.format) = "") ∧
        (decodeFilters ids (updateQuery q [] "" c o) c o.format).1 = [] ∧
          decodeSearch (updateQuery q [] "" c o) = "" := by
  constructor
  · intro p q hagree
    obtain ⟨hcriteria, hsearch⟩ := decode_eq_of_agree hagree
    refine ⟨?_, hsearch⟩
    rw [decodeFilters, decodeFilters, IdSupply.issueAll_toCriterion,
      IdSupply.issueAll_toCriterion, hcriteria]
  · intro q
    obtain ⟨hcriteria, hsearch⟩ := decode_clearOwnedParams q c o.format
    have hfilters : (decodeFilters ids (clearOwnedParams q c o.format) c o.format).1 = [] := by
      rw [decodeFilters, hcriteria]
      rfl
    rw [updateQuery_nil]
    exact ⟨⟨hfilters, hsearch⟩, hfilters, hsearch⟩

/-- In the flat format of the logs, `page` and `tab` make no difference beside `level`. -/
theorem decode_level_beside_page :
    let c := View.logs.configuration
    let o : UrlOptions := { format := .flat }
    let p := Query.ofList [("level", .one "WARN"), ("page", .one "2")]
    let q := Query.ofList [("level", .one "WARN"), ("tab", .null)]
    (∀ name, isOwnedParam c o.format name = true → p.get? name = q.get? name) ∧
      (decodeFilters ⟨0, 0⟩ p c o.format).1.map Filter.toCriterion =
          (decodeFilters ⟨7, 1⟩ q c o.format).1.map Filter.toCriterion ∧
        decodeSearch p = decodeSearch q := by
  intro c o p q
  have hagree : ∀ name, isOwnedParam c o.format name = true → p.get? name = q.get? name := by
    intro name howned
    have hpage : name ≠ "page" := by
      rintro rfl
      exact absurd howned (by decide)
    have htab : name ≠ "tab" := by
      rintro rfl
      exact absurd howned (by decide)
    have hp : p.get? name = (Query.empty.insert "level" (.one "WARN")).get? name :=
      (Query.get?_insert _ "page" name _).trans (if_neg (Ne.symm hpage))
    have hq : q.get? name = (Query.empty.insert "level" (.one "WARN")).get? name :=
      (Query.get?_insert _ "tab" name _).trans (if_neg (Ne.symm htab))
    rw [hp, hq]
  exact ⟨hagree, (decode_uses_owned_params_only c o ⟨0, 0⟩ ⟨7, 1⟩).1 p q hagree⟩

end FilterBar
