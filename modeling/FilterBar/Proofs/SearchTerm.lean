import FilterBar.Proofs.Fields
import FilterBar.Proofs.ParamName
import FilterBar.Proofs.Rewriting

/-!
# The search term and the filters

The parameter of a search term is read as no filter, and what a rewritten query owns does not depend
on what was there before.  So the filters of a rewritten query are those of the parameters that were
written for them.
-/

namespace FilterBar

variable {c : Configuration} {o : UrlOptions} {fs : List Criterion} {term : String}

theorem searchParamName_eq (c : Configuration) (format : UrlFormat) :
    searchParamName c format = bracketedSearchName ∨ searchParamName c format = searchName := by
  unfold searchParamName
  split
  · exact Or.inl rfl
  · exact Or.inr rfl

namespace Bracketed

/-- No name of a search term counts for a field other than `q`. -/
theorem fieldOf?_searchParamName (c : Configuration) (format : UrlFormat) :
    (fieldOf? c (searchParamName c format)).any (fun field => field != searchName) = false := by
  rcases searchParamName_eq c format with hname | hname
  · have hparse : ParamName.parse? bracketedSearchName = some ⟨searchName, "EQUALS", none⟩ :=
      ParamName.parse?_ofKey (by decide) .equals
    rw [hname, fieldOf?, hparse]
    rfl
  · have hparse : ParamName.parse? searchName = none := by decide
    rw [hname, fieldOf?, hparse]
    rfl

theorem isDate_searchParamName (c : Configuration) (format : UrlFormat) :
    Key.isDate (searchParamName c format) = false := by
  rcases searchParamName_eq c format with hname | hname
  · rw [hname]
    decide
  · rw [hname]
    decide

/-- Without a key `q` the search term makes no difference to the filters. -/
theorem decode_writeSearch (hq : c.has searchName = false) (q : Query) :
    decode (writeSearch q term c o) c = decode q c := by
  have hhas : ∀ field, (field != searchName) = false → c.has field = false := by
    intro field hfield
    obtain rfl : field = searchName := by simpa using hfield
    exact hq
  have hdate : ∀ field, Key.isDate field = true →
      (field != searchName) = true ∧ (writeSearch q term c o).first? field = q.first? field := by
    intro field hfield
    constructor
    · rw [bne_iff_ne]
      rintro rfl
      exact absurd hfield (by decide)
    · have hne : searchParamName c o.format ≠ field := by
        rintro rfl
        rw [isDate_searchParamName] at hfield
        contradiction
      rw [Query.first?, get?_writeSearch_of_ne hne, Query.first?]
  refine decode_eq_of_agree_fields hhas hdate ?_
  rw [filter_fieldParams _ c (· != searchName), filter_fieldParams _ c (· != searchName)]
  congr 1
  apply Query.retain_eq_retain
  intro name hname
  apply get?_writeSearch_of_ne
  rintro rfl
  rw [fieldOf?_searchParamName] at hname
  contradiction

end Bracketed

namespace Flat

/-- The search term makes no difference to the filters. -/
theorem decode_writeSearch (hformat : o.format = .flat) (q : Query) :
    decode (writeSearch q term c o) c = decode q c := by
  have hname : searchParamName c o.format = searchName := by
    simp [searchParamName, hformat]
  have hget (name : String) (hne : name ≠ searchName) :
      (writeSearch q term c o).get? name = q.get? name := by
    apply get?_writeSearch_of_ne
    rw [hname]
    exact Ne.symm hne
  have hretain : ((writeSearch q term c o).retain fun name _ => name != searchName) =
      q.retain fun name _ => name != searchName := by
    apply Query.retain_eq_retain
    intro name hne
    exact hget name (by simpa using hne)
  have hreserved : isReserved searchName = true := by decide
  have hcriterion (param : String × ParamValue) (hparam : (param.1 != searchName) = false) :
      paramCriterion? c param = none := by
    obtain heq : param.1 = searchName := by simpa using hparam
    simp [paramCriterion?, heq, hreserved]
  have hdetails (param : String × ParamValue) (hparam : (param.1 != searchName) = false) :
      paramDetails param = [] := by
    obtain heq : param.1 = searchName := by simpa using hparam
    simp [paramDetails, heq, hreserved]
  have hfound : (writeSearch q term c o).toList.filterMap (paramCriterion? c) =
      q.toList.filterMap (paramCriterion? c) := by
    rw [← Query.filterMap_retain _ (· != searchName) _ hcriterion, hretain,
      Query.filterMap_retain _ (· != searchName) _ hcriterion]
  have hentries : (writeSearch q term c o).toList.flatMap paramDetails =
      q.toList.flatMap paramDetails := by
    rw [← Query.flatMap_retain _ (· != searchName) _ hdetails, hretain,
      Query.flatMap_retain _ (· != searchName) _ hdetails]
  have hrange : timeRange? (writeSearch q term c o) c = timeRange? q c := by
    rw [timeRange?, timeRange?, Query.first?, Query.first?, hget _ (by decide), hget _ (by decide)]
    rfl
  simp only [decode, details?, hfound, hentries, hrange]

end Flat

/-- The filters of a rewritten query do not depend on what was there before. -/
theorem decodeCriteria_updateQuery_eq_writeSearch (current : Query) :
    decodeCriteria (updateQuery current fs term c o) c o.format =
      decodeCriteria (writeSearch (encodeCriteria fs c o.format) term c o) c o.format :=
  (decode_eq_of_agree fun _ howned => get?_updateQuery_of_owned current howned).1

/-- In the flat format they are those of the parameters that were written for them. -/
theorem decodeCriteria_updateQuery_of_flat (hformat : o.format = .flat) (current : Query) :
    decodeCriteria (updateQuery current fs term c o) c o.format =
      decodeCriteria (encodeCriteria fs c o.format) c o.format := by
  rw [decodeCriteria_updateQuery_eq_writeSearch, hformat]
  exact Flat.decode_writeSearch hformat _

/-- The filters of a rewritten query are those of the parameters that were written for them. -/
theorem decodeCriteria_updateQuery (hq : c.has searchName = false) (current : Query) :
    decodeCriteria (updateQuery current fs term c o) c o.format =
      decodeCriteria (encodeCriteria fs c o.format) c o.format := by
  cases hformat : o.format with
  | bracketed =>
    rw [← hformat, decodeCriteria_updateQuery_eq_writeSearch, hformat]
    exact Bracketed.decode_writeSearch hq _
  | flat =>
    rw [← hformat]
    exact decodeCriteria_updateQuery_of_flat hformat current

/-- Identifiers apart, the filters of a query are its criteria. -/
theorem map_decodeFilters {β : Type} (seen : Criterion → β) (ids : IdSupply) (q : Query)
    (c : Configuration) (format : UrlFormat) :
    ((decodeFilters ids q c format).1.map fun f => seen f.toCriterion) =
      (decodeCriteria q c format).map seen := by
  rw [← IdSupply.issueAll_toCriterion ids (decodeCriteria q c format), List.map_map]
  rfl

end FilterBar
