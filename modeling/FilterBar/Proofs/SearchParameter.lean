import Mathlib.Data.List.DropRight
import FilterBar.Proofs.BracketedReload
import FilterBar.Proofs.FlatReload
import FilterBar.Proofs.QueryText
import FilterBar.Proofs.SearchTerm

/-!
# The search term of a rewritten query

Three parameters can hold a search term.  Filters are written under other names as long as no key has
the name of one of the three.  So a rewritten query holds the new term, without the blanks around it,
under the parameter of its format, and nothing under the other two; and the filters that are read are
the same for every term.
-/

namespace FilterBar

/-! ## Trimming -/

namespace Text

/-- The second text is the first one without the blanks around it. -/
structure IsTrimmed (s t : List Char) : Prop where
  blanks : ∃ before after, s = before ++ t ++ after ∧
    (∀ d ∈ before, isBlank d = true) ∧ ∀ d ∈ after, isBlank d = true
  head : ∀ d ∈ t.head?, isBlank d = false
  last : ∀ d ∈ t.getLast?, isBlank d = false

theorem trimEnd_append (s : List Char) :
    ∃ after, s = trimEnd s ++ after ∧ ∀ d ∈ after, isBlank d = true := by
  refine ⟨(s.reverse.takeWhile isBlank).reverse, ?_, ?_⟩
  · rw [trimEnd, ← List.reverse_append, List.takeWhile_append_dropWhile, List.reverse_reverse]
  · intro d hd
    exact List.mem_takeWhile_imp (List.mem_reverse.mp hd)

theorem isTrimmed_trim (s : List Char) : IsTrimmed s (trim s) := by
  obtain ⟨after, hafter, hblank⟩ : ∃ after, trimStart s = trim s ++ after ∧
      ∀ d ∈ after, isBlank d = true := trimEnd_append (trimStart s)
  constructor
  · refine ⟨s.takeWhile isBlank, after, ?_, fun d hd => List.mem_takeWhile_imp hd, hblank⟩
    rw [List.append_assoc, ← hafter, trimStart, List.takeWhile_append_dropWhile]
  · intro d hd
    -- what is left starts where the blanks in front end
    have hhead : (trimStart s).head? = some d := by
      rw [hafter, List.head?_append, hd, Option.some_or]
    have hne : trimStart s ≠ [] := List.ne_nil_of_mem (List.mem_of_mem_head? hhead)
    have hnot := List.head_dropWhile_not isBlank hne
    rwa [← Option.some.inj ((List.head?_eq_some_head hne).symm.trans hhead)]
  · intro d hd
    have hne : trim s ≠ [] := List.ne_nil_of_mem (List.mem_of_getLast? hd)
    have hnot : isBlank ((trim s).getLast hne) ≠ true :=
      List.rdropWhile_last_not isBlank (trimStart s) hne
    rw [List.getLast?_eq_getLast_of_ne_nil hne] at hd
    obtain rfl := Option.some.inj hd
    exact Bool.eq_false_iff.mpr hnot

end Text

/-! ## The three parameters of a search term -/

/-- A parameter that holds a search term, or once did. -/
def isSearchParam (name : String) : Bool :=
  name == searchName || name == formerSearchName || name == bracketedSearchName

/-- No key of the configuration has the name of a parameter of a search term. -/
def Configuration.LeavesSearch (c : Configuration) : Prop :=
  ∀ k ∈ c.keys, isSearchParam k.name = false

instance (c : Configuration) : Decidable c.LeavesSearch :=
  inferInstanceAs (Decidable (∀ k ∈ c.keys, _))

variable {c : Configuration} {format : UrlFormat} {f : Criterion} {fs : List Criterion}
  {name term : String}

theorem isSearchParam_iff : isSearchParam name = true ↔
    name = searchName ∨ name = formerSearchName ∨ name = bracketedSearchName := by
  simp [isSearchParam, or_assoc]

theorem Configuration.LeavesSearch.has_eq_false (hc : c.LeavesSearch)
    (h : isSearchParam name = true) : c.has name = false := by
  rw [Bool.eq_false_iff, Ne, has_iff_find?]
  rintro ⟨k, hk⟩
  obtain ⟨hmem, hfor⟩ := mem_keys_of_find? hk
  rw [FilterKey.isFor, Bool.or_eq_true, Bool.and_eq_true] at hfor
  rcases hfor with hname | ⟨-, hlabel⟩
  · have hfree := hc k hmem
    rw [beq_iff_eq.mp hname, h] at hfree
    contradiction
  -- the name of a search term is no label with a name
  · rcases isSearchParam_iff.mp h with rfl | rfl | rfl
    · exact absurd hlabel (by decide)
    · exact absurd hlabel (by decide)
    · exact absurd hlabel (by decide)

theorem isOwnedParam_of_isSearchParam (h : isSearchParam name = true) :
    isOwnedParam c format name = true := by
  rcases isSearchParam_iff.mp h with rfl | rfl | rfl
  · exact isOwnedParam_searchName
  · simp [isOwnedParam]
  · exact isOwnedParam_bracketedSearchName

/-! ## Filters are written under other names -/

theorem Comparator.bracket_notMem_token (op : Comparator) : '[' ∉ op.token.toList := by
  cases op <;> decide

/-- The name for a key and a comparator is that of no other key, whatever the keys hold: behind the
last opening bracket stands the comparator. -/
theorem ParamName.ofKey_inj {key other : String} {op otherOp : Comparator}
    (h : ofKey key op = ofKey other otherOp) : key = other ∧ op = otherOp := by
  have hcut (key : String) (op : Comparator) :
      Text.cut? '[' (key ++ "][" ++ op.token).toList.reverse =
        some (op.token.toList.reverse, ']' :: key.toList.reverse) := by
    have hreverse : (key ++ "][" ++ op.token).toList.reverse =
        op.token.toList.reverse ++ '[' :: ']' :: key.toList.reverse := by
      simp [String.toList_append]
    have hfree : '[' ∉ op.token.toList.reverse := by
      rw [List.mem_reverse]
      exact op.bracket_notMem_token
    rw [hreverse, Text.cut?_append hfree]
  have hchars : (key ++ "][" ++ op.token).toList = (other ++ "][" ++ otherOp.token).toList := by
    have htext := congrArg String.toList h
    simp only [ofKey, String.toList_append, List.append_assoc] at htext ⊢
    have hbehind := List.append_cancel_left htext
    rw [← List.append_assoc, ← List.append_assoc, ← List.append_assoc, ← List.append_assoc] at hbehind
    simpa using List.append_cancel_right hbehind
  have hcuts := hcut key op
  rw [hchars, hcut other otherOp] at hcuts
  simp only [Option.some.injEq, Prod.mk.injEq, List.reverse_inj, List.cons.injEq, true_and,
    String.toList_inj] at hcuts
  obtain ⟨htoken, hkey⟩ := hcuts
  have hop := Comparator.ofToken?_token op
  rw [← htoken, Comparator.ofToken?_token] at hop
  exact ⟨hkey.symm, (Option.some.inj hop).symm⟩

theorem ParamName.ofLabel_ne_bracketedSearchName (op : Comparator) (label : String) :
    ofLabel op label ≠ bracketedSearchName := by
  intro heq
  have hparse := parse?_ofLabel op label
  rw [heq, bracketedSearchName, parse?_ofKey (by decide)] at hparse
  simp only [Option.some.injEq, ParamName.mk.injEq] at hparse
  exact absurd hparse.1 (by decide)

theorem ParamName.ofKey_ne_bracketedSearchName {key : String} (h : key ≠ searchName)
    (op : Comparator) : ofKey key op ≠ bracketedSearchName := by
  intro heq
  exact h (ofKey_inj heq).1

namespace Bracketed

theorem itemPair_ne_bracketedSearchName {key : String} (h : key ≠ searchName) (op : Comparator)
    (item : String) : (itemPair key op item).1 ≠ bracketedSearchName := by
  unfold itemPair
  split
  · unfold labelPair
    split
    · exact ParamName.ofLabel_ne_bracketedSearchName op _
    · exact ParamName.ofKey_ne_bracketedSearchName (by decide) op
  · split
    · exact ParamName.ofLabel_ne_bracketedSearchName op _
    · exact ParamName.ofKey_ne_bracketedSearchName h op

theorem isSearchParam_of_mem_pairs (h : isSearchParam f.key = false) {pair : String × String}
    (hpair : pair ∈ pairs f) : isSearchParam pair.1 = false := by
  have hne : pair.1 ≠ bracketedSearchName := by
    rcases f.value.isTimeRange_or with hrange | ⟨start, stop, hvalue⟩
    · rw [pairs_of_items hrange] at hpair
      obtain ⟨item, -, rfl⟩ := List.mem_map.mp hpair
      apply itemPair_ne_bracketedSearchName
      rintro hkey
      rw [hkey] at h
      contradiction
    · rw [pairs_of_timeRange hvalue] at hpair
      rcases List.mem_pair.mp hpair with rfl | rfl
      · exact ParamName.ofKey_ne_bracketedSearchName (by decide) _
      · exact ParamName.ofKey_ne_bracketedSearchName (by decide) _
  have hopening := opening_of_mem_pairs hpair
  rw [Bool.eq_false_iff, Ne, isSearchParam_iff]
  rintro (hname | hname | hname)
  · rw [hname] at hopening
    exact absurd hopening (by decide)
  · rw [hname] at hopening
    exact absurd hopening (by decide)
  · exact hne hname

end Bracketed

theorem Flat.isSearchParam_of_mem_pairs (h : isSearchParam f.key = false) {pair : String × String}
    (hpair : pair ∈ pairs f) : isSearchParam pair.1 = false := by
  cases hvalue : f.value with
  | timeRange start stop =>
    rw [pairs_of_timeRange hvalue] at hpair
    rcases List.mem_pair.mp hpair with rfl | rfl
    · rfl
    · rfl
  | text value =>
    simp only [pairs, hvalue, List.mem_singleton] at hpair
    rw [hpair]
    exact h
  | list values =>
    simp only [pairs, hvalue] at hpair
    split at hpair
    next =>
      obtain ⟨detail, hname⟩ := name_of_mem_details hpair
      have hreserved := isReserved_detail detail
      rw [isReserved, Bool.or_eq_false_iff] at hreserved
      rw [hname]
      exact hreserved.1
    next =>
      obtain ⟨value, -, rfl⟩ := List.mem_map.mp hpair
      exact h

theorem Configuration.LeavesSearch.isSearchParam_eq_false (hc : c.LeavesSearch)
    (h : f ∈ writtenCriteria c fs) : isSearchParam f.key = false := by
  rw [Bool.eq_false_iff]
  intro hkey
  have hhas := (mem_writtenCriteria h).2
  rw [hc.has_eq_false hkey] at hhas
  contradiction

/-- Nothing is written for filters under a parameter of a search term. -/
theorem get?_encodeCriteria_of_isSearchParam (hc : c.LeavesSearch)
    (hname : isSearchParam name = true) : (encodeCriteria fs c format).get? name = none := by
  cases format with
  | bracketed =>
    apply Bracketed.get?_encode_of_notMem
    intro f hf hmem
    obtain ⟨pair, hpair, rfl⟩ := List.mem_map.mp hmem
    rw [Bracketed.isSearchParam_of_mem_pairs (hc.isSearchParam_eq_false hf) hpair] at hname
    contradiction
  | flat =>
    apply Flat.get?_encode_of_notMem
    intro f hf hmem
    obtain ⟨pair, hpair, rfl⟩ := List.mem_map.mp hmem
    rw [Flat.isSearchParam_of_mem_pairs (hc.isSearchParam_eq_false hf) hpair] at hname
    contradiction

/-! ## The search term that is written and read -/

variable {o : UrlOptions} {current : Query}

/-- The parameters of a search term in a rewritten query: the one of the format holds the new term
if there is any and the view has a search field, and the others hold nothing. -/
theorem get?_updateQuery_of_isSearchParam (hc : c.LeavesSearch) (hname : isSearchParam name = true) :
    (updateQuery current fs term c o).get? name =
      if o.showsSearch = true ∧ Text.trim term.toList ≠ [] ∧ name = searchParamName c o.format then
        some (.one (String.ofList (Text.trim term.toList)))
      else none := by
  have hfree : (encodeCriteria fs c o.format).get? name = none :=
    get?_encodeCriteria_of_isSearchParam hc hname
  rw [get?_updateQuery_of_owned current (isOwnedParam_of_isSearchParam hname)]
  by_cases hskip : o.showsSearch = true ∧ Text.trim term.toList ≠ []
  · obtain ⟨hshows, hterm⟩ := hskip
    have hwrite : writeSearch (encodeCriteria fs c o.format) term c o =
        (encodeCriteria fs c o.format).insertOne (searchParamName c o.format)
          (String.ofList (Text.trim term.toList)) := by
      simp [writeSearch, hshows, hterm]
    rw [hwrite, Query.insertOne, Query.get?_insert, hfree]
    simp [hshows, hterm, eq_comm]
  · have hnone : ((Text.trim term.toList).isEmpty || !o.showsSearch) = true := by
      rw [Bool.or_eq_true, List.isEmpty_iff, Bool.not_eq_true', ← Bool.not_eq_true]
      by_contra hnot
      obtain ⟨hterm, hshows⟩ := not_or.mp hnot
      exact hskip ⟨not_not.mp hshows, hterm⟩
    rw [writeSearch, if_pos hnone, hfree, if_neg]
    rintro ⟨hshows, hterm, -⟩
    exact hskip ⟨hshows, hterm⟩

/-- The term that is read from a rewritten query is the new one without the blanks around it, or none
in a view without a search field. -/
theorem decodeSearch_updateQuery (hc : c.LeavesSearch) :
    decodeSearch (updateQuery current fs term c o) =
      if o.showsSearch = true then String.ofList (Text.trim term.toList) else "" := by
  have hbracketed : isSearchParam bracketedSearchName = true := by decide
  have hplain : isSearchParam searchName = true := by decide
  rw [decodeSearch, Query.first?, Query.first?, get?_updateQuery_of_isSearchParam hc hbracketed,
    get?_updateQuery_of_isSearchParam hc hplain]
  by_cases hwritten : o.showsSearch = true ∧ Text.trim term.toList ≠ []
  · obtain ⟨hshows, hterm⟩ := hwritten
    rw [if_pos hshows]
    -- the term is written under one of the two names that are read
    by_cases hname : bracketedSearchName = searchParamName c o.format
    · rw [if_pos ⟨hshows, hterm, hname⟩]
      rfl
    · have hname' : searchName = searchParamName c o.format := by
        rcases searchParamName_eq c o.format with h | h
        · exact absurd h.symm hname
        · exact h.symm
      rw [if_neg fun h => hname h.2.2, if_pos ⟨hshows, hterm, hname'⟩]
      rfl
  · rw [if_neg fun h => hwritten ⟨h.1, h.2.1⟩, if_neg fun h => hwritten ⟨h.1, h.2.1⟩]
    split
    next hshows =>
      have hterm : Text.trim term.toList = [] := not_not.mp fun h => hwritten ⟨hshows, h⟩
      rw [hterm]
      rfl
    next => rfl

/-! ## The two together -/

/-- Where no key has the name of a parameter of a search term, a rewritten query holds of search terms
the new one alone, without the blanks around it, and the filters in it are the same for every term. -/
theorem search_and_filters_apart (hc : c.LeavesSearch) (o : UrlOptions) (current : Query)
    (fs : List Criterion) (term : String) :
    let rewritten := updateQuery current fs term c o
    let trimmed := Text.trim term.toList
    Text.IsTrimmed term.toList trimmed ∧
    decodeSearch rewritten = (if o.showsSearch = true then String.ofList trimmed else "") ∧
    (∀ name, isSearchParam name = true → rewritten.get? name =
      if o.showsSearch = true ∧ trimmed ≠ [] ∧ name = searchParamName c o.format then
        some (.one (String.ofList trimmed))
      else none) ∧
    ∀ ids ids' : IdSupply,
      (decodeFilters ids rewritten c o.format).1.map Filter.toCriterion =
        (decodeFilters ids' (updateQuery current fs "" c o) c o.format).1.map Filter.toCriterion := by
  intro rewritten trimmed
  refine ⟨Text.isTrimmed_trim term.toList, decodeSearch_updateQuery hc, ?_, ?_⟩
  · intro name hname
    exact get?_updateQuery_of_isSearchParam hc hname
  · intro ids ids'
    have hq : c.has searchName = false := hc.has_eq_false (by decide)
    rw [decodeFilters, decodeFilters, IdSupply.issueAll_toCriterion, IdSupply.issueAll_toCriterion,
      decodeCriteria_updateQuery hq, decodeCriteria_updateQuery hq]

/-- In the flat format of the executions a new term goes over three old ones, one of them in the shape
of a filter, and a filter on the state stays. -/
theorem search_and_filters_apart_executions :
    let c := View.executions.configuration
    let o : UrlOptions := { format := .flat }
    let current := Query.ofList
      [("filters[q][EQUALS]", .one "stale"), ("page", .one "2"), ("q", .one "old"),
        ("search", .one "older")]
    let state := Criterion.ofParts stateKey "state" .isIn (.list ["FAILED", "KILLED"]) "FAILED"
    let rewritten := updateQuery current [state] "\u2003 deploy now\n" c o
    c.LeavesSearch ∧
      decodeSearch rewritten = "deploy now" ∧
      rewritten.get? searchName = some (.one "deploy now") ∧
      rewritten.get? formerSearchName = none ∧
      rewritten.get? bracketedSearchName = none ∧
      (decodeFilters ⟨0, 0⟩ rewritten c o.format).1.map Filter.toCriterion =
        (decodeFilters ⟨5, 1⟩ (updateQuery current [state] "" c o) c o.format).1.map
          Filter.toCriterion := by
  intro c o current state rewritten
  have hc : c.LeavesSearch := by decide
  have htrim : Text.trim "\u2003 deploy now\n".toList = "deploy now".toList := by decide +kernel
  obtain ⟨-, hterm, hnames, hfilters⟩ :=
    search_and_filters_apart hc o current [state] "\u2003 deploy now\n"
  rw [htrim] at hterm hnames
  exact ⟨hc, hterm, hnames _ (by decide), hnames _ (by decide), hnames _ (by decide),
    hfilters ⟨0, 0⟩ ⟨5, 1⟩⟩

end FilterBar
