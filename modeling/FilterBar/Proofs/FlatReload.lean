import FilterBar.Proofs.DateText
import FilterBar.Proofs.FlatParams
import FilterBar.Proofs.Rewriting

/-!
# Reading what the flat format has written

Every name that a criterion is written under belongs to its key: the key itself, a detail for the key
`details` and a date for a range of time.  So criteria with distinct keys are written under distinct
names, and each of them is read back from its own parameters alone.
-/

namespace FilterBar

/-- The key can stand as the name of a parameter of the flat format. -/
structure Criterion.Bare (c : Configuration) (f : Criterion) : Prop where
  has : c.has f.key = true
  keepsRange : f.KeepsRange
  notReserved : Flat.isReserved f.key = false
  notDetail : Key.after? Flat.detailOpening f.key = none

namespace Flat

variable {c : Configuration} {f : Criterion} {fs : List Criterion} {pair : String × String}

/-! ## Names and their keys -/

/-- The key that a name belongs to. -/
def ownerKey (name : String) : String :=
  if Key.isDate name then Key.timeRange
  else if (Key.after? detailOpening name).isSome then Key.details
  else name

theorem ownerKey_of_isDate {name : String} (h : Key.isDate name = true) :
    ownerKey name = Key.timeRange := by
  rw [ownerKey, if_pos h]

theorem ownerKey_of_plain {name : String} (hdate : Key.isDate name = false)
    (hdetail : Key.after? detailOpening name = none) : ownerKey name = name := by
  simp [ownerKey, hdate, hdetail]

theorem isReserved_detail (name : String) : isReserved (detailOpening ++ name) = false := by
  have hhead : (detailOpening ++ name).toList.head? = some 'd' := by
    rw [String.toList_append]
    rfl
  have hne (other : String) (hother : other.toList.head? ≠ some 'd') :
      (detailOpening ++ name == other) = false := by
    rw [beq_eq_false_iff_ne]
    rintro rfl
    exact hother hhead
  have hdate : Key.isDate (detailOpening ++ name) = false := by
    apply Key.isDate_eq_false
    · rw [hhead]
      decide
    · rw [hhead]
      decide
  rw [isReserved, hne searchName (by decide), hne formerSearchName (by decide),
    hne bracketedSearchName (by decide), hdate]
  rfl

theorem ownerKey_detail (name : String) : ownerKey (detailOpening ++ name) = Key.details := by
  simp [ownerKey, isReserved_eq_false (isReserved_detail name), Key.after?_append]

theorem name_of_mem_details {entries : List String} (h : pair ∈ entries.filterMap detailPair?) :
    ∃ name, pair.1 = detailOpening ++ name := by
  obtain ⟨entry, -, hentry⟩ := List.mem_filterMap.mp h
  rw [detailPair?, Option.map_eq_some_iff] at hentry
  obtain ⟨⟨name, value⟩, -, rfl⟩ := hentry
  exact ⟨String.ofList name, rfl⟩

/-- Every name that a criterion is written under belongs to its key. -/
theorem ownerKey_of_mem_pairs (h : f.Bare c) (hpair : pair ∈ pairs f) :
    ownerKey pair.1 = f.key := by
  have hkey : ownerKey f.key = f.key :=
    ownerKey_of_plain (isReserved_eq_false h.notReserved) h.notDetail
  cases hvalue : f.value with
  | timeRange start stop =>
    rw [h.keepsRange (by rw [hvalue]; rfl)]
    simp only [pairs, hvalue] at hpair
    rcases List.mem_pair.mp hpair with rfl | rfl
    · exact ownerKey_of_isDate rfl
    · exact ownerKey_of_isDate rfl
  | text value =>
    simp only [pairs, hvalue, List.mem_singleton] at hpair
    rw [hpair]
    exact hkey
  | list values =>
    simp only [pairs, hvalue] at hpair
    split at hpair
    next hdetails =>
      obtain ⟨name, hname⟩ := name_of_mem_details hpair
      rw [hname, ownerKey_detail, hdetails]
    next =>
      obtain ⟨value, -, rfl⟩ := List.mem_map.mp hpair
      exact hkey

/-- Criteria with distinct keys share no name. -/
theorem pairwise_names_of_bare (hkeys : (fs.map Criterion.key).Nodup) (h : ∀ f ∈ fs, f.Bare c) :
    fs.Pairwise fun f g => ∀ pair ∈ pairs g, pair.1 ∉ (pairs f).map (·.1) := by
  have hne : fs.Pairwise fun f g => f.key ≠ g.key := List.pairwise_map.mp hkeys
  refine hne.imp_of_mem ?_
  intro f g hf hg hkey pair hpair hmem
  obtain ⟨pair', hpair', hname⟩ := List.mem_map.mp hmem
  have howner := ownerKey_of_mem_pairs (h g hg) hpair
  rw [← hname, ownerKey_of_mem_pairs (h f hf) hpair'] at howner
  exact hkey howner

theorem encode_eq_ofPairs_of_bare (hkeys : (fs.map Criterion.key).Nodup)
    (h : ∀ f ∈ fs, f.Bare c) : encode fs = Query.ofPairs (fs.flatMap pairs) :=
  encode_eq_ofPairs (pairwise_names_of_bare hkeys h)

/-! ## What is written under a name -/

/-- The parameters whose names satisfy a test are those of one criterion, if all such names belong
to its key. -/
theorem retain_encode (hkeys : (fs.map Criterion.key).Nodup) (h : ∀ f ∈ fs, f.Bare c) (hf : f ∈ fs)
    {keep : String → Bool} (hkeep : ∀ name, keep name = true → ownerKey name = f.key) :
    ((encode fs).retain fun name _ => keep name) =
      (Query.ofPairs (pairs f)).retain fun name _ => keep name := by
  rw [encode_eq_ofPairs_of_bare hkeys h, Query.retain_ofPairs, Query.retain_ofPairs,
    filter_flatMap_of_owner hkeys hf]
  intro g hg hne pair hpair
  rw [Bool.eq_false_iff]
  intro hname
  rw [← ownerKey_of_mem_pairs (h g hg) hpair, hkeep pair.1 hname] at hne
  exact hne rfl

theorem get?_encode_of_owner (hkeys : (fs.map Criterion.key).Nodup) (h : ∀ f ∈ fs, f.Bare c)
    (hf : f ∈ fs) {name : String} (hname : ownerKey name = f.key) :
    (encode fs).get? name = ParamValue.ofList? (Query.valuesOf name (pairs f)) := by
  rw [encode_eq_ofPairs_of_bare hkeys h, Query.get?_ofPairs, Query.valuesOf, Query.valuesOf,
    filter_flatMap_of_owner hkeys hf]
  intro g hg hne pair hpair
  rw [beq_eq_false_iff_ne]
  rintro rfl
  rw [ownerKey_of_mem_pairs (h g hg) hpair] at hname
  exact hne hname

/-- A name that belongs to no key of the criteria is not in use. -/
theorem get?_encode_of_no_owner (h : ∀ f ∈ fs, f.Bare c) {name : String}
    (hname : ∀ f ∈ fs, ownerKey name ≠ f.key) : (encode fs).get? name = none := by
  apply get?_encode_of_notMem
  intro f hf hmem
  obtain ⟨pair, hpair, rfl⟩ := List.mem_map.mp hmem
  exact hname f hf (ownerKey_of_mem_pairs (h f hf) hpair)

/-! ## Three ways to be written -/

/-- A list under the key `details`, which is written under names of its own. -/
def isDetailList (f : Criterion) : Bool :=
  match f.value with
  | .list _ => f.key == Key.details
  | _ => false

/-- A criterion that is written under its key. -/
def isPlain (f : Criterion) : Bool :=
  !f.value.isTimeRange && !isDetailList f

theorem of_isPlain (h : isPlain f = true) :
    f.value.isTimeRange = false ∧ isDetailList f = false := by
  simpa [isPlain] using h

theorem pairs_of_isPlain (h : isPlain f = true) : pairs f = f.value.items.map (f.key, ·) := by
  cases hvalue : f.value with
  | timeRange start stop => simp [isPlain, hvalue, FilterValue.isTimeRange] at h
  | text value =>
    simp only [pairs, hvalue]
    rfl
  | list values =>
    have hne : f.key ≠ Key.details := by
      simpa [isPlain, isDetailList, hvalue, FilterValue.isTimeRange] using h
    simp only [pairs, hvalue, if_neg hne]
    rfl

theorem of_isDetailList (h : isDetailList f = true) :
    f.key = Key.details ∧ ∃ values, f.value = .list values ∧
      pairs f = values.filterMap detailPair? := by
  cases hvalue : f.value with
  | timeRange start stop => simp [isDetailList, hvalue] at h
  | text value => simp [isDetailList, hvalue] at h
  | list values =>
    have hkey : f.key = Key.details := by simpa [isDetailList, hvalue] using h
    refine ⟨hkey, values, rfl, ?_⟩
    simp only [pairs, hvalue, if_pos hkey]

/-- Dates and details are written under no other name. -/
theorem notMem_pairs_of_not_isPlain (h : isPlain f = false) {name : String}
    (hdate : Key.isDate name = false) (hdetail : Key.after? detailOpening name = none) :
    name ∉ (pairs f).map (·.1) := by
  intro hmem
  obtain ⟨pair, hpair, rfl⟩ := List.mem_map.mp hmem
  cases hvalue : f.value with
  | timeRange start stop =>
    simp only [pairs, hvalue] at hpair
    rcases List.mem_pair.mp hpair with rfl | rfl
    · exact absurd hdate (by simp [Key.isDate])
    · exact absurd hdate (by simp [Key.isDate])
  | text value => simp [isPlain, isDetailList, hvalue, FilterValue.isTimeRange] at h
  | list values =>
    have hlist : isDetailList f = true := by
      simpa [isPlain, hvalue, FilterValue.isTimeRange] using h
    obtain ⟨-, entries, -, hpairs⟩ := of_isDetailList hlist
    rw [hpairs] at hpair
    obtain ⟨name, hname⟩ := name_of_mem_details hpair
    rw [hname, Key.after?_append] at hdetail
    contradiction

theorem notDetail_of_mem_pairs (h : f.Bare c) (hlist : isDetailList f = false)
    (hpair : pair ∈ pairs f) : Key.after? detailOpening pair.1 = none := by
  by_cases hplain : isPlain f = true
  · rw [pairs_of_isPlain hplain] at hpair
    obtain ⟨item, -, rfl⟩ := List.mem_map.mp hpair
    exact h.notDetail
  · cases hvalue : f.value with
    | timeRange start stop =>
      simp only [pairs, hvalue] at hpair
      have hstart : Key.after? detailOpening Key.startDate = none := by decide +kernel
      have hend : Key.after? detailOpening Key.endDate = none := by decide +kernel
      rcases List.mem_pair.mp hpair with rfl | rfl
      · exact hstart
      · exact hend
    | text value => simp [isPlain, hlist, hvalue, FilterValue.isTimeRange] at hplain
    | list values => simp [isPlain, hlist, hvalue, FilterValue.isTimeRange] at hplain

/-- What a criterion is read back as. -/
def reread? (c : Configuration) (f : Criterion) : Option Criterion :=
  match f.value with
  | .timeRange start stop =>
    (c.find? Key.timeRange).map fun k =>
      Criterion.ofTimeRange k start.wholeMillis stop.wholeMillis .equals
  | value =>
    if isDetailList f then details? (Query.ofPairs (pairs f)) c
    else (ParamValue.ofList? value.items).bind fun v => paramCriterion? c (f.key, v)

theorem reread?_of_isPlain (h : isPlain f = true) :
    reread? c f = (ParamValue.ofList? f.value.items).bind fun v => paramCriterion? c (f.key, v) := by
  obtain ⟨hrange, hlist⟩ := of_isPlain h
  cases hvalue : f.value with
  | timeRange start stop => simp [hvalue, FilterValue.isTimeRange] at hrange
  | text value => simp [reread?, hvalue, hlist]
  | list values => simp [reread?, hvalue, hlist]

theorem reread?_of_isDetailList (h : isDetailList f = true) :
    reread? c f = details? (Query.ofPairs (pairs f)) c := by
  obtain ⟨-, values, hvalue, -⟩ := of_isDetailList h
  simp [reread?, hvalue, h]

theorem reread?_of_timeRange {start stop : Instant} (hvalue : f.value = .timeRange start stop) :
    reread? c f = (c.find? Key.timeRange).map fun k =>
      Criterion.ofTimeRange k start.wholeMillis stop.wholeMillis .equals := by
  rw [reread?, hvalue]

/-- A criterion is a range of time, a list of details or written under its key. -/
theorem cases_of_value (f : Criterion) :
    f.value.isTimeRange = true ∨ isDetailList f = true ∨ isPlain f = true := by
  by_cases hrange : f.value.isTimeRange = true
  · exact Or.inl hrange
  · by_cases hlist : isDetailList f = true
    · exact Or.inr (Or.inl hlist)
    · right
      right
      rw [isPlain, Bool.eq_false_iff.mpr hrange, Bool.eq_false_iff.mpr hlist]
      rfl

/-- What is read back is on the key that was written. -/
theorem key_of_reread? (h : f.Bare c) {g : Criterion} (hg : reread? c f = some g) :
    g.key = f.key := by
  rcases cases_of_value f with hrange | hlist | hplain
  · obtain ⟨start, stop, hvalue⟩ := FilterValue.exists_of_isTimeRange hrange
    rw [reread?_of_timeRange hvalue] at hg
    obtain ⟨k, -, rfl⟩ := Option.map_eq_some_iff.mp hg
    exact (h.keepsRange hrange).symm
  · rw [reread?_of_isDetailList hlist] at hg
    rw [key_of_details? hg, (of_isDetailList hlist).1]
  · rw [reread?_of_isPlain hplain] at hg
    obtain ⟨v, -, hv⟩ := Option.bind_eq_some_iff.mp hg
    exact (of_paramCriterion? hv).2.2

/-! ## Each criterion is read back from its own parameters -/

/-- The parameters that are read as filters are those of the criteria written under their keys. -/
theorem mem_params_encode (hkeys : (fs.map Criterion.key).Nodup) (h : ∀ f ∈ fs, f.Bare c)
    {g : Criterion} :
    g ∈ (encode fs).toList.filterMap (paramCriterion? c) ↔
      ∃ f ∈ fs, isPlain f = true ∧ reread? c f = some g := by
  have hget (f : Criterion) (hf : f ∈ fs) (hplain : isPlain f = true) :
      (encode fs).get? f.key = ParamValue.ofList? f.value.items := by
    have hkey : ownerKey f.key = f.key :=
      ownerKey_of_plain (isReserved_eq_false (h f hf).notReserved) (h f hf).notDetail
    have hvalues : Query.valuesOf f.key (pairs f) = f.value.items := by
      simp [pairs_of_isPlain hplain, Query.valuesOf, List.filter_map, Function.comp_def]
    rw [get?_encode_of_owner hkeys h hf hkey, hvalues]
  rw [mem_filterMap_paramCriterion?]
  constructor
  · rintro ⟨v, hv, hg⟩
    obtain ⟨hreserved, hdetail, -⟩ := of_paramCriterion? hg
    have hdate := isReserved_eq_false hreserved
    have howner : ownerKey g.key = g.key := ownerKey_of_plain hdate hdetail
    by_cases hfound : ∃ f ∈ fs, g.key = f.key
    · obtain ⟨f, hf, hkey⟩ := hfound
      have hplain : isPlain f = true := by
        by_contra hplain
        have hnot := notMem_pairs_of_not_isPlain (Bool.eq_false_iff.mpr hplain) hdate hdetail
        rw [get?_encode_of_owner hkeys h hf (howner.trans hkey),
          Query.valuesOf_eq_nil.mpr hnot] at hv
        contradiction
      rw [hkey, hget f hf hplain] at hv
      refine ⟨f, hf, hplain, ?_⟩
      rw [reread?_of_isPlain hplain, hv, Option.bind_some, ← hkey, hg]
    · rw [get?_encode_of_no_owner h] at hv
      · contradiction
      · intro f hf hkey
        exact hfound ⟨f, hf, howner.symm.trans hkey⟩
  · rintro ⟨f, hf, hplain, hg⟩
    have hkey := key_of_reread? (h f hf) hg
    rw [reread?_of_isPlain hplain] at hg
    obtain ⟨v, hv, hcriterion⟩ := Option.bind_eq_some_iff.mp hg
    rw [hkey]
    exact ⟨v, (hget f hf hplain).trans hv, hcriterion⟩

theorem paramDetails_of_not_detail {param : String × ParamValue}
    (h : (Key.after? detailOpening param.1).isSome = false) : paramDetails param = [] := by
  have hnone : Key.after? detailOpening param.1 = none := by simpa using h
  simp [paramDetails, hnone]

/-- Only names of details are read as details. -/
theorem details?_congr {p q : Query}
    (h : (p.retain fun name _ => (Key.after? detailOpening name).isSome) =
      q.retain fun name _ => (Key.after? detailOpening name).isSome) :
    details? p c = details? q c := by
  have hentries : p.toList.flatMap paramDetails = q.toList.flatMap paramDetails := by
    rw [← Query.flatMap_retain p (fun name => (Key.after? detailOpening name).isSome) _
      fun _ hparam => paramDetails_of_not_detail hparam, h,
      Query.flatMap_retain q (fun name => (Key.after? detailOpening name).isSome) _
      fun _ hparam => paramDetails_of_not_detail hparam]
  rw [details?, details?, hentries]

/-- The details are those of the list under the key `details`. -/
theorem details?_encode (hkeys : (fs.map Criterion.key).Nodup) (h : ∀ f ∈ fs, f.Bare c)
    {g : Criterion} :
    details? (encode fs) c = some g ↔
      ∃ f ∈ fs, isDetailList f = true ∧ reread? c f = some g := by
  have howner (name : String) (hname : (Key.after? detailOpening name).isSome = true) :
      ownerKey name = Key.details := by
    obtain ⟨rest, hrest⟩ := Option.isSome_iff_exists.mp hname
    rw [Key.after?_eq_some.mp hrest, ownerKey_detail]
  by_cases hfound : ∃ f ∈ fs, isDetailList f = true
  · obtain ⟨f, hf, hlist⟩ := hfound
    have hkey := (of_isDetailList hlist).1
    have hread : details? (encode fs) c = reread? c f := by
      rw [reread?_of_isDetailList hlist]
      apply details?_congr
      apply retain_encode hkeys h hf
      intro name hname
      rw [howner name hname, hkey]
    rw [hread]
    constructor
    · intro hg
      exact ⟨f, hf, hlist, hg⟩
    · rintro ⟨f', hf', hlist', hg⟩
      obtain rfl := Keyed.eq_of_key_eq hkeys hf hf' (hkey.trans (of_isDetailList hlist').1.symm)
      exact hg
  · have hnone : details? (encode fs) c = none := by
      have hempty : details? (encode fs) c = details? Query.empty c := by
        apply details?_congr
        apply Query.retain_eq_retain
        intro name hname
        rw [Query.get?_empty]
        apply get?_encode_of_notMem
        intro f hf hmem
        obtain ⟨pair, hpair, rfl⟩ := List.mem_map.mp hmem
        have hlist : isDetailList f = false := by
          rw [Bool.eq_false_iff]
          intro hlist
          exact hfound ⟨f, hf, hlist⟩
        rw [notDetail_of_mem_pairs (h f hf) hlist hpair] at hname
        contradiction
      rw [hempty]
      rfl
    rw [hnone]
    constructor
    · intro hg
      contradiction
    · rintro ⟨f, hf, hlist, -⟩
      exact absurd ⟨f, hf, hlist⟩ hfound

/-- The two dates are read back. -/
theorem timeRange?_encode_of_timeRange (hkeys : (fs.map Criterion.key).Nodup)
    (h : ∀ f ∈ fs, f.Bare c) (hf : f ∈ fs) (hyears : f.HasFourDigitYears)
    (hrange : f.value.isTimeRange = true) : timeRange? (encode fs) c = reread? c f := by
  obtain ⟨start, stop, hvalue⟩ := FilterValue.exists_of_isTimeRange hrange
  rw [Criterion.HasFourDigitYears, hvalue] at hyears
  have hkey : f.key = Key.timeRange := (h f hf).keepsRange hrange
  have hpairs : pairs f = [(Key.startDate, String.ofList start.millisText),
      (Key.endDate, String.ofList stop.millisText)] := by
    simp only [pairs, hvalue]
  have hne : (Key.startDate == Key.endDate) = false := by decide
  have hne' : (Key.endDate == Key.startDate) = false := by decide
  have hstart : (encode fs).first? Key.startDate = some (String.ofList start.millisText) := by
    rw [Query.first?, get?_encode_of_owner hkeys h hf ((ownerKey_of_isDate rfl).trans hkey.symm),
      hpairs]
    simp [Query.valuesOf, hne', ParamValue.ofList?, ParamValue.first?, ParamValue.values]
  have hstop : (encode fs).first? Key.endDate = some (String.ofList stop.millisText) := by
    rw [Query.first?, get?_encode_of_owner hkeys h hf ((ownerKey_of_isDate rfl).trans hkey.symm),
      hpairs]
    simp [Query.valuesOf, hne, ParamValue.ofList?, ParamValue.first?, ParamValue.values]
  rw [reread?_of_timeRange hvalue]
  simp only [timeRange?, hstart, hstop, Option.bind_eq_bind, Option.bind_some,
    start.parse?_millisText hyears.1, stop.parse?_millisText hyears.2]
  cases c.find? Key.timeRange <;> rfl

/-- Without a range of time no date is read. -/
theorem timeRange?_encode_of_none (h : ∀ f ∈ fs, f.Bare c)
    (hnone : ∀ f ∈ fs, f.value.isTimeRange = false) : timeRange? (encode fs) c = none := by
  have hbare : (encode fs).get? Key.startDate = none := by
    apply get?_encode_of_notMem
    intro f hf hmem
    rcases cases_of_value f with hrange | hlist | hplain
    · rw [hnone f hf] at hrange
      contradiction
    · obtain ⟨-, entries, -, hpairs⟩ := of_isDetailList hlist
      rw [hpairs] at hmem
      obtain ⟨pair, hpair, hname⟩ := List.mem_map.mp hmem
      obtain ⟨name, hdetail⟩ := name_of_mem_details hpair
      have howner := ownerKey_detail name
      rw [← hdetail, hname] at howner
      exact absurd howner (by decide)
    · rw [pairs_of_isPlain hplain] at hmem
      obtain ⟨pair, hpair, hname⟩ := List.mem_map.mp hmem
      obtain ⟨item, -, rfl⟩ := List.mem_map.mp hpair
      have hdate := isReserved_eq_false (h f hf).notReserved
      rw [show f.key = Key.startDate from hname] at hdate
      contradiction
  rw [timeRange?, Query.first?, hbare]
  rfl

/-- What is read from a written query is what is read back from each criterion. -/
theorem mem_decode_encode (hkeys : (fs.map Criterion.key).Nodup) (h : ∀ f ∈ fs, f.Bare c)
    (hyears : ∀ f ∈ fs, f.HasFourDigitYears) {g : Criterion} :
    g ∈ decode (encode fs) c ↔ ∃ f ∈ fs, reread? c f = some g := by
  rw [mem_decode, mem_params_encode hkeys h, details?_encode hkeys h]
  by_cases hranges : ∃ r ∈ fs, r.value.isTimeRange = true
  · obtain ⟨r, hr, hrange⟩ := hranges
    rw [timeRange?_encode_of_timeRange hkeys h hr (hyears r hr) hrange]
    constructor
    · rintro (hg | ⟨⟨f, hf, -, hg⟩ | ⟨f, hf, -, hg⟩, -⟩)
      · exact ⟨r, hr, hg⟩
      · exact ⟨f, hf, hg⟩
      · exact ⟨f, hf, hg⟩
    · rintro ⟨f, hf, hg⟩
      by_cases hfr : f = r
      · exact Or.inl (hfr ▸ hg)
      -- no second criterion has the key of the range
      · have hkey : f.key ≠ Key.timeRange := by
          rw [← (h r hr).keepsRange hrange]
          intro hkey
          exact hfr (Keyed.eq_of_key_eq hkeys hf hr hkey)
        refine Or.inr ⟨?_, fun _ _ => (key_of_reread? (h f hf) hg).trans_ne hkey⟩
        rcases cases_of_value f with hrange' | hlist | hplain
        · exact absurd ((h f hf).keepsRange hrange') hkey
        · exact Or.inr ⟨f, hf, hlist, hg⟩
        · exact Or.inl ⟨f, hf, hplain, hg⟩
  · have hnone : ∀ f ∈ fs, f.value.isTimeRange = false := by
      intro f hf
      rw [Bool.eq_false_iff]
      intro hrange
      exact hranges ⟨f, hf, hrange⟩
    rw [timeRange?_encode_of_none h hnone]
    constructor
    · rintro (hg | ⟨⟨f, hf, -, hg⟩ | ⟨f, hf, -, hg⟩, -⟩)
      · contradiction
      · exact ⟨f, hf, hg⟩
      · exact ⟨f, hf, hg⟩
    · rintro ⟨f, hf, hg⟩
      have hother : ∀ range, (none : Option Criterion) = some range → g.key ≠ Key.timeRange := by
        intro range hread
        contradiction
      refine Or.inr ⟨?_, hother⟩
      rcases cases_of_value f with hrange | hlist | hplain
      · exact absurd hrange (Bool.eq_false_iff.mp (hnone f hf))
      · exact Or.inr ⟨f, hf, hlist, hg⟩
      · exact Or.inl ⟨f, hf, hplain, hg⟩

theorem nodup_keys_decode_encode (hkeys : (fs.map Criterion.key).Nodup) (h : ∀ f ∈ fs, f.Bare c) :
    ((decode (encode fs) c).map Criterion.key).Nodup := by
  apply nodup_keys_decode
  intro g hg
  obtain ⟨f, hf, hlist, -⟩ := (details?_encode hkeys h).mp hg
  have hplain : isPlain f = false := by simp [isPlain, hlist]
  have hdetail : Key.after? detailOpening Key.details = none := by decide +kernel
  have hkey : ownerKey Key.details = f.key :=
    (ownerKey_of_plain rfl hdetail).trans (of_isDetailList hlist).1.symm
  rw [get?_encode_of_owner hkeys h hf hkey,
    Query.valuesOf_eq_nil.mpr (notMem_pairs_of_not_isPlain hplain rfl hdetail)]
  rfl

/-- Each criterion is read back from its own parameters, and nothing else is read. -/
theorem decode_encode_perm (hkeys : (fs.map Criterion.key).Nodup) (h : ∀ f ∈ fs, f.Bare c)
    (hyears : ∀ f ∈ fs, f.HasFourDigitYears) :
    (decode (encode fs) c).Perm (fs.filterMap (reread? c)) := by
  have hreread : ((fs.filterMap (reread? c)).map Criterion.key).Nodup := by
    refine (Keyed.map_filterMap_sublist ?_).nodup hkeys
    intro f hf g hg
    exact key_of_reread? (h f hf) hg
  refine (List.perm_ext_iff_of_nodup (nodup_keys_decode_encode hkeys h).of_map
    hreread.of_map).mpr ?_
  intro g
  rw [mem_decode_encode hkeys h hyears, List.mem_filterMap]

end Flat

end FilterBar
