import Mathlib.Data.List.Induction
import FilterBar.Proofs.Fields
import FilterBar.Proofs.FlatParams
import FilterBar.Proofs.Rewriting
import FilterBar.Session

/-!
# The URL of a session

A session rewrites the query that its URL has at the time, which may be one that it wrote itself.
The invariant of a run is that this query agrees, on every name that is not owned, with the query
last set from outside, and that ranges of time stay on their key.  Since rewriting depends on the
names that are not owned only, each query that a run writes is the one that belongs to the filters
and the search term of that time over the query last set from outside.
-/

namespace FilterBar

/-! ## Criteria that are read -/

theorem Criterion.keepsRange_of_items {f : Criterion} (h : f.value.isTimeRange = false) :
    f.KeepsRange := by
  intro hrange
  rw [h] at hrange
  contradiction

/-- A range of time is only read on the key of that name. -/
theorem keepsRange_of_mem_decodeCriteria {c : Configuration} {format : UrlFormat} {q : Query}
    {f : Criterion} (h : f ∈ decodeCriteria q c format) : f.KeepsRange := by
  cases format with
  | bracketed =>
    rcases Bracketed.mem_decode.mp h with hrange | ⟨hfield, -⟩
    · exact fun _ => Bracketed.key_of_timeRange? hrange
    · exact Criterion.keepsRange_of_items (Bracketed.isTimeRange_of_mem_fieldCriteria hfield)
  | flat =>
    rcases Flat.mem_decode.mp h with hrange | ⟨hparam | hdetails, -⟩
    · exact fun _ => Flat.key_of_timeRange? hrange
    · obtain ⟨param, -, hparam⟩ := List.mem_filterMap.mp hparam
      exact Criterion.keepsRange_of_items (Flat.isTimeRange_of_paramCriterion? hparam)
    · exact Criterion.keepsRange_of_items (Flat.isTimeRange_of_details? hdetails)

theorem toCriterion_mem_of_decodeFilters {ids : IdSupply} {q : Query} {c : Configuration}
    {format : UrlFormat} {f : Filter} (h : f ∈ (decodeFilters ids q c format).1) :
    f.toCriterion ∈ decodeCriteria q c format := by
  have hmem := List.mem_map_of_mem (f := Filter.toCriterion) h
  rwa [decodeFilters, IdSupply.issueAll_toCriterion] at hmem

namespace Session

/-! ## Events -/

/-- Whether an event is a change by the user, which writes the URL. -/
def Event.isChange : Event → Bool
  | .navigate _ | .synchronize _ => false
  | _ => true

/-- A filter that an event brings has a range of time only on the key of that name. -/
def Event.KeepsRange : Event → Prop
  | .add f | .update f => f.toCriterion.KeepsRange
  | _ => True

instance (e : Event) : Decidable e.KeepsRange :=
  match e with
  | .add f | .update f => inferInstanceAs (Decidable f.toCriterion.KeepsRange)
  | .remove _ | .clear | .reset | .search _ | .navigate _ | .synchronize _ => .isTrue trivial

/-- The query of the URL after an event, if only navigation sets it. -/
def outsideStep (url : Query) : Event → Query
  | .navigate next => next
  | _ => url

/-- The query that the URL was last set to from outside, after events that start at a query. -/
def outsideUrl (url : Query) (events : List Event) : Query :=
  events.foldl outsideStep url

theorem outsideUrl_concat (url : Query) (events : List Event) (e : Event) :
    outsideUrl url (events ++ [e]) = outsideStep (outsideUrl url events) e := by
  simp [outsideUrl]

theorem run_concat (s : Session) (events : List Event) (e : Event) :
    s.run (events ++ [e]) = (s.run events).step e := by
  simp [run]

/-- What a change does before the URL is written. -/
def edit (s : Session) : Event → Session
  | .add f => { s with filters := Keyed.put (·.key) f s.filters }
  | .update f => { s with filters := Keyed.drop (·.key) f.key s.filters ++ [f] }
  | .remove id => { s with filters := withoutId s.filters id }
  | .clear => { s with filters := [], search := "" }
  | .reset => { s with filters := s.filters.filter (s.preApplied.contains ·.key), search := "" }
  | .search term => { s with search := term }
  | .navigate _ | .synchronize _ => s

theorem step_of_isChange {s : Session} {e : Event} (h : e.isChange = true) :
    s.step e = (s.edit e).writeUrl := by
  cases e with
  | navigate url => contradiction
  | synchronize url => contradiction
  | _ => rfl

theorem edit_configuration (s : Session) (e : Event) :
    (s.edit e).configuration = s.configuration := by
  cases e <;> rfl

theorem edit_options (s : Session) (e : Event) : (s.edit e).options = s.options := by
  cases e <;> rfl

theorem edit_url (s : Session) (e : Event) : (s.edit e).url = s.url := by
  cases e <;> rfl

theorem edit_written (s : Session) (e : Event) : (s.edit e).written = s.written := by
  cases e <;> rfl

/-! ## Ranges of time stay on their key -/

/-- Every filter of a list has a range of time only on the key of that name. -/
def KeepRanges (filters : List Filter) : Prop :=
  ∀ f ∈ filters, f.toCriterion.KeepsRange

theorem KeepRanges.withoutId {filters : List Filter} (h : KeepRanges filters) (id : String) :
    KeepRanges (withoutId filters id) := by
  unfold Session.withoutId
  split
  · exact fun f hf => h f (List.mem_of_mem_filter hf)
  · exact h

theorem keepRanges_edit {s : Session} {e : Event} (hs : KeepRanges s.filters)
    (he : e.KeepsRange) : KeepRanges (s.edit e).filters := by
  cases e with
  | add f =>
    intro g hg
    rcases Keyed.mem_put hg with rfl | hg
    · exact he
    · exact hs g hg
  | update f =>
    intro g hg
    rcases List.mem_append.mp hg with hg | hg
    · exact hs g (List.mem_of_mem_filter hg)
    · rw [List.mem_singleton.mp hg]
      exact he
  | remove id => exact hs.withoutId id
  | clear => exact fun f hf => absurd hf List.not_mem_nil
  | reset => exact fun f hf => hs f (List.mem_of_mem_filter hf)
  | search term => exact hs
  | navigate url => exact hs
  | synchronize url => exact hs

theorem keepRanges_readUrl (s : Session) (q : Query) : KeepRanges (s.readUrl q).filters := by
  intro f hf
  exact keepsRange_of_mem_decodeCriteria (toCriterion_mem_of_decodeFilters hf)

/-! ## The invariant of a run -/

/-- A session with the given configuration and options whose URL agrees, on every name that is not
owned, with a given query, and whose ranges of time are on their key. -/
structure RewritesOver (c : Configuration) (o : UrlOptions) (base : Query) (s : Session) : Prop where
  configuration : s.configuration = c
  options : s.options = o
  ranges : KeepRanges s.filters
  url : ∀ name, isOwnedParam c o.format name = false → s.url.get? name = base.get? name

section Run

variable {c : Configuration} {o : UrlOptions} {base : Query} {s : Session} {e : Event}

theorem RewritesOver.urlOver_eq (h : RewritesOver c o base s) (q : Query) :
    s.urlOver q = updateQuery q (s.filters.map (·.toCriterion)) s.search c o := by
  rw [urlOver, h.configuration, h.options]

theorem RewritesOver.urlOver_url (h : RewritesOver c o base s) :
    s.urlOver s.url = s.urlOver base := by
  rw [h.urlOver_eq, h.urlOver_eq]
  exact updateQuery_congr h.url

theorem RewritesOver.get?_urlOver (hc : c.KeepsClear) (h : RewritesOver c o base s)
    {name : String} (hname : isOwnedParam c o.format name = false) :
    (s.urlOver base).get? name = base.get? name := by
  rw [h.urlOver_eq]
  apply get?_updateQuery_of_not_owned hc _ hname
  intro f hf
  obtain ⟨g, hg, rfl⟩ := List.mem_map.mp hf
  exact h.ranges g hg

theorem RewritesOver.edit (h : RewritesOver c o base s) (he : e.KeepsRange) :
    RewritesOver c o base (s.edit e) where
  configuration := (edit_configuration s e).trans h.configuration
  options := (edit_options s e).trans h.options
  ranges := keepRanges_edit h.ranges he
  url := by
    rw [edit_url]
    exact h.url

theorem RewritesOver.writeUrl (hc : c.KeepsClear) (h : RewritesOver c o base s) :
    RewritesOver c o base s.writeUrl where
  configuration := h.configuration
  options := h.options
  ranges := h.ranges
  url := by
    intro name hname
    show (s.urlOver s.url).get? name = base.get? name
    rw [h.urlOver_url]
    exact h.get?_urlOver hc hname

theorem RewritesOver.readUrl (h : RewritesOver c o base s) (q : Query) :
    RewritesOver c o base (s.readUrl q) where
  configuration := h.configuration
  options := h.options
  ranges := keepRanges_readUrl s q
  url := h.url

theorem RewritesOver.step (hc : c.KeepsClear) (h : RewritesOver c o base s)
    (he : e.KeepsRange) : RewritesOver c o (outsideStep base e) (s.step e) := by
  by_cases hchange : e.isChange = true
  · have hbase : outsideStep base e = base := by
      cases e with
      | navigate url => contradiction
      | _ => rfl
    rw [step_of_isChange hchange, hbase]
    exact (h.edit he).writeUrl hc
  · cases e with
    | navigate url => exact ⟨h.configuration, h.options, h.ranges, fun _ _ => rfl⟩
    | synchronize url => exact h.readUrl url
    | _ => exact absurd rfl hchange

theorem rewritesOver_start (c : Configuration) (o : UrlOptions) (ids : IdSupply) (url : Query) :
    RewritesOver c o url (start c o ids url) where
  configuration := rfl
  options := rfl
  ranges := keepRanges_readUrl _ url
  url := fun _ _ => rfl

theorem rewritesOver_run (hc : c.KeepsClear) (ids : IdSupply) (url : Query) {events : List Event}
    (he : ∀ e ∈ events, e.KeepsRange) :
    RewritesOver c o (outsideUrl url events) ((start c o ids url).run events) := by
  induction events using List.reverseRecOn with
  | nil => exact rewritesOver_start c o ids url
  | append_singleton events e ih =>
    rw [run_concat, outsideUrl_concat]
    apply (ih (fun d hd => he d (List.mem_append_left _ hd))).step hc
    exact he e (List.mem_append_right _ List.mem_cons_self)

end Run

/-- In every run in which ranges of time stay on their key, a change by the user writes exactly one
query and no other event writes any.  The query written is that of the filters and the search term
after the change over the query last set from outside: what is not owned is as it was there, and
what is owned is as if it had been written into an empty query. -/
theorem written_over_outsideUrl {c : Configuration} (hc : c.KeepsClear) (o : UrlOptions)
    (ids : IdSupply) (url : Query) (events : List Event) (e : Event)
    (he : ∀ d ∈ events ++ [e], d.KeepsRange) :
    let before := (start c o ids url).run events
    let after := (start c o ids url).run (events ++ [e])
    let base := outsideUrl url (events ++ [e])
    let criteria := after.filters.map (·.toCriterion)
    (e.isChange = false → after.written = before.written) ∧
      (e.isChange = true →
        after.written = before.written ++ [updateQuery base criteria after.search c o] ∧
        ∀ name,
          (isOwnedParam c o.format name = false →
            (updateQuery base criteria after.search c o).get? name = base.get? name) ∧
          (isOwnedParam c o.format name = true →
            (updateQuery base criteria after.search c o).get? name =
              (updateQuery Query.empty criteria after.search c o).get? name)) := by
  intro before after base criteria
  have hafter : RewritesOver c o base after := rewritesOver_run hc ids url he
  have hstep : after = before.step e := run_concat _ events e
  constructor
  · intro hchange
    rw [hstep]
    cases e with
    | navigate url => rfl
    | synchronize url => rfl
    | _ => contradiction
  · intro hchange
    refine ⟨?_, ?_⟩
    · have hbefore := rewritesOver_run (o := o) hc ids url
        (fun d hd => he d (List.mem_append_left [e] hd))
      have hedit := hbefore.edit (he e (List.mem_append_right _ List.mem_cons_self))
      have hbase : base = outsideUrl url events := by
        show outsideUrl url (events ++ [e]) = _
        rw [outsideUrl_concat]
        cases e with
        | navigate url => contradiction
        | _ => rfl
      have hwritten : after.written = before.written ++ [(before.edit e).urlOver before.url] := by
        rw [hstep, step_of_isChange hchange]
        show (before.edit e).written ++ [(before.edit e).urlOver (before.edit e).url] = _
        rw [edit_written, edit_url]
      have hurl : (before.edit e).urlOver before.url = after.urlOver base := by
        rw [← edit_url before e, hedit.urlOver_url, ← hbase, hstep, step_of_isChange hchange]
        rfl
      rw [hwritten, hurl, hafter.urlOver_eq]
    · intro name
      constructor
      · intro hname
        have hget := hafter.get?_urlOver hc hname
        rwa [hafter.urlOver_eq] at hget
      · intro hname
        rw [get?_updateQuery_of_owned base hname, get?_updateQuery_of_owned Query.empty hname]

/-- In the flat format of the logs, a range of time is added, the URL moves to another page and a term
is searched for: the second query that is written is one over the other page. -/
theorem written_over_other_page :
    let c := View.logs.configuration
    let o : UrlOptions := { format := .flat }
    let url := Query.ofList [("level", .one "WARN"), ("page", .one "2")]
    let other := Query.ofList [("page", .one "7"), ("startDate", .one "stale")]
    let day : Instant := ⟨⟨2024, 5, 1, by decide⟩, ⟨8, 0, 0, 0, by decide, by decide, by decide, by decide⟩⟩
    let range : Filter :=
      { Criterion.ofTimeRange (timeRangeKey "") day day .equals with id := "range" }
    let events := [.add range, .navigate other]
    let before := (start c o ⟨0, 0⟩ url).run events
    let after := (start c o ⟨0, 0⟩ url).run (events ++ [.search "boom"])
    c.KeepsClear ∧ (∀ d ∈ events ++ [.search "boom"], d.KeepsRange) ∧
      after.written = before.written ++
        [updateQuery other (after.filters.map (·.toCriterion)) after.search c o] := by
  intro c o url other day range events before after
  have hc : c.KeepsClear := View.keepsClear .logs
  have he : ∀ d ∈ events ++ [.search "boom"], d.KeepsRange := by
    intro d hd
    simp only [events, List.cons_append, List.nil_append, List.mem_cons, List.not_mem_nil,
      or_false] at hd
    rcases hd with rfl | rfl | rfl
    · exact fun _ => rfl
    · trivial
    · trivial
  exact ⟨hc, he, ((written_over_outsideUrl hc o ⟨0, 0⟩ url events (.search "boom") he).2 rfl).1⟩

end Session

end FilterBar
