import FilterBar.Proofs.SearchTerm
import FilterBar.Proofs.SessionUrl

/-!
# The pre-applied keys of a session

Keys become pre-applied when a session takes over a query while no filter is in use.  It does so at
the start, but also whenever it is told of a query after its last filter has gone.  So the
pre-applied keys of a state are those of the initial query and of the queries that were adopted in
this way, and they are the keys of the initial query alone unless an adopted query brings another
key.
-/

namespace FilterBar

/-- The keys of the filters that a query holds. -/
def keysIn (q : Query) (c : Configuration) (format : UrlFormat) : List String :=
  (decodeCriteria q c format).map Criterion.key

theorem map_key_decodeFilters (ids : IdSupply) (q : Query) (c : Configuration)
    (format : UrlFormat) : (decodeFilters ids q c format).1.map (·.key) = keysIn q c format :=
  map_decodeFilters Criterion.key ids q c format

namespace Session

/-- The query that an event makes a session adopt: it takes the query over while no filter is in
use. -/
def adoptedBy (s : Session) : Event → List Query
  | .synchronize q => if s.filters.isEmpty then [q] else []
  | _ => []

/-- The queries that a session adopts in the course of events. -/
def adopted (s : Session) : List Event → List Query
  | [] => []
  | e :: rest => s.adoptedBy e ++ (s.step e).adopted rest

section Run

variable {key : String}

/-! ## One event -/

theorem step_configuration (s : Session) (e : Event) :
    (s.step e).configuration = s.configuration := by
  cases e <;> rfl

theorem step_options (s : Session) (e : Event) : (s.step e).options = s.options := by
  cases e <;> rfl

theorem edit_preApplied (s : Session) (e : Event) : (s.edit e).preApplied = s.preApplied := by
  cases e <;> rfl

/-- Taking over a query adds its keys if no filter is in use. -/
theorem mem_preApplied_readUrl (s : Session) (q : Query) :
    key ∈ (s.readUrl q).preApplied ↔
      key ∈ s.preApplied ∨
        s.filters.isEmpty = true ∧ key ∈ keysIn q s.configuration s.options.format := by
  have hread : (s.readUrl q).preApplied =
      if s.filters.isEmpty = true then
        (s.preApplied ++
          (decodeFilters s.ids q s.configuration s.options.format).1.map (·.key)).eraseDups
      else s.preApplied := rfl
  rw [hread, map_key_decodeFilters]
  by_cases hempty : s.filters.isEmpty = true
  · simp [hempty, List.mem_eraseDups]
  · simp [hempty]

/-- An event adds the keys of the query that it makes the session adopt, and no others. -/
theorem mem_preApplied_step (s : Session) (e : Event) :
    key ∈ (s.step e).preApplied ↔
      key ∈ s.preApplied ∨
        ∃ q ∈ s.adoptedBy e, key ∈ keysIn q s.configuration s.options.format := by
  cases e with
  | synchronize url =>
    rw [step, mem_preApplied_readUrl, adoptedBy]
    by_cases hempty : s.filters.isEmpty = true
    · simp [hempty]
    · simp [hempty]
  | navigate url => simp [step, adoptedBy]
  | _ =>
    rw [step_of_isChange rfl]
    show key ∈ (s.edit _).preApplied ↔ _
    simp [edit_preApplied, adoptedBy]

/-! ## Runs -/

/-- In the course of events the keys of all adopted queries are added, and no others. -/
theorem mem_preApplied_run (s : Session) (events : List Event) :
    key ∈ (s.run events).preApplied ↔
      key ∈ s.preApplied ∨
        ∃ q ∈ s.adopted events, key ∈ keysIn q s.configuration s.options.format := by
  induction events generalizing s with
  | nil => simp [run, adopted]
  | cons e rest ih =>
    show key ∈ ((s.step e).run rest).preApplied ↔ _
    rw [ih (s.step e), mem_preApplied_step, step_configuration, step_options, adopted, or_assoc]
    simp only [List.mem_append, or_and_right, exists_or]

theorem mem_preApplied_start (c : Configuration) (o : UrlOptions) (ids : IdSupply) (url : Query) :
    key ∈ (start c o ids url).preApplied ↔ key ∈ keysIn url c o.format := by
  rw [start, mem_preApplied_readUrl]
  simp

end Run

/-- In every state that a session can reach, the pre-applied keys are those of the initial query and
those of the queries that it has adopted since.  They are exactly the keys of the initial query if
and only if no adopted query has brought another one.  Then a reset leaves the filters in use whose
keys came with the initial query, in their order, and no search term. -/
theorem preApplied_of_run (c : Configuration) (o : UrlOptions) (ids : IdSupply) (url : Query)
    (events : List Event) :
    let opened := start c o ids url
    let s := opened.run events
    let initial := keysIn url c o.format
    let later := (opened.adopted events).flatMap fun q => keysIn q c o.format
    (∀ key, key ∈ s.preApplied ↔ key ∈ initial ∨ key ∈ later) ∧
      ((∀ key, key ∈ s.preApplied ↔ key ∈ initial) ↔ later ⊆ initial) ∧
      (later ⊆ initial →
        (s.step .reset).filters = s.filters.filter (initial.contains ·.key) ∧
          (s.step .reset).search = "") := by
  intro opened s initial later
  have hkeys : ∀ key, key ∈ s.preApplied ↔ key ∈ initial ∨ key ∈ later := by
    intro key
    show key ∈ (opened.run events).preApplied ↔ _
    rw [mem_preApplied_run, mem_preApplied_start, List.mem_flatMap]
    rfl
  have hinitial : (∀ key, key ∈ s.preApplied ↔ key ∈ initial) ↔ later ⊆ initial := by
    constructor
    · intro hsame key hkey
      exact (hsame key).mp ((hkeys key).mpr (Or.inr hkey))
    · intro hlater key
      rw [hkeys, or_iff_left_of_imp fun hkey => hlater hkey]
  refine ⟨hkeys, hinitial, ?_⟩
  intro hlater
  refine ⟨?_, rfl⟩
  show s.filters.filter (s.preApplied.contains ·.key) = _
  apply List.filter_congr
  intro f _
  rw [Bool.eq_iff_iff, List.contains_iff_mem, List.contains_iff_mem]
  exact hinitial.mpr hlater f.key

/-- The executions are opened on a namespace, a state is added and the bar is emptied.  The session
then adopts a query with another namespace, and a reset keeps that one but not the flow that is added
to it. -/
theorem preApplied_of_run_executions :
    let c := View.executions.configuration
    let url := Query.ofList [("filters[namespace][IN]", .one "company"), ("page", .one "2")]
    let other := Query.ofList [("filters[namespace][NOT_IN]", .one "company.team")]
    let state : Filter :=
      { Criterion.ofParts stateKey "state" .isIn (.list ["FAILED"]) "FAILED" with id := "state" }
    let flow : Filter :=
      { Criterion.ofParts flowKey "flowId" .equals (.text "daily") "daily" with id := "flow" }
    let opened := start c {} ⟨0, 0⟩ url
    let events := [.add state, .clear, .navigate other, .synchronize other, .add flow,
      .search "boom"]
    let s := opened.run events
    (opened.adopted events).flatMap (keysIn · c .bracketed) ⊆ keysIn url c .bracketed ∧
      opened.adopted events = [other] ∧
      (∀ key, key ∈ s.preApplied ↔ key ∈ keysIn url c .bracketed) ∧
      s.filters.map (·.key) = ["namespace", "flowId"] ∧
      (s.step .reset).filters = s.filters.filter ((keysIn url c .bracketed).contains ·.key) ∧
      (s.step .reset).filters.map (·.key) = ["namespace"] := by
  intro c url other state flow opened events s
  have hlater : (opened.adopted events).flatMap (keysIn · c .bracketed) ⊆
      keysIn url c .bracketed := by decide +kernel
  obtain ⟨-, hinitial, hreset⟩ := preApplied_of_run c {} ⟨0, 0⟩ url events
  exact ⟨hlater, by decide +kernel, hinitial.mpr hlater, by decide +kernel, (hreset hlater).1,
    by decide +kernel⟩

/-- The executions are opened without filters.  The user adds one, empties the bar and goes back to
the URL with the filter: its key counts as pre-applied, and a reset keeps the filter. -/
theorem preApplied_not_initial :
    let c := View.executions.configuration
    let back := Query.ofList [("filters[flowId][EQUALS]", .one "daily")]
    let flow : Filter :=
      { Criterion.ofParts flowKey "flowId" .equals (.text "daily") "daily" with id := "flow" }
    let s := (start c {} ⟨0, 0⟩ Query.empty).run
      [.add flow, .clear, .navigate back, .synchronize back]
    ¬ (∀ key, key ∈ s.preApplied ↔ key ∈ keysIn Query.empty c .bracketed) ∧
      (s.step .reset).filters.map (·.key) = ["flowId"] := by
  intro c back flow s
  have hkey : "flowId" ∈ s.preApplied := by decide +kernel
  have hnone : keysIn Query.empty c .bracketed = [] := by decide +kernel
  refine ⟨?_, by decide +kernel⟩
  intro hsame
  have hmem := (hsame "flowId").mp hkey
  rw [hnone] at hmem
  exact List.not_mem_nil hmem

end Session

end FilterBar
