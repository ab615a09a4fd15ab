import FilterBar.Url.Codec

/-!
# Sessions

The state of one filter bar: the filters in use and the search term, kept in step with the URL.  A
change by the user writes the URL once, from the parameters that the URL has at that time.  A
change of the URL from outside replaces filters and term by what the new URL holds.

A session also remembers keys as pre-applied: those of the filters that a URL brings while no filter
is in use, at the start or later.
-/

namespace FilterBar

structure Session where
  configuration : Configuration
  options : UrlOptions
  ids : IdSupply
  url : Query
  written : List Query
  filters : List Filter
  search : String
  /-- The keys that count as pre-applied, each once. -/
  preApplied : List String

namespace Session

inductive Event where
  /-- A filter takes the place of the one with its key, or comes last. -/
  | add (filter : Filter)
  /-- A filter comes last, and those with its key go. -/
  | update (filter : Filter)
  /-- The filters with the key of the one with this identifier go. -/
  | remove (id : String)
  | clear
  /-- The filters whose keys are not pre-applied and the search term go. -/
  | reset
  /-- The search term changes. -/
  | search (term : String)
  /-- The URL changes without the session being told. -/
  | navigate (url : Query)
  /-- The session is told that the URL has changed to this query. -/
  | synchronize (url : Query)
  deriving DecidableEq

/-- Takes over what a query holds.  Without a search field the term stays as it is. -/
def readUrl (s : Session) (q : Query) : Session :=
  let (found, ids) := decodeFilters s.ids q s.configuration s.options.format
  { s with
    ids := ids
    filters := found
    search := if s.options.showsSearch then decodeSearch q else s.search
    preApplied :=
      if s.filters.isEmpty then (s.preApplied ++ found.map (·.key)).eraseDups else s.preApplied }

def start (configuration : Configuration) (options : UrlOptions) (ids : IdSupply) (url : Query) :
    Session :=
  readUrl
    { configuration, options, ids, url, written := [], filters := [], search := "",
      preApplied := [] }
    url

/-- The query that belongs to the filters and the search term, over the parameters of a query. -/
def urlOver (s : Session) (q : Query) : Query :=
  updateQuery q (s.filters.map (·.toCriterion)) s.search s.configuration s.options

/-- Writes the filters and the search term into the URL. -/
def writeUrl (s : Session) : Session :=
  let next := s.urlOver s.url
  { s with url := next, written := s.written ++ [next] }

/-- The filters without those that share the key of the filter with an identifier. -/
def withoutId (filters : List Filter) (id : String) : List Filter :=
  match filters.find? (·.id == id) with
  | some f => Keyed.drop (·.key) f.key filters
  | none => filters

def step (s : Session) : Event → Session
  | .add f => writeUrl { s with filters := Keyed.put (·.key) f s.filters }
  | .update f => writeUrl { s with filters := Keyed.drop (·.key) f.key s.filters ++ [f] }
  | .remove id => writeUrl { s with filters := withoutId s.filters id }
  | .clear => writeUrl { s with filters := [], search := "" }
  | .reset =>
    writeUrl { s with filters := s.filters.filter (s.preApplied.contains ·.key), search := "" }
  | .search term => writeUrl { s with search := term }
  | .navigate url => { s with url := url }
  | .synchronize url => readUrl s url

def run (s : Session) (events : List Event) : Session :=
  events.foldl step s

/-- The filter that a criterion becomes in a session. -/
def issue (s : Session) (c : Criterion) : Filter × Session :=
  let (f, ids) := s.ids.issue c
  (f, { s with ids := ids })

end Session

end FilterBar
