import FilterBar.Text.Blank
import FilterBar.Url.Bracketed
import FilterBar.Url.Flat

/-!
# Filters in a URL

Filters and a search term are read from the query of a URL and written into it, in the format that a
view uses.  A query may hold parameters of other parts of the page; writing removes those that
belong to filters and search, sets the new ones, and leaves the rest alone.
-/

namespace FilterBar

inductive UrlFormat where
  | bracketed
  | flat
  deriving DecidableEq, Repr

structure UrlOptions where
  format : UrlFormat := .bracketed
  /-- Whether there is a search field. -/
  showsSearch : Bool := true
  deriving DecidableEq, Repr

def decodeCriteria (q : Query) (c : Configuration) (format : UrlFormat) : List Criterion :=
  match format with
  | .bracketed => Bracketed.decode q c
  | .flat => Flat.decode q c

/-- The filters in a query, with identifiers from a supply, and the supply that is left. -/
def decodeFilters (ids : IdSupply) (q : Query) (c : Configuration) (format : UrlFormat) :
    List Filter × IdSupply :=
  ids.issueAll (decodeCriteria q c format)

/-- The search term in a query; the bracketed parameter goes before the plain one. -/
def decodeSearch (q : Query) : String :=
  ((q.first? bracketedSearchName).or (q.first? searchName)).getD ""

def Configuration.isValid (c : Configuration) (f : Criterion) : Bool :=
  c.has f.key

/-- The criteria that are written: the last one of each key that is configured. -/
def writtenCriteria (c : Configuration) (fs : List Criterion) : List Criterion :=
  Keyed.lasts Criterion.key (fs.filter c.isValid)

def encodeCriteria (fs : List Criterion) (c : Configuration) (format : UrlFormat) : Query :=
  match format with
  | .bracketed => Bracketed.encode (writtenCriteria c fs)
  | .flat => Flat.encode (writtenCriteria c fs)

/-- Whether a parameter belongs to filters or search.  Bare dates belong to them in both formats
where a range of time is a key, since both read them. -/
def isOwnedParam (c : Configuration) (format : UrlFormat) (name : String) : Bool :=
  (Key.after? ParamName.opening name).isSome || name == searchName || name == formerSearchName ||
    (if Key.isDate name then c.has Key.timeRange
     else format == .flat && Flat.isOwned c name)

def clearOwnedParams (q : Query) (c : Configuration) (format : UrlFormat) : Query :=
  q.retain fun name _ => !isOwnedParam c format name

def searchParamName (c : Configuration) (format : UrlFormat) : String :=
  if c.hasKeys && format == .bracketed then bracketedSearchName else searchName

/-- Sets the search term without the blanks around it; a blank term, and any term in a view without
a search field, sets nothing. -/
def writeSearch (q : Query) (term : String) (c : Configuration) (o : UrlOptions) : Query :=
  let term := Text.trim term.toList
  if term.isEmpty || !o.showsSearch then q
  else q.insertOne (searchParamName c o.format) (String.ofList term)

/-- The query for new filters and a new search term. -/
def updateQuery (current : Query) (fs : List Criterion) (term : String) (c : Configuration)
    (o : UrlOptions) : Query :=
  let rest := clearOwnedParams current c o.format
  writeSearch (rest.merge (encodeCriteria fs c o.format)) term c o

end FilterBar
