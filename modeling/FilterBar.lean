import FilterBar.Main
import FilterBar.Completion.Basic
import FilterBar.Preset.Store
import FilterBar.Session
import FilterBar.Toolbar
import FilterBar.Proofs.Names
import FilterBar.Proofs.Ownership
import FilterBar.Proofs.Written
import FilterBar.Proofs.Keyed
import FilterBar.Proofs.Rewriting
import FilterBar.Proofs.SessionUrl
import FilterBar.Proofs.DateText
import FilterBar.Proofs.Fields
import FilterBar.Proofs.ParamName
import FilterBar.Proofs.Utf8
import FilterBar.Proofs.SearchTerm
import FilterBar.Proofs.BracketedReload
import FilterBar.Proofs.BracketedValues
import FilterBar.Proofs.NormalForm
import FilterBar.Proofs.RoundTrip
import FilterBar.Proofs.FlatReload
import FilterBar.Proofs.Reload
import FilterBar.Proofs.FlatRoundTrip
import FilterBar.Proofs.ReadValues
import FilterBar.Proofs.CanonicalForm
import FilterBar.Proofs.SearchParameter
import FilterBar.Proofs.SessionFilters
import FilterBar.Proofs.FilterOrder
import FilterBar.Proofs.JsonText
import FilterBar.Proofs.JsonRoundTrip
import FilterBar.Proofs.StoredInstant
import FilterBar.Proofs.StoredPresets
import FilterBar.Proofs.SharedPresets
import FilterBar.Proofs.PreAppliedKeys
import FilterBar.Proofs.FlatKeys
import FilterBar.Proofs.PresetIsolation
import FilterBar.Proofs.HiddenEntries
import FilterBar.Proofs.FieldParams
import FilterBar.Proofs.PresetIds
import FilterBar.Proofs.TimeRanges
import FilterBar.Proofs.CreatedFilters
import FilterBar.Proofs.ValueComparators
import FilterBar.Proofs.NamespaceExpansion
import FilterBar.Proofs.Utf8Validity
import FilterBar.Proofs.ReportTree
import FilterBar.Proofs.Entities
import FilterBar.Proofs.WrittenMarkup
import FilterBar.Proofs.WrittenReport
import FilterBar.Proofs.SummaryMark
import FilterBar.Proofs.ShadowedFilters
import FilterBar.Proofs.Utf8Order
import FilterBar.Proofs.Ranking
import FilterBar.Proofs.TypedValue
import FilterBar.Proofs.CommaLists
import FilterBar.Proofs.NameGrammar
import FilterBar.Proofs.PercentDecoding
