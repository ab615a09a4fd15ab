/-!
# Table toolbars

The state of the toolbar above a table: whether its options are open and whether its chart is shown.
The chart belongs to the page, which is told when the user changes it.
-/

namespace FilterBar

/-- The state of a toolbar, and what its page has been told. -/
structure Toolbar where
  showsOptions : Bool := false
  showsChart : Bool := false
  reportsChart : Bool := false
  reportsRefresh : Bool := false
  chartReports : List Bool := []
  refreshReports : Nat := 0
  deriving DecidableEq, Repr

namespace Toolbar

/-- The toolbar of a page whose chart, if it has one, is shown or not. -/
def ofPage (chart : Option Bool) (reportsChart reportsRefresh : Bool) : Toolbar :=
  { showsChart := chart.getD false, reportsChart, reportsRefresh }

def toggleOptions (t : Toolbar) : Toolbar :=
  { t with showsOptions := !t.showsOptions }

/-- Takes over the chart setting of the page, if it has one. -/
def syncChart (t : Toolbar) (chart : Option Bool) : Toolbar :=
  { t with showsChart := chart.getD t.showsChart }

def setChart (t : Toolbar) (chart : Bool) : Toolbar :=
  { t with
    showsChart := chart
    chartReports := if t.reportsChart then t.chartReports ++ [chart] else t.chartReports }

def refresh (t : Toolbar) : Toolbar :=
  { t with refreshReports := if t.reportsRefresh then t.refreshReports + 1 else t.refreshReports }

end Toolbar

end FilterBar
