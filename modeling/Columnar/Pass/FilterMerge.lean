import Columnar.Plan

namespace Columnar.Plan

/-- A filter above the outcome of its input; the conditions of the input come first. -/
def filterOnto (p : Expr) : Plan → Plan
  | step (.filter q) x => step (.filter (.binary .and q p)) x
  | x => step (.filter p) x

def mergeFilters : Plan → Plan
  | scan s proj => scan s proj
  | step (.filter p) x => filterOnto p x.mergeFilters
  | step op x => step op x.mergeFilters
  | join s l r => join s l.mergeFilters r.mergeFilters
  | cache id x => cache id x.mergeFilters

end Columnar.Plan
