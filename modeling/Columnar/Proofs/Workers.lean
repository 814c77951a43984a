import Columnar.Plan.Run
import Columnar.Proofs.Groups
import Columnar.Proofs.NestedLoop

namespace Columnar

def Host.alone (h : Host) : Host := { h with pool := ⟨⟨.sequential, 1, fun _ => 0⟩, nofun⟩ }

namespace Grouping

variable (host : Host)

@[simp] theorem aggregate_alone (g : Grouping) (c : Column) (op : Aggregation) :
    g.aggregate host.alone c op = g.aggregate host c op := by
  cases op <;> rfl

end Grouping

namespace Frame

variable (host : Host)

end Frame

namespace Operator

variable (host : Host)

end Operator

namespace HashIndex

end HashIndex

namespace Join

variable (host : Host)

end Join

namespace Plan

end Plan

end Columnar
