import Forager.Inventory

/-!
# The reason of a rejected target

`partitionTargetsByScope` of `pkg/proxy/discovery/proxy.go` rejects each target whose verdict
is `false` as outside the datasource's `allowed_cidrs`. The verdicts start as `false`, and a
check that is still waiting for its turn when the context is cancelled may leave without
setting its own.
-/

namespace Forager

open Go

namespace InventoryLemmas

open InventoryJob

variable {job : InventoryJob} {cancelled : Bool} {acts : List (FanOut.Act Unit)}

end InventoryLemmas

end Forager
