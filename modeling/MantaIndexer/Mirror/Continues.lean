import MantaIndexer.Mirror.Completeness
import MantaIndexer.Mirror.Bounded

/-!
Whether `should_continue` tells the truth. The loop over the shards is left as soon as the page is
full, and the look-ahead of the last shard only sees that shard. Caps for which SQLite refuses a query
get no flag at all.
-/

namespace MantaIndexer
open Effects Encoding Collections

section Continues

variable [P : Pallet]

variable {db : Database} {L : Ledger}

end Continues

section Sample

attribute [local instance] samplePallet

end Sample

end MantaIndexer
