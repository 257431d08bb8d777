import MantaIndexer.Mirror.Coherent

/-!
How the shared state may change while a call is running. The other tasks may add to the ledger and
change the cache in any way that keeps it coherent; the operations of a pull leave the database
alone.
-/

namespace MantaIndexer
open Effects Encoding Collections

variable [P : Pallet]

/-- The database holds the ledger `L` and the cache agrees with it. -/
structure Mirrors (L : Ledger) (w : World) : Prop where
  represents : Represents w.db L
  coherent : Coherent L w.lru

theorem Mirrors.below {L : Ledger} {w : World} (mirrors : Mirrors L w) : L.Below (2 ^ 48) :=
  mirrors.represents.below.weaken (by decide)

/-- The mirrored ledger, in a database with the property `inv`. -/
structure Follows (inv : Database → Prop) (L : Ledger) (w : World) : Prop extends Mirrors L w where
  holds : inv w.db

/-- The mirrored ledger grows, and `inv` is kept. -/
def Grows (inv : Database → Prop) (w v : World) : Prop :=
  ∀ L, Mirrors L w → (∃ M, L ≤ M ∧ Mirrors M v) ∧ (inv w.db → inv v.db)

theorem Grows.refl (inv : Database → Prop) (w : World) : Grows inv w w :=
  fun L mirrors => ⟨⟨L, L.le_refl, mirrors⟩, id⟩

theorem Grows.trans {inv : Database → Prop} (u v w : World) (first : Grows inv u v)
    (second : Grows inv v w) : Grows inv u w := by
  intro L mirrors
  obtain ⟨⟨M, le, mirrors⟩, keeps⟩ := first L mirrors
  obtain ⟨⟨N, le', mirrors⟩, keeps'⟩ := second M mirrors
  exact ⟨⟨N, Ledger.le_trans le le', mirrors⟩, keeps' ∘ keeps⟩

theorem Grows.later {inv : Database → Prop} {w v : World} (grows : Grows inv w v) {L : Ledger}
    (follows : Follows inv L w) : ∃ M, L ≤ M ∧ Follows inv M v := by
  obtain ⟨⟨M, le, later⟩, keeps⟩ := grows L follows.toMirrors
  exact ⟨M, le, later, keeps follows.holds⟩

/-- The steps of the syncing task, as the pulls see them. -/
abbrev Extends (w v : World) : Prop := Grows (fun _ => True) w v

theorem Extends.later {w v : World} (extended : Extends w v) {L : Ledger} (mirrors : Mirrors L w) :
    ∃ M, L ≤ M ∧ Mirrors M v :=
  (extended L mirrors).1

def Held (inv : Database → Prop) (L : Ledger) : Prop := ∃ db, inv db ∧ Represents db L

theorem Follows.held {inv : Database → Prop} {L : Ledger} {w : World} (follows : Follows inv L w) :
    Held inv L :=
  ⟨w.db, follows.holds, follows.represents⟩

/-- The database stays as it is and the cache stays coherent; the full node may have moved on. -/
structure Quiet (w v : World) : Prop where
  db : v.db = w.db
  transaction : v.transaction = w.transaction
  served : v.served = w.served
  node : w.node ≤ v.node
  coherent : ∀ L, Mirrors L w → Coherent L v.lru

theorem Quiet.refl (w : World) : Quiet w w :=
  ⟨rfl, rfl, rfl, w.node.le_refl, fun _ mirrors => mirrors.coherent⟩

theorem Quiet.mirrors {w v : World} (quiet : Quiet w v) {L : Ledger} (mirrors : Mirrors L w) :
    Mirrors L v :=
  ⟨quiet.db ▸ mirrors.represents, quiet.coherent L mirrors⟩

theorem Quiet.follows {w v : World} (quiet : Quiet w v) {inv : Database → Prop} {L : Ledger}
    (follows : Follows inv L w) : Follows inv L v :=
  ⟨quiet.mirrors follows.toMirrors, quiet.db ▸ follows.holds⟩

theorem Quiet.trans (u v w : World) (first : Quiet u v) (second : Quiet v w) : Quiet u w :=
  ⟨second.db.trans first.db, second.transaction.trans first.transaction,
    second.served.trans first.served, Ledger.le_trans first.node second.node,
    fun _ mirrors => second.coherent _ (first.mirrors mirrors)⟩

theorem Quiet.grows {inv : Database → Prop} {w v : World} (quiet : Quiet w v) : Grows inv w v :=
  fun L mirrors => ⟨⟨L, L.le_refl, quiet.mirrors mirrors⟩, fun holds => quiet.db ▸ holds⟩

/-! ### Operations that only read -/

theorem quiet_getBatchLru (w : World) (keys : List Cache.LruKeyType) :
    Quiet w { w with lru := (w.lru.getBatch keys).2 } :=
  ⟨rfl, rfl, rfl, w.node.le_refl, fun _ mirrors => mirrors.coherent.getBatch keys⟩

theorem quiet_putBatchLru {w : World} {L : Ledger} (mirrors : Mirrors L w)
    {batch : List (Cache.LruKeyType × Bytes)} (cached : ∀ entry ∈ batch, Caches L entry) :
    Quiet w { w with lru := w.lru.putBatch batch } := by
  refine ⟨rfl, rfl, rfl, w.node.le_refl, fun M other => ?_⟩
  obtain rfl := mirrors.represents.unique other.represents
  exact mirrors.coherent.putBatch cached

theorem quiet_evicted {w : World} {lru : Lru Cache.LruKeyType Bytes} (fewer : w.lru.Evicted lru) :
    Quiet w { w with lru } :=
  ⟨rfl, rfl, rfl, w.node.le_refl, fun _ mirrors => mirrors.coherent.evicted fewer⟩

theorem quiet_grown {w : World} {node : Ledger} (longer : w.node ≤ node) :
    Quiet w { w with node } :=
  ⟨rfl, rfl, rfl, longer, fun _ mirrors => mirrors.coherent⟩

end MantaIndexer
