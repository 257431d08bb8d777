import MantaIndexer.Mirror.Growth
import MantaIndexer.Collections.Grouping

/-!
Worlds that hold a given ledger, with any coherent cache: the states a pull can start from.
-/

namespace MantaIndexer
open Effects Encoding Collections

section Filled

variable [P : Pallet]

/-- The tables of a ledger, shard after shard. -/
def Database.filled (L : Ledger) (total : TotalBytes) : Database where
  shards := (List.finRange forestWidth).flatMap fun s => (L.receivers s).mapIdx (shardRow s)
  nullifier := L.senders.mapIdx nullifierRow
  sendersReceiversTotal := [⟨true, total.val⟩]

theorem represents_filled {L : Ledger} (total : TotalBytes) (below : L.Below (2 ^ 48 - 4096)) :
    Represents (Database.filled L total) L := by
  refine ⟨fun s => .of_eq ?_, .rfl, below⟩
  rw [Database.rowsOf, Database.filled, List.filter_flatMap,
    ← flatMap_single (List.mem_finRange s) (List.nodup_finRange _)
      fun s => (L.receivers s).mapIdx (shardRow s)]
  apply List.flatMap_congr
  intro t _
  have own : ∀ row ∈ (L.receivers t).mapIdx (shardRow t), row.shardIndex = t := by
    intro row member
    obtain ⟨i, receiver, -, rfl⟩ := mem_rows.mp member
    rfl
  split
  · rename_i same
    exact List.filter_eq_self.mpr fun row member => decide_eq_true ((own row member).trans same)
  · rename_i other
    rw [List.filter_eq_nil_iff]
    intro row member
    simpa [own row member] using other

def World.filled (L : Ledger) (total : TotalBytes) (lru : Lru Cache.LruKeyType Bytes) : World :=
  ⟨Database.filled L total, none, lru, true, L, L⟩

theorem mirrors_filled {L : Ledger} (total : TotalBytes) {lru : Lru Cache.LruKeyType Bytes}
    (below : L.Below (2 ^ 48 - 4096)) (coherent : Coherent L lru) :
    Mirrors L (World.filled L total lru) :=
  ⟨represents_filled total below, coherent⟩

theorem Mirrors.grows {inv : Database → Prop} {L M : Ledger} {w v : World} (before : Mirrors L w)
    (after : Mirrors M v) (le : L ≤ M) (kept : inv w.db → inv v.db) : Grows inv w v := by
  intro L' mirrors
  obtain rfl := before.represents.unique mirrors.represents
  exact ⟨⟨M, le, after⟩, kept⟩

/-- The sync task commits before operation `k`: the tables of `L` become those of `M`. -/
def commitsAt (k : Nat) (L M : Ledger) (total total' : TotalBytes) (n : Nat) (w : World) :
    Option World :=
  if n = k ∧ w.db = Database.filled L total then some { w with db := Database.filled M total' }
  else none

theorem commitsAt_grows {inv : Database → Prop} {k : Nat} {L M : Ledger} {total total' : TotalBytes}
    (le : L ≤ M) (before : Represents (Database.filled L total) L)
    (after : Represents (Database.filled M total') M) (kept : inv (Database.filled M total')) :
    ∀ n w v, commitsAt k L M total total' n w = some v → Grows inv w v := by
  intro n w v taken
  unfold commitsAt at taken
  split at taken
  · rename_i filled
    obtain rfl := Option.some.inj taken
    intro L' mirrors
    obtain rfl := before.unique (filled.2 ▸ mirrors.represents)
    exact ⟨⟨M, le, after, mirrors.coherent.mono le⟩, fun _ => kept⟩
  · cases taken

end Filled

section Sample

attribute [local instance] samplePallet

/-- One receiver in each of the first two shards. -/
def sampleTwoShards : Ledger :=
  ⟨fun s => if s = 0 then [sampleReceiver 0 7] else if s = 1 then [sampleReceiver 1 8] else [], []⟩

def sampleTwoFilled : World := World.filled sampleTwoShards sampleTotal (Lru.empty 4)

theorem sampleTwoFilled_mirrors : Mirrors sampleTwoShards sampleTwoFilled :=
  mirrors_filled _ ⟨by decide +kernel, by decide⟩ (Coherent.empty _ 4)

end Sample

end MantaIndexer
