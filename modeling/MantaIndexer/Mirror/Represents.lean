import MantaIndexer.Collections.Indexed
import MantaIndexer.Indexer.Db

/-!
When the tables hold a ledger: the rows of each shard are its receivers and the nullifier rows are
the senders, numbered from zero. Every statement that reads is then answered from the ledger.
-/

namespace MantaIndexer
open Encoding Collections

variable [P : Pallet]

def shardRow (s : ShardIndex) (i : Nat) (receiver : Receiver) : Shard :=
  ⟨s, i, encode receiver.1, encode receiver.2⟩

def nullifierRow (i : Nat) (sender : Sender) : Nullifier :=
  ⟨i, encode sender.1, encode sender.2⟩

theorem shardRow_numbered (s : ShardIndex) :
    ∀ i receiver, Shard.utxoIndex (shardRow s i receiver) = i := fun _ _ => rfl

theorem nullifierRow_numbered : ∀ i sender, Nullifier.idx (nullifierRow i sender) = i :=
  fun _ _ => rfl

def Database.rowsOf (db : Database) (s : ShardIndex) : List Shard :=
  db.shards.filter fun row => row.shardIndex = s

/-- The tables hold exactly the ledger `L`, in any order of the rows. -/
structure Represents (db : Database) (L : Ledger) : Prop where
  shards : ∀ s, (db.rowsOf s).Perm ((L.receivers s).mapIdx (shardRow s))
  nullifiers : db.nullifier.Perm (L.senders.mapIdx nullifierRow)
  below : L.Below (2 ^ 48 - 4096)

theorem represents_migrated : Represents Database.migrated Ledger.empty :=
  ⟨fun _ => .rfl, .rfl, Ledger.empty_below (by decide)⟩

/-! ### Nullifiers -/

section Nullifiers

variable {db : Database} {senders : List Sender}
  (rows : db.nullifier.Perm (senders.mapIdx nullifierRow))

include rows

theorem nullifierAt_rows (i : Nat) : db.nullifierAt i = senders[i]?.map (nullifierRow i) :=
  find_number nullifierRow_numbered rows i

theorem nullifierAt_word (small : senders.length < 2 ^ 63) (x : UInt64) :
    db.nullifierAt (asI64 x) = senders[x.toNat]?.map (nullifierRow x.toNat) := by
  by_cases positive : x.toNat < 2 ^ 63
  · rw [asI64_of_lt positive, nullifierAt_rows rows]
  · have bound := x.toNat_lt
    have past : senders[x.toNat]? = none := List.getElem?_eq_none (by omega)
    rw [past, Option.map_none]
    apply find_negative nullifierRow_numbered rows
    rw [asI64_eq, if_neg positive]
    omega

theorem nullifierAt_isSome (small : senders.length < 2 ^ 63) (x : UInt64) :
    (db.nullifierAt (asI64 x)).isSome = decide (x.toNat < senders.length) := by
  rw [nullifierAt_word rows small, Option.isSome_map, Bool.eq_iff_iff, isSome_getElem?,
    decide_eq_true_iff]

theorem nullifiersIn_rows {positions : List Nat} (sorted : positions.Pairwise (· < ·)) :
    db.nullifiersIn (positions.map Int.ofNat) =
      positions.filterMap fun i => senders[i]?.map (nullifierRow i) :=
  sorted_query nullifierRow_numbered rows sorted

end Nullifiers

namespace Represents

variable {db : Database} {L : Ledger}

theorem count (h : Represents db L) (s : ShardIndex) : db.countShards s = L.count s := by
  have lengths := (h.shards s).length_eq
  rw [List.length_mapIdx, Database.rowsOf, ← List.countP_eq_length_filter] at lengths
  exact lengths

theorem countNullifier (h : Represents db L) : db.countNullifier = L.senders.length := by
  have lengths := h.nullifiers.length_eq
  rwa [List.length_mapIdx] at lengths

theorem count_le_length (h : Represents db L) (s : ShardIndex) : L.count s ≤ db.shards.length := by
  rw [← h.count s]
  exact List.countP_le_length

theorem room (h : Represents db L) {amount : UInt64} (limit : amount.toNat ≤ 4096)
    (s : ShardIndex) : L.count s + amount.toNat ≤ 2 ^ 48 := by
  have counted := h.below.1 s
  omega

theorem shardAt (h : Represents db L) (s : ShardIndex) (i : Nat) :
    db.shardAt s i = (L.receivers s)[i]?.map (shardRow s i) := by
  rw [← find_number (shardRow_numbered s) (h.shards s) i, Database.rowsOf, List.find?_filter,
    Database.shardAt]
  congr 1
  funext row
  simp

theorem shardAt_negative (h : Represents db L) (s : ShardIndex) {n : Int} (negative : n < 0) :
    db.shardAt s n = none := by
  rw [← find_negative (shardRow_numbered s) (h.shards s) negative, Database.rowsOf,
    List.find?_filter, Database.shardAt]
  congr 1
  funext row
  simp

theorem shardsIn (h : Represents db L) (s : ShardIndex) {positions : List Nat}
    (sorted : positions.Pairwise (· < ·)) :
    db.shardsIn s (positions.map Int.ofNat) =
      positions.filterMap fun i => (L.receivers s)[i]?.map (shardRow s i) := by
  rw [← sorted_query (shardRow_numbered s) (h.shards s) sorted, Database.rowsOf,
    List.filter_filter, Database.shardsIn]
  congr 2
  funext row
  rw [Bool.and_comm]
  simp

theorem shardAt_word (h : Represents db L) (s : ShardIndex) (small : L.count s < 2 ^ 63)
    (x : UInt64) :
    db.shardAt s (asI64 x) = (L.receivers s)[x.toNat]?.map (shardRow s x.toNat) := by
  by_cases positive : x.toNat < 2 ^ 63
  · rw [asI64_of_lt positive, h.shardAt]
  · have bound := x.toNat_lt
    have past : (L.receivers s)[x.toNat]? = none := by
      apply List.getElem?_eq_none
      rw [Ledger.count] at small
      omega
    rw [past, Option.map_none]
    apply h.shardAt_negative
    rw [asI64_eq, if_neg positive]
    omega

theorem shardAt_isSome (h : Represents db L) (s : ShardIndex) (small : L.count s < 2 ^ 63)
    (x : UInt64) : (db.shardAt s (asI64 x)).isSome = decide (x.toNat < L.count s) := by
  rw [h.shardAt_word s small, Option.isSome_map, Bool.eq_iff_iff, isSome_getElem?,
    decide_eq_true_iff, Ledger.count]

theorem nullifierAt_isSome (h : Represents db L) (x : UInt64) :
    (db.nullifierAt (asI64 x)).isSome = decide (x.toNat < L.senders.length) :=
  MantaIndexer.nullifierAt_isSome h.nullifiers (h.below.2.trans (by decide)) x

theorem unique {M : Ledger} (h : Represents db L) (other : Represents db M) : L = M := by
  ext1
  · funext s
    apply List.ext_getElem?
    intro i
    have rows := (h.shardAt s i).symm.trans (other.shardAt s i)
    refine Option.map_injective ?_ rows
    intro a b same
    simp only [shardRow, Shard.mk.injEq, true_and] at same
    exact Prod.ext (encode_injective same.1) (encode_injective same.2)
  · apply List.ext_getElem?
    intro i
    have rows := (nullifierAt_rows h.nullifiers i).symm.trans (nullifierAt_rows other.nullifiers i)
    refine Option.map_injective ?_ rows
    intro a b same
    simp only [nullifierRow, Nullifier.mk.injEq, true_and] at same
    exact Prod.ext (encode_injective same.1) (encode_injective same.2)

end Represents

end MantaIndexer
