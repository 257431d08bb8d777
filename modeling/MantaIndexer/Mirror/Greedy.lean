import MantaIndexer.Mirror.Completeness
import MantaIndexer.Mirror.Filled

/-!
How a page of receivers is shared out: every shard in its turn gives what it has from its index on,
until the page is full.
-/

namespace MantaIndexer
open Effects Encoding Collections

section Greedy

variable [P : Pallet]

/-- The rows of a shard from its index on. -/
def unpulled (db : Database) (indices : ShardIndex → UInt64) (s : ShardIndex) : Nat :=
  db.countShards s - (indices s).toNat

/-- A page filled shard after shard: `amount` rows of each shard, from its index on, in any order
inside the shard. -/
structure Greedy (db : Database) (indices : ShardIndex → UInt64) (maxAmount : UInt64)
    (next : ShardIndex → UInt64) (receivers : List Receiver) (amount : ShardIndex → Nat)
    (chunk : ShardIndex → List Receiver) : Prop where
  greedy : ∀ s, amount s = min (unpulled db indices s)
    (maxAmount.toNat - ((allShards.take s).map amount).sum)
  shards : receivers = allShards.flatMap chunk
  counted : ∀ s, (chunk s).length = amount s
  rows : ∀ s, ((chunk s).map fun receiver => (encode receiver.1, encode receiver.2)).Perm
    (((db.rowsOf s).filter fun row => ((indices s).toNat : Int) ≤ row.utxoIndex ∧
        row.utxoIndex < (((indices s).toNat + amount s : Nat) : Int)).map
      fun row => (row.utxo, row.fullIncomingNote))
  next : ∀ s, (next s).toNat = (indices s).toNat + amount s
  total : receivers.length = min maxAmount.toNat (allShards.map (unpulled db indices)).sum

omit P in
theorem allShards_split (s : ShardIndex) :
    allShards = allShards.take s ++ s :: allShards.drop (s + 1) := by
  have inside : s.val < allShards.length := by
    rw [List.length_finRange]
    exact s.isLt
  have here : allShards[s.val] = s := by
    rw [List.getElem_finRange]
    rfl
  have split := List.take_append_drop s.val allShards
  rw [List.drop_eq_getElem_cons inside, here] at split
  exact split.symm

variable {db : Database} {L : Ledger}

theorem Represents.unpulled (h : Represents db L) (indices : ShardIndex → UInt64) :
    unpulled db indices = left (fun _ => L) indices := by
  funext s
  rw [MantaIndexer.unpulled, h.count]
  rfl

theorem Represents.rows_from (h : Represents db L) (s : ShardIndex) (first amount : Nat) :
    (((db.rowsOf s).filter fun row => (first : Int) ≤ row.utxoIndex ∧
        row.utxoIndex < ((first + amount : Nat) : Int)).map
      fun row => (row.utxo, row.fullIncomingNote)).Perm
      ((page (L.receivers s) first amount).map fun receiver => (encode receiver.1, encode receiver.2)) := by
  have between := rows_between (shardRow_numbered s) (L.receivers s)
    (fun row => (row.utxo, row.fullIncomingNote))
    (fun receiver => (encode receiver.1, encode receiver.2)) (fun _ _ => rfl) first (first + amount)
  rw [Nat.add_sub_cancel_left] at between
  exact (((h.shards s).filter _).map _).trans (.of_eq between)

theorem greedy_chunks (holds : Represents db L) {indices : ShardIndex → UInt64} {maxAmount : UInt64}
    {chunk : ShardIndex → List Receiver}
    (chunks : Chunks (fun _ => L) indices allShards maxAmount.toNat chunk) :
    Greedy db indices maxAmount (advanced (fun _ => L) indices maxAmount.toNat)
      (allShards.flatMap chunk) (taken (left (fun _ => L) indices) allShards maxAmount.toNat)
      chunk := by
  refine ⟨fun s => ?_, rfl, fun s => ?_, fun s => ?_, fun s => ?_, ?_⟩
  · have nodup : allShards.Nodup := List.nodup_finRange _
    rw [allShards_split s] at nodup
    have greedy := taken_greedy nodup (left (fun _ => L) indices) maxAmount.toNat
    rw [← allShards_split s] at greedy
    rw [holds.unpulled]
    exact greedy
  · rw [(chunks s (List.mem_finRange s)).length_eq, length_page]
    exact Nat.min_eq_left (taken_le_count L indices maxAmount.toNat s)
  · exact ((chunks s (List.mem_finRange s)).map _).trans (holds.rows_from s _ _).symm
  · exact advanced_toNat holds.below indices maxAmount.toNat s
  · rw [chunks.perm.length_eq, length_gathered, holds.unpulled]

end Greedy

/-- A pull of receivers shares its page out greedily, whatever the cache holds, and in a debug build
none of its sums and differences, the rest of the page among them, leaves the range of a word: the
build runs as the release build does. -/
theorem receivers_greedy [Pallet] {w : World} {L : Ledger} (holds : Represents w.db L)
    (coherent : Coherent L w.lru) (indices : ShardIndex → UInt64) {maxAmount : UInt64}
    (limit : maxAmount.toNat ≤ 4096) (outside : Outside) :
    ∃ more next receivers v amount chunk,
      (pullReceivers indices maxAmount).run (World.handle outside) w =
        (.ok (more, next, receivers), v) ∧
      (Profile.debug.pullReceivers indices maxAmount).run (World.handle outside) w =
        (.ok (more, next, receivers), v) ∧
      Greedy w.db indices maxAmount next receivers amount chunk := by
  have mirrors : Mirrors L w := ⟨holds, coherent⟩
  obtain ⟨chunk, v, ran, chunks, -⟩ :=
    pullReceivers_still mirrors .debug indices (holds.room limit) outside
  refine ⟨_, _, _, v, _, chunk, ?_, ran, greedy_chunks holds chunks⟩
  rcases Profile.panicsOr_pullReceivers .debug indices maxAmount outside w with panics | same
  · rw [ran] at panics
    cases panics
  · rw [← Profile.pullReceivers_release, ← same, ran]

section Sample

attribute [local instance] samplePallet

/-- A page of one receiver: the first shard fills it, and the second one gives nothing. -/
theorem receivers_greedy_two :
    ∃ next v amount chunk,
      (pullReceivers Checkpoint.default.receiverIndex 1).run (World.handle Outside.offline)
        sampleTwoFilled = (.ok (false, next, [sampleReceiver 0 7]), v) ∧
      (Profile.debug.pullReceivers Checkpoint.default.receiverIndex 1).run
        (World.handle Outside.offline) sampleTwoFilled =
          (.ok (false, next, [sampleReceiver 0 7]), v) ∧
      next 0 = 1 ∧ next 1 = 0 ∧
      Greedy sampleTwoFilled.db Checkpoint.default.receiverIndex 1 next [sampleReceiver 0 7] amount
        chunk := by
  obtain ⟨more, next, receivers, v, amount, chunk, ran, debug, greedy⟩ := receivers_greedy
    sampleTwoFilled_mirrors.represents sampleTwoFilled_mirrors.coherent
    Checkpoint.default.receiverIndex (by decide : (1 : UInt64).toNat ≤ 4096) Outside.offline
  have page : ((pullReceivers Checkpoint.default.receiverIndex 1).run (World.handle Outside.offline)
      sampleTwoFilled).1.map (fun answer => (answer.1, answer.2.2, answer.2.1 0, answer.2.1 1)) =
        .ok (false, [sampleReceiver 0 7], 1, 0) := by decide +kernel
  rw [ran] at page
  simp only [Except.map, Except.ok.injEq, Prod.mk.injEq] at page
  obtain ⟨rfl, rfl, first, second⟩ := page
  exact ⟨next, v, amount, chunk, ran, debug, first, second, greedy⟩

end Sample

end MantaIndexer
