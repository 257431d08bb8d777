import MantaIndexer.Mirror.Delivery
import Mathlib.Logic.Relation

/-!
From the full node to a client. What is committed once stays in the tables, so a client that pages
while the indexer follows the full node gets the ledger of the full node itself.
-/

namespace MantaIndexer
open Effects Encoding Collections

/-! ### Committed rows -/

section Later

variable [P : Pallet] {serves : Serves} {s t : System}

/-- The states of every run from here, crashes and restarts included. -/
abbrev System.Later (serves : Serves) : System → System → Prop :=
  Relation.ReflTransGen (System.Step serves)

theorem System.Reachable.later (reachable : s.Reachable serves) (later : System.Later serves s t) :
    t.Reachable serves := by
  induction later with
  | refl => exact reachable
  | tail _ step before => exact before.step step

theorem System.Reachable.extends (reachable : s.Reachable serves)
    (later : System.Later serves s t) : Extends s.world t.world := by
  induction later with
  | refl => exact Grows.refl _ _
  | tail since step before =>
    have known := Invariant.reachable (C := shardedContract serves) (reachable.later since)
    exact Grows.trans _ _ _ before (known.grows step)

theorem Represents.rows_since {db db' : Database} {L M : Ledger} (before : Represents db L)
    (after : Represents db' M) (le : L ≤ M) (shard : ShardIndex) :
    ((db'.rowsOf shard).filter fun row => row.utxoIndex < (db.countShards shard : Int)).Perm
      (db.rowsOf shard) := by
  obtain ⟨more, longer⟩ := le.1 shard
  have rows := (after.shards shard).filter fun row => row.utxoIndex < ((L.receivers shard).length : Int)
  rw [← longer, rows_below (shardRow_numbered shard)] at rows
  rw [before.count]
  exact rows.trans (before.shards shard).symm

theorem Represents.nullifiers_since {db db' : Database} {L M : Ledger} (before : Represents db L)
    (after : Represents db' M) (le : L ≤ M) :
    (db'.nullifier.filter fun row => row.idx < (db.countNullifier : Int)).Perm db.nullifier := by
  obtain ⟨more, longer⟩ := le.2
  have rows := after.nullifiers.filter fun row => row.idx < (L.senders.length : Int)
  rw [← longer, rows_below nullifierRow_numbered] at rows
  rw [before.countNullifier]
  exact rows.trans before.nullifiers.symm

end Later

/-- Whatever the full node answers, whatever fails and whenever the process dies, no committed row is
ever changed, removed or joined by another one below the count of its table. -/
theorem committed_rows_stay [Pallet] {serves : Serves} {s t : System}
    (reachable : s.Reachable serves) (later : System.Later serves s t) :
    (∀ shard, ((t.world.db.rowsOf shard).filter fun row =>
        row.utxoIndex < (s.world.db.countShards shard : Int)).Perm (s.world.db.rowsOf shard)) ∧
      (t.world.db.nullifier.filter fun row => row.idx < (s.world.db.countNullifier : Int)).Perm
        s.world.db.nullifier := by
  obtain ⟨L, mirrors⟩ := (Invariant.reachable (C := shardedContract serves) reachable).mirrored
  obtain ⟨M, le, mirrors'⟩ := (reachable.extends later).later mirrors
  have before := mirrors.represents
  have after := mirrors'.represents
  exact ⟨before.rows_since after le, before.nullifiers_since after le⟩

section Sample

attribute [local instance] samplePallet

/-- A process that dies right after its first batch. -/
theorem committed_rows_stay_restarted :
    ∃ t : System, System.Later anyNode sampleSynced t ∧ t.world.transaction = none ∧
      (∀ shard, ((t.world.db.rowsOf shard).filter fun row =>
        row.utxoIndex < (sampleSynced.world.db.countShards shard : Int)).Perm
          (sampleSynced.world.db.rowsOf shard)) ∧
      (t.world.db.nullifier.filter fun row =>
        row.idx < (sampleSynced.world.db.countNullifier : Int)).Perm sampleSynced.world.db.nullifier := by
  have later : System.Later anyNode sampleSynced _ := .single (.restarted 4)
  exact ⟨_, later, rfl, committed_rows_stay (sampleSynced_reachable fun _ _ => trivial) later⟩

end Sample

/-! ### The ledger of the full node at a client -/

section Session

variable [P : Pallet] {serves : Serves} {c : Session}

/-- The requests of the client keep what the contract with the full node says. -/
theorem Session.Reachable.system_invariant {C : Contract serves}
    (reachable : c.Reachable serves (2 ^ 48 - 4096)) : MantaIndexer.Invariant C c.system := by
  induction reachable with
  | opened running _ _ => exact MantaIndexer.Invariant.reachable running
  | @step c d before step _ holds =>
    cases step with
    | around step => exact holds.step step
    | serving here performed =>
      have known := Session.Invariant.reachable before
      obtain ⟨quiet, -⟩ := known.request _ here _ (Grows.refl _ _) _ _ performed
      exact holds.quiet quiet fun p member => (holds.pulls p member).stable Grows.trans quiet.grows
    | asked | answered | lost => exact holds

theorem Paged.ofShard {L : Ledger} {start cursor : ShardIndex → UInt64} {delivered : List Receiver}
    (paged : Paged L start cursor delivered) (sharded : L.Sharded) (s : ShardIndex) :
    (Ledger.ofShard delivered s).Perm (between L start cursor s) := by
  have own : ∀ s, ∀ receiver ∈ between L start cursor s, treeIndex receiver.1 = some s :=
    fun s receiver member =>
      sharded s receiver (List.mem_of_mem_drop (List.mem_of_mem_take member))
  exact (paged.once.filter _).trans (.of_eq (ofShard_flatMap own s))

end Session

/-- With an honest full node, a client that pages from any cursors has, at every moment and for every
shard, just the receivers of the full node's own list between its cursors, each once and in any order.
When the last call of the synchronization got all there is and the cursor is at the end of the table,
those are all of the list from the first cursor on. -/
theorem client_gets_node_ledger [Pallet] {c : Session}
    (reachable : c.Reachable honestNode (2 ^ 48 - 4096)) (s : ShardIndex) :
    (Ledger.ofShard c.delivered s).Perm (page (c.system.world.node.receivers s) (c.start s).toNat
        ((c.cursor s).toNat - (c.start s).toNat)) ∧
      (c.cursor s = c.start s ∨ (c.cursor s).toNat ≤ c.system.world.node.count s) ∧
      (c.system.sync = .returned → c.system.world.served = c.system.world.node →
        c.system.world.db.countShards s ≤ (c.cursor s).toNat →
        (Ledger.ofShard c.delivered s).Perm
          ((c.system.world.node.receivers s).drop (c.start s).toNat)) := by
  have known := Session.Invariant.reachable reachable
  obtain ⟨L, mirrors, paged⟩ := known.paged
  obtain ⟨M, mirrors', sharded, -⟩ := known.system.ledger
  obtain ⟨N, mirrors'', le, knows⟩ :=
    (reachable.system_invariant (C := honestContract)).ledger
  obtain rfl := mirrors.represents.unique mirrors'.represents
  obtain rfl := mirrors.represents.unique mirrors''.represents
  have stored := paged.ofShard sharded s
  rw [paged.between_later le s] at stored
  refine ⟨stored, (paged.later le).inside s, fun ended latest reached => ?_⟩
  have all : c.system.world.served = L := by
    rw [ended] at knows
    exact knows.symm
  rw [mirrors.represents.count, ← all, latest] at reached
  rwa [between, page, List.take_of_length_le] at stored
  rw [List.length_drop]
  exact Nat.sub_le_sub_right reached _

section Sample

attribute [local instance] samplePallet

set_option maxRecDepth 20000 in
/-- One request of a client that starts from nothing, after a synchronization that got all. -/
theorem client_gets_node_ledger_answered :
    ∃ c : Session, c.Reachable honestNode (2 ^ 48 - 4096) ∧ c.system.sync = .returned ∧
      c.delivered.length = 1 ∧
      (Ledger.ofShard c.delivered 0).Perm ((c.system.world.node.receivers 0).drop (c.start 0).toNat) := by
  obtain ⟨response, next, answer, one, cursor⟩ := sampleAnswer_ok
  have running : sampleSynced.Reachable honestNode := sampleSynced_reachable sample_honest
  have small := sampleSynced_mirrors.represents.small
  have asked : sampleAsked.Reachable honestNode (2 ^ 48 - 4096) :=
    (Session.Reachable.opened running small fun _ => 0).step (.asked 0 16 16 rfl) small
  have served := Session.Invariant.served sampleOutside asked rfl
  have still := (Session.Invariant.reachable served).small
  have answered := served.step (.answered (congrArg (fun out => some (Prog.lift out)) answer)) still
  refine ⟨_, answered, rfl, one, (client_gets_node_ledger answered 0).2.2 rfl rfl ?_⟩
  show sampleAnswer.2.db.countShards 0 ≤ (next.receiverIndex 0).toNat
  rw [cursor]
  decide +kernel

end Sample

end MantaIndexer
