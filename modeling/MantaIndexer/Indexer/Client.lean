import MantaIndexer.Indexer.Sync

/-!
The checkpoints a client computes for itself: `calculate_next_checkpoint` (`pull.rs`), and the loops
of `sync.rs` that page through the database or through the full node with it.
-/

namespace MantaIndexer
open Effects Encoding Collections

variable [P : Pallet]

def calculateNextCheckpoint (previousShards : List (ShardIndex × List Receiver))
    (previousCheckpoint nextCheckpoint : Checkpoint) (senderIndex : Nat) : Checkpoint where
  senderIndex := nextCheckpoint.senderIndex + UInt64.ofNat senderIndex
  receiverIndex := previousShards.foldl (fun receiverIndex group =>
    Function.update receiverIndex group.1
      (previousCheckpoint.receiverIndex group.1 + UInt64.ofNat group.2.length))
    nextCheckpoint.receiverIndex

structure SqliteRound where
  /-- The checkpoint that comes with the response; the loop drops it. -/
  server : Checkpoint
  nextCheckpoint : Checkpoint
  shouldContinue : Bool

/-- One iteration of the loop of `pull_ledger_diff_from_sqlite`. -/
def sqliteIteration (currentCheckpoint nextCheckpoint : Checkpoint) : Task SqliteRound := do
  let (response, server) ← pullLedgerDiff nextCheckpoint (1024 * 15) (1024 * 15)
  let shards ← reconstructShardsFromPullResponse response
  return {
    server
    nextCheckpoint := calculateNextCheckpoint shards currentCheckpoint nextCheckpoint
      response.senders.length
    shouldContinue := response.shouldContinue }

structure SqliteLoop where
  currentCheckpoint : Checkpoint
  nextCheckpoint : Checkpoint
  rounds : List SqliteRound
  left : Bool

/-- The runs of the loop, with each iteration in a world that `meets` holds of. -/
inductive SqliteLoop.Run (meets : World → Prop) : SqliteLoop → Prop where
  | entered : Run meets ⟨Checkpoint.default, Checkpoint.default, [], false⟩
  | continued {loop : SqliteLoop} {w v : World} {outside : Outside} {round : SqliteRound}
      (before : Run meets loop) (inside : loop.left = false) (here : meets w)
      (ran : (sqliteIteration loop.currentCheckpoint loop.nextCheckpoint).run
        (World.handle outside) w = (.ok round, v))
      (more : round.shouldContinue = true) :
      Run meets ⟨round.nextCheckpoint, round.nextCheckpoint, loop.rounds ++ [round], false⟩
  | finished {loop : SqliteLoop} {w v : World} {outside : Outside} {round : SqliteRound}
      (before : Run meets loop) (inside : loop.left = false) (here : meets w)
      (ran : (sqliteIteration loop.currentCheckpoint loop.nextCheckpoint).run
        (World.handle outside) w = (.ok round, v))
      (done : round.shouldContinue = false) :
      Run meets ⟨loop.currentCheckpoint, round.nextCheckpoint, loop.rounds ++ [round], true⟩

/-! ### Whole walks -/

/-- At most so many iterations of the loop of `pull_ledger_diff_from_sqlite`; the checkpoint it was
left with. -/
def sqliteLoop : Nat → Checkpoint → Checkpoint → Task (Option Checkpoint)
  | 0, _, _ => return none
  | fuel + 1, currentCheckpoint, nextCheckpoint => do
    let round ← sqliteIteration currentCheckpoint nextCheckpoint
    if !round.shouldContinue then return some round.nextCheckpoint
    else sqliteLoop fuel round.nextCheckpoint round.nextCheckpoint

def pullLedgerDiffFromSqlite (fuel : Nat) : Task (Option Checkpoint) :=
  sqliteLoop fuel Checkpoint.default Checkpoint.default

structure NodeRound where
  nextCheckpoint : Checkpoint
  shouldContinue : Bool

/-- One iteration of the loop that `get_check_point_from_node` and `pull_ledger_diff_from_local_node`
share. -/
def nodeIteration (currentCheckpoint nextCheckpoint : Checkpoint) : Task NodeRound := do
  let response ← synchronizeLedger nextCheckpoint (1024 * 15) (1024 * 15)
  let shards ← reconstructShardsFromPullResponse response
  return {
    nextCheckpoint := calculateNextCheckpoint shards currentCheckpoint nextCheckpoint
      response.senders.length
    shouldContinue := response.shouldContinue }

def nodeLoop : Nat → Checkpoint → Checkpoint → Task (Option Checkpoint)
  | 0, _, _ => return none
  | fuel + 1, currentCheckpoint, nextCheckpoint => do
    let round ← nodeIteration currentCheckpoint nextCheckpoint
    if !round.shouldContinue then return some round.nextCheckpoint
    else nodeLoop fuel round.nextCheckpoint round.nextCheckpoint

def getCheckPointFromNode (fuel : Nat) : Task (Option Checkpoint) :=
  nodeLoop fuel Checkpoint.default Checkpoint.default

/-- It measures the time of its iterations and drops their checkpoints. -/
def pullLedgerDiffFromLocalNode (fuel : Nat) : Task (Option Unit) := do
  return (← nodeLoop fuel Checkpoint.default Checkpoint.default).map fun _ => ()

end MantaIndexer
