import MantaIndexer.Collections.Grouping
import MantaIndexer.Indexer.Pull

/-!
Synchronizing with the full node (`sync.rs`), with the functions of `db.rs` it calls.
-/

namespace MantaIndexer
open Effects Encoding Collections

variable [P : Pallet]

/-! ### `db.rs` -/

def insertOneShard (executor : Executor) (shardIndex : ShardIndex) (utxoIndex : UInt64)
    (utxo : P.Utxo) (note : P.FullIncomingNote) : Task Unit :=
  fetch (.insertShard executor ⟨shardIndex, asI64 utxoIndex, encode utxo, encode note⟩)

def insertOneNullifier (executor : Executor) (nullifierIndex : UInt64)
    (nc : P.NullifierCommitment) (on : P.OutgoingNote) : Task Unit :=
  fetch (.insertNullifier executor ⟨asI64 nullifierIndex, encode nc, encode on⟩)

def appendNullifier (executor : Executor) (nc : P.NullifierCommitment) (on : P.OutgoingNote) :
    Task Unit :=
  fetch (.appendNullifier executor (encode nc) (encode on))

/-- The count is read as a `u32`, which panics on a larger one. -/
def getLenOfNullifier (executor : Executor) : Task UInt64 := do
  let count ← fetch (.countNullifier executor)
  if count < 2 ^ 32 then return UInt64.ofNat count else Prog.fail .panicked

/-- The loop of `get_latest_check_point` over the shards that are left. -/
def countReceivers : List ShardIndex → Checkpoint → Task Checkpoint
  | [], ckp => return ckp
  | shardIndex :: rest, ckp => do
    let countOfUtxo ← fetch (.countShards shardIndex)
    countReceivers rest { ckp with
      receiverIndex := Function.update ckp.receiverIndex shardIndex (UInt64.ofNat countOfUtxo) }

def getLatestCheckPoint : Task Checkpoint := do
  let ckp ← countReceivers (List.finRange forestWidth) Checkpoint.default
  return { ckp with senderIndex := ← getLenOfNullifier .pool }

/-- The omitted `id` defaults to true. -/
def updateOrInsertTotalSendersReceivers (executor : Executor) (newTotal : TotalBytes) : Task Unit :=
  fetch (.insertTotal executor ⟨true, newTotal.val⟩)

/-! ### `sync.rs` -/

def synchronizeLedger (checkpoint : Checkpoint) (maxSenderCount maxReceiverCount : UInt64) :
    Task PullResponse := do
  let maxReceiverCount := min maxReceiverCount maxReceivers
  let maxSenderCount := min maxSenderCount maxSenders
  Prog.lift (← perform (.request checkpoint maxSenderCount maxReceiverCount))

/-- The loop of `reconstruct_shards_from_pull_response` over the receivers that are left. -/
def reconstructFrom (shards : List (ShardIndex × List Receiver)) :
    List Receiver → Except Error (List (ShardIndex × List Receiver))
  | [] => .ok shards
  | receiver :: rest =>
    match treeIndex receiver.1 with
    | none => .error (.indexer .badUtxo)
    | some shardIndex => reconstructFrom (pushGroup shardIndex receiver shards) rest

/-- The receivers by shard, in the order in which the hash map happens to be iterated. -/
def reconstructShardsFromPullResponse (response : PullResponse) :
    Task (List (ShardIndex × List Receiver)) := do
  let shards ← Prog.lift (reconstructFrom [] response.receivers)
  let order ← perform (.iterate (shards.map Prod.fst))
  return order.map fun shardIndex => (shardIndex, groupOf shards shardIndex)

def insertItems (shardIndex : ShardIndex) (beginning : UInt64) : Nat → List Receiver → Task Unit
  | _, [] => return ()
  | offset, (utxo, note) :: rest => do
    insertOneShard .transaction shardIndex (beginning + UInt64.ofNat offset) utxo note
    insertItems shardIndex beginning (offset + 1) rest

def insertShards (current : Checkpoint) : List (ShardIndex × List Receiver) → Task Unit
  | [] => return ()
  | (shardIndex, items) :: rest => do
    insertItems shardIndex (current.receiverIndex shardIndex) 0 items
    insertShards current rest

def insertNullifiers (nullifierCheckpoint : UInt64) : Nat → List Sender → Task Unit
  | _, [] => return ()
  | idx, (nc, on) :: rest => do
    insertOneNullifier .transaction (UInt64.ofNat idx + nullifierCheckpoint) nc on
    insertNullifiers nullifierCheckpoint (idx + 1) rest

/-- The three updates of one batch; returns the index of its first nullifier. -/
def updateTables (current : Checkpoint) (shards : List (ShardIndex × List Receiver))
    (response : PullResponse) : Task UInt64 := do
  insertShards current shards
  let nullifierCheckpoint ← getLenOfNullifier .transaction
  insertNullifiers nullifierCheckpoint 0 response.senders
  updateOrInsertTotalSendersReceivers .transaction response.sendersReceiversTotal
  return nullifierCheckpoint

/-- Run the updates in a transaction. It is dropped, and so rolled back, on every early exit. -/
def inTransaction {α : Type} (updates : Task α) : Task α := do
  fetch .begin
  Prog.onFail (do
    let value ← updates
    fetch .commit
    return value) (perform .rollback)

def cacheBatch {α : Type} [Codec α] (beginning : UInt64) (items : List α) : List (UInt64 × Bytes) :=
  items.mapIdx fun offset item => (beginning + UInt64.ofNat offset, encode item)

def refreshReceivers (current : Checkpoint) : List (ShardIndex × List Receiver) → Task Unit
  | [] => return ()
  | (shardIndex, items) :: rest => do
    putBatchReceiver shardIndex (cacheBatch (current.receiverIndex shardIndex) items)
    refreshReceivers current rest

def increasingCheckpoint (checkpoint : Checkpoint) (incrementalSender : Nat)
    (incrementalReceiver : List (ShardIndex × List Receiver)) : Checkpoint where
  senderIndex := checkpoint.senderIndex + UInt64.ofNat incrementalSender
  receiverIndex := incrementalReceiver.foldl (fun receiverIndex group =>
    Function.update receiverIndex group.1
      (receiverIndex group.1 + UInt64.ofNat group.2.length)) checkpoint.receiverIndex

structure SyncConfig where
  maxCount : UInt64 × UInt64
  refreshCache : Bool

/-- One iteration of the loop of `sync_shards_from_full_node`: the checkpoint of the next one, or
nothing when the loop is left. -/
def syncIteration (config : SyncConfig) (current : Checkpoint) : Task (Option Checkpoint) := do
  let response ← synchronizeLedger current config.maxCount.1 config.maxCount.2
  let shards ← reconstructShardsFromPullResponse response
  let nullifierCheckpoint ← inTransaction (updateTables current shards response)
  -- The cache is updated only after the commit.
  if config.refreshCache then
    refreshReceivers current shards
    putBatchSender (cacheBatch nullifierCheckpoint response.senders)
  if !response.shouldContinue then
    perform .storeInitSyncingFinished
    return none
  else return some (increasingCheckpoint current response.senders.length shards)

/-! ### A whole call -/

/-- At most so many iterations of the loop of `sync_shards_from_full_node`; whether it was left. -/
def syncLoop (config : SyncConfig) : Nat → Checkpoint → Task Bool
  | 0, _ => return false
  | fuel + 1, current => do
    match ← syncIteration config current with
    | none => return true
    | some next => syncLoop config fuel next

def syncShardsFromFullNode (config : SyncConfig) (fuel : Nat) : Task Bool := do
  let current ← getLatestCheckPoint
  syncLoop config fuel current

section Call

variable (serves : Serves) (env : World → World → Prop) (config : SyncConfig)

/-- The loop of `sync_shards_from_full_node` from a checkpoint on, up to the error or the batch that
ends it, with steps `env` of the others in between. -/
inductive SyncLoop : Checkpoint → World → Except Error Unit → World → Prop where
  | failed {current : Checkpoint} {w t : World} {history : List (Event World Op)} {error : Error}
      (iterated : Exec (Performs serves) env (syncIteration config current) w history (.error error) t) :
      SyncLoop current w (.error error) t
  | finished {current : Checkpoint} {w t : World} {history : List (Event World Op)}
      (iterated : Exec (Performs serves) env (syncIteration config current) w history (.ok none) t) :
      SyncLoop current w (.ok ()) t
  | continued {current next : Checkpoint} {w u t : World} {history : List (Event World Op)}
      {out : Except Error Unit}
      (iterated : Exec (Performs serves) env (syncIteration config current) w history
        (.ok (some next)) u)
      (rest : SyncLoop next u out t) : SyncLoop current w out t

/-- A call of `sync_shards_from_full_node` that returns. -/
inductive SyncCall : World → Except Error Unit → World → Prop where
  | notStarted {w t : World} {history : List (Event World Op)} {error : Error}
      (counted : Exec (Performs serves) env getLatestCheckPoint w history (.error error) t) :
      SyncCall w (.error error) t
  | started {current : Checkpoint} {w u t : World} {history : List (Event World Op)}
      {out : Except Error Unit}
      (counted : Exec (Performs serves) env getLatestCheckPoint w history (.ok current) u)
      (loop : SyncLoop serves env config current u out t) : SyncCall w out t

end Call

end MantaIndexer
