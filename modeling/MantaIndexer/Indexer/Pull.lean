import MantaIndexer.Indexer.World

/-!
Answering clients (`pull.rs` and `indexer/mod.rs`) from the cache and the database, with the
functions of `db.rs` and `cache.rs` they call.
-/

namespace MantaIndexer
open Effects Encoding Collections

variable [P : Pallet]

/-! ### `db.rs` -/

/-- The statement's result, or its error: `?` on a `sqlx` call. -/
def fetch (query : Query) : Task query.Answer := do
  match (← perform (.sql query) : Except SqlxError query.Answer) with
  | .ok answer => return answer
  | .error error => Prog.fail (.sqlx error)

/-- Whether a row was found; every error counts as no row. -/
def found (query : Query) : Task Bool := do
  match (← perform (.sql query) : Except SqlxError query.Answer) with
  | .ok _ => return true
  | .error .rowNotFound => return false
  | .error _ => return false

def hasShard (shardIndex : ShardIndex) (utxoIndex : UInt64) : Task Bool :=
  found (.shardAt shardIndex (asI64 utxoIndex))

def hasNullifier (nullifierIndex : UInt64) : Task Bool :=
  found (.nullifierAt (asI64 nullifierIndex))

def getOneShard (shardIndex : ShardIndex) (utxoIndex : UInt64) : Task Shard :=
  fetch (.shardAt shardIndex (asI64 utxoIndex))

def getBatchedShardsByIdxs (shardIndex : ShardIndex) (utxosIdxs : List Int) : Task (List Shard) :=
  if utxosIdxs.isEmpty then return [] else fetch (.shardsIn shardIndex utxosIdxs)

def getBatchedNullifierByIdxs (indices : List Int) : Task (List Nullifier) :=
  if indices.isEmpty then return [] else fetch (.nullifiersIn indices)

def getTotalSendersReceivers : Task TotalBytes := do
  let total ← fetch .total
  if h : total.length = 16 then return ⟨total, h⟩
  else Prog.fail (.indexer .wrongLittleEndianArray)

/-! ### `cache.rs` -/

def getBatchShardReceiver (shardIdx : ShardIndex) (utxoIdxs : List UInt64) :
    Task (List (Option Bytes)) :=
  perform (.getBatchLru (utxoIdxs.map (Cache.receiverKey (Cache.shardWord shardIdx))))

def getBatchSender (senderIdxs : List UInt64) : Task (List (Option Bytes)) :=
  perform (.getBatchLru (senderIdxs.map Cache.senderKey))

def putBatchReceiver (shardIdx : ShardIndex) (batch : List (UInt64 × Bytes)) : Task Unit :=
  perform (.putBatchLru
    (batch.map fun item => (Cache.receiverKey (Cache.shardWord shardIdx) item.1, item.2)))

def putBatchSender (batch : List (UInt64 × Bytes)) : Task Unit :=
  perform (.putBatchLru (batch.map fun item => (Cache.senderKey item.1, item.2)))

/-! ### `pull.rs` -/

def decodeOrFail (α : Type) [Codec α] (bytes : Bytes) : Except Error α :=
  match decodeFront α bytes with
  | some value => .ok value
  | none => .error .codec

/-- The cached values of a range, decoded, and the indices left to ask the database for. -/
def splitCached (α : Type) [Codec α] :
    List UInt64 → List (Option Bytes) → Except Error (List α × List Int)
  | _ :: indices, some bytes :: cached => do
    let value ← decodeOrFail α bytes
    let (values, queryDbIndices) ← splitCached α indices cached
    return (value :: values, queryDbIndices)
  | idx :: indices, none :: cached => do
    let (values, queryDbIndices) ← splitCached α indices cached
    return (values, asI64 idx :: queryDbIndices)
  | _, _ => return ([], [])

/-- The rows of a query as values, with what is written back to the cache for each. -/
def decodeRows {ρ : Type} (α β : Type) [Codec α] [Codec β] (index : ρ → Int)
    (first second : ρ → Bytes) : List ρ → Except Error (List (α × β) × List (UInt64 × Bytes))
  | [] => return ([], [])
  | row :: rows => do
    let value := (← decodeOrFail α (first row), ← decodeOrFail β (second row))
    let (values, writeBack) ← decodeRows α β index first second rows
    return (value :: values, (UInt64.ofInt (index row), encode value) :: writeBack)

def decodeShards :
    List Shard → Except Error (List Receiver × List (UInt64 × Bytes)) :=
  decodeRows P.Utxo P.FullIncomingNote Shard.utxoIndex Shard.utxo Shard.fullIncomingNote

def decodeNullifiers :
    List Nullifier → Except Error (List Sender × List (UInt64 × Bytes)) :=
  decodeRows P.NullifierCommitment P.OutgoingNote Nullifier.idx Nullifier.nullifierCommitment
    Nullifier.outgoingNote

def pullReceiversForShard (shardIndex : ShardIndex) (receiverIndex amount : UInt64)
    (receivers : List Receiver) : Task (Bool × List Receiver) := do
  let maxReceiverIndex := receiverIndex + amount
  let allIndices := span receiverIndex maxReceiverIndex
  let cached ← getBatchShardReceiver shardIndex allIndices
  let (hits, queryDbIndices) ← Prog.lift (splitCached Receiver allIndices cached)
  let shards ← getBatchedShardsByIdxs shardIndex queryDbIndices
  let (rows, writeBack) ← Prog.lift (decodeShards shards)
  putBatchReceiver shardIndex writeBack
  let receivers := receivers ++ hits ++ rows
  if shards.length + hits.length = amount.toNat then
    return (← hasShard shardIndex maxReceiverIndex, receivers)
  else return (false, receivers)

structure PullState where
  moreReceivers : Bool
  receivers : List Receiver
  nextIndices : ShardIndex → UInt64
  remain : UInt64

/-- The loop of `pull_receivers` over the shards that are left. -/
def pullShards (receiverIndices : ShardIndex → UInt64) (maxAmount : UInt64) :
    List ShardIndex → PullState → Task PullState
  | [], state => return state
  | shardIndex :: rest, state => do
    let utxoIndex := receiverIndices shardIndex
    if !(← hasShard shardIndex utxoIndex) then
      -- `continue`
      pullShards receiverIndices maxAmount rest state
    else
      let beforePull := UInt64.ofNat state.receivers.length
      let (more, receivers) ←
        pullReceiversForShard shardIndex utxoIndex state.remain state.receivers
      let afterPull := UInt64.ofNat receivers.length
      let state := { state with
        moreReceivers := state.moreReceivers || more
        receivers := receivers
        nextIndices := Function.update state.nextIndices shardIndex
          (utxoIndex + afterPull - beforePull) }
      if receivers.length = maxAmount.toNat then return state
      else
        pullShards receiverIndices maxAmount rest
          { state with remain := maxAmount - UInt64.ofNat receivers.length }

def pullReceivers (receiverIndices : ShardIndex → UInt64) (maxAmount : UInt64) :
    Task (Bool × (ShardIndex → UInt64) × List Receiver) := do
  let state ← pullShards receiverIndices maxAmount (List.finRange forestWidth)
    ⟨false, [], receiverIndices, maxAmount⟩
  return (state.moreReceivers, state.nextIndices, state.receivers)

def pullSenders (senderIndex amount : UInt64) : Task (Bool × UInt64 × List Sender) := do
  let allIndices := span senderIndex (senderIndex + amount)
  let cached ← getBatchSender allIndices
  let (hits, queryDbIndices) ← Prog.lift (splitCached Sender allIndices cached)
  let nullifiers ← getBatchedNullifierByIdxs queryDbIndices
  let (rows, writeBack) ← Prog.lift (decodeNullifiers nullifiers)
  putBatchSender writeBack
  return (← hasNullifier (senderIndex + amount), senderIndex + amount, hits ++ rows)

def pullLedgerDiff (checkpoint : Checkpoint) (maxReceivers maxSenders : UInt64) :
    Task (PullResponse × Checkpoint) := do
  let (moreReceivers, nextReceiverIndex, receivers) ←
    pullReceivers checkpoint.receiverIndex maxReceivers
  let (moreSenders, nextSenderIndex, senders) ← pullSenders checkpoint.senderIndex maxSenders
  let sendersReceiversTotal ← getTotalSendersReceivers
  return ({ shouldContinue := moreReceivers || moreSenders
            receivers, senders, sendersReceiversTotal },
    ⟨nextReceiverIndex, nextSenderIndex⟩)

/-! ### `indexer/mod.rs` -/

def maxSenders : UInt64 := 1024 * 4
def maxReceivers : UInt64 := 1024 * 4

omit P in
theorem toNat_min_maxReceivers (x : UInt64) : (min x maxReceivers).toNat = min x.toNat 4096 :=
  toNat_min x maxReceivers

omit P in
theorem toNat_min_maxSenders (x : UInt64) : (min x maxSenders).toNat = min x.toNat 4096 :=
  toNat_min x maxSenders

def pullLedgerDiffImpl (checkpoint : Checkpoint) (receivers senders : UInt64) :
    Task (PullResponse × Checkpoint) :=
  pullLedgerDiff checkpoint (min receivers maxReceivers) (min senders maxSenders)

/-- The method `pull_ledger_diff` of the server. -/
def MantaPayIndexerServer.pullLedgerDiff (checkpoint : Checkpoint)
    (maxReceivers maxSenders : UInt64) : Task PullResponse := do
  let response ← pullLedgerDiffImpl checkpoint maxReceivers maxSenders
  return response.1

end MantaIndexer
