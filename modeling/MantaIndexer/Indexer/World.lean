import MantaIndexer.Effects.Interference
import MantaIndexer.Collections.Lru
import MantaIndexer.Indexer.Db
import MantaIndexer.Indexer.Cache

/-!
What the tasks of the indexer share, and the operations through which they do: SQL statements, the
batched cache calls, the request to the full node and the flag of the first synchronization.
-/

namespace MantaIndexer
open Effects Encoding Collections

/-- Where a statement runs: on the pool, or inside the transaction of the syncing task. -/
inductive Executor where
  | pool
  | transaction

inductive Query where
  | shardAt (shardIndex : ShardIndex) (utxoIndex : Int)
  | shardsIn (shardIndex : ShardIndex) (utxoIndices : List Int)
  | countShards (shardIndex : ShardIndex)
  | nullifierAt (idx : Int)
  | nullifiersIn (indices : List Int)
  | countNullifier (executor : Executor)
  | total
  | insertShard (executor : Executor) (row : Shard)
  | insertNullifier (executor : Executor) (row : Nullifier)
  | appendNullifier (executor : Executor) (nullifierCommitment outgoingNote : Bytes)
  | insertTotal (executor : Executor) (row : SendersReceiversTotal)
  | begin
  | commit

/-- `SQLITE_MAX_VARIABLE_NUMBER`: what one statement may bind. -/
def sqliteMaxVariableNumber : Nat := 32766

/-- How many variables a statement binds. -/
def Query.variables : Query → Nat
  | .shardAt _ _ => 2
  | .shardsIn _ utxoIndices => utxoIndices.length + 1
  | .countShards _ | .nullifierAt _ | .insertTotal _ _ => 1
  | .nullifiersIn indices => indices.length
  | .countNullifier _ | .total | .begin | .commit => 0
  | .insertShard _ _ => 4
  | .insertNullifier _ _ => 3
  | .appendNullifier _ _ _ => 2

@[reducible] def Query.Answer : Query → Type
  | .shardAt _ _ => Shard
  | .shardsIn _ _ => List Shard
  | .countShards _ => Nat
  | .nullifierAt _ => Nullifier
  | .nullifiersIn _ => List Nullifier
  | .countNullifier _ => Nat
  | .total => Bytes
  | .insertShard _ _ | .insertNullifier _ _ | .appendNullifier _ _ _ | .insertTotal _ _ => Unit
  | .begin | .commit => Unit

inductive Op where
  | sql (query : Query)
  /-- Dropping a transaction that was not committed. -/
  | rollback
  | getBatchLru (keys : List Cache.LruKeyType)
  | putBatchLru (batch : List (Cache.LruKeyType × Bytes))
  /-- `mantaPay_pull_ledger_diff` with its positional parameters. -/
  | request (checkpoint : Checkpoint) (second third : UInt64)
  /-- The order in which a `HashMap` with these keys is iterated. -/
  | iterate (keys : List ShardIndex)
  | storeInitSyncingFinished

@[reducible] def Op.Res [Pallet] : Op → Type
  | .sql query => Except SqlxError query.Answer
  | .rollback => Unit
  | .getBatchLru _ => List (Option Bytes)
  | .putBatchLru _ => Unit
  | .request _ _ _ => Except Error PullResponse
  | .iterate _ => List ShardIndex
  | .storeInitSyncingFinished => Unit

abbrev Task [Pallet] (α : Type) := Prog Op.Res Error α

abbrev perform [Pallet] (op : Op) : Task op.Res := Prog.ask op

structure World [Pallet] where
  /-- The committed state of the database. -/
  db : Database
  /-- The state inside the open transaction, if there is one. -/
  transaction : Option Database
  /-- `LEDGER_LRU`. -/
  lru : Lru Cache.LruKeyType Bytes
  /-- `INIT_SYNCING_FINISHED`. -/
  initSyncingFinished : Bool
  node : Ledger
  /-- The ledger of the full node when it last answered. -/
  served : Ledger

/-- What the process meets outside: the answers of the full node and the order of hash maps. -/
structure Outside [Pallet] where
  pullLedgerDiff : Checkpoint → UInt64 → UInt64 → Except Error PullResponse
  hashOrder : List ShardIndex → List ShardIndex
  perm : ∀ keys, (hashOrder keys).Perm keys

def Outside.offline [Pallet] : Outside := ⟨fun _ _ _ => .error .jsonRpsee, id, fun _ => .rfl⟩

namespace World
variable [Pallet]

def visible (w : World) : Executor → Option Database
  | .pool => some w.db
  | .transaction => w.transaction

/-- Write through the executor; `none` is an error of SQLite, and nothing is written then. -/
def write (w : World) (executor : Executor) (statement : Database → Option Database) :
    Except SqlxError Unit × World :=
  match (w.visible executor).bind statement with
  | none => (.error .database, w)
  | some db =>
    match executor with
    | .pool => (.ok (), { w with db })
    | .transaction => (.ok (), { w with transaction := some db })

def fetchOne {α : Type} : Option α → Except SqlxError α
  | some row => .ok row
  | none => .error .rowNotFound

/-- What a statement answers that SQLite accepts. -/
def execute (w : World) : (query : Query) → Except SqlxError query.Answer × World
  | .shardAt shardIndex utxoIndex => (fetchOne (w.db.shardAt shardIndex utxoIndex), w)
  | .shardsIn shardIndex utxoIndices => (.ok (w.db.shardsIn shardIndex utxoIndices), w)
  | .countShards shardIndex => (.ok (w.db.countShards shardIndex), w)
  | .nullifierAt idx => (fetchOne (w.db.nullifierAt idx), w)
  | .nullifiersIn indices => (.ok (w.db.nullifiersIn indices), w)
  | .countNullifier executor =>
    match w.visible executor with
    | some db => (.ok db.countNullifier, w)
    | none => (.error .database, w)
  | .total => (fetchOne w.db.total, w)
  | .insertShard executor row => w.write executor (·.insertShard row)
  | .insertNullifier executor row => w.write executor (·.insertNullifier row)
  | .appendNullifier executor nullifierCommitment outgoingNote =>
    w.write executor (·.appendNullifier nullifierCommitment outgoingNote)
  | .insertTotal executor row => w.write executor (·.insertTotal row)
  | .begin => (.ok (), { w with transaction := some w.db })
  | .commit =>
    match w.transaction with
    | some db => (.ok (), { w with db, transaction := none })
    | none => (.error .database, w)

/-- Perform one operation, with nothing going wrong inside the process: no statement fails, however
many variables it binds. -/
def handle (outside : Outside) (w : World) : (op : Op) → op.Res × World
  | .sql query => w.execute query
  | .rollback => ((), { w with transaction := none })
  | .getBatchLru keys => ((w.lru.getBatch keys).1, { w with lru := (w.lru.getBatch keys).2 })
  | .putBatchLru batch => ((), { w with lru := w.lru.putBatch batch })
  | .request checkpoint second third =>
    (outside.pullLedgerDiff checkpoint second third, { w with served := w.node })
  | .iterate keys => (outside.hashOrder keys, w)
  | .storeInitSyncingFinished => ((), { w with initSyncingFinished := true })

/-- As `handle`, but a statement that binds too many variables is refused. -/
def handleBounded (outside : Outside) (w : World) : (op : Op) → op.Res × World
  | .sql query =>
    if query.variables ≤ sqliteMaxVariableNumber then w.execute query else (.error .database, w)
  | op => w.handle outside op

end World

abbrev Serves [Pallet] := Ledger → Checkpoint → UInt64 → UInt64 → PullResponse → Prop

def anyNode [Pallet] : Serves := fun _ _ _ _ _ => True

/-- An operation as the tasks see it: it is performed, or a statement fails and changes nothing. -/
inductive Performs [Pallet] (serves : Serves) : Sem World Op.Res where
  | handled (w : World) (op : Op) (outside : Outside)
      (answers : ∀ checkpoint second third response,
        outside.pullLedgerDiff checkpoint second third = .ok response →
          serves w.node checkpoint second third response) :
      Performs serves w op (w.handle outside op).1 (w.handle outside op).2
  | failed (w : World) (query : Query) (error : SqlxError) :
      Performs serves w (.sql query) (.error error) w

/-- An operation of a call that meets no failure of the database. -/
inductive Handles [Pallet] : Sem World Op.Res where
  | handled (w : World) (op : Op) (outside : Outside) :
      Handles w op (w.handle outside op).1 (w.handle outside op).2

/-- An operation of a call that meets no failure: SQLite does what it is asked as far as it has room,
and the full node answers every request. -/
inductive Works [Pallet] (serves : Serves) : Sem World Op.Res where
  | handled (w : World) (op : Op) (outside : Outside)
      (answers : ∀ checkpoint second third, ∃ response,
        outside.pullLedgerDiff checkpoint second third = .ok response ∧
          serves w.node checkpoint second third response) :
      Works serves w op (w.handle outside op).1 (w.handle outside op).2

end MantaIndexer
