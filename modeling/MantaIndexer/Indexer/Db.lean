import MantaIndexer.Indexer.Ledger
import Mathlib.Data.List.Sort

/-!
The SQLite tables of `migrations/0_schema.sql` and the statements of `db.rs` on them.
-/

namespace MantaIndexer
open Encoding

structure Database where
  shards : List Shard
  nullifier : List Nullifier
  sendersReceiversTotal : List SendersReceiversTotal
  deriving DecidableEq

namespace Database

/-- The database right after the migration. -/
def migrated : Database := ⟨[], [], []⟩

/-- A database file stays below 2^48 bytes and a row takes more than two of them, so no table gets
more rows than this: the insert fails with `SQLITE_FULL`. -/
def maxRows : Nat := 2 ^ 47

/-- `INSERT OR REPLACE`: the rows that a uniqueness constraint sets against the new one go. -/
def insertOrReplace {ρ : Type} (conflicts : ρ → Bool) (row : ρ) (table : List ρ) :
    Option (List ρ) :=
  if table.length < maxRows then some (table.filter (fun r => !conflicts r) ++ [row]) else none

/-! ### Statements that read -/

/-- `SELECT * FROM shards WHERE shard_index = ?1 and utxo_index = ?2` -/
def shardAt (db : Database) (shardIndex : ShardIndex) (utxoIndex : Int) : Option Shard :=
  db.shards.find? fun row => row.shardIndex = shardIndex ∧ row.utxoIndex = utxoIndex

/-- `SELECT * FROM shards WHERE shard_index = ?1 and utxo_index IN (…)`, in index order. -/
def shardsIn (db : Database) (shardIndex : ShardIndex) (utxoIndices : List Int) : List Shard :=
  (db.shards.filter fun row => row.shardIndex = shardIndex ∧ row.utxoIndex ∈ utxoIndices).insertionSort
    fun a b => a.utxoIndex ≤ b.utxoIndex

/-- `SELECT COUNT(*) FROM shards WHERE shard_index = ?` -/
def countShards (db : Database) (shardIndex : ShardIndex) : Nat :=
  db.shards.countP fun row => row.shardIndex = shardIndex

/-- `SELECT nullifier_commitment FROM nullifier WHERE idx = ?1` -/
def nullifierAt (db : Database) (idx : Int) : Option Nullifier :=
  db.nullifier.find? fun row => row.idx = idx

/-- `SELECT * FROM nullifier WHERE idx IN (…)`, in index order. -/
def nullifiersIn (db : Database) (indices : List Int) : List Nullifier :=
  (db.nullifier.filter fun row => row.idx ∈ indices).insertionSort fun a b => a.idx ≤ b.idx

/-- `SELECT count(*) as count FROM nullifier` -/
def countNullifier (db : Database) : Nat := db.nullifier.length

/-- `SELECT total FROM senders_receivers_total` -/
def total (db : Database) : Option Bytes := (db.sendersReceiversTotal.head?).map (·.total)

/-! ### Statements that write -/

/-- `INSERT OR REPLACE INTO shards …`: the table has no uniqueness constraint. -/
def insertShard (db : Database) (row : Shard) : Option Database :=
  (insertOrReplace (fun _ => false) row db.shards).map fun shards => { db with shards }

/-- `INSERT OR REPLACE INTO nullifier …`: `idx` is the primary key. -/
def insertNullifier (db : Database) (row : Nullifier) : Option Database :=
  (insertOrReplace (fun r => r.idx = row.idx) row db.nullifier).map
    fun nullifier => { db with nullifier }

/-- The key SQLite gives a row that is inserted without one. -/
def nextIdx (db : Database) : Int :=
  match (db.nullifier.map Nullifier.idx).max? with
  | some largest => largest + 1
  | none => 1

/-- `INSERT INTO nullifier (nullifier_commitment, outgoing_note) …` -/
def appendNullifier (db : Database) (nullifierCommitment outgoingNote : Bytes) : Option Database :=
  if db.nullifier.length < maxRows then
    some { db with nullifier := db.nullifier ++ [⟨db.nextIdx, nullifierCommitment, outgoingNote⟩] }
  else none

/-- `INSERT OR REPLACE INTO senders_receivers_total …`: `id` is the primary key and must be true. -/
def insertTotal (db : Database) (row : SendersReceiversTotal) : Option Database :=
  if row.id then
    (insertOrReplace (fun r => r.id = row.id) row db.sendersReceiversTotal).map
      fun sendersReceiversTotal => { db with sendersReceiversTotal }
  else none

end Database

end MantaIndexer
