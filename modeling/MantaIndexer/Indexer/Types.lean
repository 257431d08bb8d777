import MantaIndexer.Encoding.Codec
import MantaIndexer.Encoding.Word
import Mathlib.Data.Fintype.Pi

/-!
The data of the indexer: the pallet's types, the rows of the three tables, checkpoints, responses
and errors.
-/

namespace MantaIndexer
open Encoding

/-- `MerkleTreeConfiguration::FOREST_WIDTH`. -/
abbrev forestWidth : Nat := 256

/-- A shard number: a `u8`. -/
abbrev ShardIndex := Fin forestWidth

instance : NeZero forestWidth := ⟨by decide⟩

/-- What the indexer takes from the pallet and from the codec and hash crates: the four ledger
types with their SCALE codecs, and the shard that the item hash of a utxo belongs to. -/
class Pallet where
  Utxo : Type
  FullIncomingNote : Type
  NullifierCommitment : Type
  OutgoingNote : Type
  [utxoCodec : Codec Utxo]
  [noteCodec : Codec FullIncomingNote]
  [commitmentCodec : Codec NullifierCommitment]
  [outgoingCodec : Codec OutgoingNote]
  /-- `tree_index(item_hash(utxo))`, or nothing when the conversion of the utxo fails. -/
  treeIndex : Utxo → Option ShardIndex

instance [P : Pallet] : Codec P.Utxo := P.utxoCodec
instance [P : Pallet] : Codec P.FullIncomingNote := P.noteCodec
instance [P : Pallet] : Codec P.NullifierCommitment := P.commitmentCodec
instance [P : Pallet] : Codec P.OutgoingNote := P.outgoingCodec

/-- A pallet to evaluate the definitions on: a utxo is its shard and a number. -/
@[reducible] def samplePallet : Pallet where
  Utxo := UInt8 × UInt8
  FullIncomingNote := Unit
  NullifierCommitment := UInt8
  OutgoingNote := Unit
  treeIndex utxo := some ⟨utxo.1.toNat, utxo.1.toNat_lt⟩

export Pallet (Utxo FullIncomingNote NullifierCommitment OutgoingNote treeIndex)

/-- One item of a `ReceiverChunk`. -/
abbrev Receiver [P : Pallet] := P.Utxo × P.FullIncomingNote

/-- One item of a `SenderChunk`. -/
abbrev Sender [P : Pallet] := P.NullifierCommitment × P.OutgoingNote

def sampleReceiver (shard number : UInt8) : @Receiver samplePallet := ((shard, number), ())

def sampleSender (number : UInt8) : @Sender samplePallet := (number, ())

instance : DecidableEq (@Receiver samplePallet) := inferInstanceAs (DecidableEq ((UInt8 × UInt8) × Unit))

instance : DecidableEq (@Sender samplePallet) := inferInstanceAs (DecidableEq (UInt8 × Unit))

/-- The little endian form of a `u128`: a `[u8; 16]`. -/
abbrev TotalBytes := { bytes : Bytes // bytes.length = 16 }

def sampleTotal : TotalBytes := ⟨List.replicate 16 0, rfl⟩

/-- A row of the table `shards`. -/
structure Shard where
  shardIndex : ShardIndex
  utxoIndex : Int
  utxo : Bytes
  fullIncomingNote : Bytes
  deriving DecidableEq

/-- A row of the table `nullifier`. -/
structure Nullifier where
  idx : Int
  nullifierCommitment : Bytes
  outgoingNote : Bytes
  deriving DecidableEq

/-- A row of the table `senders_receivers_total`. -/
structure SendersReceiversTotal where
  id : Bool
  total : Bytes
  deriving DecidableEq

@[ext] structure Checkpoint where
  receiverIndex : ShardIndex → UInt64
  senderIndex : UInt64
  deriving DecidableEq

def Checkpoint.default : Checkpoint := ⟨fun _ => 0, 0⟩

structure PullResponse [Pallet] where
  shouldContinue : Bool
  receivers : List Receiver
  senders : List Sender
  sendersReceiversTotal : TotalBytes

inductive SqlxError where
  | rowNotFound
  | database
  deriving DecidableEq

inductive IndexerError where
  | badUtxo
  | wrongLittleEndianArray
  deriving DecidableEq

def IndexerError.text : IndexerError → String
  | .badUtxo => "Failed to convert utxo."
  | .wrongLittleEndianArray => "Wrong little endian array for u128."

/-- What ends a call of the indexer early: an `anyhow::Error`, or the panic of a row accessor. -/
inductive Error where
  | sqlx (error : SqlxError)
  | indexer (error : IndexerError)
  | codec
  | jsonRpsee
  | panicked
  deriving DecidableEq

end MantaIndexer
