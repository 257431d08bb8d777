import MantaIndexer.Indexer.Pull

/-!
What a pull is made of. A property of tasks that its parts have, and that one task after another
keeps, is a property of every pull.
-/

namespace MantaIndexer
open Effects Encoding Collections

/-- The queries of `has_shard` and `has_nullifier`. -/
def Query.isLookup : Query → Bool
  | .shardAt _ _ | .nullifierAt _ => true
  | _ => false

/-! ### Errors of decoding -/

theorem decodeOrFail_error {α : Type} [Codec α] {bytes : Bytes} {error : Error}
    (failed : decodeOrFail α bytes = .error error) : error = .codec := by
  unfold decodeOrFail at failed
  split at failed <;> cases failed
  rfl

theorem splitCached_error {α : Type} [Codec α] {indices : List UInt64}
    {cached : List (Option Bytes)} {error : Error}
    (failed : splitCached α indices cached = .error error) : error = .codec := by
  induction indices generalizing cached with
  | nil => cases cached <;> cases failed
  | cons idx indices ih =>
    cases cached with
    | nil => cases failed
    | cons hit cached =>
      cases hit with
      | some bytes =>
        rcases bind_error failed with failed | ⟨value, -, failed⟩
        · exact decodeOrFail_error failed
        · rcases bind_error failed with failed | ⟨split, -, failed⟩
          · exact ih failed
          · cases failed
      | none =>
        rcases bind_error failed with failed | ⟨split, -, failed⟩
        · exact ih failed
        · cases failed

theorem decodeRows_error {ρ α β : Type} [Codec α] [Codec β] {index : ρ → Int}
    {first second : ρ → Bytes} {rows : List ρ} {error : Error}
    (failed : decodeRows α β index first second rows = .error error) : error = .codec := by
  induction rows with
  | nil => cases failed
  | cons row rows ih =>
    rcases bind_error failed with failed | ⟨left, -, failed⟩
    · exact decodeOrFail_error failed
    · rcases bind_error failed with failed | ⟨right, -, failed⟩
      · exact decodeOrFail_error failed
      · rcases bind_error failed with failed | ⟨rest, -, failed⟩
        · exact ih failed
        · cases failed

variable [P : Pallet]

structure Parts (M : {α : Type} → Task α → Prop) : Prop where
  ret {α : Type} (value : α) : M (.ret value)
  codec {α : Type} : M (.fail .codec : Task α)
  wrongLength {α : Type} : M (.fail (.indexer .wrongLittleEndianArray) : Task α)
  bind {α β : Type} {p : Task α} {f : α → Task β} : M p → (∀ a, M (f a)) → M (p >>= f)
  found {query : Query} : query.isLookup = true → M (found query)
  shardsIn (shardIndex : ShardIndex) (indices : List Int) : M (fetch (.shardsIn shardIndex indices))
  nullifiersIn (indices : List Int) : M (fetch (.nullifiersIn indices))
  total : M (fetch .total)
  getBatchLru (keys : List Cache.LruKeyType) : M (perform (.getBatchLru keys))
  putBatchLru (batch : List (Cache.LruKeyType × Bytes)) : M (perform (.putBatchLru batch))

namespace Parts

variable {M : {α : Type} → Task α → Prop} (parts : Parts M)

include parts

theorem lift {α : Type} {result : Except Error α}
    (codec : ∀ error, result = .error error → error = .codec) : M (Prog.lift result) := by
  cases result with
  | ok value => exact parts.ret value
  | error error =>
    obtain rfl := codec error rfl
    exact parts.codec

theorem getBatchedShardsByIdxs (s : ShardIndex) (indices : List Int) :
    M (getBatchedShardsByIdxs s indices) := by
  unfold MantaIndexer.getBatchedShardsByIdxs
  split
  · exact parts.ret _
  · exact parts.shardsIn s indices

theorem getBatchedNullifierByIdxs (indices : List Int) :
    M (getBatchedNullifierByIdxs indices) := by
  unfold MantaIndexer.getBatchedNullifierByIdxs
  split
  · exact parts.ret _
  · exact parts.nullifiersIn indices

theorem getTotalSendersReceivers : M getTotalSendersReceivers := by
  apply parts.bind parts.total
  intro total
  split
  · exact parts.ret _
  · exact parts.wrongLength

theorem pullReceiversForShard (s : ShardIndex) (x amount : UInt64) (before : List Receiver) :
    M (pullReceiversForShard s x amount before) := by
  apply parts.bind (parts.getBatchLru _)
  intro cached
  apply parts.bind (parts.lift fun _ => splitCached_error)
  intro split
  apply parts.bind (parts.getBatchedShardsByIdxs s _)
  intro shards
  apply parts.bind (parts.lift fun _ => decodeRows_error)
  intro decoded
  apply parts.bind (parts.putBatchLru _)
  intro _
  dsimp only
  split
  · exact parts.bind (parts.found rfl) fun _ => parts.ret _
  · exact parts.ret _

theorem pullShards (indices : ShardIndex → UInt64) (maxAmount : UInt64) (shards : List ShardIndex)
    (state : PullState) : M (pullShards indices maxAmount shards state) := by
  induction shards generalizing state with
  | nil => exact parts.ret _
  | cons s shards ih =>
    apply parts.bind (parts.found rfl)
    intro there
    cases there with
    | false => exact ih state
    | true =>
      apply parts.bind (parts.pullReceiversForShard s _ _ _)
      intro pulled
      dsimp only
      split
      · exact parts.ret _
      · exact ih _

theorem pullReceivers (indices : ShardIndex → UInt64) (maxAmount : UInt64) :
    M (pullReceivers indices maxAmount) :=
  parts.bind (parts.pullShards _ _ _ _) fun _ => parts.ret _

theorem pullSenders (x amount : UInt64) : M (pullSenders x amount) := by
  apply parts.bind (parts.getBatchLru _)
  intro cached
  apply parts.bind (parts.lift fun _ => splitCached_error)
  intro split
  apply parts.bind (parts.getBatchedNullifierByIdxs _)
  intro nullifiers
  apply parts.bind (parts.lift fun _ => decodeRows_error)
  intro decoded
  apply parts.bind (parts.putBatchLru _)
  intro _
  exact parts.bind (parts.found rfl) fun _ => parts.ret _

theorem pullLedgerDiff (ck : Checkpoint) (maxReceivers maxSenders : UInt64) :
    M (pullLedgerDiff ck maxReceivers maxSenders) := by
  apply parts.bind (parts.pullReceivers _ _)
  intro receivers
  apply parts.bind (parts.pullSenders _ _)
  intro senders
  exact parts.bind parts.getTotalSendersReceivers fun _ => parts.ret _

end Parts

end MantaIndexer
