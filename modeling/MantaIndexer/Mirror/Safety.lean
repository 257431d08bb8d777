import MantaIndexer.Mirror.Invariant

/-!
Safety of the whole indexer, in every state of every run: the tables mirror the ledger of an honest
full node, they are contiguous whatever the full node answers, and the cache agrees with them.
-/

namespace MantaIndexer
open Effects Encoding Collections

/-! ### An honest full node -/

section Honest

variable [P : Pallet]

/-- The receivers of a shard among receivers that carry the shard they are stored in. -/
def segment (tagged : List (ShardIndex × Receiver)) (s : ShardIndex) : List Receiver :=
  (tagged.filter fun item => item.1 = s).map Prod.snd

/-- A full node that answers from its ledger: in order, from the checkpoint on, and with the truth
about whether something is left. The shard of an item hash is the shard the receiver is stored in. -/
structure Honest (node : Ledger) (checkpoint : Checkpoint) (response : PullResponse)
    (tagged : List (ShardIndex × Receiver)) : Prop where
  placed : ∀ s, ∀ receiver ∈ node.receivers s, ∀ t, treeIndex receiver.1 = some t → t = s
  receivers : tagged.map Prod.snd = response.receivers
  segments : ∀ s, segment tagged s <+: (node.receivers s).drop (checkpoint.receiverIndex s).toNat
  senders : response.senders <+: node.senders.drop checkpoint.senderIndex.toNat
  more : response.shouldContinue = true ↔
    (∃ s, (checkpoint.receiverIndex s).toNat + (segment tagged s).length < node.count s) ∨
      checkpoint.senderIndex.toNat + response.senders.length < node.senders.length

def honestNode : Serves :=
  fun node checkpoint _ _ response => ∃ tagged, Honest node checkpoint response tagged

theorem Honest.ofShard {node : Ledger} {checkpoint : Checkpoint} {response : PullResponse}
    {tagged : List (ShardIndex × Receiver)} (h : Honest node checkpoint response tagged)
    (converted : ∀ receiver ∈ response.receivers, ∃ s, treeIndex receiver.1 = some s)
    (s : ShardIndex) : Ledger.ofShard response.receivers s = segment tagged s := by
  rw [Ledger.ofShard, ← h.receivers, segment, List.filter_map]
  congr 1
  apply List.filter_congr
  rintro ⟨tag, receiver⟩ member
  have inSegment : receiver ∈ segment tagged tag :=
    List.mem_map.mpr ⟨(tag, receiver), List.mem_filter.mpr ⟨member, by simp⟩, rfl⟩
  have stored := List.mem_of_mem_drop ((h.segments tag).subset inSegment)
  have served : receiver ∈ response.receivers := by
    rw [← h.receivers]
    exact List.mem_map_of_mem member
  obtain ⟨t, tree⟩ := converted receiver served
  obtain rfl := h.placed tag receiver stored t tree
  simp [tree]

omit P in
theorem append_segment {α : Type} {stored segment whole : List α} (h : stored <+: whole)
    (next : segment <+: whole.drop stored.length) : stored ++ segment <+: whole := by
  obtain ⟨rest, rfl⟩ := h
  rw [List.drop_left] at next
  exact (List.prefix_append_right_inj stored).mpr next

theorem Honest.append_le {L node : Ledger} {response : PullResponse}
    {tagged : List (ShardIndex × Receiver)} (h : Honest node L.checkpoint response tagged)
    (le : L ≤ node) (below : L.Below (2 ^ 63))
    (converted : ∀ receiver ∈ response.receivers, ∃ s, treeIndex receiver.1 = some s) :
    L.append response ≤ node := by
  refine ⟨fun s => ?_, ?_⟩
  · have next := h.segments s
    have small := below.1 s
    simp only [Ledger.checkpoint] at next
    rw [toNat_ofNat (by omega)] at next
    rw [Ledger.append_receivers, h.ofShard converted]
    exact append_segment (le.1 s) next
  · have next := h.senders
    have small := below.2
    simp only [Ledger.checkpoint] at next
    rw [toNat_ofNat (by omega)] at next
    exact append_segment le.2 next

theorem Honest.append_eq {L node : Ledger} {response : PullResponse}
    {tagged : List (ShardIndex × Receiver)} (h : Honest node L.checkpoint response tagged)
    (le : L ≤ node) (below : L.Below (2 ^ 63))
    (converted : ∀ receiver ∈ response.receivers, ∃ s, treeIndex receiver.1 = some s)
    (last : response.shouldContinue = false) : L.append response = node := by
  have nothing := mt h.more.mpr (by simp [last])
  simp only [Ledger.checkpoint, not_or, not_exists, not_lt] at nothing
  have within := h.append_le le below converted
  refine Ledger.le_antisymm within ⟨fun s => ?_, ?_⟩
  · have small := below.1 s
    have all := nothing.1 s
    rw [toNat_ofNat (by omega)] at all
    rw [(within.1 s).eq_of_length_le]
    rw [Ledger.append_receivers, List.length_append, h.ofShard converted]
    exact all
  · have small := below.2
    have all := nothing.2
    rw [toNat_ofNat (by omega)] at all
    rw [within.2.eq_of_length_le]
    rw [Ledger.append, Ledger.extend, List.length_append]
    exact all

/-- With an honest full node the mirrored ledger is a prefix of the ledger of the node, and after a
last batch it is the ledger the node answered from. -/
def honestContract : Contract honestNode where
  keeps L node := L ≤ node
  complete L served := L = served
  starts := Ledger.empty_le
  later := Ledger.le_trans
  accepts := fun le below ⟨_, honest⟩ converted => honest.append_le le below converted
  completes := fun le below ⟨_, honest⟩ converted last => honest.append_eq le below converted last

end Honest

/-! ### A run to evaluate -/

section Sample

attribute [local instance] samplePallet

def sampleNode : Ledger := ⟨fun s => if s = 0 then [sampleReceiver 0 7] else [], [sampleSender 9]⟩

def sampleResponse : PullResponse :=
  ⟨false, [sampleReceiver 0 7], [sampleSender 9], sampleTotal⟩

/-- It answers a request from the beginning only. -/
def sampleOutside : Outside where
  pullLedgerDiff checkpoint _ _ :=
    if checkpoint = Checkpoint.default then .ok sampleResponse else .error .jsonRpsee
  hashOrder := id
  perm := List.Perm.refl

def sampleConfig : SyncConfig := ⟨(1024, 1024), true⟩

def sampleHead : System :=
  { System.initial 4 sampleNode with sync := .head sampleConfig Checkpoint.default }

def sampleSynced : System :=
  { sampleHead with
    world := ((syncIteration sampleConfig Checkpoint.default).run (World.handle sampleOutside)
      sampleHead.world).2
    sync := .returned }

theorem sample_answers {serves : Serves}
    (h : ∀ second third, serves sampleNode Checkpoint.default second third sampleResponse) :
    ∀ checkpoint second third response,
      sampleOutside.pullLedgerDiff checkpoint second third = .ok response →
        serves sampleNode checkpoint second third response := by
  intro checkpoint second third response answered
  simp only [sampleOutside] at answered
  split at answered
  · rename_i beginning
    cases answered
    rw [beginning]
    exact h second third
  · cases answered

theorem sampleHead_reachable {serves : Serves}
    (h : ∀ second third, serves sampleNode Checkpoint.default second third sampleResponse) :
    sampleHead.Reachable serves :=
  (System.Reachable.initial 4 sampleNode).starts (.inl rfl) sampleConfig (sample_answers h)
    (Represents.latest (L := Ledger.empty) represents_migrated (Nat.two_pow_pos 32))

theorem sampleSynced_reachable {serves : Serves}
    (h : ∀ second third, serves sampleNode Checkpoint.default second third sampleResponse) :
    sampleSynced.Reachable serves := by
  have last : ((syncIteration sampleConfig Checkpoint.default).run (World.handle sampleOutside)
      sampleHead.world).1 = .ok none := by decide +kernel
  have ran : ∀ result : Except Error (Option Checkpoint) × World,
      result.1 = .ok none → result = (.ok none, result.2) := by
    rintro ⟨out, world⟩ rfl
    rfl
  exact (sampleHead_reachable h).finishes rfl (sample_answers h) (ran _ last)

theorem sample_honest (second third : UInt64) :
    honestNode sampleNode Checkpoint.default second third sampleResponse := by
  refine ⟨[(0, sampleReceiver 0 7)], ?_, rfl, ?_, ?_, ?_⟩
  · intro s receiver member t tree
    by_cases first : s = 0
    · subst first
      obtain rfl := List.mem_singleton.mp member
      exact (Option.some.inj tree).symm
    · simp [sampleNode, first] at member
  · intro s
    by_cases first : s = 0
    · subst first
      exact List.prefix_rfl
    · simp [segment, Ne.symm first]
  · exact List.prefix_rfl
  · constructor
    · intro more
      cases more
    · rintro (⟨s, more⟩ | more)
      · by_cases first : s = 0
        · subst first
          exact absurd more (by decide)
        · simp [sampleNode, Ledger.count, first] at more
      · exact absurd more (by decide)

set_option maxRecDepth 20000 in
theorem sampleSynced_mirrors : Mirrors sampleNode sampleSynced.world := by
  have invariant := Invariant.reachable (C := honestContract) (sampleSynced_reachable sample_honest)
  obtain ⟨L, mirrors, -, complete⟩ := invariant.ledger
  have served : sampleSynced.world.served = sampleNode := rfl
  have same : L = sampleSynced.world.served := complete
  rw [same, served] at mirrors
  exact mirrors

end Sample

/-! ### What every run keeps -/

/-- In every state the rows of a shard, in order, are a prefix of the shard of an honest full node,
and likewise the nullifier rows; once a call has returned they are all the node had at its last
answer. -/
theorem tables_mirror_node [Pallet] {s : System} (reachable : s.Reachable honestNode) :
    ∃ L : Ledger, L ≤ s.world.node ∧
      (∀ shard, (s.world.db.rowsOf shard).insertionSort (fun a b => a.utxoIndex ≤ b.utxoIndex) =
        (L.receivers shard).mapIdx (shardRow shard)) ∧
      s.world.db.nullifier.insertionSort (fun a b => a.idx ≤ b.idx) =
        L.senders.mapIdx nullifierRow ∧
      (s.sync = .returned → L = s.world.served) := by
  obtain ⟨L, mirrors, le, knows⟩ := (Invariant.reachable (C := honestContract) reachable).ledger
  refine ⟨L, le, fun shard => ?_, ?_, fun returned => ?_⟩
  · exact sorted_table (shardRow_numbered shard) (mirrors.represents.shards shard)
  · exact sorted_table nullifierRow_numbered mirrors.represents.nullifiers
  · rw [returned] at knows
    exact knows

section Sample

attribute [local instance] samplePallet

theorem tables_mirror_node_synced :
    sampleSynced.world.db.shards.length = 1 ∧ sampleSynced.world.db.nullifier.length = 1 ∧
      ∃ L : Ledger, L ≤ sampleSynced.world.node ∧
        (∀ shard, (sampleSynced.world.db.rowsOf shard).insertionSort
            (fun a b => a.utxoIndex ≤ b.utxoIndex) = (L.receivers shard).mapIdx (shardRow shard)) ∧
        sampleSynced.world.db.nullifier.insertionSort (fun a b => a.idx ≤ b.idx) =
          L.senders.mapIdx nullifierRow ∧
        (sampleSynced.sync = .returned → L = sampleSynced.world.served) := by
  have mirrored := tables_mirror_node (sampleSynced_reachable sample_honest)
  exact ⟨by decide +kernel, by decide +kernel, mirrored⟩

end Sample

/-- Whatever the full node answers: every receiver is in the shard of its item hash. -/
def shardedContract [Pallet] (serves : Serves) : Contract serves where
  keeps L _ := L.Sharded
  complete _ _ := True
  starts _ := fun _ _ member => nomatch member
  later sharded _ := sharded
  accepts sharded _ _ _ := sharded.append _
  completes _ _ _ _ _ := trivial

section Rows

variable [P : Pallet] {db : Database} {L : Ledger}

theorem Represents.mem_shards (h : Represents db L) {row : Shard} (member : row ∈ db.shards) :
    ∃ s i receiver, (L.receivers s)[i]? = some receiver ∧ row = shardRow s i receiver := by
  have ofShard : row ∈ db.rowsOf row.shardIndex := List.mem_filter.mpr ⟨member, by simp⟩
  obtain ⟨i, receiver, stored, same⟩ := mem_rows.mp ((h.shards _).mem_iff.mp ofShard)
  exact ⟨row.shardIndex, i, receiver, stored, same⟩

theorem Represents.shardRow_mem (h : Represents db L) {s : ShardIndex} {i : Nat}
    {receiver : Receiver} (stored : (L.receivers s)[i]? = some receiver) :
    shardRow s i receiver ∈ db.shards := by
  have ofShard := (h.shards s).mem_iff.mpr (mem_rows.mpr ⟨i, receiver, stored, rfl⟩)
  exact (List.mem_filter.mp ofShard).1

end Rows

/-- Whatever the full node answers and whatever fails, the committed indices of each shard and of the
nullifiers are `0, 1, 2, …`, each on one row, every row is in the shard of its item hash, the
checkpoint at the head of the loop is the latest one, and the nullifiers counted inside the
transaction are as many as the checkpoint sent to the full node says. -/
theorem tables_contiguous [P : Pallet] {s : System} (reachable : s.Reachable anyNode) :
    (∀ shard, ∃ n, ((s.world.db.rowsOf shard).map Shard.utxoIndex).Perm
      ((List.range n).map Int.ofNat)) ∧
    (∀ row ∈ s.world.db.shards, ∃ utxo, decodeFront P.Utxo row.utxo = some utxo ∧
      treeIndex utxo = some row.shardIndex) ∧
    (∃ n, (s.world.db.nullifier.map Nullifier.idx).Perm ((List.range n).map Int.ofNat)) ∧
    (∀ config current, s.sync = .head config current → s.world.db.countNullifier < 2 ^ 32 →
      ∀ outside, getLatestCheckPoint.run (World.handle outside) s.world = (.ok current, s.world)) ∧
    (∀ config current next,
      s.sync = .body config current (.perform (.sql (.countNullifier .transaction)) next) →
      ∃ db, s.world.transaction = some db ∧
        UInt64.ofNat db.countNullifier = current.senderIndex) := by
  obtain ⟨L, mirrors, sharded, knows⟩ :=
    (Invariant.reachable (C := shardedContract anyNode) reachable).ledger
  have holds := mirrors.represents
  refine ⟨fun shard => ?_, fun row member => ?_, ?_, ?_, ?_⟩
  · refine ⟨L.count shard, ?_⟩
    rw [Ledger.count, ← rows_keys (shardRow_numbered shard)]
    exact (holds.shards shard).map _
  · obtain ⟨shard, i, receiver, stored, rfl⟩ := holds.mem_shards member
    exact ⟨receiver.1, decodeFront_encode _, sharded shard receiver (List.mem_of_getElem? stored)⟩
  · refine ⟨L.senders.length, ?_⟩
    rw [← rows_keys nullifierRow_numbered]
    exact holds.nullifiers.map _
  · intro config current here small outside
    rw [here] at knows
    rw [holds.countNullifier] at small
    rw [holds.latest small, show current = L.checkpoint from knows]
  · intro config current next here
    rw [here] at knows
    -- A statement that fails is performed in the same state.
    obtain ⟨⟨-, counted⟩, -⟩ :=
      knows _ (Quiet.refl _) _ _ (.failed s.world (.countNullifier .transaction) .database)
    exact counted rfl

section Sample

attribute [local instance] samplePallet

theorem tables_contiguous_synced :
    sampleSynced.world.db.shards.length = 1 ∧
    (∀ shard, ∃ n, ((sampleSynced.world.db.rowsOf shard).map Shard.utxoIndex).Perm
      ((List.range n).map Int.ofNat)) ∧
    getLatestCheckPoint.run (World.handle sampleOutside) sampleHead.world =
      (.ok Checkpoint.default, sampleHead.world) := by
  obtain ⟨contiguous, -⟩ := tables_contiguous (sampleSynced_reachable fun _ _ => trivial)
  obtain ⟨-, -, -, latest, -⟩ := tables_contiguous (sampleHead_reachable fun _ _ => trivial)
  exact ⟨by decide +kernel, contiguous, latest _ _ rfl (by decide) _⟩

end Sample

/-! ### The cache -/

section Keys

variable [P : Pallet]

def Shard.key (row : Shard) : Cache.LruKeyType :=
  Cache.receiverKey (Cache.shardWord row.shardIndex) (UInt64.ofInt row.utxoIndex)

def Nullifier.key (row : Nullifier) : Cache.LruKeyType := Cache.senderKey (UInt64.ofInt row.idx)

theorem shardRow_key (s : ShardIndex) (i : Nat) (receiver : Receiver) :
    (shardRow s i receiver).key = Cache.receiverKey (Cache.shardWord s) (UInt64.ofNat i) := by
  rw [Shard.key, shardRow, ofInt_natCast]

theorem nullifierRow_key (i : Nat) (sender : Sender) :
    (nullifierRow i sender).key = Cache.senderKey (UInt64.ofNat i) := by
  rw [Nullifier.key, nullifierRow, ofInt_natCast]

/-- The bytes decode to the pair of values that the two columns of the row decode to. -/
def Shard.DecodesAs (row : Shard) (bytes : Bytes) : Prop :=
  ∃ utxo note, decodeFront P.Utxo row.utxo = some utxo ∧
    decodeFront P.FullIncomingNote row.fullIncomingNote = some note ∧
    decodeFront Receiver bytes = some (utxo, note)

def Nullifier.DecodesAs (row : Nullifier) (bytes : Bytes) : Prop :=
  ∃ commitment note, decodeFront P.NullifierCommitment row.nullifierCommitment = some commitment ∧
    decodeFront P.OutgoingNote row.outgoingNote = some note ∧
    decodeFront Sender bytes = some (commitment, note)

theorem shardRow_decodes (s : ShardIndex) (i : Nat) (receiver : Receiver) :
    (shardRow s i receiver).DecodesAs (encode receiver) :=
  ⟨receiver.1, receiver.2, decodeFront_encode _, decodeFront_encode _, decodeFront_encode _⟩

theorem nullifierRow_decodes (i : Nat) (sender : Sender) :
    (nullifierRow i sender).DecodesAs (encode sender) :=
  ⟨sender.1, sender.2, decodeFront_encode _, decodeFront_encode _, decodeFront_encode _⟩

end Keys

/-- However the tasks interleave, every cache entry is stored under the key of a committed row, and
its bytes decode to the values of the committed row with that key. -/
theorem cache_coherent [Pallet] {serves : Serves} {s : System} (reachable : s.Reachable serves)
    (shards : ∀ shard, s.world.db.countShards shard < 2 ^ 48)
    (nullifiers : s.world.db.countNullifier < 2 ^ 48) :
    ∀ entry ∈ s.world.lru.entries,
      ((∃ row ∈ s.world.db.shards, entry.1 = row.key) ∨
        ∃ row ∈ s.world.db.nullifier, entry.1 = row.key) ∧
      (∀ row ∈ s.world.db.shards, entry.1 = row.key → row.DecodesAs entry.2) ∧
      ∀ row ∈ s.world.db.nullifier, entry.1 = row.key → row.DecodesAs entry.2 := by
  obtain ⟨L, mirrors, -, -⟩ :=
    (Invariant.reachable (C := shardedContract serves) reachable).ledger
  have holds := mirrors.represents
  have below : L.Below (2 ^ 48) :=
    ⟨fun shard => holds.count shard ▸ shards shard, holds.countNullifier ▸ nullifiers⟩
  rintro ⟨key, bytes⟩ member
  have hit := Lru.lookup_eq_some.mpr member
  refine ⟨?_, ?_, ?_⟩
  · generalize (key, bytes) = entry at member ⊢
    cases mirrors.coherent entry member with
    | receiver stored =>
      exact .inl ⟨_, holds.shardRow_mem stored, (shardRow_key ..).symm⟩
    | sender stored =>
      have row := holds.nullifiers.mem_iff.mpr (mem_rows.mpr ⟨_, _, stored, rfl⟩)
      exact .inr ⟨_, row, (nullifierRow_key ..).symm⟩
  · rintro row committed rfl
    obtain ⟨shard, i, receiver, stored, rfl⟩ := holds.mem_shards committed
    have inside := (List.getElem?_eq_some_iff.mp stored).1
    have bound := below.1 shard
    rw [Ledger.count] at bound
    have word := toNat_ofNat (n := i) (by omega)
    rw [shardRow_key] at hit
    obtain ⟨cached, found, rfl⟩ := mirrors.coherent.lookup_receiver below (by omega) hit
    rw [word, stored] at found
    cases found
    exact shardRow_decodes shard i receiver
  · rintro row committed rfl
    obtain ⟨i, sender, stored, rfl⟩ := mem_rows.mp (holds.nullifiers.mem_iff.mp committed)
    have inside := (List.getElem?_eq_some_iff.mp stored).1
    have bound := below.2
    have word := toNat_ofNat (n := i) (by omega)
    rw [nullifierRow_key] at hit
    obtain ⟨cached, found, rfl⟩ := mirrors.coherent.lookup_sender below.2 (by omega) hit
    rw [word, stored] at found
    cases found
    exact nullifierRow_decodes i sender

section Sample

attribute [local instance] samplePallet

theorem cache_coherent_synced :
    sampleSynced.world.lru.entries.length = 2 ∧
      ∀ entry ∈ sampleSynced.world.lru.entries,
        ((∃ row ∈ sampleSynced.world.db.shards, entry.1 = row.key) ∨
          ∃ row ∈ sampleSynced.world.db.nullifier, entry.1 = row.key) ∧
        (∀ row ∈ sampleSynced.world.db.shards, entry.1 = row.key → row.DecodesAs entry.2) ∧
        ∀ row ∈ sampleSynced.world.db.nullifier, entry.1 = row.key → row.DecodesAs entry.2 := by
  have reachable : sampleSynced.Reachable anyNode := sampleSynced_reachable fun _ _ => trivial
  have coherent := cache_coherent reachable (by decide +kernel) (by decide +kernel)
  exact ⟨by decide +kernel, coherent⟩

end Sample

end MantaIndexer
