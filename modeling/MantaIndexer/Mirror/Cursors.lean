import MantaIndexer.Indexer.Client
import MantaIndexer.Mirror.Safety
import MantaIndexer.Mirror.Still

/-!
Three rules for the next cursor of the receivers: the server counts what it adds shard by shard, a
client groups the receivers by their item hash and counts from its previous checkpoint, and the
syncing task groups them and adds to its own. They agree because a pull finds a receiver only in the
shard of its hash, whatever it finds.
-/

namespace MantaIndexer
open Effects Encoding Collections

section Cursors

variable [P : Pallet]

/-- Every receiver, stored or cached, is in the shard of its item hash. -/
structure Placed (w : World) : Prop where
  rows : ∀ row ∈ w.db.shards, ∀ utxo, decodeFront P.Utxo row.utxo = some utxo →
    treeIndex utxo = some row.shardIndex
  cached : ∀ entry ∈ w.lru.entries, ∀ s x,
    entry.1 = Cache.receiverKey (Cache.shardWord s) x →
      ∀ receiver, decodeFront Receiver entry.2 = some receiver → treeIndex receiver.1 = some s

theorem Mirrors.placed {L : Ledger} {w : World} (mirrors : Mirrors L w) (sharded : L.Sharded) :
    Placed w := by
  constructor
  · intro row member utxo decoded
    obtain ⟨s, i, receiver, stored, rfl⟩ := mirrors.represents.mem_shards member
    rw [show (shardRow s i receiver).utxo = encode receiver.1 from rfl, decodeFront_encode] at decoded
    cases decoded
    exact sharded s receiver (List.mem_of_getElem? stored)
  · intro entry member s x key receiver decoded
    cases mirrors.coherent entry member with
    | @receiver t i other stored =>
      rw [decodeFront_encode] at decoded
      cases decoded
      obtain rfl := Cache.receiverKey_shard key
      exact sharded t receiver (List.mem_of_getElem? stored)
    | sender stored => exact absurd key.symm (Cache.receiverKey_ne_senderKey _ _ _)

omit P in
theorem decodeOrFail_ok {α : Type} [Codec α] {bytes : Bytes} {value : α}
    (h : decodeOrFail α bytes = .ok value) : decodeFront α bytes = some value := by
  unfold decodeOrFail at h
  split at h
  · rename_i found
    cases h
    exact found
  · cases h

omit P in
theorem splitCached_decoded {α : Type} [Codec α] {indices : List UInt64}
    {cells : List (Option Bytes)} {values : List α} {queried : List Int}
    (split : splitCached α indices cells = .ok (values, queried)) :
    ∀ value ∈ values, ∃ bytes, some bytes ∈ cells ∧ decodeFront α bytes = some value := by
  induction indices generalizing cells values queried with
  | nil =>
    cases cells <;> cases split <;> exact nofun
  | cons i indices ih =>
    cases cells with
    | nil =>
      cases split
      exact nofun
    | cons cell cells =>
      cases cell with
      | none =>
        unfold splitCached at split
        obtain ⟨⟨rest, others⟩, later, same⟩ := bind_ok split
        cases same
        intro value member
        obtain ⟨bytes, there, decoded⟩ := ih later value member
        exact ⟨bytes, List.mem_cons_of_mem _ there, decoded⟩
      | some bytes =>
        unfold splitCached at split
        obtain ⟨first, decoded, split⟩ := bind_ok split
        obtain ⟨⟨rest, others⟩, later, same⟩ := bind_ok split
        cases same
        intro value member
        rcases List.mem_cons.mp member with rfl | member
        · exact ⟨bytes, List.mem_cons_self, decodeOrFail_ok decoded⟩
        · obtain ⟨other, there, found⟩ := ih later value member
          exact ⟨other, List.mem_cons_of_mem _ there, found⟩

omit P in
theorem decodeRows_decoded {ρ α β : Type} [Codec α] [Codec β] {index : ρ → Int}
    {first second : ρ → Bytes} {rows : List ρ} {values : List (α × β)}
    {writeBack : List (UInt64 × Bytes)}
    (decoded : decodeRows α β index first second rows = .ok (values, writeBack)) :
    (∀ value ∈ values, ∃ row ∈ rows, decodeFront α (first row) = some value.1) ∧
      ∀ item ∈ writeBack, ∃ value ∈ values, item.2 = encode value := by
  induction rows generalizing values writeBack with
  | nil =>
    cases decoded
    exact ⟨nofun, nofun⟩
  | cons row rows ih =>
    unfold decodeRows at decoded
    obtain ⟨a, decodedA, decoded⟩ := bind_ok decoded
    obtain ⟨b, -, decoded⟩ := bind_ok decoded
    obtain ⟨⟨rest, others⟩, later, same⟩ := bind_ok decoded
    cases same
    obtain ⟨found, written⟩ := ih later
    constructor
    · intro value member
      rcases List.mem_cons.mp member with rfl | member
      · exact ⟨row, List.mem_cons_self, decodeOrFail_ok decodedA⟩
      · obtain ⟨other, there, same⟩ := found value member
        exact ⟨other, List.mem_cons_of_mem _ there, same⟩
    · intro item member
      rcases List.mem_cons.mp member with rfl | member
      · exact ⟨(a, b), List.mem_cons_self, rfl⟩
      · obtain ⟨value, there, same⟩ := written item member
        exact ⟨value, List.mem_cons_of_mem _ there, same⟩

/-! ### The pull of the receivers -/

/-- The others leave every receiver in its shard. -/
def KeepsPlaced (w v : World) : Prop := Placed w → Placed v

theorem KeepsPlaced.refl (w : World) : KeepsPlaced w w := id

variable {w : World}

theorem Placed.getBatch (placed : Placed w) (keys : List Cache.LruKeyType) :
    Placed { w with lru := (w.lru.getBatch keys).2 } :=
  ⟨placed.rows, fun entry member => placed.cached entry (Lru.mem_getBatch.mp member)⟩

theorem Placed.putBatch (placed : Placed w) {s : ShardIndex} {batch : List (UInt64 × Bytes)}
    {values : List Receiver} (own : ∀ receiver ∈ values, treeIndex receiver.1 = some s)
    (written : ∀ item ∈ batch, ∃ value ∈ values, item.2 = encode value) :
    Placed { w with
      lru := w.lru.putBatch
        (batch.map fun item => (Cache.receiverKey (Cache.shardWord s) item.1, item.2)) } := by
  refine ⟨placed.rows, fun entry member t x key receiver decoded => ?_⟩
  rcases Lru.mem_putBatch member with new | old
  · obtain ⟨item, there, rfl⟩ := List.mem_map.mp new
    obtain ⟨value, among, bytes⟩ := written item there
    obtain rfl := Cache.receiverKey_shard key
    dsimp only at decoded
    rw [bytes, decodeFront_encode] at decoded
    cases decoded
    exact own receiver among
  · exact placed.cached entry old t x key receiver decoded

theorem pulls_shardsIn_placed {α : Type} {post : Except Error α → World → Prop} (placed : Placed w)
    {s : ShardIndex} {indices : List Int} {f : List Shard → Task α}
    (h : ∀ t rows, Placed t → (∀ row ∈ rows, row ∈ t.db.shards ∧ row.shardIndex = s) →
      Pulls KeepsPlaced post (f rows) t) :
    Pulls KeepsPlaced post (getBatchedShardsByIdxs s indices >>= f) w := by
  cases indices with
  | nil => exact h w [] placed nofun
  | cons i indices =>
    refine pulls_sql fun t step => h t _ (step placed) ?_
    intro row member
    have found := List.mem_filter.mp ((List.mem_insertionSort _).mp member)
    exact ⟨found.1, (of_decide_eq_true found.2).1⟩

/-- What a pull adds to the receivers: of each shard only receivers of that shard, and as many as its
cursor moves. -/
structure Moves (indices : ShardIndex → UInt64) (shards : List ShardIndex) (state last : PullState)
    (chunk : ShardIndex → List Receiver) : Prop where
  own : ∀ s ∈ shards, ∀ receiver ∈ chunk s, treeIndex receiver.1 = some s
  receivers : last.receivers = state.receivers ++ shards.flatMap chunk
  visited : ∀ s ∈ shards, last.nextIndices s = indices s + UInt64.ofNat (chunk s).length
  unvisited : ∀ s, s ∉ shards → last.nextIndices s = state.nextIndices s

section Moves

variable {indices : ShardIndex → UInt64} {shards : List ShardIndex} {s : ShardIndex}
  {state next last : PullState}

theorem Moves.nothing (same : ∀ s ∈ shards, state.nextIndices s = indices s) :
    Moves indices shards state state fun _ => [] := by
  refine ⟨fun _ _ => nofun, by simp, fun s member => ?_, fun _ _ => rfl⟩
  rw [same s member]
  exact (UInt64.add_zero _).symm

theorem Moves.cons {chunk : ShardIndex → List Receiver} {first : List Receiver} (fresh : s ∉ shards)
    (own : ∀ receiver ∈ first, treeIndex receiver.1 = some s)
    (receivers : next.receivers = state.receivers ++ first)
    (indexed : next.nextIndices = Function.update state.nextIndices s
      (indices s + UInt64.ofNat first.length))
    (rest : Moves indices shards next last chunk) :
    Moves indices (s :: shards) state last (Function.update chunk s first) := by
  have other : ∀ t ∈ shards, Function.update chunk s first t = chunk t := by
    intro t member
    exact Function.update_of_ne (ne_of_mem_of_not_mem member fresh) _ _
  refine ⟨fun t member => ?_, ?_, fun t member => ?_, fun t absent => ?_⟩
  · rcases List.mem_cons.mp member with rfl | member
    · rwa [Function.update_self]
    · rw [other t member]
      exact rest.own t member
  · rw [rest.receivers, receivers, List.flatMap_cons, Function.update_self,
      List.flatMap_congr other, List.append_assoc]
  · rcases List.mem_cons.mp member with rfl | member
    · rw [rest.unvisited t fresh, indexed, Function.update_self, Function.update_self]
    · rw [rest.visited t member, other t member]
  · simp only [List.mem_cons, not_or] at absent
    rw [rest.unvisited t absent.2, indexed, Function.update_of_ne absent.1]

end Moves

theorem pullReceiversForShard_placed (placed : Placed w) (s : ShardIndex) (x amount : UInt64)
    (before : List Receiver) :
    Pulls KeepsPlaced (fun out t => Placed t ∧ ∀ result, out = .ok result →
        ∃ chunk, result.2 = before ++ chunk ∧ ∀ receiver ∈ chunk, treeIndex receiver.1 = some s)
      (pullReceiversForShard s x amount before) w := by
  unfold pullReceiversForShard getBatchShardReceiver putBatchReceiver
  refine pulls_getBatchLru fun t step => ?_
  have placed := step placed
  cases split : splitCached Receiver (span x (x + amount))
      (((span x (x + amount)).map (Cache.receiverKey (Cache.shardWord s))).map t.lru.lookup) with
  | error error => exact fun u step => ⟨step (placed.getBatch _), nofun⟩
  | ok found =>
    obtain ⟨hits, queried⟩ := found
    have ownHits : ∀ receiver ∈ hits, treeIndex receiver.1 = some s := by
      intro receiver member
      obtain ⟨bytes, cell, decoded⟩ := splitCached_decoded split receiver member
      obtain ⟨key, asked, hit⟩ := List.mem_map.mp cell
      obtain ⟨i, -, rfl⟩ := List.mem_map.mp asked
      exact placed.cached _ (Lru.lookup_eq_some.mp hit) s i rfl receiver decoded
    refine pulls_shardsIn_placed (placed.getBatch _) fun u rows placed among => ?_
    cases decoding : decodeShards rows with
    | error error => exact fun v step => ⟨step placed, nofun⟩
    | ok decoded =>
      obtain ⟨values, writeBack⟩ := decoded
      obtain ⟨fromRows, written⟩ := decodeRows_decoded decoding
      have ownRows : ∀ receiver ∈ values, treeIndex receiver.1 = some s := by
        intro receiver member
        obtain ⟨row, there, decoded⟩ := fromRows receiver member
        obtain ⟨stored, shard⟩ := among row there
        rw [← shard]
        exact placed.rows row stored receiver.1 decoded
      have own : ∀ receiver ∈ hits ++ values, treeIndex receiver.1 = some s :=
        fun receiver member => (List.mem_append.mp member).elim (ownHits receiver) (ownRows receiver)
      refine pulls_putBatchLru fun v step => ?_
      have placed := (step placed).putBatch ownRows written
      dsimp only
      rw [List.append_assoc]
      split
      · refine pulls_hasShard fun u' step' v' step'' => ⟨step'' (step' placed), ?_⟩
        rintro result same
        cases same
        exact ⟨hits ++ values, rfl, own⟩
      · refine fun v' step' => ⟨step' placed, ?_⟩
        rintro result same
        cases same
        exact ⟨hits ++ values, rfl, own⟩

theorem pullShards_placed {indices : ShardIndex → UInt64} {maxAmount : UInt64}
    {shards : List ShardIndex} (nodup : shards.Nodup) {state : PullState}
    (same : ∀ s ∈ shards, state.nextIndices s = indices s) (placed : Placed w) :
    Pulls KeepsPlaced (fun out t => Placed t ∧ ∀ last, out = .ok last →
        ∃ chunk, Moves indices shards state last chunk)
      (pullShards indices maxAmount shards state) w := by
  induction shards generalizing state w with
  | nil =>
    refine fun t step => ⟨step placed, ?_⟩
    intro last answer
    cases answer
    exact ⟨_, Moves.nothing same⟩
  | cons s shards ih =>
    obtain ⟨fresh, nodup⟩ := List.nodup_cons.mp nodup
    have unvisited : ∀ t ∈ shards, state.nextIndices t = indices t :=
      fun t member => same t (List.mem_cons_of_mem _ member)
    unfold pullShards
    refine pulls_hasShard fun t step => ?_
    have placed := step placed
    cases (t.db.shardAt s (asI64 (indices s))).isSome with
    | false =>
      refine (ih nodup unvisited placed).mono ?_
      rintro out u ⟨placed, moved⟩
      refine ⟨placed, fun last answer => ?_⟩
      obtain ⟨chunk, moves⟩ := moved last answer
      have stays : state.nextIndices = Function.update state.nextIndices s
          (indices s + UInt64.ofNat ([] : List Receiver).length) := by
        rw [← same s List.mem_cons_self]
        exact (Function.update_eq_self_iff.mpr (UInt64.add_zero _)).symm
      exact ⟨_, moves.cons fresh (by simp) (List.append_nil _).symm stays⟩
    | true =>
      apply Ensures.bind KeepsPlaced.refl
      refine (pullReceiversForShard_placed placed s _ _ _).mono ?_
      rintro out u ⟨placed, pulled⟩
      cases out with
      | error error => exact fun v step => ⟨step placed, fun last answer => by cases answer⟩
      | ok result =>
        obtain ⟨more, receivers⟩ := result
        obtain ⟨first, rfl, own⟩ := pulled _ rfl
        have cursor : indices s + UInt64.ofNat (state.receivers ++ first).length -
            UInt64.ofNat state.receivers.length = indices s + UInt64.ofNat first.length := by
          rw [List.length_append, add_ofNat_sub]
        have untouched : ∀ t ∈ shards, Function.update state.nextIndices s
            (indices s + UInt64.ofNat first.length) t = indices t := by
          intro t member
          rw [Function.update_of_ne (ne_of_mem_of_not_mem member fresh), unvisited t member]
        simp only [thenEnsures, cursor]
        split
        · refine fun v step => ⟨step placed, ?_⟩
          intro last answer
          cases answer
          exact ⟨_, (Moves.nothing untouched).cons fresh own rfl rfl⟩
        · refine (ih nodup untouched placed).mono ?_
          rintro out v ⟨placed, moved⟩
          refine ⟨placed, fun last answer => ?_⟩
          obtain ⟨chunk, moves⟩ := moved last answer
          exact ⟨_, moves.cons fresh own rfl rfl⟩

/-! ### The three rules -/

/-- The cursors that come with a response count its receivers by the shard of their hash. -/
structure CountedByHash (ck : Checkpoint) (response : PullResponse) (next : Checkpoint) : Prop where
  converted : ∀ receiver ∈ response.receivers, ∃ s, treeIndex receiver.1 = some s
  counted : ∀ s, next.receiverIndex s =
    ck.receiverIndex s + UInt64.ofNat (Ledger.ofShard response.receivers s).length

theorem Moves.counted {indices : ShardIndex → UInt64} {maxAmount : UInt64} {last : PullState}
    {chunk : ShardIndex → List Receiver}
    (moves : Moves indices allShards ⟨false, [], indices, maxAmount⟩ last chunk) :
    (∀ receiver ∈ last.receivers, ∃ s, treeIndex receiver.1 = some s) ∧
      ∀ s, last.nextIndices s =
        indices s + UInt64.ofNat (Ledger.ofShard last.receivers s).length := by
  have own := fun s => moves.own s (List.mem_finRange s)
  have all : last.receivers = allShards.flatMap chunk := moves.receivers.trans (List.nil_append _)
  constructor
  · intro receiver member
    rw [all] at member
    obtain ⟨s, -, there⟩ := List.mem_flatMap.mp member
    exact ⟨s, own s receiver there⟩
  · intro s
    rw [moves.visited s (List.mem_finRange s), all, ofShard_flatMap own]

theorem pullLedgerDiff_counted (placed : Placed w) (ck : Checkpoint)
    (maxReceivers maxSenders : UInt64) (outside : Outside) {response : PullResponse}
    {next : Checkpoint} {v : World}
    (ran : (pullLedgerDiff ck maxReceivers maxSenders).run (World.handle outside) w =
      (.ok (response, next), v)) : CountedByHash ck response next := by
  have pulls : Pulls KeepsPlaced _ (pullShards ck.receiverIndex maxReceivers allShards
      ⟨false, [], ck.receiverIndex, maxReceivers⟩) w :=
    pullShards_placed (List.nodup_finRange _) (fun _ _ => rfl) placed
  obtain ⟨-, moved⟩ := pulls.run KeepsPlaced.refl fun w op => .handled w op outside
  unfold pullLedgerDiff at ran
  obtain ⟨pulled, u, ranReceivers, ran⟩ := Prog.run_bind_inv ran
  obtain ⟨last, t, ranShards, finished⟩ := Prog.run_bind_inv ranReceivers
  obtain ⟨sent, u', -, ran⟩ := Prog.run_bind_inv ran
  obtain ⟨total, u'', -, ran⟩ := Prog.run_bind_inv ran
  cases finished
  cases ran
  rw [ranShards] at moved
  obtain ⟨chunk, moves⟩ := moved last rfl
  exact ⟨moves.counted.1, moves.counted.2⟩

theorem reconstructFrom_ok (groups : List (ShardIndex × List Receiver)) {receivers : List Receiver}
    (converted : ∀ receiver ∈ receivers, ∃ s, treeIndex receiver.1 = some s) :
    ∃ shards, reconstructFrom groups receivers = .ok shards := by
  induction receivers generalizing groups with
  | nil => exact ⟨groups, rfl⟩
  | cons receiver rest ih =>
    obtain ⟨⟨s, tree⟩, converted⟩ := List.forall_mem_cons.mp converted
    unfold reconstructFrom
    rw [tree]
    exact ih _ converted

theorem foldl_overwrite {groups : List (ShardIndex × List Receiver)}
    (nodup : (groups.map Prod.fst).Nodup) {previous indices : ShardIndex → UInt64}
    (same : ∀ s ∈ groups.map Prod.fst, indices s = previous s) :
    groups.foldl (fun receiverIndex group => Function.update receiverIndex group.1
        (previous group.1 + UInt64.ofNat group.2.length)) indices =
      groups.foldl (fun receiverIndex group => Function.update receiverIndex group.1
        (receiverIndex group.1 + UInt64.ofNat group.2.length)) indices := by
  induction groups generalizing indices with
  | nil => rfl
  | cons head rest ih =>
    obtain ⟨first, group⟩ := head
    obtain ⟨fresh, nodup⟩ := List.nodup_cons.mp nodup
    rw [List.foldl_cons, List.foldl_cons, same first List.mem_cons_self]
    apply ih nodup
    intro s member
    rw [Function.update_of_ne (ne_of_mem_of_not_mem member fresh)]
    exact same s (List.mem_cons_of_mem _ member)

/-- However the hash map of the grouped receivers is iterated, the client and the syncing task get
the cursors that the server returned. -/
def CursorsAgree (ck : Checkpoint) (response : PullResponse) (next : Checkpoint) : Prop :=
  ∀ (outside : Outside) (v : World), ∃ shards,
    (reconstructShardsFromPullResponse response).run (World.handle outside) v = (.ok shards, v) ∧
    (calculateNextCheckpoint shards ck ck response.senders.length).receiverIndex =
      next.receiverIndex ∧
    (increasingCheckpoint ck response.senders.length shards).receiverIndex = next.receiverIndex

theorem CountedByHash.agree {ck next : Checkpoint} {response : PullResponse}
    (counted : CountedByHash ck response next) : CursorsAgree ck response next := by
  intro outside v
  obtain ⟨shards, grouped⟩ := reconstructFrom_ok [] counted.converted
  obtain ⟨nodup, -, -⟩ := reconstructFrom_groups grouped List.nodup_nil
  have perm := outside.perm (shards.map Prod.fst)
  have increased : (increasingCheckpoint ck response.senders.length
      ((outside.hashOrder (shards.map Prod.fst)).map fun s =>
        (s, groupOf shards s))).receiverIndex = next.receiverIndex := by
    funext s
    rw [increasingCheckpoint_order grouped perm, counted.counted s]
  refine ⟨_, ?_, ?_, increased⟩
  · unfold reconstructShardsFromPullResponse
    rw [grouped]
    rfl
  · rw [← increased]
    exact foldl_overwrite (order_keys_nodup nodup perm) fun _ _ => rfl

/-- A database that the syncing task can have left, with any coherent cache. -/
def AfterSync (serves : Serves) (w : World) : Prop :=
  ∃ s : System, s.Reachable serves ∧ w.db = s.world.db ∧
    ∃ L, Represents w.db L ∧ Coherent L w.lru

theorem AfterSync.placed {serves : Serves} (after : AfterSync serves w) : Placed w := by
  obtain ⟨s, reachable, same, L, holds, coherent⟩ := after
  obtain ⟨M, mirrors, sharded, -⟩ :=
    (Invariant.reachable (C := shardedContract serves) reachable).ledger
  have equal : L = M := holds.unique (same ▸ mirrors.represents)
  exact Mirrors.placed ⟨holds, coherent⟩ (equal ▸ sharded)

/-! ### The paging loop -/

theorem sqliteIteration_agrees {serves : Serves} (after : AfterSync serves w) {ck : Checkpoint}
    {outside : Outside} {response : PullResponse} {server : Checkpoint} {v : World}
    (ran : (pullLedgerDiff ck (1024 * 15) (1024 * 15)).run (World.handle outside) w =
      (.ok (response, server), v)) :
    ∃ round, (sqliteIteration ck ck).run (World.handle outside) w = (.ok round, v) ∧
      round.server = server ∧ round.nextCheckpoint.receiverIndex = round.server.receiverIndex := by
  have counted := pullLedgerDiff_counted after.placed ck _ _ outside ran
  obtain ⟨shards, grouped, agree, -⟩ := counted.agree outside v
  refine ⟨⟨server, calculateNextCheckpoint shards ck ck response.senders.length,
    response.shouldContinue⟩, ?_, rfl, agree⟩
  unfold sqliteIteration
  rw [Prog.run_bind_ok ran]
  dsimp only
  rw [Prog.run_bind_ok grouped]
  rfl

/-- At the head of the loop the two checkpoints are the same. -/
structure InStep (loop : SqliteLoop) : Prop where
  same : loop.left = false → loop.currentCheckpoint = loop.nextCheckpoint
  rounds : ∀ round ∈ loop.rounds, round.nextCheckpoint.receiverIndex = round.server.receiverIndex

theorem InStep.round {serves : Serves} (after : AfterSync serves w) {loop : SqliteLoop}
    (inStep : InStep loop) (inside : loop.left = false) {outside : Outside} {round : SqliteRound}
    {v : World}
    (ran : (sqliteIteration loop.currentCheckpoint loop.nextCheckpoint).run (World.handle outside) w =
      (.ok round, v)) :
    ∀ other ∈ loop.rounds ++ [round],
      other.nextCheckpoint.receiverIndex = other.server.receiverIndex := by
  rw [inStep.same inside] at ran
  obtain ⟨⟨response, server⟩, u, pulled, -⟩ := Prog.run_bind_inv ran
  obtain ⟨other, ran', -, agree⟩ := sqliteIteration_agrees after pulled
  rw [ran] at ran'
  cases ran'
  rw [List.forall_mem_append, List.forall_mem_singleton]
  exact ⟨inStep.rounds, agree⟩

theorem inStep_run {serves : Serves} {loop : SqliteLoop}
    (run : SqliteLoop.Run (AfterSync serves) loop) : InStep loop := by
  induction run with
  | entered => exact ⟨fun _ => rfl, nofun⟩
  | continued before inside here ran more ih => exact ⟨fun _ => rfl, ih.round here inside ran⟩
  | finished before inside here ran done ih => exact ⟨nofun, ih.round here inside ran⟩

end Cursors

/-- On every database that the syncing task can leave, with any coherent cache, the receivers of an
answer can be grouped, and both the client's and the syncing task's rule then give the cursors that
the server returned, whatever the checkpoint and the caps. In every run of the paging loop they are
the same after every round. -/
theorem cursors_agree [Pallet] :
    (∀ w, AfterSync anyNode w → ∀ ck maxReceivers maxSenders outside response next v,
      (pullLedgerDiff ck maxReceivers maxSenders).run (World.handle outside) w =
        (.ok (response, next), v) → CursorsAgree ck response next) ∧
    ∀ loop, SqliteLoop.Run (AfterSync anyNode) loop → ∀ round ∈ loop.rounds,
      round.nextCheckpoint.receiverIndex = round.server.receiverIndex := by
  constructor
  · intro w after ck maxReceivers maxSenders outside response next v ran
    exact (pullLedgerDiff_counted after.placed ck _ _ outside ran).agree
  · intro loop run
    exact (inStep_run run).rounds

section Sample

attribute [local instance] samplePallet

theorem sampleSynced_afterSync : AfterSync anyNode sampleSynced.world :=
  ⟨sampleSynced, sampleSynced_reachable fun _ _ => trivial, rfl, sampleNode,
    sampleSynced_mirrors.represents, sampleSynced_mirrors.coherent⟩

theorem sampleSynced_pulled : ∃ response next v,
    (pullLedgerDiff Checkpoint.default (1024 * 15) (1024 * 15)).run (World.handle Outside.offline)
      sampleSynced.world = (.ok (response, next), v) ∧
      response.receivers = [sampleReceiver 0 7] ∧ response.senders = [sampleSender 9] ∧
      next.receiverIndex 0 = 1 := by
  have room : ∀ s, sampleNode.count s + (1024 * 15 : UInt64).toNat ≤ 2 ^ 48 := by decide +kernel
  have total : (totalOf sampleSynced.world.db).map (fun _ => ()) = .ok () := by decide +kernel
  have one : gathered (fun _ => sampleNode) Checkpoint.default.receiverIndex allShards
      (1024 * 15 : UInt64).toNat = [sampleReceiver 0 7] := by decide +kernel
  have spent : page sampleNode.senders Checkpoint.default.senderIndex.toNat
      (1024 * 15 : UInt64).toNat = [sampleSender 9] := by decide +kernel
  have moved : advanced (fun _ => sampleNode) Checkpoint.default.receiverIndex
      (1024 * 15 : UInt64).toNat 0 = 1 := by decide +kernel
  have fits : Checkpoint.default.senderIndex.toNat + (1024 * 15 : UInt64).toNat ≤ 2 ^ 48 := by decide
  obtain ⟨⟨receivers, senders, gatheredAll, paged, answer⟩, -⟩ :=
    pullLedgerDiff_alone sampleSynced_mirrors room fits Outside.offline
  rw [one, List.perm_singleton] at gatheredAll
  rw [spent, List.perm_singleton] at paged
  cases found : totalOf sampleSynced.world.db with
  | error error =>
    rw [found] at total
    cases total
  | ok bytes =>
    obtain ⟨response, next, v, ran⟩ :=
      pullLedgerDiff_ok sampleSynced_mirrors room fits found Outside.offline
    simp only [ran, found, Except.map, Except.ok.injEq, Prod.mk.injEq] at answer
    obtain ⟨rfl, rfl⟩ := answer
    exact ⟨_, _, v, ran, gatheredAll, paged, moved⟩

theorem cursors_agree_synced :
    (∃ response next v,
      (pullLedgerDiff Checkpoint.default (1024 * 15) (1024 * 15)).run
        (World.handle Outside.offline) sampleSynced.world = (.ok (response, next), v) ∧
      response.receivers = [sampleReceiver 0 7] ∧ response.senders = [sampleSender 9] ∧
      next.receiverIndex 0 = 1 ∧ CursorsAgree Checkpoint.default response next) ∧
    ∃ loop round, SqliteLoop.Run (AfterSync anyNode) loop ∧ loop.rounds = [round] ∧
      round.server.receiverIndex 0 = 1 ∧
      round.nextCheckpoint.receiverIndex = round.server.receiverIndex := by
  obtain ⟨response, next, v, ran, receivers, senders, moved⟩ := sampleSynced_pulled
  obtain ⟨round, iterated, same, -⟩ := sqliteIteration_agrees sampleSynced_afterSync ran
  have agree := cursors_agree.1 _ sampleSynced_afterSync _ _ _ _ _ _ _ ran
  refine ⟨⟨response, next, v, ran, receivers, senders, moved, agree⟩, ?_⟩
  rw [← same] at moved
  cases more : round.shouldContinue with
  | true =>
    have run := SqliteLoop.Run.continued .entered rfl sampleSynced_afterSync iterated more
    exact ⟨_, round, run, rfl, moved, cursors_agree.2 _ run round (.head _)⟩
  | false =>
    have run := SqliteLoop.Run.finished .entered rfl sampleSynced_afterSync iterated more
    exact ⟨_, round, run, rfl, moved, cursors_agree.2 _ run round (.head _)⟩

end Sample

end MantaIndexer
