import MantaIndexer.Collections.Recency
import MantaIndexer.Mirror.Converges

/-!
What the refresh after a commit is for: the rows of the batch stay in the cache while they are among the
most recently used, whatever other tasks read and write beside.
-/

namespace MantaIndexer
open Effects Encoding Collections

section Refreshed

variable [P : Pallet]

/-- What the others do beside a task: they use the cache under the keys `used`, and keep it
coherent. -/
structure Sharing (used : List Cache.LruKeyType) (w v : World) : Prop extends Quiet w v where
  lru : Lru.Used used w.lru v.lru

theorem Sharing.refl (used : List Cache.LruKeyType) (w : World) : Sharing used w w :=
  ⟨.refl w, .refl⟩

theorem Sharing.trans {used : List Cache.LruKeyType} (u v w : World) (first : Sharing used u v)
    (second : Sharing used v w) : Sharing used u w :=
  ⟨.trans _ _ _ first.toQuiet second.toQuiet, first.lru.trans second.lru⟩

/-! ### An iteration up to its commit -/

/-- An iteration of the loop of `sync_shards_from_full_node` up to the commit. -/
def commitBatch (config : SyncConfig) (current : Checkpoint) :
    Task (UInt64 × List (ShardIndex × List Receiver) × PullResponse) := do
  let response ← synchronizeLedger current config.maxCount.1 config.maxCount.2
  let shards ← reconstructShardsFromPullResponse response
  let nullifierCheckpoint ← inTransaction (updateTables current shards response)
  return (nullifierCheckpoint, shards, response)

/-- What follows the commit. -/
def afterCommit (config : SyncConfig) (current : Checkpoint) (nullifierCheckpoint : UInt64)
    (shards : List (ShardIndex × List Receiver)) (response : PullResponse) :
    Task (Option Checkpoint) := do
  if config.refreshCache then
    refreshReceivers current shards
    putBatchSender (cacheBatch nullifierCheckpoint response.senders)
  if !response.shouldContinue then
    perform .storeInitSyncingFinished
    return none
  else return some (increasingCheckpoint current response.senders.length shards)

theorem syncIteration_eq (config : SyncConfig) (current : Checkpoint) :
    syncIteration config current = commitBatch config current >>= fun batch =>
      afterCommit config current batch.1 batch.2.1 batch.2.2 := by
  simp only [syncIteration, commitBatch, afterCommit, Prog.bind_assoc, Prog.pure_eq, Prog.bind_ret]

/-- What a committed batch leaves. -/
structure Batched (L : Ledger) (first : UInt64) (shards : List (ShardIndex × List Receiver))
    (response : PullResponse) (w : World) : Prop where
  first : first = UInt64.ofNat L.senders.length
  groups : ∀ group ∈ shards, group.2 = Ledger.ofShard response.receivers group.1
  all : ∀ s, Ledger.ofShard response.receivers s ≠ [] → s ∈ shards.map Prod.fst
  converted : ∀ receiver ∈ response.receivers, ∃ s, treeIndex receiver.1 = some s
  mirrors : Mirrors (L.append response) w

theorem commitBatch_batched {serves : Serves} {C : Contract serves} {L node : Ledger}
    {transaction : Option Database} {w : World} (at' : Syncing C L node transaction w)
    (config : SyncConfig) :
    Syncs C L.checkpoint (fun out t => ∀ batch, out = .ok batch →
      Batched L batch.1 batch.2.1 batch.2.2 t) (commitBatch config L.checkpoint) w := by
  unfold commitBatch synchronizeLedger reconstructShardsFromPullResponse
  simp only [Prog.bind_assoc]
  refine syncs_request at' fun t r node here keeps served => ?_
  cases r with
  | error error => exact syncs_fail here _ fun _ _ _ same => by cases same
  | ok response =>
    have below := here.mirrors.represents.below.weaken (by decide : _ ≤ 2 ^ 63)
    rw [Prog.lift_ok, Prog.bind_ret]
    cases grouped : reconstructFrom [] response.receivers with
    | error error => exact syncs_fail here _ fun _ _ _ same => by cases same
    | ok shards =>
      obtain ⟨nodup, converted, groups⟩ := reconstructFrom_groups grouped List.nodup_nil
      rw [Prog.lift_ok, Prog.bind_ret]
      refine syncs_iterate here fun u order there perm => ?_
      rw [Prog.pure_eq, Prog.bind_ret]
      have extended : L.extend (groupOf (order.map fun s => (s, groupOf shards s)))
          response.senders = L.append response := by
        rw [Ledger.append]
        congr 1
        exact funext fun s => (groupOf_order perm s).trans (groups s)
      refine Ensures.bind Quiet.refl ((syncs_inTransaction there (order_keys_nodup nodup perm) ?_).mono
        ?_)
      · rw [extended]
        exact fun n le => C.later (C.accepts keeps below (served response rfl) converted) le
      rw [extended]
      intro out v committed
      cases out with
      | error error => exact fun _ _ _ same => by cases same
      | ok first =>
        obtain ⟨rfl, after⟩ := committed
        rintro v' step _ ⟨⟩
        refine ⟨rfl, ?_, fun s some => ?_, converted, (after.quiet step).mirrors⟩
        · intro group member
          obtain ⟨s, -, rfl⟩ := List.mem_map.mp member
          exact groups s
        · rw [List.map_map]
          simp only [Function.comp_def, List.map_id']
          refine perm.mem_iff.mpr ?_
          by_contra absent
          exact some ((groups s).symm.trans (groupOf_eq_nil absent))

/-! ### The refreshed cache -/

/-- The keys of a batch that follows a ledger. -/
def batchKeys (L : Ledger) (response : PullResponse) : List Cache.LruKeyType :=
  (allShards.flatMap fun s => (List.range (Ledger.ofShard response.receivers s).length).map fun i =>
      Cache.receiverKey (Cache.shardWord s) (UInt64.ofNat (L.count s + i))) ++
    (List.range response.senders.length).map fun i =>
      Cache.senderKey (UInt64.ofNat (L.senders.length + i))

theorem length_batchKeys (L : Ledger) {response : PullResponse}
    (converted : ∀ receiver ∈ response.receivers, ∃ s, treeIndex receiver.1 = some s) :
    (batchKeys L response).length = response.receivers.length + response.senders.length := by
  have grouped := sum_length_filter (List.nodup_finRange forestWidth)
    (fun receiver : Receiver => treeIndex receiver.1) response.receivers ?_
  · have lengths : ∀ s, ((List.range (Ledger.ofShard response.receivers s).length).map fun i =>
        Cache.receiverKey (Cache.shardWord s) (UInt64.ofNat (L.count s + i))).length =
        (Ledger.ofShard response.receivers s).length := fun s => by
      rw [List.length_map, List.length_range]
    rw [batchKeys, List.length_append, List.length_flatMap, List.map_congr_left fun s _ => lengths s,
      List.length_map, List.length_range]
    exact congrArg (· + response.senders.length) grouped
  · intro receiver member
    obtain ⟨s, own⟩ := converted receiver member
    exact ⟨s, List.mem_finRange s, own⟩

theorem mem_batchKeys_receiver {L : Ledger} {response : PullResponse} {s : ShardIndex} {i : Nat}
    (new : L.count s ≤ i) (inside : i < (L.append response).count s) :
    Cache.receiverKey (Cache.shardWord s) (UInt64.ofNat i) ∈ batchKeys L response := by
  have counts : (L.append response).count s =
      L.count s + (Ledger.ofShard response.receivers s).length := L.count_extend _ _ s
  refine List.mem_append_left _ (List.mem_flatMap.mpr ⟨s, List.mem_finRange s, List.mem_map.mpr ?_⟩)
  refine ⟨i - L.count s, List.mem_range.mpr (by omega), ?_⟩
  rw [Nat.add_sub_cancel' new]

theorem mem_batchKeys_sender {L : Ledger} {response : PullResponse} {i : Nat}
    (new : L.senders.length ≤ i) (inside : i < (L.append response).senders.length) :
    Cache.senderKey (UInt64.ofNat i) ∈ batchKeys L response := by
  rw [Ledger.append, Ledger.extend, List.length_append] at inside
  refine List.mem_append_right _ (List.mem_map.mpr ?_)
  refine ⟨i - L.senders.length, List.mem_range.mpr (by omega), ?_⟩
  rw [Nat.add_sub_cancel' new]

/-- While the cache is refreshed: the ledger is mirrored, and the keys written so far are recent when
all used keys fit. -/
structure Refreshing (M : Ledger) (used keys : List Cache.LruKeyType) (w : World) : Prop where
  mirrors : Mirrors M w
  warm : used.length ≤ w.lru.capacity → w.lru.Warm used keys

abbrev Shares (serves : Serves) (others : List Cache.LruKeyType) {α : Type}
    (post : Except Error α → World → Prop) (p : Task α) (w : World) : Prop :=
  Ensures (Performs serves) (Sharing others) (fun _ _ _ => True) post p w

section Rules

variable {serves : Serves} {α : Type} {post : Except Error α → World → Prop} {M : Ledger}
  {others used keys : List Cache.LruKeyType} {w v : World}

theorem Refreshing.shared (h : Refreshing M used keys w) (inside : ∀ key ∈ others, key ∈ used)
    (step : Sharing others w v) : Refreshing M used keys v :=
  ⟨step.toQuiet.mirrors h.mirrors, fun room =>
    (h.warm (step.lru.capacity ▸ room)).uses inside step.lru⟩

theorem Refreshing.fewer {fewer : List Cache.LruKeyType} (h : Refreshing M used keys w)
    (inside : ∀ key ∈ fewer, key ∈ keys) : Refreshing M used fewer w :=
  ⟨h.mirrors, fun room => (h.warm room).fewer inside⟩

variable (at' : Refreshing M used keys w) (inside : ∀ key ∈ others, key ∈ used)

include at' inside

theorem shares_putBatchLru {batch : List (Cache.LruKeyType × Bytes)}
    (cached : ∀ entry ∈ batch, Caches M entry) (own : ∀ entry ∈ batch, entry.1 ∈ used)
    {f : Unit → Task α}
    (h : ∀ t, Refreshing M used (batch.map Prod.fst ++ keys) t → Shares serves others post (f ()) t) :
    Shares serves others post ((perform (.putBatchLru batch) : Task _) >>= f) w := by
  intro t step r u performed
  have here := at'.shared inside step
  cases performed with
  | handled _ _ outside answers =>
    refine ⟨trivial, h _ ⟨?_, fun room => (here.warm ?_).putBatch own⟩⟩
    · exact (quiet_putBatchLru here.mirrors cached).mirrors here.mirrors
    · rwa [← Lru.putBatch_capacity t.lru batch]

omit P at' inside in
theorem keys_cacheBatch {β : Type} [Codec β] (key : UInt64 → Cache.LruKeyType) (first : Nat)
    (items : List β) :
    ((cacheBatch (UInt64.ofNat first) items).map fun item => (key item.1, item.2)).map Prod.fst =
      (List.range items.length).map fun i => key (UInt64.ofNat (first + i)) := by
  apply List.ext_getElem
  · simp [cacheBatch]
  · intro i _ _
    simp [cacheBatch, UInt64.ofNat_add]

/-- The keys of the groups of a batch. -/
def groupKeys (L : Ledger) (groups : List (ShardIndex × List Receiver)) : List Cache.LruKeyType :=
  groups.flatMap fun group => (List.range group.2.length).map fun i =>
    Cache.receiverKey (Cache.shardWord group.1) (UInt64.ofNat (L.count group.1 + i))

theorem shares_refreshReceivers {L : Ledger} {response : PullResponse}
    {groups : List (ShardIndex × List Receiver)} (whole : M = L.append response)
    (batch : ∀ key ∈ batchKeys L response, key ∈ used)
    (grouped : ∀ group ∈ groups, group.2 = Ledger.ofShard response.receivers group.1)
    {f : Unit → Task α}
    (h : ∀ t, Refreshing M used (groupKeys L groups ++ keys) t → Shares serves others post (f ()) t) :
    Shares serves others post (refreshReceivers L.checkpoint groups >>= f) w := by
  induction groups generalizing w keys with
  | nil => exact h w at'
  | cons group rest ih =>
    obtain ⟨s, items⟩ := group
    obtain ⟨own, later⟩ := List.forall_mem_cons.mp grouped
    have written : ((cacheBatch (L.checkpoint.receiverIndex s) items).map fun item =>
        (Cache.receiverKey (Cache.shardWord s) item.1, item.2)).map Prod.fst = _ :=
      keys_cacheBatch (Cache.receiverKey (Cache.shardWord s)) (L.count s) items
    unfold refreshReceivers putBatchReceiver
    rw [Prog.bind_assoc]
    refine shares_putBatchLru at' inside ?_ ?_ fun t there => ?_
    · subst whole
      have same : items = Ledger.ofShard response.receivers s := own
      rw [same]
      exact caches_cacheBatch_receivers s
    · intro entry member
      apply batch
      have key := List.mem_map_of_mem (f := Prod.fst) member
      rw [written] at key
      obtain ⟨i, small, same⟩ := List.mem_map.mp key
      rw [← same]
      refine List.mem_append_left _ (List.mem_flatMap.mpr ⟨s, List.mem_finRange s, ?_⟩)
      exact List.mem_map.mpr ⟨i, own ▸ small, rfl⟩
    · refine ih there later fun u warm => h u (warm.fewer fun key member => ?_)
      rw [written]
      simp only [groupKeys, List.flatMap_cons, List.append_assoc, List.mem_append] at member ⊢
      tauto

theorem shares_leave {more : Bool} {next : Checkpoint} :
    Shares serves others (fun _ t => Refreshing M used keys t) (if !more then do
        perform .storeInitSyncingFinished
        return none
      else return some next) w := by
  cases more with
  | false =>
    intro t step r u performed
    have here := at'.shared inside step
    cases performed with
    | handled _ _ outside answers =>
      refine ⟨trivial, fun v step => Refreshing.shared ?_ inside step⟩
      exact ⟨⟨here.mirrors.represents, here.mirrors.coherent⟩, here.warm⟩
  | true => exact fun t step => at'.shared inside step

end Rules

section Iteration

variable {serves : Serves} {L : Ledger} {first : UInt64}
  {shards : List (ShardIndex × List Receiver)} {response : PullResponse}
  {others : List Cache.LruKeyType} {w : World}

theorem afterCommit_refreshes (batched : Batched L first shards response w) {config : SyncConfig}
    (refreshes : config.refreshCache = true) :
    Shares serves others (fun _ t => Refreshing (L.append response) (batchKeys L response ++ others)
      (batchKeys L response) t) (afterCommit config L.checkpoint first shards response) w := by
  have inside : ∀ key ∈ others, key ∈ batchKeys L response ++ others :=
    fun key => List.mem_append_right _
  have own : ∀ key ∈ batchKeys L response, key ∈ batchKeys L response ++ others :=
    fun key => List.mem_append_left _
  have written := keys_cacheBatch Cache.senderKey L.senders.length response.senders
  obtain rfl := batched.first
  unfold afterCommit putBatchSender
  rw [if_pos refreshes]
  refine shares_refreshReceivers ⟨batched.mirrors, Lru.warm_nil⟩ inside rfl own batched.groups
    fun t here => ?_
  refine shares_putBatchLru here inside caches_cacheBatch_senders (fun entry member => ?_)
    fun u there => ?_
  · have key := List.mem_map_of_mem (f := Prod.fst) member
    rw [written] at key
    exact own _ (List.mem_append_right _ key)
  · apply (shares_leave there inside).mono
    refine fun _ v last => last.fewer fun key member => ?_
    rw [written]
    rcases List.mem_append.mp member with receiver | sender
    · obtain ⟨s, -, member⟩ := List.mem_flatMap.mp receiver
      obtain ⟨i, small, rfl⟩ := List.mem_map.mp member
      have some : Ledger.ofShard response.receivers s ≠ [] := by
        rintro nothing
        rw [nothing] at small
        simp at small
      obtain ⟨group, stored, rfl⟩ := List.mem_map.mp (batched.all s some)
      refine List.mem_append_right _ (List.mem_append_left _ (List.mem_flatMap.mpr ⟨group, stored, ?_⟩))
      rw [batched.groups group stored]
      exact List.mem_map.mpr ⟨i, small, rfl⟩
    · exact List.mem_append_left _ sender

theorem syncIteration_refreshes {C : Contract serves} {node : Ledger} {transaction : Option Database}
    (at' : Syncing C L node transaction w) {config : SyncConfig}
    (refreshes : config.refreshCache = true) :
    Shares serves others (fun out t => ∀ next, out = .ok next → ∃ response,
      (∀ receiver ∈ response.receivers, ∃ s, treeIndex receiver.1 = some s) ∧
        Refreshing (L.append response) (batchKeys L response ++ others) (batchKeys L response) t)
      (syncIteration config L.checkpoint) w := by
  have commits : Shares serves others _ _ w := (commitBatch_batched at' config).weaken
    (fun _ _ _ _ => id) (fun _ _ => Sharing.toQuiet) fun _ _ _ _ => trivial
  rw [syncIteration_eq]
  apply Ensures.bind (Sharing.refl others)
  apply commits.mono
  intro out t batch
  cases out with
  | error error => exact fun _ _ _ same => by cases same
  | ok values =>
    apply (afterCommit_refreshes (batch values rfl) refreshes).mono
    exact fun _ u last next _ => ⟨values.2.2, (batch values rfl).converted, last⟩

end Iteration

end Refreshed

/-- When an iteration of the synchronization has returned, every row of its batch is in the cache, with
the bytes of the row, if the batch and what other tasks used beside it fit. -/
theorem committed_batch_cached [Pallet] {serves : Serves} {s : System}
    (reachable : s.Reachable serves) {config : SyncConfig} {current : Checkpoint}
    (head : s.sync = .head config current) (refreshes : config.refreshCache = true)
    {others : List Cache.LruKeyType} {history : List (Event World Op)} {next : Option Checkpoint}
    {t : World} (run : Exec (Performs serves) (Sharing others) (syncIteration config current) s.world
      history (.ok next) t) {L M : Ledger} (before : Represents s.world.db L)
    (after : Represents t.db M) (room : M.size - L.size + others.length ≤ t.lru.capacity) :
    L ≤ M ∧
      (∀ shard i receiver, L.count shard ≤ i → (M.receivers shard)[i]? = some receiver →
        t.lru.lookup (Cache.receiverKey (Cache.shardWord shard) (UInt64.ofNat i)) =
          some (encode receiver)) ∧
      ∀ i sender, L.senders.length ≤ i → M.senders[i]? = some sender →
        t.lru.lookup (Cache.senderKey (UInt64.ofNat i)) = some (encode sender) := by
  have invariant := Invariant.reachable (C := shardedContract serves) reachable
  obtain ⟨L', mirrors, keeps, knows⟩ := invariant.ledger
  obtain rfl := before.unique mirrors.represents
  rw [head] at knows
  cases knows
  have here : Syncing (shardedContract serves) L s.world.served s.world.transaction s.world :=
    ⟨mirrors, keeps, rfl, invariant.behind, rfl⟩
  obtain ⟨response, converted, last⟩ := (syncIteration_refreshes here refreshes).exec
    (Sharing.refl others) Sharing.trans (fun _ _ => id) run next rfl
  obtain rfl := after.unique last.mirrors.represents
  have below := after.below.weaken (by decide : _ ≤ 2 ^ 48)
  have warm := last.warm ?_
  · refine ⟨L.le_extend _ _, fun shard i receiver new stored => ?_, fun i sender new stored => ?_⟩
    · have inside : i < (L.append response).count shard := (List.getElem?_eq_some_iff.mp stored).1
      have small := below.1 shard
      obtain ⟨bytes, hit⟩ := warm.lookup (mem_batchKeys_receiver new inside)
      obtain ⟨other, same, rfl⟩ := last.mirrors.coherent.agrees_receivers below shard i (by omega)
        bytes hit
      rw [hit, Option.some.inj (same.symm.trans stored)]
    · have inside := (List.getElem?_eq_some_iff.mp stored).1
      have small := below.2
      obtain ⟨bytes, hit⟩ := warm.lookup (mem_batchKeys_sender new inside)
      obtain ⟨other, same, rfl⟩ := last.mirrors.coherent.agrees_senders below i (by omega) bytes hit
      rw [hit, Option.some.inj (same.symm.trans stored)]
  · have receivers := Ledger.receiverCount_append (L := L) converted
    have senders : (L.append response).senders.length = L.senders.length + response.senders.length :=
      List.length_append
    rw [List.length_append, length_batchKeys L converted]
    rw [Ledger.size, Ledger.size] at room
    omega

section Sample

attribute [local instance] samplePallet

set_option maxRecDepth 20000 in
/-- The first batch has two rows, and the cache has room for four. -/
theorem committed_batch_cached_first : ∃ history next,
    Exec (Performs anyNode) (Sharing [Cache.senderKey 0])
        (syncIteration sampleConfig Checkpoint.default) sampleHead.world history (.ok next)
        sampleSynced.world ∧
      sampleSynced.world.lru.lookup (Cache.receiverKey (Cache.shardWord 0) (UInt64.ofNat 0)) =
        some (encode (sampleReceiver 0 7)) ∧
      sampleSynced.world.lru.lookup (Cache.senderKey (UInt64.ofNat 0)) =
        some (encode (sampleSender 9)) := by
  have last : ((syncIteration sampleConfig Checkpoint.default).run (World.handle sampleOutside)
      sampleHead.world).1 = .ok none := by decide +kernel
  have ran : ∃ history, Exec (Performs anyNode) (Sharing [Cache.senderKey 0])
      (syncIteration sampleConfig Checkpoint.default) sampleHead.world history _ _ :=
    Prog.run_exec (fun w op => .handled w op sampleOutside fun _ _ _ _ _ => trivial) _ _
  rw [last] at ran
  obtain ⟨history, run⟩ := ran
  have room : sampleNode.size - Ledger.empty.size + [Cache.senderKey 0].length ≤
      sampleSynced.world.lru.capacity := by decide +kernel
  have cached := committed_batch_cached (sampleHead_reachable fun _ _ => trivial) rfl rfl run
    represents_migrated sampleSynced_mirrors.represents room
  exact ⟨history, none, run, cached.2.1 0 0 _ (Nat.le_refl 0) rfl, cached.2.2 0 _ (Nat.le_refl 0) rfl⟩

end Sample

end MantaIndexer
