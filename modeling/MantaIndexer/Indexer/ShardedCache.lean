import MantaIndexer.Collections.Grouping
import MantaIndexer.Collections.History
import MantaIndexer.Indexer.Cache

/-!
The sharded ledger cache (`ShardThreadSafeLru` in `cache.rs`): one cache for each remainder of the
key. A batch is regrouped by shard through a `HashMap`, and what is read is put back at the position
its key came from.
-/

namespace MantaIndexer.Cache
open Collections Encoding

structure ShardThreadSafeLru (shardNum : Nat) where
  maps : Vector (Lru LruKeyType Bytes) shardNum

namespace ShardThreadSafeLru

variable {shardNum : Nat}

/-- Empty maps of these capacities. -/
def fresh (capacities : Vector Nat shardNum) : ShardThreadSafeLru shardNum :=
  ⟨capacities.map Lru.empty⟩

/-- One pass of the loop that reads a shard: `result[key.0] = cache.get(&key.1).cloned()`. -/
def getInto (result : List (Option Bytes)) (cache : Lru LruKeyType Bytes) :
    List (Nat × LruKeyType) → List (Option Bytes) × Lru LruKeyType Bytes
  | [] => (result, cache)
  | (idx, key) :: keys =>
    let (value, touched) := cache.get key
    getInto (result.set idx value) touched keys

/-- The loop over the groups of a read, in the order given. -/
def getGroups (groups : List (Fin shardNum × List (Nat × LruKeyType))) :
    List (Fin shardNum) → List (Option Bytes) → ShardThreadSafeLru shardNum →
      List (Option Bytes) × ShardThreadSafeLru shardNum
  | [], result, self => (result, self)
  | shard :: shards, result, self =>
    let (result, cache) := getInto result self.maps[shard] (groupOf groups shard)
    getGroups groups shards result ⟨self.maps.set shard cache⟩

/-- The loop over the groups of a write, in the order given. -/
def putGroups (groups : List (Fin shardNum × List (LruKeyType × Bytes))) :
    List (Fin shardNum) → ShardThreadSafeLru shardNum → ShardThreadSafeLru shardNum
  | [], self => self
  | shard :: shards, self =>
    putGroups groups shards ⟨self.maps.set shard (self.maps[shard].putBatch (groupOf groups shard))⟩

section Model
variable [NeZero shardNum]

/-- `key as usize % self.shard_num`. -/
def shardId (key : LruKeyType) : Fin shardNum := Fin.ofNat shardNum key.toNat

/-- `shard_keys`: the keys with their positions, by shard. -/
def shardKeys (keys : List LruKeyType) : List (Fin shardNum × List (Nat × LruKeyType)) :=
  groupBy (fun key => shardId key.2) (keys.zipIdx.map fun key => (key.2, key.1))

def batchGet (self : ShardThreadSafeLru shardNum) (order : HashOrder (Fin shardNum))
    (keys : List LruKeyType) : List (Option Bytes) × ShardThreadSafeLru shardNum :=
  getGroups (shardKeys keys) (order.order ((shardKeys keys).map Prod.fst))
    (List.replicate keys.length none) self

/-- `shard_vs`: the pairs by shard. -/
def shardVs (v : List (LruKeyType × Bytes)) : List (Fin shardNum × List (LruKeyType × Bytes)) :=
  groupBy (fun entry => shardId entry.1) v

def batchPut (self : ShardThreadSafeLru shardNum) (order : HashOrder (Fin shardNum))
    (v : List (LruKeyType × Bytes)) : ShardThreadSafeLru shardNum :=
  putGroups (shardVs v) (order.order ((shardVs v).map Prod.fst)) self

end Model

/-! ### What a batch does -/

theorem putGroups_maps {groups : List (Fin shardNum × List (LruKeyType × Bytes))}
    {shards : List (Fin shardNum)} (nodup : shards.Nodup) (self : ShardThreadSafeLru shardNum)
    (j : Fin shardNum) :
    (putGroups groups shards self).maps[j] =
      if j ∈ shards then self.maps[j].putBatch (groupOf groups j) else self.maps[j] := by
  induction shards generalizing self with
  | nil => simp [putGroups]
  | cons shard shards ih =>
    obtain ⟨fresh, nodup⟩ := List.nodup_cons.mp nodup
    rw [putGroups, ih nodup]
    by_cases same : shard = j
    · subst same
      simp [fresh]
    · have kept : shard.val ≠ j.val := fun equal => same (Fin.ext equal)
      simp [Ne.symm same, kept]

theorem getInto_snd (result : List (Option Bytes)) (cache : Lru LruKeyType Bytes)
    (items : List (Nat × LruKeyType)) :
    (getInto result cache items).2 = (cache.getBatch (items.map Prod.snd)).2 := by
  induction items generalizing result cache with
  | nil => rfl
  | cons item items ih => exact ih _ _

theorem length_getInto (result : List (Option Bytes)) (cache : Lru LruKeyType Bytes)
    (items : List (Nat × LruKeyType)) :
    (getInto result cache items).1.length = result.length := by
  induction items generalizing result cache with
  | nil => rfl
  | cons item items ih => rw [getInto, ih, List.length_set]

/-- A position is filled from the key it stands for, however often it is written. -/
theorem getInto_filled {keys : List LruKeyType} {items : List (Nat × LruKeyType)}
    (placed : ∀ item ∈ items, keys[item.1]? = some item.2) {result : List (Option Bytes)}
    (sized : result.length = keys.length) (cache : Lru LruKeyType Bytes) {i : Nat}
    {key : LruKeyType} (here : keys[i]? = some key) :
    (getInto result cache items).1[i]? =
      if (i, key) ∈ items then some (cache.lookup key) else result[i]? := by
  induction items generalizing result cache with
  | nil => simp [getInto]
  | cons item items ih =>
    obtain ⟨idx, k⟩ := item
    have first : keys[idx]? = some k := placed _ List.mem_cons_self
    have sized' : (result.set idx (cache.lookup k)).length = keys.length := by simpa using sized
    have rest := ih (fun item member => placed item (List.mem_cons_of_mem _ member)) sized'
      (cache.touch k)
    rw [getInto, Lru.get, rest, Lru.lookup_touch]
    by_cases same : idx = i
    · subst same
      obtain rfl : k = key := Option.some.inj (first.symm.trans here)
      have bound : idx < result.length := sized ▸ (List.getElem?_eq_some_iff.mp here).1
      simp [bound]
    · have other : (i, key) ≠ (idx, k) := fun equal => same (congrArg Prod.fst equal).symm
      simp [other, same]

theorem getGroups_maps {groups : List (Fin shardNum × List (Nat × LruKeyType))}
    {shards : List (Fin shardNum)} (nodup : shards.Nodup) (result : List (Option Bytes))
    (self : ShardThreadSafeLru shardNum) (j : Fin shardNum) :
    (getGroups groups shards result self).2.maps[j] =
      if j ∈ shards then (self.maps[j].getBatch ((groupOf groups j).map Prod.snd)).2
      else self.maps[j] := by
  induction shards generalizing result self with
  | nil => simp [getGroups]
  | cons shard shards ih =>
    obtain ⟨fresh, nodup⟩ := List.nodup_cons.mp nodup
    rw [getGroups, ih nodup]
    by_cases same : shard = j
    · subst same
      simp [fresh, getInto_snd]
    · have kept : shard.val ≠ j.val := fun equal => same (Fin.ext equal)
      simp [Ne.symm same, kept]

theorem length_getGroups (groups : List (Fin shardNum × List (Nat × LruKeyType)))
    (shards : List (Fin shardNum)) (result : List (Option Bytes))
    (self : ShardThreadSafeLru shardNum) :
    (getGroups groups shards result self).1.length = result.length := by
  induction shards generalizing result self with
  | nil => rfl
  | cons shard shards ih => rw [getGroups, ih, length_getInto]

variable [NeZero shardNum]

theorem getGroups_filled {keys : List LruKeyType}
    {groups : List (Fin shardNum × List (Nat × LruKeyType))}
    (placed : ∀ shard item, item ∈ groupOf groups shard ↔
      keys[item.1]? = some item.2 ∧ shardId item.2 = shard)
    {shards : List (Fin shardNum)} (nodup : shards.Nodup) {result : List (Option Bytes)}
    (sized : result.length = keys.length) (self : ShardThreadSafeLru shardNum) {i : Nat}
    {key : LruKeyType} (here : keys[i]? = some key) :
    (getGroups groups shards result self).1[i]? =
      if shardId key ∈ shards then some (self.maps[shardId key].lookup key) else result[i]? := by
  induction shards generalizing result self with
  | nil => simp [getGroups]
  | cons shard shards ih =>
    obtain ⟨fresh, nodup⟩ := List.nodup_cons.mp nodup
    have filled := getInto_filled (fun item member => ((placed shard item).mp member).1) sized
      self.maps[shard] here
    have mine : (i, key) ∈ groupOf groups shard ↔ shardId key = shard := by
      rw [placed]
      exact and_iff_right here
    rw [getGroups, ih nodup (by rw [length_getInto, sized]), filled]
    by_cases same : shardId key = shard
    · subst same
      simp [fresh, mine]
    · -- the map of another shard is still the one the batch found
      have kept : shard.val ≠ (shardId key : Fin shardNum).val :=
        fun equal => same (Fin.ext equal).symm
      simp [same, mine, kept]

theorem mem_shardKeys {keys : List LruKeyType} {shard : Fin shardNum} {item : Nat × LruKeyType} :
    item ∈ groupOf (shardKeys keys) shard ↔
      keys[item.1]? = some item.2 ∧ shardId item.2 = shard := by
  have position : item ∈ keys.zipIdx.map (fun key => (key.2, key.1)) ↔
      (item.2, item.1) ∈ keys.zipIdx := by
    rw [List.mem_map]
    constructor
    · rintro ⟨key, member, rfl⟩
      exact member
    · exact fun member => ⟨(item.2, item.1), member, rfl⟩
  rw [shardKeys, groupOf_groupBy, List.mem_filter, position, List.mem_zipIdx_iff_getElem?,
    decide_eq_true_eq]

/-- Every position gets what the map of its key's shard holds, whatever the order of the groups. -/
theorem batchGet_fst (self : ShardThreadSafeLru shardNum) (order : HashOrder (Fin shardNum))
    (keys : List LruKeyType) :
    (self.batchGet order keys).1 = keys.map fun key => self.maps[shardId key].lookup key := by
  have perm := order.perm ((shardKeys keys).map Prod.fst)
  have nodup := perm.nodup_iff.mpr (keys_groupBy_nodup _ _)
  apply List.ext_getElem?
  intro i
  rcases here : keys[i]? with _ | key
  · have outside : keys.length ≤ i := List.getElem?_eq_none_iff.mp here
    rw [List.getElem?_eq_none, List.getElem?_eq_none]
    · rwa [List.length_map]
    · rwa [batchGet, length_getGroups, List.length_replicate]
  · have grouped : (i, key) ∈ groupOf (shardKeys keys) (shardId key : Fin shardNum) :=
      mem_shardKeys.mpr ⟨here, rfl⟩
    have met := perm.mem_iff.mpr (mem_keys_groupBy (List.ne_nil_of_mem grouped))
    rw [batchGet, getGroups_filled (fun _ _ => mem_shardKeys) nodup List.length_replicate self here,
      if_pos met, List.getElem?_map, here, Option.map_some]

theorem batchGet_maps (self : ShardThreadSafeLru shardNum) (order : HashOrder (Fin shardNum))
    (keys : List LruKeyType) (j : Fin shardNum) :
    ∃ read, (self.batchGet order keys).2.maps[j] = (self.maps[j].getBatch read).2 := by
  have nodup := (order.perm ((shardKeys keys).map Prod.fst)).nodup_iff.mpr (keys_groupBy_nodup _ _)
  rw [batchGet, getGroups_maps nodup]
  split
  · exact ⟨_, rfl⟩
  · exact ⟨[], rfl⟩

/-- A shard stores its part of a batch, in the order of the batch. -/
theorem batchPut_maps (self : ShardThreadSafeLru shardNum) (order : HashOrder (Fin shardNum))
    (v : List (LruKeyType × Bytes)) (j : Fin shardNum) :
    (self.batchPut order v).maps[j] =
      self.maps[j].putBatch (v.filter fun entry => shardId entry.1 = j) := by
  have perm := order.perm ((shardVs v).map Prod.fst)
  rw [batchPut, putGroups_maps (perm.nodup_iff.mpr (keys_groupBy_nodup _ _)), ← groupOf_groupBy]
  split
  · rfl
  · rename_i absent
    have nothing : groupOf (shardVs v) j = [] :=
      groupOf_eq_nil fun member => absent (perm.mem_iff.mpr member)
    rw [← shardVs, nothing, Lru.putBatch]

/-! ### Whole histories -/

inductive Call (shardNum : Nat) where
  | batchGet (order : HashOrder (Fin shardNum)) (keys : List LruKeyType)
  | batchPut (order : HashOrder (Fin shardNum)) (v : List (LruKeyType × Bytes))

/-- The pairs a call stores. -/
def Call.puts : Call shardNum → List (LruKeyType × Bytes)
  | .batchGet _ _ => []
  | .batchPut _ v => v

def run (self : ShardThreadSafeLru shardNum) : List (Call shardNum) → ShardThreadSafeLru shardNum
  | [] => self
  | .batchGet order keys :: calls => (self.batchGet order keys).2.run calls
  | .batchPut order v :: calls => (self.batchPut order v).run calls

/-- The pairs stored that belong to a shard. -/
def ofShard (puts : List (LruKeyType × Bytes)) (j : Fin shardNum) : List (LruKeyType × Bytes) :=
  puts.filter fun put => shardId put.1 = j

/-- Every map remembers the part of the pairs stored that belongs to its shard. -/
def Records (puts : List (LruKeyType × Bytes)) (self : ShardThreadSafeLru shardNum) : Prop :=
  ∀ j : Fin shardNum, self.maps[j].Records (ofShard puts j)

theorem records_fresh (capacities : Vector Nat shardNum) : (fresh capacities).Records [] := by
  intro j
  simpa [fresh, ofShard] using Lru.records_empty capacities[j]

theorem Records.run {self : ShardThreadSafeLru shardNum} {puts : List (LruKeyType × Bytes)}
    (records : self.Records puts) (calls : List (Call shardNum)) :
    (self.run calls).Records (puts ++ calls.flatMap Call.puts) := by
  induction calls generalizing self puts with
  | nil => simpa [ShardThreadSafeLru.run] using records
  | cons call calls ih =>
    rw [List.flatMap_cons, ← List.append_assoc]
    cases call with
    | batchGet order keys =>
      apply ih
      intro j
      obtain ⟨read, same⟩ := self.batchGet_maps order keys j
      rw [same, Call.puts, List.append_nil]
      exact (records j).getBatch read
    | batchPut order v =>
      apply ih
      intro j
      rw [batchPut_maps, Call.puts, ofShard, List.filter_append]
      exact (records j).putBatch _

/-- Storing into a map and reading it leave its capacity. -/
theorem run_capacity (self : ShardThreadSafeLru shardNum) (calls : List (Call shardNum))
    (j : Fin shardNum) : (self.run calls).maps[j].capacity = self.maps[j].capacity := by
  induction calls generalizing self with
  | nil => rfl
  | cons call calls ih =>
    cases call with
    | batchGet order keys =>
      obtain ⟨read, same⟩ := self.batchGet_maps order keys j
      rw [ShardThreadSafeLru.run, ih, same, Lru.getBatch_capacity]
    | batchPut order v => rw [ShardThreadSafeLru.run, ih, batchPut_maps, Lru.putBatch_capacity]

theorem Records.lookup_latest {self : ShardThreadSafeLru shardNum}
    {puts : List (LruKeyType × Bytes)} (records : self.Records puts) {key : LruKeyType}
    {value : Bytes} (found : self.maps[shardId key].lookup key = some value) :
    lastPut puts key = some value := by
  have last := (records (shardId key)).lookup_latest found
  rwa [ofShard, lastPut_filter (fun k => shardId k = shardId key) (by simp)] at last

theorem Records.lookup_eq {self : ShardThreadSafeLru shardNum}
    {puts : List (LruKeyType × Bytes)} (records : self.Records puts)
    (room : ∀ j : Fin shardNum, distinctKeys (ofShard puts j) ≤ self.maps[j].capacity)
    (key : LruKeyType) : self.maps[shardId key].lookup key = lastPut puts key := by
  rw [(records (shardId key)).lookup_eq (room _), ofShard,
    lastPut_filter (fun k => shardId k = shardId key) (by simp)]

end ShardThreadSafeLru

/-! ### The plain cache -/

inductive PlainCall where
  | getBatchLru (keys : List LruKeyType)
  | putBatchLru (v : List (LruKeyType × Bytes))

def PlainCall.puts : PlainCall → List (LruKeyType × Bytes)
  | .getBatchLru _ => []
  | .putBatchLru v => v

def plainRun (cache : Lru LruKeyType Bytes) : List PlainCall → Lru LruKeyType Bytes
  | [] => cache
  | .getBatchLru keys :: calls => plainRun (cache.getBatch keys).2 calls
  | .putBatchLru v :: calls => plainRun (cache.putBatch v) calls

theorem plainRun_records {cache : Lru LruKeyType Bytes} {puts : List (LruKeyType × Bytes)}
    (records : cache.Records puts) (calls : List PlainCall) :
    (plainRun cache calls).Records (puts ++ calls.flatMap PlainCall.puts) := by
  induction calls generalizing cache puts with
  | nil => simpa [plainRun] using records
  | cons call calls ih =>
    rw [List.flatMap_cons, ← List.append_assoc]
    cases call with
    | getBatchLru keys =>
      rw [PlainCall.puts, List.append_nil]
      exact ih (records.getBatch keys)
    | putBatchLru v => exact ih (records.putBatch v)

theorem plainRun_capacity (cache : Lru LruKeyType Bytes) (calls : List PlainCall) :
    (plainRun cache calls).capacity = cache.capacity := by
  induction calls generalizing cache with
  | nil => rfl
  | cons call calls ih =>
    cases call with
    | getBatchLru keys => rw [plainRun, ih, Lru.getBatch_capacity]
    | putBatchLru v => rw [plainRun, ih, Lru.putBatch_capacity]

open ShardThreadSafeLru in
/-- After any calls on a fresh sharded cache a read returns, at every position, nothing or the value
stored last under its key; and what a plain cache returns after storing the same pairs, as long as
neither received more keys than it has room for. -/
theorem sharded_cache_drop_in {shardNum : Nat} [NeZero shardNum] (capacities : Vector Nat shardNum)
    (calls : List (Call shardNum)) (order : HashOrder (Fin shardNum)) (keys : List LruKeyType) :
    let stored := calls.flatMap Call.puts
    let values := (((fresh capacities).run calls).batchGet order keys).1
    values.length = keys.length ∧
    (∀ (i : Nat) (key : LruKeyType), keys[i]? = some key →
      values[i]? = some none ∨
        ∃ value, values[i]? = some (some value) ∧ lastPut stored key = some value) ∧
    ∀ (capacity : Nat) (plainCalls : List PlainCall),
      plainCalls.flatMap PlainCall.puts = stored →
      (∀ j : Fin shardNum, distinctKeys (ofShard stored j) ≤ capacities[j]) →
      distinctKeys stored ≤ capacity →
      values = ((plainRun (Lru.empty capacity) plainCalls).getBatch keys).1 := by
  intro stored values
  have records : ((fresh capacities).run calls).Records stored := (records_fresh capacities).run calls
  have read : values = _ := batchGet_fst _ order keys
  refine ⟨by rw [read, List.length_map], ?_, ?_⟩
  · intro i key here
    rw [read, List.getElem?_map, here, Option.map_some]
    rcases found : ((fresh capacities).run calls).maps[(shardId key : Fin shardNum)].lookup key
      with _ | value
    · exact .inl rfl
    · exact .inr ⟨value, rfl, records.lookup_latest found⟩
  · intro capacity plainCalls same room enough
    have plain : (plainRun (Lru.empty capacity) plainCalls).Records stored := by
      have records := plainRun_records (Lru.records_empty capacity) plainCalls
      rwa [List.nil_append, same] at records
    rw [read, Lru.getBatch_fst]
    apply List.map_congr_left
    intro key _
    rw [plain.lookup_eq (by rwa [plainRun_capacity]), records.lookup_eq]
    intro j
    rw [run_capacity]
    simpa [fresh, Lru.empty] using room j

/-- `LEDGER_LRU2`. -/
def ledgerLru2 : ShardThreadSafeLru 32 := .fresh (Vector.replicate 32 (512 * 1024))

/-- A key stored twice in one batch, with another key of its shard between, on the maps of
`LEDGER_LRU2`. -/
theorem sharded_cache_drop_in_ledger :
    let batch := [(1, [10]), (33, [20]), (1, [30])]
    let backwards : HashOrder (Fin 32) := ⟨List.reverse, List.reverse_perm⟩
    ((ledgerLru2.run [.batchPut backwards batch]).batchGet backwards [33, 2, 1, 33]).1 =
      [some [20], none, some [30], some [20]] := by
  intro batch backwards
  obtain ⟨-, -, same⟩ := sharded_cache_drop_in (Vector.replicate 32 (512 * 1024))
    [.batchPut backwards batch] backwards [33, 2, 1, 33]
  rw [ledgerLru2, same (1024 * 1024 * 16) [.putBatchLru batch] rfl (by decide +kernel) (by decide +kernel)]
  decide +kernel

end MantaIndexer.Cache
