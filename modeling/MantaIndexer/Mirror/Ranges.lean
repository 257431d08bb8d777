import MantaIndexer.Mirror.Still
import MantaIndexer.Mirror.Filled

/-!
A pull that runs alone, range after range: what each range finds in the cache, what it returns, and
the cache it leaves to the next one. All of it is a function of the ledger that is mirrored, the cache,
the checkpoint and the two caps.
-/

namespace MantaIndexer
open Effects Encoding Collections

variable [P : Pallet]

/-! ### A range and the cache -/

/-- What the cache holds for the indices of a range. -/
def cellsOf (lru : Lru Cache.LruKeyType Bytes) (key : UInt64 → Cache.LruKeyType)
    (x amount : UInt64) : List (Option Bytes) :=
  ((span x (x + amount)).map key).map lru.lookup

/-- A range read in two passes: the cached items, then the stored ones that are not cached. -/
def inPasses {α : Type} (lru : Lru Cache.LruKeyType Bytes) (key : UInt64 → Cache.LruKeyType)
    (values : List α) (x amount : UInt64) : List α :=
  pick values (hits lru key x.toNat amount.toNat) ++ pick values (misses lru key x.toNat amount.toNat)

/-- The cache after the range was read and its rows were written back. -/
def afterRange {α : Type} [Codec α] (lru : Lru Cache.LruKeyType Bytes)
    (key : UInt64 → Cache.LruKeyType) (values : List α) (x amount : UInt64) :
    Lru Cache.LruKeyType Bytes :=
  (lru.getBatch ((span x (x + amount)).map key)).2.putBatch
    ((writeBack values (misses lru key x.toNat amount.toNat)).map fun item => (key item.1, item.2))

/-- What the ranges of the receivers find in the cache, one list for each range, and the cache after
them. A shard with no row past its index is passed over, and the range that fills the page is the
last. -/
def shardCells (L : Ledger) (indices : ShardIndex → UInt64) :
    List ShardIndex → UInt64 → Lru Cache.LruKeyType Bytes →
      List (List (Option Bytes)) × Lru Cache.LruKeyType Bytes
  | [], _, lru => ([], lru)
  | s :: shards, remain, lru =>
    let past := L.count s - (indices s).toNat
    let key := Cache.receiverKey (Cache.shardWord s)
    let after := afterRange lru key (L.receivers s) (indices s) remain
    if past = 0 then shardCells L indices shards remain lru
    else if remain.toNat ≤ past then ([cellsOf lru key (indices s) remain], after)
    else
      let rest := shardCells L indices shards (remain - UInt64.ofNat past) after
      (cellsOf lru key (indices s) remain :: rest.1, rest.2)

section Cells

variable {L : Ledger} {indices : ShardIndex → UInt64} {s : ShardIndex} (shards : List ShardIndex)
  {remain : UInt64} (lru : Lru Cache.LruKeyType Bytes)

theorem shardCells_skip (past : L.count s ≤ (indices s).toNat) :
    shardCells L indices (s :: shards) remain lru = shardCells L indices shards remain lru :=
  if_pos (Nat.sub_eq_zero_of_le past)

theorem shardCells_last (some : (indices s).toNat < L.count s)
    (full : remain.toNat ≤ L.count s - (indices s).toNat) :
    shardCells L indices (s :: shards) remain lru =
      ([cellsOf lru (Cache.receiverKey (Cache.shardWord s)) (indices s) remain],
        afterRange lru (Cache.receiverKey (Cache.shardWord s)) (L.receivers s) (indices s) remain) :=
  (if_neg (Nat.sub_ne_zero_of_lt some)).trans (if_pos full)

theorem shardCells_cons (some : (indices s).toNat < L.count s)
    (more : L.count s - (indices s).toNat < remain.toNat) :
    shardCells L indices (s :: shards) remain lru =
      let rest := shardCells L indices shards
        (remain - UInt64.ofNat (L.count s - (indices s).toNat))
        (afterRange lru (Cache.receiverKey (Cache.shardWord s)) (L.receivers s) (indices s) remain)
      (cellsOf lru (Cache.receiverKey (Cache.shardWord s)) (indices s) remain :: rest.1, rest.2) :=
  (if_neg (Nat.sub_ne_zero_of_lt some)).trans (if_neg (Nat.not_le_of_lt more))

/-- What is left of a page leaves no less room in the shards. -/
theorem room_unfilled (room : ∀ t, L.count t + remain.toNat ≤ 2 ^ 48) {past : Nat}
    (more : past < remain.toNat) : ∀ t, L.count t + (remain - UInt64.ofNat past).toNat ≤ 2 ^ 48 := by
  intro t
  have bound := room t
  rw [toNat_sub_ofNat more.le]
  omega

end Cells

/-- What the ranges of the receivers of a pull find in the cache. -/
def receiverCells (L : Ledger) (lru : Lru Cache.LruKeyType Bytes) (ck : Checkpoint)
    (maxReceivers : UInt64) : List (List (Option Bytes)) :=
  (shardCells L ck.receiverIndex allShards maxReceivers lru).1

/-- What the range of the senders finds in the cache that the receivers leave. -/
def senderCells (L : Ledger) (lru : Lru Cache.LruKeyType Bytes) (ck : Checkpoint)
    (maxReceivers maxSenders : UInt64) : List (Option Bytes) :=
  cellsOf (shardCells L ck.receiverIndex allShards maxReceivers lru).2 Cache.senderKey
    ck.senderIndex maxSenders

omit P in
theorem Agrees.length_inPasses {α : Type} [Codec α] {lru : Lru Cache.LruKeyType Bytes}
    {key : UInt64 → Cache.LruKeyType} {values : List α} (agrees : Agrees lru key values)
    {x amount : UInt64} (fits : x.toNat + amount.toNat ≤ 2 ^ 48) :
    (inPasses lru key values x amount).length = min amount.toNat (values.length - x.toNat) := by
  have perm : (inPasses lru key values x amount).Perm (page values x.toNat amount.toNat) :=
    agrees.page_perm List.prefix_rfl fits
  rw [perm.length_eq, length_page]

/-- A range with enough items fills the page. -/
theorem budget_filled {receivers chunk : List Receiver} {remain maxAmount : UInt64} {past : Nat}
    (budget : receivers.length + remain.toNat = maxAmount.toNat)
    (taken : chunk.length = min remain.toNat past) (full : remain.toNat ≤ past) :
    (receivers ++ chunk).length = maxAmount.toNat := by
  rw [List.length_append, taken, Nat.min_eq_left full, budget]

/-- The budget after a range that took all of `past` items and left room in the page. -/
theorem budget_unfilled {receivers chunk : List Receiver} {remain maxAmount : UInt64} {past : Nat}
    (budget : receivers.length + remain.toNat = maxAmount.toNat)
    (taken : chunk.length = min remain.toNat past) (more : past < remain.toNat) :
    (receivers ++ chunk).length ≠ maxAmount.toNat ∧
      maxAmount - UInt64.ofNat (receivers ++ chunk).length = remain - UInt64.ofNat past ∧
      (receivers ++ chunk).length + (remain - UInt64.ofNat past).toNat = maxAmount.toNat := by
  have grown : (receivers ++ chunk).length = receivers.length + past := by
    rw [List.length_append, taken, Nat.min_eq_right more.le]
  have less : (remain - UInt64.ofNat past).toNat = remain.toNat - past := toNat_sub_ofNat more.le
  refine ⟨by omega, UInt64.toNat_inj.mp ?_, by omega⟩
  rw [less, toNat_sub_ofNat (by omega)]
  omega

/-! ### Running alone -/

/-- A run with nothing in between: its value and the world after it. -/
structure Alone {α : Type} (outside : Outside) (p : Task α) (w : World) (value : α) (v : World) :
    Prop where
  ran : p.run (World.handle outside) w = (.ok value, v)
  quiet : Quiet w v

section Alone

variable {α β : Type} (outside : Outside) (w : World)

theorem Alone.ret (value : α) : Alone outside (.ret value : Task α) w value w :=
  ⟨rfl, .refl w⟩

variable {outside w} in
theorem Alone.bind {p : Task α} {f : α → Task β} {v u : World} {value : α} {last : β}
    (first : Alone outside p w value v) (rest : Alone outside (f value) v last u) :
    Alone outside (p >>= f) w last u := by
  refine ⟨?_, first.quiet.trans _ _ _ rest.quiet⟩
  rw [Prog.run_bind_ok first.ran, rest.ran]

theorem alone_hasShard (s : ShardIndex) (x : UInt64) :
    Alone outside (hasShard s x) w (w.db.shardAt s (asI64 x)).isSome w := by
  cases row : w.db.shardAt s (asI64 x) <;>
    refine ⟨?_, .refl w⟩ <;>
    simp [hasShard, found, World.handle, World.execute, World.fetchOne, row]

theorem alone_hasNullifier (x : UInt64) :
    Alone outside (hasNullifier x) w (w.db.nullifierAt (asI64 x)).isSome w := by
  cases row : w.db.nullifierAt (asI64 x) <;>
    refine ⟨?_, .refl w⟩ <;>
    simp [hasNullifier, found, World.handle, World.execute, World.fetchOne, row]

theorem alone_getBatchLru (keys : List Cache.LruKeyType) :
    Alone outside (perform (.getBatchLru keys)) w (keys.map w.lru.lookup)
      { w with lru := (w.lru.getBatch keys).2 } := by
  refine ⟨?_, quiet_getBatchLru w keys⟩
  rw [← Lru.getBatch_fst]
  rfl

theorem alone_flag (full : Prop) [Decidable full] (s : ShardIndex) (x : UInt64)
    (receivers : List Receiver) :
    Alone outside (if full then do return (← hasShard s x, receivers)
        else return (false, receivers) : Task (Bool × List Receiver)) w
      (decide full && (w.db.shardAt s (asI64 x)).isSome, receivers) w := by
  split
  · rename_i yes
    rw [decide_eq_true yes, Bool.true_and]
    exact (alone_hasShard outside w s x).bind (.ret outside w _)
  · rename_i no
    rw [decide_eq_false no, Bool.false_and]
    exact .ret outside w _

variable {w}

theorem alone_putBatchLru {L : Ledger} (mirrors : Mirrors L w)
    {batch : List (Cache.LruKeyType × Bytes)} (cached : ∀ entry ∈ batch, Caches L entry) :
    Alone outside (perform (.putBatchLru batch)) w () { w with lru := w.lru.putBatch batch } :=
  ⟨rfl, quiet_putBatchLru mirrors cached⟩

theorem alone_getBatchedShardsByIdxs {L : Ledger} (holds : Represents w.db L) (s : ShardIndex)
    {positions : List Nat} (sorted : positions.Pairwise (· < ·)) :
    Alone outside (getBatchedShardsByIdxs s (positions.map Int.ofNat)) w
      (positions.filterMap fun i => (L.receivers s)[i]?.map (shardRow s i)) w := by
  cases positions with
  | nil => exact .ret outside w _
  | cons i positions =>
    rw [← holds.shardsIn s sorted]
    exact ⟨rfl, .refl w⟩

theorem alone_getBatchedNullifierByIdxs {L : Ledger} (holds : Represents w.db L)
    {positions : List Nat} (sorted : positions.Pairwise (· < ·)) :
    Alone outside (getBatchedNullifierByIdxs (positions.map Int.ofNat)) w
      (positions.filterMap fun i => L.senders[i]?.map (nullifierRow i)) w := by
  cases positions with
  | nil => exact .ret outside w _
  | cons i positions =>
    rw [← nullifiersIn_rows holds.nullifiers sorted]
    exact ⟨rfl, .refl w⟩

end Alone

/-! ### One range -/

section Range

variable (outside : Outside) {w : World} {L : Ledger} (mirrors : Mirrors L w)

include mirrors

theorem hasShard_alone (s : ShardIndex) (x : UInt64) :
    Alone outside (hasShard s x) w (decide (x.toNat < L.count s)) w := by
  have counted := mirrors.represents.below.1 s
  have asked := alone_hasShard outside w s x
  rwa [mirrors.represents.shardAt_isSome s (by omega)] at asked

theorem pullReceiversForShard_alone (s : ShardIndex) {x amount : UInt64}
    (fits : x.toNat + amount.toNat ≤ 2 ^ 48) (before : List Receiver) :
    ∃ more, Alone outside (pullReceiversForShard s x amount before) w
      (more, before ++
        inPasses w.lru (Cache.receiverKey (Cache.shardWord s)) (L.receivers s) x amount)
      { w with
        lru := afterRange w.lru (Cache.receiverKey (Cache.shardWord s)) (L.receivers s) x amount } := by
  have agrees := mirrors.coherent.agrees_receivers mirrors.below s
  have cached := caches_writeBack_receivers (L := L) s
    (misses w.lru (Cache.receiverKey (Cache.shardWord s)) x.toNat amount.toNat)
  have later := (quiet_getBatchLru w
    ((span x (x + amount)).map (Cache.receiverKey (Cache.shardWord s)))).mirrors mirrors
  unfold pullReceiversForShard getBatchShardReceiver putBatchReceiver
  apply Exists.intro
  apply (alone_getBatchLru outside w _).bind
  rw [agrees.split fits, Prog.lift_ok, Prog.bind_ret]
  apply (alone_getBatchedShardsByIdxs outside later.represents s (misses_sorted _ _)).bind
  rw [decodeShards_pick, Prog.lift_ok, Prog.bind_ret]
  apply (alone_putBatchLru outside later cached).bind
  rw [List.append_assoc]
  exact alone_flag outside _ _ s (x + amount) _

theorem pullSenders_alone {x amount : UInt64} (fits : x.toNat + amount.toNat ≤ 2 ^ 48) :
    ∃ more, Alone outside (pullSenders x amount) w
      (more, x + amount, inPasses w.lru Cache.senderKey L.senders x amount)
      { w with lru := afterRange w.lru Cache.senderKey L.senders x amount } := by
  have agrees := mirrors.coherent.agrees_senders mirrors.below
  have cached := caches_writeBack_senders (L := L)
    (misses w.lru Cache.senderKey x.toNat amount.toNat)
  have later := (quiet_getBatchLru w ((span x (x + amount)).map Cache.senderKey)).mirrors mirrors
  unfold pullSenders getBatchSender putBatchSender
  apply Exists.intro
  apply (alone_getBatchLru outside w _).bind
  rw [agrees.split fits, Prog.lift_ok, Prog.bind_ret]
  apply (alone_getBatchedNullifierByIdxs outside later.represents (misses_sorted _ _)).bind
  rw [decodeNullifiers_pick, Prog.lift_ok, Prog.bind_ret]
  apply (alone_putBatchLru outside later cached).bind
  exact (alone_hasNullifier outside _ _).bind (.ret outside _ _)

end Range

end MantaIndexer
