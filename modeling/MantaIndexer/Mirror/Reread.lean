import MantaIndexer.Mirror.Warm

/-!
A page that is asked for again. Its rows stay in the cache while they and what other tasks use beside it
fit, so the second pull asks the tables for nothing that they have.
-/

namespace MantaIndexer
open Effects Encoding Collections

section Reread

/-! ### One range -/

section Range

variable {α : Type} [Codec α] {lru later : Lru Cache.LruKeyType Bytes}
  {key : UInt64 → Cache.LruKeyType} {values : List α} {used warm : List Cache.LruKeyType}

/-- The keys of the values that a list has in a range. -/
def rangeKeys (key : UInt64 → Cache.LruKeyType) (count first amount : Nat) :
    List Cache.LruKeyType :=
  (List.range' first (min amount (count - first))).map fun i => key (UInt64.ofNat i)

theorem mem_rangeKeys {count first amount i : Nat} (since : first ≤ i) (before : i < first + amount)
    (inside : i < count) : key (UInt64.ofNat i) ∈ rangeKeys key count first amount :=
  List.mem_map.mpr ⟨i, List.mem_range'_1.mpr ⟨since, by omega⟩, rfl⟩

theorem length_rangeKeys (key : UInt64 → Cache.LruKeyType) (count first amount : Nat) :
    (rangeKeys key count first amount).length = min amount (count - first) := by
  rw [rangeKeys, List.length_map, List.length_range']

variable {x amount : UInt64} (agrees : Agrees lru key values)
  (own : ∀ k ∈ rangeKeys key values.length x.toNat amount.toNat, k ∈ used)

include agrees own in
theorem warm_hits (kept : lru.Warm used warm) (fits : x.toNat + amount.toNat ≤ 2 ^ 48) :
    (lru.getBatch ((span x (x + amount)).map key)).2.Warm used
      ((hits lru key x.toNat amount.toNat).map (fun i => key (UInt64.ofNat i)) ++ warm) := by
  have asked : (span x (x + amount)).map key =
      (List.range' x.toNat amount.toNat).map fun i => key (UInt64.ofNat i) := by
    rw [span_add (by omega), List.map_map]
    rfl
  have present : ∀ k ∈ (List.range' x.toNat amount.toNat).map (fun i => key (UInt64.ofNat i)),
      (lru.lookup k).isSome = true → k ∈ used := by
    intro k member hit
    obtain ⟨i, range, rfl⟩ := List.mem_map.mp member
    have bounds := List.mem_range'_1.mp range
    obtain ⟨bytes, content⟩ := Option.isSome_iff_exists.mp hit
    obtain ⟨value, stored, -⟩ := agrees i (by omega) bytes content
    exact own _ (mem_rangeKeys bounds.1 bounds.2 (List.getElem?_eq_some_iff.mp stored).1)
  have read := kept.getBatch present
  rw [List.filter_map] at read
  rw [asked]
  exact read

/-- A value that is missed has its key in the range, and the key was not warm. -/
theorem cold_misses (kept : lru.Warm used warm) {first amount i count : Nat}
    (missed : i ∈ misses lru key first amount) (inside : i < count) :
    key (UInt64.ofNat i) ∈ rangeKeys key count first amount ∧ key (UInt64.ofNat i) ∉ warm := by
  obtain ⟨range, absent⟩ := List.mem_filter.mp missed
  have bounds := List.mem_range'_1.mp range
  refine ⟨mem_rangeKeys bounds.1 bounds.2 inside, fun member => ?_⟩
  obtain ⟨bytes, present⟩ := kept.lookup member
  simp [present] at absent

include own in
theorem warm_writeBack (kept : later.Warm used
      ((hits lru key x.toNat amount.toNat).map (fun i => key (UInt64.ofNat i)) ++ warm)) :
    (later.putBatch ((writeBack values (misses lru key x.toNat amount.toNat)).map
      fun item => (key item.1, item.2))).Warm used
      (rangeKeys key values.length x.toNat amount.toNat ++ warm) := by
  have back : ∀ entry ∈ (writeBack values (misses lru key x.toNat amount.toNat)).map
      (fun item => (key item.1, item.2)), entry.1 ∈ used := by
    intro entry member
    obtain ⟨item, row, rfl⟩ := List.mem_map.mp member
    obtain ⟨i, missed, mapped⟩ := List.mem_filterMap.mp row
    obtain ⟨value, stored, rfl⟩ := Option.map_eq_some_iff.mp mapped
    have bounds := List.mem_range'_1.mp (List.mem_filter.mp missed).1
    exact own _ (mem_rangeKeys bounds.1 bounds.2 (List.getElem?_eq_some_iff.mp stored).1)
  apply (kept.putBatch back).fewer
  intro k member
  simp only [List.mem_append] at member ⊢
  rcases member with inside | before
  · obtain ⟨i, range, rfl⟩ := List.mem_map.mp inside
    have bounds := List.mem_range'_1.mp range
    have asked : i ∈ List.range' x.toNat amount.toNat :=
      List.mem_range'_1.mpr ⟨bounds.1, by omega⟩
    have stored : values[i]? = some values[i] := List.getElem?_eq_getElem (by omega)
    cases present : (lru.lookup (key (UInt64.ofNat i))).isSome with
    | true =>
      exact .inr (.inl (List.mem_map.mpr ⟨i, List.mem_filter.mpr ⟨asked, present⟩, rfl⟩))
    | false =>
      have missed : i ∈ misses lru key x.toNat amount.toNat :=
        List.mem_filter.mpr ⟨asked, by rw [present]; rfl⟩
      have row : (UInt64.ofNat i, encode values[i]) ∈
          writeBack values (misses lru key x.toNat amount.toNat) :=
        List.mem_filterMap.mpr ⟨i, missed, by rw [stored, Option.map_some]⟩
      exact .inl (List.mem_map_of_mem (List.mem_map_of_mem row))
  · exact .inr (.inr before)

end Range

variable [P : Pallet]

/-! ### What a pull asks for -/

/-- A row that is there is only asked for when its key is among `keys`, and not among `warm`. -/
def Asked (L : Ledger) (keys warm : List Cache.LruKeyType) : Op → Prop
  | .sql (.shardsIn s indices) => ∀ i ∈ indices, ∃ n : Nat, i = n ∧ (n < L.count s →
      Cache.receiverKey (Cache.shardWord s) (UInt64.ofNat n) ∈ keys ∧
        Cache.receiverKey (Cache.shardWord s) (UInt64.ofNat n) ∉ warm)
  | .sql (.nullifiersIn indices) => ∀ i ∈ indices, ∃ n : Nat, i = n ∧ (n < L.senders.length →
      Cache.senderKey (UInt64.ofNat n) ∈ keys ∧ Cache.senderKey (UInt64.ofNat n) ∉ warm)
  | _ => True

/-- While pages are read: the ledger is mirrored, and the keys read so far are recent. -/
structure Warmed (L : Ledger) (used keys : List Cache.LruKeyType) (w : World) : Prop where
  mirrors : Mirrors L w
  warm : w.lru.Warm used keys

abbrev Rereads (others : List Cache.LruKeyType) (L : Ledger) (page warm : List Cache.LruKeyType)
    {α : Type} (post : Except Error α → World → Prop) (p : Task α) (w : World) : Prop :=
  Ensures Handles (Sharing others) (fun _ op _ => Asked L page warm op) post p w

section Rules

variable {α : Type} {post : Except Error α → World → Prop} {L : Ledger}
  {others used page warm keys : List Cache.LruKeyType} {w v : World}

theorem Warmed.shared (here : Warmed L used keys w) (inside : ∀ key ∈ others, key ∈ used)
    (step : Sharing others w v) : Warmed L used keys v :=
  ⟨step.toQuiet.mirrors here.mirrors, here.warm.uses inside step.lru⟩

theorem Warmed.fewer {fewer : List Cache.LruKeyType} (here : Warmed L used keys w)
    (inside : ∀ key ∈ fewer, key ∈ keys) : Warmed L used fewer w :=
  ⟨here.mirrors, here.warm.fewer inside⟩

variable (here : Warmed L used keys w) (inside : ∀ key ∈ others, key ∈ used)

include here inside

theorem rereads_sql {query : Query} {next : Except SqlxError query.Answer → Task α}
    (asked : Asked L page warm (.sql query))
    (h : ∀ t, Warmed L used keys t →
      Rereads others L page warm post (next (t.execute query).1) (t.execute query).2) :
    Rereads others L page warm post (.perform (.sql query) next) w := by
  intro t step r u performed
  cases performed
  exact ⟨asked, h t (here.shared inside step)⟩

theorem rereads_hasShard {s : ShardIndex} {x : UInt64} {f : Bool → Task α}
    (h : ∀ t, Warmed L used keys t →
      Rereads others L page warm post (f (t.db.shardAt s (asI64 x)).isSome) t) :
    Rereads others L page warm post (hasShard s x >>= f) w := by
  refine rereads_sql here inside trivial fun t kept => ?_
  have rest := h t kept
  simp only [World.execute]
  cases row : t.db.shardAt s (asI64 x) <;> rw [row] at rest <;> exact rest

theorem rereads_hasNullifier {x : UInt64} {f : Bool → Task α}
    (h : ∀ t, Warmed L used keys t →
      Rereads others L page warm post (f (t.db.nullifierAt (asI64 x)).isSome) t) :
    Rereads others L page warm post (hasNullifier x >>= f) w := by
  refine rereads_sql here inside trivial fun t kept => ?_
  have rest := h t kept
  simp only [World.execute]
  cases row : t.db.nullifierAt (asI64 x) <;> rw [row] at rest <;> exact rest

theorem rereads_getBatchLru {asked : List Cache.LruKeyType} {f : List (Option Bytes) → Task α}
    (h : ∀ t, Warmed L used keys t → Rereads others L page warm post (f (asked.map t.lru.lookup))
      { t with lru := (t.lru.getBatch asked).2 }) :
    Rereads others L page warm post ((perform (.getBatchLru asked) : Task _) >>= f) w := by
  intro t step r u performed
  cases performed
  have rest := h t (here.shared inside step)
  rw [← Lru.getBatch_fst] at rest
  exact ⟨trivial, rest⟩

theorem rereads_putBatchLru {batch : List (Cache.LruKeyType × Bytes)} {f : Unit → Task α}
    (h : ∀ t, Warmed L used keys t →
      Rereads others L page warm post (f ()) { t with lru := t.lru.putBatch batch }) :
    Rereads others L page warm post ((perform (.putBatchLru batch) : Task _) >>= f) w := by
  intro t step r u performed
  cases performed
  exact ⟨trivial, h t (here.shared inside step)⟩

theorem rereads_getBatchedShardsByIdxs {s : ShardIndex} {positions : List Nat}
    (sorted : positions.Pairwise (· < ·))
    (asked : ∀ n ∈ positions, n < L.count s →
      Cache.receiverKey (Cache.shardWord s) (UInt64.ofNat n) ∈ page ∧
        Cache.receiverKey (Cache.shardWord s) (UInt64.ofNat n) ∉ warm)
    {f : List Shard → Task α}
    (h : ∀ t, Warmed L used keys t → Rereads others L page warm post
      (f (positions.filterMap fun i => (L.receivers s)[i]?.map (shardRow s i))) t) :
    Rereads others L page warm post (getBatchedShardsByIdxs s (positions.map Int.ofNat) >>= f) w := by
  cases positions with
  | nil => exact h w here
  | cons i positions =>
    refine rereads_sql here inside (fun j member => ?_) fun t kept => ?_
    · obtain ⟨n, position, rfl⟩ := List.mem_map.mp member
      exact ⟨n, rfl, asked n position⟩
    · have rest := h t kept
      rw [← kept.mirrors.represents.shardsIn s sorted] at rest
      exact rest

theorem rereads_getBatchedNullifierByIdxs {positions : List Nat}
    (sorted : positions.Pairwise (· < ·))
    (asked : ∀ n ∈ positions, n < L.senders.length →
      Cache.senderKey (UInt64.ofNat n) ∈ page ∧ Cache.senderKey (UInt64.ofNat n) ∉ warm)
    {f : List Nullifier → Task α}
    (h : ∀ t, Warmed L used keys t → Rereads others L page warm post
      (f (positions.filterMap fun i => L.senders[i]?.map (nullifierRow i))) t) :
    Rereads others L page warm post (getBatchedNullifierByIdxs (positions.map Int.ofNat) >>= f) w := by
  cases positions with
  | nil => exact h w here
  | cons i positions =>
    refine rereads_sql here inside (fun j member => ?_) fun t kept => ?_
    · obtain ⟨n, position, rfl⟩ := List.mem_map.mp member
      exact ⟨n, rfl, asked n position⟩
    · have rest := h t kept
      rw [← nullifiersIn_rows kept.mirrors.represents.nullifiers sorted] at rest
      exact rest

theorem rereads_getTotal {f : TotalBytes → Task α}
    (h : ∀ t, Warmed L used keys t →
      Rereads others L page warm post (Prog.lift (totalOf t.db) >>= f) t) :
    Rereads others L page warm post (getTotalSendersReceivers >>= f) w := by
  refine rereads_sql here inside trivial fun t kept => ?_
  have rest := h t kept
  unfold totalOf at rest
  simp only [World.execute]
  cases stored : t.db.total with
  | none =>
    rw [stored] at rest
    exact rest
  | some total =>
    simp only [stored] at rest
    show Rereads others L page warm post ((if h : total.length = 16 then Prog.ret ⟨total, h⟩
      else Prog.fail (.indexer .wrongLittleEndianArray) : Task TotalBytes) >>= f) t
    by_cases size : total.length = 16
    · rw [dif_pos size] at rest ⊢
      exact rest
    · rw [dif_neg size] at rest ⊢
      exact rest

end Rules

/-! ### The ranges of a page -/

section Ranges

variable {L : Ledger} {others used page warm keys : List Cache.LruKeyType} {w : World}
  (here : Warmed L used keys w) (inside : ∀ key ∈ others, key ∈ used)
  (since : ∀ key ∈ warm, key ∈ keys) (paged : ∀ key ∈ page, key ∈ used)

include here inside since paged

theorem pullReceiversForShard_rereads {s : ShardIndex} {x amount : UInt64}
    (fits : x.toNat + amount.toNat ≤ 2 ^ 48) (own : ∀ key ∈ rangeKeys
      (Cache.receiverKey (Cache.shardWord s)) (L.count s) x.toNat amount.toNat, key ∈ page)
    (before : List Receiver) :
    Rereads others L page warm (fun out t =>
        Warmed L used (rangeKeys (Cache.receiverKey (Cache.shardWord s)) (L.count s) x.toNat
          amount.toNat ++ keys) t ∧
        ∃ more chunk, chunk.length = min amount.toNat (L.count s - x.toNat) ∧
          out = .ok (more, before ++ chunk))
      (pullReceiversForShard s x amount before) w := by
  unfold pullReceiversForShard getBatchShardReceiver putBatchReceiver
  refine rereads_getBatchLru here inside fun t kept => ?_
  have agrees := kept.mirrors.coherent.agrees_receivers kept.mirrors.below s
  have hits := warm_hits agrees (fun key member => paged key (own key member)) kept.warm fits
  rw [agrees.split fits, Prog.lift_ok, Prog.bind_ret]
  refine rereads_getBatchedShardsByIdxs ⟨(quiet_getBatchLru t _).mirrors kept.mirrors, hits⟩ inside
    (misses_sorted _ _) (fun n missed stored => ?_) fun u queried => ?_
  · obtain ⟨member, cold⟩ := cold_misses kept.warm missed stored
    exact ⟨own _ member, fun known => cold (since _ known)⟩
  have lengths := (agrees.page_perm List.prefix_rfl fits).length_eq
  rw [List.length_append, length_page] at lengths
  rw [decodeShards_pick, Prog.lift_ok, Prog.bind_ret]
  refine rereads_putBatchLru queried inside fun v read => ?_
  have back := quiet_putBatchLru read.mirrors (caches_writeBack_receivers (L := L) s
    (misses t.lru (Cache.receiverKey (Cache.shardWord s)) x.toNat amount.toNat))
  have written : Warmed L used _ _ := ⟨back.mirrors read.mirrors,
    warm_writeBack (fun key member => paged key (own key member)) read.warm⟩
  rw [List.append_assoc]
  split
  · refine rereads_hasShard written inside fun v' flagged => ?_
    exact fun v'' step => ⟨flagged.shared inside step, _, _, by rw [List.length_append, lengths]; rfl, rfl⟩
  · exact fun v' step => ⟨written.shared inside step, _, _, by rw [List.length_append, lengths]; rfl, rfl⟩

theorem pullSenders_rereads {x amount : UInt64} (fits : x.toNat + amount.toNat ≤ 2 ^ 48)
    (own : ∀ key ∈ rangeKeys Cache.senderKey L.senders.length x.toNat amount.toNat, key ∈ page) :
    Rereads others L page warm (fun _ t => Warmed L used
        (rangeKeys Cache.senderKey L.senders.length x.toNat amount.toNat ++ keys) t)
      (pullSenders x amount) w := by
  unfold pullSenders getBatchSender putBatchSender
  refine rereads_getBatchLru here inside fun t kept => ?_
  have agrees := kept.mirrors.coherent.agrees_senders kept.mirrors.below
  have hits := warm_hits agrees (fun key member => paged key (own key member)) kept.warm fits
  rw [agrees.split fits, Prog.lift_ok, Prog.bind_ret]
  refine rereads_getBatchedNullifierByIdxs ⟨(quiet_getBatchLru t _).mirrors kept.mirrors, hits⟩
    inside (misses_sorted _ _) (fun n missed stored => ?_) fun u queried => ?_
  · obtain ⟨member, cold⟩ := cold_misses kept.warm missed stored
    exact ⟨own _ member, fun known => cold (since _ known)⟩
  rw [decodeNullifiers_pick, Prog.lift_ok, Prog.bind_ret]
  refine rereads_putBatchLru queried inside fun v read => ?_
  have back := quiet_putBatchLru read.mirrors (caches_writeBack_senders (L := L)
    (misses t.lru Cache.senderKey x.toNat amount.toNat))
  have written : Warmed L used _ _ := ⟨back.mirrors read.mirrors,
    warm_writeBack (fun key member => paged key (own key member)) read.warm⟩
  refine rereads_hasNullifier written inside fun v' flagged => ?_
  exact fun v'' step => flagged.shared inside step

end Ranges

/-! ### All shards -/

section Shards

variable {L : Ledger} {indices : ShardIndex → UInt64}

/-- The keys of the receivers a budget covers, shard after shard. -/
def gatheredKeys (L : Ledger) (indices : ShardIndex → UInt64) (shards : List ShardIndex)
    (budget : Nat) : List Cache.LruKeyType :=
  shards.flatMap fun s => rangeKeys (Cache.receiverKey (Cache.shardWord s)) (L.count s)
    (indices s).toNat (taken (left (fun _ => L) indices) shards budget s)

theorem gatheredKeys_cons {s : ShardIndex} {shards : List ShardIndex} (fresh : s ∉ shards)
    (budget : Nat) : gatheredKeys L indices (s :: shards) budget =
      rangeKeys (Cache.receiverKey (Cache.shardWord s)) (L.count s) (indices s).toNat budget ++
        gatheredKeys L indices shards (budget - (L.count s - (indices s).toNat)) := by
  rw [gatheredKeys, List.flatMap_cons, taken, if_pos rfl]
  congr 1
  · rw [rangeKeys, rangeKeys, left, Nat.min_assoc, Nat.min_self]
  · apply List.flatMap_congr
    intro t member
    rw [taken, if_neg (ne_of_mem_of_not_mem member fresh)]
    rfl

theorem gatheredKeys_zero (shards : List ShardIndex) : gatheredKeys L indices shards 0 = [] := by
  rw [gatheredKeys, List.flatMap_eq_nil_iff]
  intro s _
  rw [taken_zero, rangeKeys, Nat.zero_min]
  rfl

theorem length_gatheredKeys (budget : Nat) :
    (gatheredKeys L indices allShards budget).length ≤ budget := by
  have lengths : ∀ s ∈ allShards, (rangeKeys (Cache.receiverKey (Cache.shardWord s)) (L.count s)
      (indices s).toNat (taken (left (fun _ => L) indices) allShards budget s)).length =
      taken (left (fun _ => L) indices) allShards budget s := by
    intro s _
    rw [length_rangeKeys]
    exact Nat.min_eq_left (taken_le _ _ _ _)
  rw [gatheredKeys, List.length_flatMap, List.map_congr_left lengths,
    sum_taken (List.nodup_finRange _)]
  exact Nat.min_le_left _ _

variable {others used page warm : List Cache.LruKeyType} (inside : ∀ key ∈ others, key ∈ used)
  (paged : ∀ key ∈ page, key ∈ used)

include inside paged

theorem pullShards_rereads {maxAmount : UInt64} (limit : maxAmount.toNat ≤ 4096)
    {shards : List ShardIndex} (nodup : shards.Nodup) {state : PullState}
    {keys : List Cache.LruKeyType} {w : World} (here : Warmed L used keys w)
    (since : ∀ key ∈ warm, key ∈ keys)
    (own : ∀ key ∈ gatheredKeys L indices shards state.remain.toNat, key ∈ page)
    (budget : state.receivers.length + state.remain.toNat = maxAmount.toNat) :
    Rereads others L page warm
      (fun _ t => Warmed L used (gatheredKeys L indices shards state.remain.toNat ++ keys) t)
      (pullShards indices maxAmount shards state) w := by
  induction shards generalizing state keys w with
  | nil => exact fun t step => here.shared inside step
  | cons s shards ih =>
    obtain ⟨fresh, nodup⟩ := List.nodup_cons.mp nodup
    rw [gatheredKeys_cons fresh] at own ⊢
    rw [List.forall_mem_append] at own
    unfold pullShards
    refine rereads_hasShard here inside fun t kept => ?_
    have fits := kept.mirrors.represents.room limit s
    rw [kept.mirrors.represents.shardAt_isSome s (by omega)]
    by_cases some : (indices s).toNat < L.count s
    · rw [decide_eq_true some]
      apply Ensures.bind (Sharing.refl others)
      apply (pullReceiversForShard_rereads kept inside since paged (by omega) own.1 state.receivers).mono
      rintro out u ⟨read, more, chunk, counted, rfl⟩
      have lengths : (state.receivers ++ chunk).length = state.receivers.length + chunk.length :=
        List.length_append
      simp only [thenEnsures]
      split
      · rename_i reached
        have spent : state.remain.toNat - (L.count s - (indices s).toNat) = 0 := by omega
        rw [spent, gatheredKeys_zero, List.append_nil]
        exact fun v step => read.shared inside step
      · rename_i unfilled
        have remain := toNat_sub_ofNat (a := maxAmount) (n := (state.receivers ++ chunk).length)
          (by omega)
        have rest : (maxAmount - UInt64.ofNat (state.receivers ++ chunk).length).toNat =
            state.remain.toNat - (L.count s - (indices s).toNat) := by omega
        have budget : (state.receivers ++ chunk).length +
            (maxAmount - UInt64.ofNat (state.receivers ++ chunk).length).toNat = maxAmount.toNat := by
          omega
        rw [← rest] at own ⊢
        apply (ih nodup read (fun key member => List.mem_append_right _ (since key member)) own.2
          budget).mono
        intro out v last
        apply last.fewer
        intro key member
        simp only [List.mem_append] at member ⊢
        tauto
    · have none : L.count s - (indices s).toNat = 0 := by omega
      rw [none, Nat.sub_zero] at own ⊢
      rw [decide_eq_false some, rangeKeys, none, Nat.min_zero]
      exact ih nodup kept since own.2 budget

end Shards

/-! ### The whole page -/

def pageKeys (L : Ledger) (ck : Checkpoint) (maxReceivers maxSenders : Nat) :
    List Cache.LruKeyType :=
  gatheredKeys L ck.receiverIndex allShards maxReceivers ++
    rangeKeys Cache.senderKey L.senders.length ck.senderIndex.toNat maxSenders

theorem length_pageKeys (L : Ledger) (ck : Checkpoint) (maxReceivers maxSenders : Nat) :
    (pageKeys L ck maxReceivers maxSenders).length ≤ maxReceivers + maxSenders := by
  have receivers : (gatheredKeys L ck.receiverIndex allShards maxReceivers).length ≤ maxReceivers :=
    length_gatheredKeys maxReceivers
  rw [pageKeys, List.length_append, length_rangeKeys]
  omega

theorem pullReceivers_rereads {L : Ledger} {indices : ShardIndex → UInt64} {maxAmount : UInt64}
    (limit : maxAmount.toNat ≤ 4096) {others used page warm keys : List Cache.LruKeyType}
    (inside : ∀ key ∈ others, key ∈ used) (paged : ∀ key ∈ page, key ∈ used)
    (own : ∀ key ∈ gatheredKeys L indices allShards maxAmount.toNat, key ∈ page) {w : World}
    (here : Warmed L used keys w) (since : ∀ key ∈ warm, key ∈ keys) :
    Rereads others L page warm
      (fun _ t => Warmed L used (gatheredKeys L indices allShards maxAmount.toNat ++ keys) t)
      (pullReceivers indices maxAmount) w := by
  have first : Rereads others L page warm _ (pullShards indices maxAmount allShards
      ⟨false, [], indices, maxAmount⟩) w :=
    pullShards_rereads inside paged limit (List.nodup_finRange _) here since own (Nat.zero_add _)
  apply Ensures.bind (Sharing.refl others)
  apply first.mono
  intro out t read
  cases out with
  | error error => exact fun u step => read.shared inside step
  | ok state => exact fun u step => read.shared inside step

theorem pullLedgerDiff_rereads {L : Ledger} {ck : Checkpoint} {maxReceivers maxSenders : UInt64}
    (limit : maxReceivers.toNat ≤ 4096) (fits : ck.senderIndex.toNat + maxSenders.toNat ≤ 2 ^ 48)
    {others used warm keys : List Cache.LruKeyType} (inside : ∀ key ∈ others, key ∈ used)
    (paged : ∀ key ∈ pageKeys L ck maxReceivers.toNat maxSenders.toNat, key ∈ used) {w : World}
    (here : Warmed L used keys w) (since : ∀ key ∈ warm, key ∈ keys) :
    Rereads others L (pageKeys L ck maxReceivers.toNat maxSenders.toNat) warm
      (fun out t => ∀ answer, out = .ok answer →
        Warmed L used (pageKeys L ck maxReceivers.toNat maxSenders.toNat) t)
      (pullLedgerDiff ck maxReceivers maxSenders) w := by
  have receivers : ∀ key ∈ gatheredKeys L ck.receiverIndex allShards maxReceivers.toNat,
      key ∈ pageKeys L ck maxReceivers.toNat maxSenders.toNat := fun key => List.mem_append_left _
  have senders : ∀ key ∈ rangeKeys Cache.senderKey L.senders.length ck.senderIndex.toNat
      maxSenders.toNat, key ∈ pageKeys L ck maxReceivers.toNat maxSenders.toNat :=
    fun key => List.mem_append_right _
  apply Ensures.bind (Sharing.refl others)
  apply (pullReceivers_rereads limit inside paged receivers here since).mono
  intro out t read
  cases out with
  | error error => exact fun _ _ _ same => by cases same
  | ok pulled =>
    apply Ensures.bind (Sharing.refl others)
    apply (pullSenders_rereads read inside (fun key member => List.mem_append_right _
      (since key member)) paged fits senders).mono
    intro out u both
    cases out with
    | error error => exact fun _ _ _ same => by cases same
    | ok answered =>
      have last : Warmed L used (pageKeys L ck maxReceivers.toNat maxSenders.toNat) u := by
        apply both.fewer
        intro key member
        simp only [pageKeys, List.mem_append] at member ⊢
        tauto
      refine rereads_getTotal last inside fun v kept => Ensures.lift_map fun v' step _ _ => ?_
      exact kept.shared inside step

end Reread

/-- While no batch is committed, and the page and the keys that other tasks use beside it fit in the
cache: when a pull has answered, the same pull does not ask the tables again for any row they have. -/
theorem page_read_once [Pallet] {w t t' u : World} {L : Ledger} (holds : Represents w.db L)
    (coherent : Coherent L w.lru) {ck : Checkpoint} {receivers senders : UInt64}
    (cursor : ck.senderIndex.toNat + min senders.toNat 4096 ≤ 2 ^ 48)
    {others : List Cache.LruKeyType}
    (room : min receivers.toNat 4096 + min senders.toNat 4096 + others.length ≤ w.lru.capacity)
    {history history' : List (Event World Op)} {answer : PullResponse × Checkpoint}
    {out : Except Error (PullResponse × Checkpoint)}
    (first : Exec Handles (Sharing others) (pullLedgerDiffImpl ck receivers senders) w history
      (.ok answer) t)
    (between : Sharing others t t')
    (second : Exec Handles (Sharing others) (pullLedgerDiffImpl ck receivers senders) t' history' out
      u) :
    (∀ s indices state, .performed (.sql (.shardsIn s indices)) state ∈ history' →
        ∀ i ∈ indices, (L.count s : Int) ≤ i) ∧
      ∀ indices state, .performed (.sql (.nullifiersIn indices)) state ∈ history' →
        ∀ i ∈ indices, (L.senders.length : Int) ≤ i := by
  have receiverLimit := toNat_min_maxReceivers receivers
  have senderLimit := toNat_min_maxSenders senders
  have lengths := length_pageKeys L ck (min receivers maxReceivers).toNat (min senders maxSenders).toNat
  generalize named : pageKeys L ck (min receivers maxReceivers).toNat (min senders maxSenders).toNat =
    page at lengths
  have inside : ∀ key ∈ others, key ∈ page ++ others := fun key => List.mem_append_right _
  have paged : ∀ key ∈ page, key ∈ page ++ others := fun key => List.mem_append_left _
  have pulls : ∀ {v warm keys}, Warmed L (page ++ others) keys v → (∀ key ∈ warm, key ∈ keys) →
      Rereads others L page warm (fun out z => ∀ answer, out = .ok answer →
        Warmed L (page ++ others) page z) (pullLedgerDiffImpl ck receivers senders) v := by
    subst named
    exact fun here since => pullLedgerDiff_rereads (by omega) (by omega) inside paged here since
  have start : Warmed L (page ++ others) [] w := by
    refine ⟨⟨holds, coherent⟩, Lru.warm_nil ?_⟩
    rw [List.length_append]
    omega
  have answered := (pulls start (List.forall_mem_nil _)).exec (Sharing.refl others) Sharing.trans
    (fun _ _ => id) first answer rfl
  have again := pulls (answered.shared inside between) fun _ => id
  have asks : ∀ op state, .performed op state ∈ history' → Asked L page page op := fun op state member =>
    (again.performed (Sharing.refl others) Sharing.trans (fun _ _ => id) second member).elim fun _ => id
  constructor
  · intro s indices state member i asked
    obtain ⟨n, rfl, row⟩ := asks _ state member i asked
    by_contra stored
    obtain ⟨known, cold⟩ := row (by omega)
    exact cold known
  · intro indices state member i asked
    obtain ⟨n, rfl, row⟩ := asks _ state member i asked
    by_contra stored
    obtain ⟨known, cold⟩ := row (by omega)
    exact cold known

section Sample

attribute [local instance] samplePallet

def sampleUncached : World := World.filled sampleNode sampleTotal (Lru.empty 4)

theorem sampleUncached_mirrors : Mirrors sampleNode sampleUncached :=
  mirrors_filled _ ⟨by decide +kernel, by decide⟩ (Coherent.empty _ _)

/-- A pull of up to two receivers and one sender, and the answer and the world after it. -/
def sampleFirst : Except Error (PullResponse × Checkpoint) × World :=
  (pullLedgerDiffImpl Checkpoint.default 2 1).run (World.handle Outside.offline) sampleUncached

/-- The first pull has read receiver 0 of shard 0; the second one may ask for receiver 1, but not for it. -/
theorem page_read_once_uncached : ∃ history history' answer t out u,
    Exec Handles (Sharing [Cache.senderKey 5]) (pullLedgerDiffImpl Checkpoint.default 2 1)
      sampleUncached history (.ok answer) t ∧
    Exec Handles (Sharing [Cache.senderKey 5]) (pullLedgerDiffImpl Checkpoint.default 2 1) t
      history' out u ∧
    ∀ indices state, .performed (.sql (.shardsIn 0 indices)) state ∈ history' → (0 : Int) ∉ indices := by
  have ran : ∀ w, ∃ history, Exec Handles (Sharing [Cache.senderKey 5])
      (pullLedgerDiffImpl Checkpoint.default 2 1) w history _ _ :=
    fun w => Prog.run_exec (fun w op => Handles.handled w op Outside.offline) _ _
  obtain ⟨history, first⟩ := ran sampleUncached
  obtain ⟨history', second⟩ := ran sampleFirst.2
  have answered : sampleFirst.1.isOk = true := by decide +kernel
  change Exec _ _ _ _ _ sampleFirst.1 sampleFirst.2 at first
  cases result : sampleFirst.1 with
  | error error =>
    rw [result] at answered
    cases answered
  | ok answer =>
    rw [result] at first
    have once := page_read_once sampleUncached_mirrors.represents sampleUncached_mirrors.coherent
      (by decide) (by decide) first (Sharing.refl _ _) second
    refine ⟨history, history', answer, _, _, _, first, second, fun indices state member zero => ?_⟩
    have past := once.1 0 indices state member 0 zero
    exact absurd past (by decide +kernel)

end Sample

end MantaIndexer
