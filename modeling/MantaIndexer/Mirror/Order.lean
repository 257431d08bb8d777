import MantaIndexer.Mirror.Ranges
import MantaIndexer.Collections.TwoPasses

/-!
The order of the items in a response. A range is read in two passes, the cached items first and the
rows of the database after them, so the items are in the order of their indices when the cached
items of each range come first in it, and otherwise not.
-/

namespace MantaIndexer
open Effects Encoding Collections

section Runs

variable [P : Pallet]

/-- No hit comes after a miss. -/
abbrev HitsLead (cells : List (Option Bytes)) : Prop := Leads Option.isSome cells

/-- What a list read in two passes says about the cache: it is in order if the hits lead in every
read, and with different items only then. -/
structure Told {α : Type} (distinct : Prop) (chunk target : List α)
    (reads : List (List (Option Bytes))) : Prop where
  perm : chunk.Perm target
  inOrder : (∀ cells ∈ reads, HitsLead cells) → chunk = target
  onlyThen : distinct → chunk = target → ∀ cells ∈ reads, HitsLead cells

omit P in
theorem Told.nil {α : Type} (distinct : Prop) : Told distinct ([] : List α) [] [] :=
  ⟨.rfl, fun _ => rfl, fun _ _ => nofun⟩

omit P in
theorem Told.append {α : Type} {distinct : Prop} {first second target target' : List α}
    {reads reads' : List (List (Option Bytes))} (h : Told distinct first target reads)
    (h' : Told distinct second target' reads') :
    Told distinct (first ++ second) (target ++ target') (reads ++ reads') := by
  refine ⟨h.perm.append h'.perm, fun leads => ?_, fun different same => ?_⟩
  · rw [List.forall_mem_append] at leads
    rw [h.inOrder leads.1, h'.inOrder leads.2]
  · obtain ⟨same, same'⟩ := List.append_inj same h.perm.length_eq
    rw [List.forall_mem_append]
    exact ⟨h.onlyThen different same, h'.onlyThen different same'⟩

omit P in
theorem Told.mono {α : Type} {distinct weaker : Prop} {chunk target : List α}
    {reads : List (List (Option Bytes))} (h : Told weaker chunk target reads)
    (imp : distinct → weaker) : Told distinct chunk target reads :=
  ⟨h.perm, h.inOrder, fun different => h.onlyThen (imp different)⟩

omit P in
theorem Agrees.told {α : Type} [Codec α] {lru : Lru Cache.LruKeyType Bytes}
    {key : UInt64 → Cache.LruKeyType} {values : List α} (agrees : Agrees lru key values)
    {x amount : UInt64} (fits : x.toNat + amount.toNat ≤ 2 ^ 48) :
    Told values.Nodup (inPasses lru key values x amount) (page values x.toNat amount.toNat)
      [cellsOf lru key x amount] := by
  have cells : HitsLead (cellsOf lru key x amount) ↔
      Leads (fun i => (lru.lookup (key (UInt64.ofNat i))).isSome)
        (List.range' x.toNat amount.toNat) := by
    rw [cellsOf, span_add (by omega), List.map_map, List.map_map]
    exact List.pairwise_map
  simp only [inPasses, hits, misses]
  refine ⟨agrees.page_perm List.prefix_rfl fits, fun leads => ?_, fun nodup same => ?_⟩
  · exact passes_page.1 (cells.mp (leads _ List.mem_cons_self))
  · rw [List.forall_mem_singleton, cells]
    refine passes_page.2 nodup (fun i member hit => ?_) same
    have range := List.mem_range'_1.mp member
    obtain ⟨bytes, content⟩ := Option.isSome_iff_exists.mp hit
    obtain ⟨value, stored, -⟩ := agrees i (by omega) bytes content
    exact (List.getElem?_eq_some_iff.mp stored).1

/-! ### A cache without some keys -/

def Without (keys : Set Cache.LruKeyType) (lru : Lru Cache.LruKeyType Bytes) : Prop :=
  ∀ entry ∈ lru.entries, entry.1 ∉ keys

omit P in
theorem Without.getBatch {keys : Set Cache.LruKeyType} {lru : Lru Cache.LruKeyType Bytes}
    (without : Without keys lru) (asked : List Cache.LruKeyType) :
    Without keys (lru.getBatch asked).2 :=
  fun entry member => without entry (Lru.mem_getBatch.mp member)

omit P in
theorem Without.putBatch {keys : Set Cache.LruKeyType} {lru : Lru Cache.LruKeyType Bytes}
    (without : Without keys lru) {batch : List (Cache.LruKeyType × Bytes)}
    (other : ∀ entry ∈ batch, entry.1 ∉ keys) : Without keys (lru.putBatch batch) := by
  intro entry member
  rcases Lru.mem_putBatch member with new | old
  · exact other entry new
  · exact without entry old

omit P in
theorem Without.hitsLead {keys : Set Cache.LruKeyType} {lru : Lru Cache.LruKeyType Bytes}
    (without : Without keys lru) {asked : List Cache.LruKeyType} (among : ∀ key ∈ asked, key ∈ keys) :
    HitsLead (asked.map lru.lookup) := by
  refine List.pairwise_map.mpr (List.pairwise_of_forall_mem_list fun a _ key member hit => ?_)
  obtain ⟨bytes, content⟩ := Option.isSome_iff_exists.mp hit
  exact absurd (among key member) (without _ (Lru.lookup_eq_some.mp content))

def receiverKeys (shards : List ShardIndex) : Set Cache.LruKeyType :=
  { key | ∃ s ∈ shards, ∃ i : UInt64, i.toNat < 2 ^ 48 ∧ key = Cache.receiverKey (Cache.shardWord s) i }

def senderKeys : Set Cache.LruKeyType :=
  { key | ∃ i : UInt64, i.toNat < 2 ^ 48 ∧ key = Cache.senderKey i }

omit P in
theorem receiverKey_notMem {s : ShardIndex} {shards : List ShardIndex} (fresh : s ∉ shards)
    {i : UInt64} (small : i.toNat < 2 ^ 48) :
    Cache.receiverKey (Cache.shardWord s) i ∉ receiverKeys shards := by
  rintro ⟨t, member, j, small', same⟩
  obtain ⟨rfl, -⟩ := Cache.receiverKey_inj small small' same
  exact fresh member

omit P in
theorem receiverKey_notMem_senderKeys (s : ShardIndex) (i : UInt64) :
    Cache.receiverKey (Cache.shardWord s) i ∉ senderKeys := by
  rintro ⟨j, -, same⟩
  exact Cache.receiverKey_ne_senderKey _ i j same

omit P in
theorem mem_span_keys {key : UInt64 → Cache.LruKeyType} {x amount : UInt64}
    (fits : x.toNat + amount.toNat ≤ 2 ^ 48) :
    ∀ asked ∈ (span x (x + amount)).map key, ∃ i : UInt64, i.toNat < 2 ^ 48 ∧ asked = key i := by
  intro asked member
  rw [span_add (by omega), List.map_map] at member
  obtain ⟨i, range, rfl⟩ := List.mem_map.mp member
  have bounds := List.mem_range'_1.mp range
  have word := toNat_ofNat (n := i) (by omega)
  exact ⟨UInt64.ofNat i, by omega, rfl⟩

omit P in
theorem Without.afterRange {α : Type} [Codec α] {keys : Set Cache.LruKeyType}
    {lru : Lru Cache.LruKeyType Bytes} (without : Without keys lru)
    {key : UInt64 → Cache.LruKeyType} (other : ∀ i : UInt64, i.toNat < 2 ^ 48 → key i ∉ keys)
    (values : List α) (small : values.length ≤ 2 ^ 48) (x amount : UInt64) :
    Without keys (afterRange lru key values x amount) := by
  refine (without.getBatch _).putBatch fun entry member => ?_
  obtain ⟨item, written, rfl⟩ := List.mem_map.mp member
  obtain ⟨i, value, stored, rfl⟩ := mem_writeBack written
  have bound := (List.getElem?_eq_some_iff.mp stored).1
  have word := toNat_ofNat (n := i) (by omega)
  have little : (UInt64.ofNat i).toNat < 2 ^ 48 := by omega
  exact other _ little

/-! ### The shards -/

section Cells

variable {L : Ledger} {indices : ShardIndex → UInt64} {shards : List ShardIndex} {remain : UInt64}
  {lru : Lru Cache.LruKeyType Bytes}

omit P in
theorem Without.others {lru : Lru Cache.LruKeyType Bytes} {s : ShardIndex} {shards : List ShardIndex}
    (without : Without (receiverKeys (s :: shards)) lru) : Without (receiverKeys shards) lru :=
  fun entry member key => without entry member
    (key.imp fun _ found => ⟨List.mem_cons_of_mem _ found.1, found.2⟩)

theorem Without.shardCells {keys : Set Cache.LruKeyType} (below : L.Below (2 ^ 48))
    (other : ∀ s i, Cache.receiverKey (Cache.shardWord s) i ∉ keys) (without : Without keys lru) :
    Without keys (shardCells L indices shards remain lru).2 := by
  induction shards generalizing remain lru with
  | nil => exact without
  | cons s shards ih =>
    by_cases some : (indices s).toNat < L.count s
    · have after := without.afterRange (fun i _ => other s i) (L.receivers s) (below.1 s).le
        (indices s) remain
      by_cases full : remain.toNat ≤ L.count s - (indices s).toNat
      · rw [shardCells_last shards lru some full]
        exact after
      · rw [shardCells_cons shards lru some (Nat.lt_of_not_le full)]
        exact ih after
    · rw [shardCells_skip shards lru (Nat.le_of_not_lt some)]
      exact ih without

/-- Without an entry of the shards nothing is found for them, whatever the ranges of the others leave. -/
theorem shardCells_cold (nodup : shards.Nodup) (below : L.Below (2 ^ 48))
    (room : ∀ s, L.count s + remain.toNat ≤ 2 ^ 48) (without : Without (receiverKeys shards) lru) :
    ∀ cells ∈ (shardCells L indices shards remain lru).1, HitsLead cells := by
  induction shards generalizing remain lru with
  | nil => exact fun _ member => absurd member List.not_mem_nil
  | cons s shards ih =>
    obtain ⟨fresh, nodup⟩ := List.nodup_cons.mp nodup
    by_cases some : (indices s).toNat < L.count s
    · have fits : (indices s).toNat + remain.toNat ≤ 2 ^ 48 := by have := room s; omega
      have lead : HitsLead (cellsOf lru (Cache.receiverKey (Cache.shardWord s)) (indices s) remain) := by
        refine without.hitsLead fun key asked => ?_
        obtain ⟨i, small, rfl⟩ := mem_span_keys fits key asked
        exact ⟨s, List.mem_cons_self, i, small, rfl⟩
      by_cases full : remain.toNat ≤ L.count s - (indices s).toNat
      · rw [shardCells_last shards lru some full]
        exact List.forall_mem_singleton.mpr lead
      · have more := Nat.lt_of_not_le full
        have elsewhere := without.others.afterRange (fun i small => receiverKey_notMem fresh small)
          (L.receivers s) (below.1 s).le (indices s) remain
        rw [shardCells_cons shards lru some more]
        exact List.forall_mem_cons.mpr ⟨lead, ih nodup (room_unfilled room more) elsewhere⟩
    · rw [shardCells_skip shards lru (Nat.le_of_not_lt some)]
      exact ih nodup room without.others

end Cells

/-- No item is stored twice, in a shard or among the senders. -/
def Ledger.Distinct (L : Ledger) : Prop := (∀ s, (L.receivers s).Nodup) ∧ L.senders.Nodup

theorem gathered_shard {L : Ledger} {indices : ShardIndex → UInt64} {s : ShardIndex}
    {shards : List ShardIndex} (fresh : s ∉ shards) (budget : Nat) :
    gathered (fun _ => L) indices (s :: shards) budget =
      page (L.receivers s) (indices s).toNat budget ++
        gathered (fun _ => L) indices shards (budget - (L.count s - (indices s).toNat)) := by
  have same : Function.update (fun _ => L) s L = fun _ : ShardIndex => L :=
    Function.update_eq_self s _
  have split : gathered (Function.update (fun _ => L) s L) indices (s :: shards) budget = _ :=
    gathered_cons fresh budget
  rwa [same] at split

theorem gathered_zero (view : ShardIndex → Ledger) (indices : ShardIndex → UInt64)
    (shards : List ShardIndex) : gathered view indices shards 0 = [] := by
  rw [gathered, List.flatMap_eq_nil_iff]
  intro s _
  rw [taken_zero, page, List.take_zero]

theorem gathered_past {L : Ledger} {indices : ShardIndex → UInt64} {s : ShardIndex}
    {shards : List ShardIndex} (fresh : s ∉ shards) (past : L.count s ≤ (indices s).toNat)
    (budget : Nat) :
    gathered (fun _ => L) indices (s :: shards) budget = gathered (fun _ => L) indices shards budget := by
  have nothing : page (L.receivers s) (indices s).toNat budget = [] := by
    apply List.eq_nil_of_length_eq_zero
    rw [length_page]
    rw [Ledger.count] at past
    omega
  rw [gathered_shard fresh, nothing, Nat.sub_eq_zero_of_le past]
  rfl

/-- The loop over the shards, alone. -/
theorem pullShards_alone (outside : Outside) {L : Ledger} {indices : ShardIndex → UInt64}
    {maxAmount : UInt64} (room : ∀ s, L.count s + maxAmount.toNat ≤ 2 ^ 48) {shards : List ShardIndex}
    (nodup : shards.Nodup) {state : PullState} {w : World} (mirrors : Mirrors L w)
    (budget : state.receivers.length + state.remain.toNat = maxAmount.toNat) :
    ∃ last chunk, Alone outside (pullShards indices maxAmount shards state) w last
        { w with lru := (shardCells L indices shards state.remain w.lru).2 } ∧
      last.receivers = state.receivers ++ chunk ∧
      Told L.Distinct chunk (gathered (fun _ => L) indices shards state.remain.toNat)
        (shardCells L indices shards state.remain w.lru).1 := by
  induction shards generalizing state w with
  | nil => exact ⟨state, [], .ret outside w state, (List.append_nil _).symm, .nil _⟩
  | cons s shards ih =>
    obtain ⟨fresh, nodup⟩ := List.nodup_cons.mp nodup
    have asked := hasShard_alone outside mirrors s (indices s)
    unfold pullShards
    by_cases some : (indices s).toNat < L.count s
    · rw [decide_eq_true some] at asked
      have bound := room s
      have fits : (indices s).toNat + state.remain.toNat ≤ 2 ^ 48 := by omega
      have agrees := mirrors.coherent.agrees_receivers mirrors.below s
      obtain ⟨more, ranged⟩ := pullReceiversForShard_alone outside mirrors s fits state.receivers
      have told := (agrees.told fits).mono fun different : L.Distinct => different.1 s
      have lengths := agrees.length_inPasses fits
      have mirrors' := ranged.quiet.mirrors mirrors
      generalize taken : inPasses w.lru (Cache.receiverKey (Cache.shardWord s)) (L.receivers s)
        (indices s) state.remain = chunk at ranged told lengths
      change chunk.length = min state.remain.toNat (L.count s - (indices s).toNat) at lengths
      by_cases full : state.remain.toNat ≤ L.count s - (indices s).toNat
      · have reached := budget_filled budget lengths full
        rw [shardCells_last shards w.lru some full, gathered_shard fresh, Nat.sub_eq_zero_of_le full,
          gathered_zero, List.append_nil]
        refine ⟨{ state with
            moreReceivers := state.moreReceivers || more
            receivers := state.receivers ++ chunk
            nextIndices := Function.update state.nextIndices s (indices s +
              UInt64.ofNat (state.receivers ++ chunk).length - UInt64.ofNat state.receivers.length) },
          chunk, asked.bind (ranged.bind ?_), rfl, told⟩
        dsimp only
        rw [if_pos reached]
        exact .ret outside _ _
      · have less := Nat.lt_of_not_le full
        obtain ⟨unfilled, left_over, budget'⟩ := budget_unfilled budget lengths less
        have spent : (state.remain - UInt64.ofNat (L.count s - (indices s).toNat)).toNat =
            state.remain.toNat - (L.count s - (indices s).toNat) := toNat_sub_ofNat less.le
        obtain ⟨last, others, ran, receivers, toldRest⟩ := @ih nodup
          ⟨state.moreReceivers || more, state.receivers ++ chunk,
            Function.update state.nextIndices s (indices s +
              UInt64.ofNat (state.receivers ++ chunk).length - UInt64.ofNat state.receivers.length),
            state.remain - UInt64.ofNat (L.count s - (indices s).toNat)⟩ _ mirrors' budget'
        dsimp only at receivers toldRest
        rw [spent] at toldRest
        rw [shardCells_cons shards w.lru some less, gathered_shard fresh]
        refine ⟨last, chunk ++ others, asked.bind (ranged.bind ?_), ?_, told.append toldRest⟩
        · dsimp only
          rw [if_neg unfilled, left_over]
          exact ran
        · rw [receivers, List.append_assoc]
    · rw [decide_eq_false some] at asked
      have past := Nat.le_of_not_lt some
      obtain ⟨last, chunk, ran, receivers, told⟩ := ih nodup mirrors budget
      rw [shardCells_skip shards w.lru past, gathered_past fresh past]
      exact ⟨last, chunk, asked.bind ran, receivers, told⟩

/-! ### The whole call -/

theorem getTotal_alone (outside : Outside) (w : World) {α : Type} (f : TotalBytes → α) :
    ((getTotalSendersReceivers >>= fun total => (.ret (f total) : Task α)).run (World.handle outside)
      w).1 = (totalOf w.db).map f := by
  unfold getTotalSendersReceivers fetch totalOf
  simp only [perform, Prog.bind_ask, Prog.bind_perform, Prog.run_perform, World.handle, World.execute]
  cases w.db.total with
  | none => rfl
  | some total =>
    simp only [World.fetchOne, Prog.pure_eq, Prog.bind_ret]
    by_cases size : total.length = 16
    · rw [dif_pos size, dif_pos size]
      rfl
    · rw [dif_neg size, dif_neg size]
      rfl

theorem pullReceivers_alone (outside : Outside) {L : Ledger} {w : World} (mirrors : Mirrors L w)
    (indices : ShardIndex → UInt64) {maxAmount : UInt64}
    (room : ∀ s, L.count s + maxAmount.toNat ≤ 2 ^ 48) :
    ∃ more next receivers, Alone outside (pullReceivers indices maxAmount) w (more, next, receivers)
        { w with lru := (shardCells L indices allShards maxAmount w.lru).2 } ∧
      Told L.Distinct receivers (gathered (fun _ => L) indices allShards maxAmount.toNat)
        (shardCells L indices allShards maxAmount w.lru).1 := by
  have start : (⟨false, [], indices, maxAmount⟩ : PullState).receivers.length + maxAmount.toNat =
      maxAmount.toNat := Nat.zero_add _
  obtain ⟨last, chunk, ran, receivers, told⟩ :=
    pullShards_alone outside room (List.nodup_finRange _) mirrors start
  rw [List.nil_append] at receivers
  subst receivers
  exact ⟨_, _, _, ran.bind (.ret outside _ _), told⟩

/-- In every range that the pull reads the cached items come before the others. -/
def CachedLead (L : Ledger) (lru : Lru Cache.LruKeyType Bytes) (ck : Checkpoint)
    (maxReceivers maxSenders : UInt64) : Prop :=
  (∀ cells ∈ receiverCells L lru ck maxReceivers, HitsLead cells) ∧
    HitsLead (senderCells L lru ck maxReceivers maxSenders)

instance {L : Ledger} {lru : Lru Cache.LruKeyType Bytes} {ck : Checkpoint}
    {maxReceivers maxSenders : UInt64} : Decidable (CachedLead L lru ck maxReceivers maxSenders) :=
  inferInstanceAs (Decidable (_ ∧ _))

theorem pullLedgerDiff_told (outside : Outside) {L : Ledger} {w : World} (mirrors : Mirrors L w)
    {ck : Checkpoint} {maxReceivers maxSenders : UInt64}
    (room : ∀ s, L.count s + maxReceivers.toNat ≤ 2 ^ 48)
    (fits : ck.senderIndex.toNat + maxSenders.toNat ≤ 2 ^ 48) :
    ∃ flag next receivers senders,
      ((pullLedgerDiff ck maxReceivers maxSenders).run (World.handle outside) w).1 =
        (totalOf w.db).map (fun total => (⟨flag, receivers, senders, total⟩, next)) ∧
      Told L.Distinct receivers (gathered (fun _ => L) ck.receiverIndex allShards maxReceivers.toNat)
        (receiverCells L w.lru ck maxReceivers) ∧
      Told L.Distinct senders (page L.senders ck.senderIndex.toNat maxSenders.toNat)
        [senderCells L w.lru ck maxReceivers maxSenders] := by
  obtain ⟨more, next, receivers, ran, told⟩ := pullReceivers_alone outside mirrors ck.receiverIndex room
  have mirrors' := ran.quiet.mirrors mirrors
  obtain ⟨more', ran'⟩ := pullSenders_alone outside mirrors' fits
  have told' := ((mirrors'.coherent.agrees_senders mirrors'.below).told fits).mono
    fun different : L.Distinct => different.2
  refine ⟨more || more', ⟨next, ck.senderIndex + maxSenders⟩, receivers, _, ?_, told, told'⟩
  unfold pullLedgerDiff
  rw [Prog.run_bind_ok ran.ran]
  dsimp only
  rw [Prog.run_bind_ok ran'.ran]
  exact getTotal_alone outside _ _

/-- With an empty cache nothing is found, whatever the ranges write back for each other. -/
theorem cachedLead_empty {L : Ledger} (below : L.Below (2 ^ 48)) (capacity : Nat) {ck : Checkpoint}
    {maxReceivers maxSenders : UInt64} (room : ∀ s, L.count s + maxReceivers.toNat ≤ 2 ^ 48)
    (fits : ck.senderIndex.toNat + maxSenders.toNat ≤ 2 ^ 48) :
    CachedLead L (Lru.empty capacity) ck maxReceivers maxSenders := by
  have without : ∀ keys, Without keys (Lru.empty capacity) :=
    fun _ _ member => absurd member List.not_mem_nil
  refine ⟨shardCells_cold (List.nodup_finRange _) below room (without _), ?_⟩
  exact ((without _).shardCells below receiverKey_notMem_senderKeys).hitsLead (mem_span_keys fits)

def itemsOf (out : Except Error (PullResponse × Checkpoint)) :
    Except Error (List Receiver × List Sender) :=
  out.map fun result => (result.1.receivers, result.1.senders)

end Runs

/-- With an empty cache the lists of a response are in the order of the indices. With any coherent
cache they are the same lists if in every range that the pull reads the cached items come before the
others; and when no item is stored twice, only then. -/
theorem pull_in_order [Pallet] {w : World} {L : Ledger} (holds : Represents w.db L)
    (coherent : Coherent L w.lru) (ck : Checkpoint)
    (sendersAt : ck.senderIndex.toNat ≤ L.senders.length) {maxReceivers maxSenders : UInt64}
    (fewReceivers : maxReceivers.toNat ≤ 4096) (fewSenders : maxSenders.toNat ≤ 4096)
    (outside : Outside) (capacity : Nat) :
    let out := ((pullLedgerDiff ck maxReceivers maxSenders).run (World.handle outside) w).1
    let cold := ((pullLedgerDiff ck maxReceivers maxSenders).run (World.handle outside)
      { w with lru := Lru.empty capacity }).1
    itemsOf cold = (totalOf w.db).map (fun _ =>
      (gathered (fun _ => L) ck.receiverIndex allShards maxReceivers.toNat,
        page L.senders ck.senderIndex.toNat maxSenders.toNat)) ∧
    (CachedLead L w.lru ck maxReceivers maxSenders → itemsOf out = itemsOf cold) ∧
    (L.Distinct → (∃ total, totalOf w.db = .ok total) → itemsOf out = itemsOf cold →
      CachedLead L w.lru ck maxReceivers maxSenders) := by
  have counted := holds.below.2
  have room := holds.room fewReceivers
  have fits : ck.senderIndex.toNat + maxSenders.toNat ≤ 2 ^ 48 := by omega
  have mirrors : Mirrors L w := ⟨holds, coherent⟩
  have emptied : Mirrors L { w with lru := Lru.empty capacity } :=
    ⟨holds, Coherent.empty L capacity⟩
  obtain ⟨flag, next, receivers, senders, ran, told, told'⟩ :=
    pullLedgerDiff_told outside mirrors room fits
  obtain ⟨flag', next', receivers', senders', ran', toldCold, toldCold'⟩ :=
    pullLedgerDiff_told outside emptied room fits
  obtain ⟨leads, leads'⟩ := cachedLead_empty mirrors.below capacity room fits
  rw [toldCold.inOrder leads, toldCold'.inOrder (List.forall_mem_singleton.mpr leads')] at ran'
  have inOrder : itemsOf ((pullLedgerDiff ck maxReceivers maxSenders).run (World.handle outside)
      { w with lru := Lru.empty capacity }).1 = (totalOf w.db).map (fun _ =>
        (gathered (fun _ => L) ck.receiverIndex allShards maxReceivers.toNat,
          page L.senders ck.senderIndex.toNat maxSenders.toNat)) := by
    rw [ran', itemsOf]
    cases totalOf w.db <;> rfl
  refine ⟨inOrder, ?_, ?_⟩
  · rintro ⟨leads, leads'⟩
    rw [inOrder, ran, told.inOrder leads, told'.inOrder (List.forall_mem_singleton.mpr leads'), itemsOf]
    cases totalOf w.db <;> rfl
  · rintro different ⟨total, present⟩ same
    rw [inOrder, ran, present] at same
    obtain ⟨sameReceivers, sameSenders⟩ := Prod.mk.inj (Except.ok.inj same)
    exact ⟨told.onlyThen different sameReceivers,
      List.forall_mem_singleton.mp (told'.onlyThen different sameSenders)⟩

section Sample

attribute [local instance] samplePallet

def samplePair : Ledger := ⟨fun s => if s = 0 then [sampleReceiver 0 7, sampleReceiver 0 8] else [], []⟩

theorem samplePair_distinct : samplePair.Distinct := by
  refine ⟨fun s => ?_, List.nodup_nil⟩
  unfold samplePair
  dsimp only
  split
  · decide
  · exact List.nodup_nil

/-- Both are stored, and one of them is cached. -/
def sampleCaching (i : UInt64) (receiver : Receiver) : World :=
  World.filled samplePair sampleTotal
    ((Lru.empty 4).putBatch [(Cache.receiverKey (Cache.shardWord 0) i, encode receiver)])

theorem sampleCaching_mirrors {i : Nat} {receiver : Receiver}
    (stored : (samplePair.receivers 0)[i]? = some receiver) :
    Mirrors samplePair (sampleCaching (UInt64.ofNat i) receiver) := by
  refine mirrors_filled _ ⟨by decide +kernel, by decide⟩ ?_
  refine (Coherent.empty _ 4).putBatch fun entry member => ?_
  obtain rfl := List.mem_singleton.mp member
  exact Caches.receiver stored

/-- The first of them is cached. -/
def sampleLed : World := sampleCaching 0 (sampleReceiver 0 7)

/-- Only the second of them is cached. -/
def sampleWarm : World := sampleCaching 1 (sampleReceiver 0 8)

theorem sampleLed_mirrors : Mirrors samplePair sampleLed := sampleCaching_mirrors (i := 0) rfl

theorem sampleWarm_mirrors : Mirrors samplePair sampleWarm := sampleCaching_mirrors (i := 1) rfl

/-- The first receiver comes from the cache, the second one from the database. -/
theorem pull_in_order_led :
    CachedLead samplePair sampleLed.lru Checkpoint.default 2 2 ∧
    itemsOf ((pullLedgerDiff Checkpoint.default 2 2).run (World.handle Outside.offline)
      sampleLed).1 = .ok ([sampleReceiver 0 7, sampleReceiver 0 8], []) ∧
    itemsOf ((pullLedgerDiff Checkpoint.default 2 2).run (World.handle Outside.offline)
      { sampleLed with lru := Lru.empty 4 }).1 = .ok ([sampleReceiver 0 7, sampleReceiver 0 8], []) := by
  obtain ⟨cold, same, only⟩ := pull_in_order sampleLed_mirrors.represents sampleLed_mirrors.coherent
    Checkpoint.default (Nat.zero_le _) (by decide : (2 : UInt64).toNat ≤ 4096)
    (by decide : (2 : UInt64).toNat ≤ 4096) Outside.offline 4
  have lead : CachedLead samplePair sampleLed.lru Checkpoint.default 2 2 := by decide +kernel
  have items : itemsOf ((pullLedgerDiff Checkpoint.default 2 2).run (World.handle Outside.offline)
      { sampleLed with lru := Lru.empty 4 }).1 = .ok ([sampleReceiver 0 7, sampleReceiver 0 8], []) := by
    decide +kernel
  have present : ∃ total, totalOf sampleLed.db = .ok total := ⟨sampleTotal, by decide +kernel⟩
  exact ⟨only samplePair_distinct present (same lead), (same lead).trans items, items⟩

/-- The cached receiver comes first, although its index is the higher one; with an empty cache it
comes second. -/
theorem pull_out_of_order :
    Represents sampleWarm.db samplePair ∧ Coherent samplePair sampleWarm.lru ∧
    itemsOf ((pullLedgerDiff Checkpoint.default 2 2).run (World.handle Outside.offline)
      sampleWarm).1 = .ok ([sampleReceiver 0 8, sampleReceiver 0 7], []) ∧
    itemsOf ((pullLedgerDiff Checkpoint.default 2 2).run (World.handle Outside.offline)
        sampleWarm).1 ≠
      itemsOf ((pullLedgerDiff Checkpoint.default 2 2).run (World.handle Outside.offline)
        { sampleWarm with lru := Lru.empty 4 }).1 :=
  ⟨sampleWarm_mirrors.represents, sampleWarm_mirrors.coherent, by decide +kernel, by decide +kernel⟩

end Sample

end MantaIndexer
