import MantaIndexer.Mirror.Order

/-!
A pull on an SQLite that refuses a statement with too many variables. When no query of the call binds
too many, the pull is what it is without the bound; otherwise it ends with the error of the query.
-/

namespace MantaIndexer
open Effects Encoding Collections

variable [P : Pallet]

/-- No query of the pull binds too many variables: one for each index that is not cached, and one for
the shard. -/
structure Bindable (L : Ledger) (lru : Lru Cache.LruKeyType Bytes) (ck : Checkpoint)
    (maxReceivers maxSenders : UInt64) : Prop where
  receivers : ∀ cells ∈ receiverCells L lru ck maxReceivers,
    cells.countP Option.isNone + 1 ≤ sqliteMaxVariableNumber
  senders : (senderCells L lru ck maxReceivers maxSenders).countP Option.isNone ≤
    sqliteMaxVariableNumber

omit P in
theorem length_misses (lru : Lru Cache.LruKeyType Bytes) (key : UInt64 → Cache.LruKeyType)
    {x amount : UInt64} (inside : x.toNat + amount.toNat < 2 ^ 64) :
    ((misses lru key x.toNat amount.toNat).map Int.ofNat).length =
      (cellsOf lru key x amount).countP Option.isNone := by
  rw [List.length_map, misses, ← List.countP_eq_length_filter, cellsOf, span_add inside,
    List.map_map, List.map_map, List.countP_map]
  refine List.countP_congr fun i _ => ?_
  simp

omit P in
theorem length_cellsOf (lru : Lru Cache.LruKeyType Bytes) (key : UInt64 → Cache.LruKeyType)
    {x amount : UInt64} (inside : x.toNat + amount.toNat < 2 ^ 64) :
    (cellsOf lru key x amount).length = amount.toNat := by
  rw [cellsOf, span_add inside]
  simp

/-! ### Runs under the bound -/

/-- The bound changes nothing in the run. -/
def Unrefused {α : Type} (outside : Outside) (p : Task α) (w : World) : Prop :=
  p.run (World.handleBounded outside) w = p.run (World.handle outside) w

/-- The run ends with the error of a refused query. -/
def Refused {α : Type} (outside : Outside) (p : Task α) (w : World) : Prop :=
  (p.run (World.handleBounded outside) w).1 = .error (.sqlx .database)

section Rules

variable {α β : Type} {outside : Outside} {w v : World} {p : Task α} {f : α → Task β} {value : α}

theorem Unrefused.bind (first : Unrefused outside p w)
    (ran : p.run (World.handle outside) w = (.ok value, v)) (rest : Unrefused outside (f value) v) :
    Unrefused outside (p >>= f) w := by
  rw [Unrefused, Prog.run_bind_ok (first.trans ran), Prog.run_bind_ok ran]
  exact rest

theorem Refused.bind (first : Refused outside p w) : Refused outside (p >>= f) w :=
  Prog.run_bind_error first

theorem Unrefused.refused (first : Unrefused outside p w)
    (ran : p.run (World.handle outside) w = (.ok value, v)) (rest : Refused outside (f value) v) :
    Refused outside (p >>= f) w := by
  rw [Refused, Prog.run_bind_ok (first.trans ran)]
  exact rest

theorem unrefused_ret (value : α) : Unrefused outside (.ret value) w := rfl

theorem handleBounded_eq {query : Query} (few : query.variables ≤ sqliteMaxVariableNumber) :
    w.handleBounded outside (.sql query) = w.handle outside (.sql query) :=
  if_pos few

theorem unrefused_fetch {query : Query} (few : query.variables ≤ sqliteMaxVariableNumber) :
    Unrefused outside (fetch query) w := by
  simp only [Unrefused, fetch, perform, Prog.bind_ask, Prog.run_perform, handleBounded_eq few]
  rcases w.handle outside (.sql query) with ⟨error | answer, t⟩ <;> rfl

theorem refused_fetch {query : Query} (many : ¬ query.variables ≤ sqliteMaxVariableNumber) :
    Refused outside (fetch query) w := by
  have refused : w.handleBounded outside (.sql query) = (.error .database, w) := if_neg many
  simp only [Refused, fetch, perform, Prog.bind_ask, Prog.run_perform, refused]
  rfl

theorem unrefused_found {query : Query} (few : query.variables ≤ sqliteMaxVariableNumber) :
    Unrefused outside (found query) w := by
  simp only [Unrefused, found, perform, Prog.bind_ask, Prog.run_perform, handleBounded_eq few]
  rcases w.handle outside (.sql query) with ⟨error | answer, t⟩
  · cases error <;> rfl
  · rfl

theorem unrefused_hasShard (s : ShardIndex) (x : UInt64) : Unrefused outside (hasShard s x) w :=
  have few : (Query.shardAt s (asI64 x)).variables ≤ sqliteMaxVariableNumber :=
    show 2 ≤ sqliteMaxVariableNumber by decide
  unrefused_found few

theorem unrefused_hasNullifier (x : UInt64) : Unrefused outside (hasNullifier x) w :=
  have few : (Query.nullifierAt (asI64 x)).variables ≤ sqliteMaxVariableNumber :=
    show 1 ≤ sqliteMaxVariableNumber by decide
  unrefused_found few

theorem unrefused_getBatchLru (keys : List Cache.LruKeyType) :
    Unrefused outside (perform (.getBatchLru keys)) w := rfl

theorem unrefused_putBatchLru (batch : List (Cache.LruKeyType × Bytes)) :
    Unrefused outside (perform (.putBatchLru batch)) w := rfl

theorem unrefused_shardsIn {s : ShardIndex} {indices : List Int}
    (few : indices.length + 1 ≤ sqliteMaxVariableNumber) :
    Unrefused outside (getBatchedShardsByIdxs s indices) w := by
  unfold getBatchedShardsByIdxs
  split
  · exact unrefused_ret _
  · exact unrefused_fetch few

theorem refused_shardsIn {s : ShardIndex} {indices : List Int}
    (many : ¬ indices.length + 1 ≤ sqliteMaxVariableNumber) :
    Refused outside (getBatchedShardsByIdxs s indices) w := by
  unfold getBatchedShardsByIdxs
  rw [if_neg]
  · exact refused_fetch many
  · cases indices with
    | nil => exact absurd (by decide) many
    | cons i indices => exact Bool.false_ne_true

theorem unrefused_nullifiersIn {indices : List Int} (few : indices.length ≤ sqliteMaxVariableNumber) :
    Unrefused outside (getBatchedNullifierByIdxs indices) w := by
  unfold getBatchedNullifierByIdxs
  split
  · exact unrefused_ret _
  · exact unrefused_fetch few

theorem refused_nullifiersIn {indices : List Int}
    (many : ¬ indices.length ≤ sqliteMaxVariableNumber) :
    Refused outside (getBatchedNullifierByIdxs indices) w := by
  unfold getBatchedNullifierByIdxs
  rw [if_neg]
  · exact refused_fetch many
  · cases indices with
    | nil => exact absurd (by decide) many
    | cons i indices => exact Bool.false_ne_true

end Rules

/-! ### One range -/

section Range

variable (outside : Outside) {w : World} {L : Ledger} (mirrors : Mirrors L w)

include mirrors

theorem pullReceiversForShard_bounded (s : ShardIndex) {x amount : UInt64}
    (fits : x.toNat + amount.toNat ≤ 2 ^ 48) (before : List Receiver) :
    let missing := (cellsOf w.lru (Cache.receiverKey (Cache.shardWord s)) x amount).countP
      Option.isNone
    (missing + 1 ≤ sqliteMaxVariableNumber →
        Unrefused outside (pullReceiversForShard s x amount before) w) ∧
      (¬ missing + 1 ≤ sqliteMaxVariableNumber →
        Refused outside (pullReceiversForShard s x amount before) w) := by
  have agrees := mirrors.coherent.agrees_receivers mirrors.below s
  have later := (quiet_getBatchLru w
    ((span x (x + amount)).map (Cache.receiverKey (Cache.shardWord s)))).mirrors mirrors
  have cells := alone_getBatchLru outside w
    ((span x (x + amount)).map (Cache.receiverKey (Cache.shardWord s)))
  have asked := length_misses w.lru (Cache.receiverKey (Cache.shardWord s))
    (show x.toNat + amount.toNat < 2 ^ 64 by omega)
  unfold pullReceiversForShard getBatchShardReceiver putBatchReceiver
  intro missing
  constructor
  · intro few
    apply (unrefused_getBatchLru _).bind cells.ran
    rw [agrees.split fits, Prog.lift_ok, Prog.bind_ret]
    apply (unrefused_shardsIn (asked ▸ few)).bind
      (alone_getBatchedShardsByIdxs outside later.represents s (misses_sorted _ _)).ran
    rw [decodeShards_pick, Prog.lift_ok, Prog.bind_ret]
    apply (unrefused_putBatchLru _).bind rfl
    dsimp only
    split
    · exact (unrefused_hasShard _ _).bind (alone_hasShard outside _ _ _).ran (unrefused_ret _)
    · exact unrefused_ret _
  · intro many
    apply (unrefused_getBatchLru _).refused cells.ran
    rw [agrees.split fits, Prog.lift_ok, Prog.bind_ret]
    exact (refused_shardsIn (asked ▸ many)).bind

theorem pullSenders_bounded {x amount : UInt64} (fits : x.toNat + amount.toNat ≤ 2 ^ 48) :
    let missing := (cellsOf w.lru Cache.senderKey x amount).countP Option.isNone
    (missing ≤ sqliteMaxVariableNumber → Unrefused outside (pullSenders x amount) w) ∧
      (¬ missing ≤ sqliteMaxVariableNumber → Refused outside (pullSenders x amount) w) := by
  have agrees := mirrors.coherent.agrees_senders mirrors.below
  have later := (quiet_getBatchLru w ((span x (x + amount)).map Cache.senderKey)).mirrors mirrors
  have cells := alone_getBatchLru outside w ((span x (x + amount)).map Cache.senderKey)
  have asked := length_misses w.lru Cache.senderKey (show x.toNat + amount.toNat < 2 ^ 64 by omega)
  unfold pullSenders getBatchSender putBatchSender
  intro missing
  constructor
  · intro few
    apply (unrefused_getBatchLru _).bind cells.ran
    rw [agrees.split fits, Prog.lift_ok, Prog.bind_ret]
    apply (unrefused_nullifiersIn (asked ▸ few)).bind
      (alone_getBatchedNullifierByIdxs outside later.represents (misses_sorted _ _)).ran
    rw [decodeNullifiers_pick, Prog.lift_ok, Prog.bind_ret]
    apply (unrefused_putBatchLru _).bind rfl
    exact (unrefused_hasNullifier _).bind (alone_hasNullifier outside _ _).ran (unrefused_ret _)
  · intro many
    apply (unrefused_getBatchLru _).refused cells.ran
    rw [agrees.split fits, Prog.lift_ok, Prog.bind_ret]
    exact (refused_nullifiersIn (asked ▸ many)).bind

end Range

/-! ### The whole call -/

section Calls

variable (outside : Outside) {L : Ledger}

/-- The loop over the shards is refused as soon as one of its ranges is. -/
theorem pullShards_bounded {indices : ShardIndex → UInt64} {maxAmount : UInt64}
    (room : ∀ s, L.count s + maxAmount.toNat ≤ 2 ^ 48) {shards : List ShardIndex} {state : PullState}
    {w : World} (mirrors : Mirrors L w)
    (budget : state.receivers.length + state.remain.toNat = maxAmount.toNat) :
    let few := ∀ cells ∈ (shardCells L indices shards state.remain w.lru).1,
      cells.countP Option.isNone + 1 ≤ sqliteMaxVariableNumber
    (few → Unrefused outside (pullShards indices maxAmount shards state) w) ∧
      (¬ few → Refused outside (pullShards indices maxAmount shards state) w) := by
  induction shards generalizing state w with
  | nil => exact ⟨fun _ => unrefused_ret _, fun many => absurd (fun _ => nofun) many⟩
  | cons s shards ih =>
    have looked : Unrefused outside (hasShard s (indices s)) w := unrefused_hasShard _ _
    have asked := hasShard_alone outside mirrors s (indices s)
    unfold pullShards
    by_cases some : (indices s).toNat < L.count s
    · rw [decide_eq_true some] at asked
      have bound := room s
      have fits : (indices s).toNat + state.remain.toNat ≤ 2 ^ 48 := by omega
      have agrees := mirrors.coherent.agrees_receivers mirrors.below s
      have lengths := agrees.length_inPasses fits
      obtain ⟨accepted, refused⟩ := pullReceiversForShard_bounded outside mirrors s fits state.receivers
      obtain ⟨more, ranged⟩ := pullReceiversForShard_alone outside mirrors s fits state.receivers
      have mirrors' := ranged.quiet.mirrors mirrors
      generalize inPasses w.lru (Cache.receiverKey (Cache.shardWord s)) (L.receivers s)
        (indices s) state.remain = chunk at ranged lengths
      change chunk.length = min state.remain.toNat (L.count s - (indices s).toNat) at lengths
      by_cases full : state.remain.toNat ≤ L.count s - (indices s).toNat
      · have reached := budget_filled budget lengths full
        rw [shardCells_last shards w.lru some full]
        simp only [List.forall_mem_singleton]
        refine ⟨fun few => looked.bind asked.ran ((accepted few).bind ranged.ran ?_),
          fun many => looked.refused asked.ran (refused many).bind⟩
        dsimp only
        rw [if_pos reached]
        exact unrefused_ret _
      · have less := Nat.lt_of_not_le full
        obtain ⟨unfilled, left_over, budget'⟩ := budget_unfilled budget lengths less
        obtain ⟨acceptedRest, refusedRest⟩ := @ih
          ⟨state.moreReceivers || more, state.receivers ++ chunk,
            Function.update state.nextIndices s (indices s +
              UInt64.ofNat (state.receivers ++ chunk).length - UInt64.ofNat state.receivers.length),
            state.remain - UInt64.ofNat (L.count s - (indices s).toNat)⟩ _ mirrors' budget'
        rw [shardCells_cons shards w.lru some less]
        simp only [List.forall_mem_cons]
        constructor
        · rintro ⟨few, fewRest⟩
          refine looked.bind asked.ran ((accepted few).bind ranged.ran ?_)
          dsimp only
          rw [if_neg unfilled, left_over]
          exact acceptedRest fewRest
        · intro many
          apply looked.refused asked.ran
          by_cases few : (cellsOf w.lru (Cache.receiverKey (Cache.shardWord s)) (indices s)
              state.remain).countP Option.isNone + 1 ≤ sqliteMaxVariableNumber
          · apply (accepted few).refused ranged.ran
            dsimp only
            rw [if_neg unfilled, left_over]
            exact refusedRest fun fewRest => many ⟨few, fewRest⟩
          · exact (refused few).bind
    · rw [decide_eq_false some] at asked
      obtain ⟨accepted, refused⟩ := ih mirrors budget
      rw [shardCells_skip shards w.lru (Nat.le_of_not_lt some)]
      exact ⟨fun few => looked.bind asked.ran (accepted few),
        fun many => looked.refused asked.ran (refused many)⟩

theorem unrefused_getTotal {α : Type} (f : TotalBytes → α) (w : World) :
    Unrefused outside (getTotalSendersReceivers >>= fun total => (.ret (f total) : Task α)) w := by
  have few : Query.total.variables ≤ sqliteMaxVariableNumber := Nat.zero_le _
  unfold getTotalSendersReceivers fetch
  simp only [Unrefused, perform, Prog.bind_ask, Prog.bind_perform, Prog.run_perform,
    handleBounded_eq few]
  rcases w.handle outside (.sql .total) with ⟨error | total, t⟩
  · rfl
  · by_cases size : total.length = 16
    · simp only [Prog.pure_eq, Prog.bind_ret, dif_pos size]
      rfl
    · simp only [Prog.pure_eq, Prog.bind_ret, dif_neg size]
      rfl

variable {w : World} (mirrors : Mirrors L w)

include mirrors

theorem pullLedgerDiff_bounded {ck : Checkpoint} {maxReceivers maxSenders : UInt64}
    (room : ∀ s, L.count s + maxReceivers.toNat ≤ 2 ^ 48)
    (fits : ck.senderIndex.toNat + maxSenders.toNat ≤ 2 ^ 48) :
    (Bindable L w.lru ck maxReceivers maxSenders →
        Unrefused outside (pullLedgerDiff ck maxReceivers maxSenders) w) ∧
      (¬ Bindable L w.lru ck maxReceivers maxSenders →
        Refused outside (pullLedgerDiff ck maxReceivers maxSenders) w) := by
  have start : (⟨false, [], ck.receiverIndex, maxReceivers⟩ : PullState).receivers.length +
      maxReceivers.toNat = maxReceivers.toNat := Nat.zero_add _
  obtain ⟨last, chunk, looped, -⟩ :=
    pullShards_alone outside room (List.nodup_finRange forestWidth) mirrors start
  obtain ⟨acceptedShards, refusedShards⟩ :=
    @pullShards_bounded P outside L ck.receiverIndex maxReceivers room (List.finRange forestWidth) _ w
      mirrors start
  obtain ⟨more, next, receivers, ran, -⟩ := pullReceivers_alone outside mirrors ck.receiverIndex room
  have mirrors' := ran.quiet.mirrors mirrors
  obtain ⟨acceptedSenders, refusedSenders⟩ := pullSenders_bounded outside mirrors' fits
  obtain ⟨more', ran'⟩ := pullSenders_alone outside mirrors' fits
  have acceptedReceivers : (∀ cells ∈ receiverCells L w.lru ck maxReceivers,
      cells.countP Option.isNone + 1 ≤ sqliteMaxVariableNumber) →
        Unrefused outside (pullReceivers ck.receiverIndex maxReceivers) w :=
    fun few => (acceptedShards few).bind looped.ran (unrefused_ret _)
  unfold pullLedgerDiff
  constructor
  · rintro ⟨few, few'⟩
    refine (acceptedReceivers few).bind ran.ran ?_
    exact (acceptedSenders few').bind ran'.ran (unrefused_getTotal outside _ _)
  · intro many
    by_cases few : ∀ cells ∈ receiverCells L w.lru ck maxReceivers,
        cells.countP Option.isNone + 1 ≤ sqliteMaxVariableNumber
    · refine (acceptedReceivers few).refused ran.ran ?_
      exact (refusedSenders fun few' => many ⟨few, few'⟩).bind
    · apply Refused.bind
      exact (refusedShards few).bind

end Calls

/-! ### Caps that are never refused -/

theorem length_shardCells {L : Ledger} {indices : ShardIndex → UInt64} {shards : List ShardIndex}
    {remain : UInt64} {lru : Lru Cache.LruKeyType Bytes}
    (room : ∀ s, L.count s + remain.toNat ≤ 2 ^ 48) :
    ∀ cells ∈ (shardCells L indices shards remain lru).1, cells.length ≤ remain.toNat := by
  induction shards generalizing remain lru with
  | nil => exact fun _ member => absurd member List.not_mem_nil
  | cons s shards ih =>
    by_cases some : (indices s).toNat < L.count s
    · have bound := room s
      have length := length_cellsOf lru (Cache.receiverKey (Cache.shardWord s))
        (show (indices s).toNat + remain.toNat < 2 ^ 64 by omega)
      by_cases full : remain.toNat ≤ L.count s - (indices s).toNat
      · rw [shardCells_last shards lru some full]
        exact List.forall_mem_singleton.mpr length.le
      · have more := Nat.lt_of_not_le full
        have less : (remain - UInt64.ofNat (L.count s - (indices s).toNat)).toNat =
            remain.toNat - (L.count s - (indices s).toNat) := toNat_sub_ofNat more.le
        rw [shardCells_cons shards lru some more]
        refine List.forall_mem_cons.mpr ⟨length.le, fun cells member => ?_⟩
        have short := ih (room_unfilled room more) cells member
        omega
    · rw [shardCells_skip shards lru (Nat.le_of_not_lt some)]
      exact ih room

theorem bindable_of_few {L : Ledger} (lru : Lru Cache.LruKeyType Bytes) {ck : Checkpoint}
    {maxReceivers maxSenders : UInt64} (room : ∀ s, L.count s + maxReceivers.toNat ≤ 2 ^ 48)
    (fits : ck.senderIndex.toNat + maxSenders.toNat ≤ 2 ^ 48)
    (fewReceivers : maxReceivers.toNat + 1 ≤ sqliteMaxVariableNumber)
    (fewSenders : maxSenders.toNat ≤ sqliteMaxVariableNumber) :
    Bindable L lru ck maxReceivers maxSenders := by
  constructor
  · intro cells member
    have missing : cells.countP Option.isNone ≤ cells.length := List.countP_le_length
    have short := length_shardCells room cells member
    omega
  · have missing : (senderCells L lru ck maxReceivers maxSenders).countP Option.isNone ≤
        (senderCells L lru ck maxReceivers maxSenders).length := List.countP_le_length
    have length : (senderCells L lru ck maxReceivers maxSenders).length = maxSenders.toNat :=
      length_cellsOf _ _ (show ck.senderIndex.toNat + maxSenders.toNat < 2 ^ 64 by omega)
    omega

/-- With the limits of the server no query is refused. -/
theorem pullLedgerDiffImpl_unrefused (outside : Outside) {L : Ledger} {w : World}
    (mirrors : Mirrors L w) {ck : Checkpoint} {receivers senders : UInt64}
    (fits : ck.senderIndex.toNat + min senders.toNat 4096 ≤ 2 ^ 48) :
    (pullLedgerDiffImpl ck receivers senders).run (World.handleBounded outside) w =
      (pullLedgerDiffImpl ck receivers senders).run (World.handle outside) w := by
  have few := toNat_min_maxReceivers receivers
  have few' := toNat_min_maxSenders senders
  have limit : (4096 : Nat) + 1 ≤ sqliteMaxVariableNumber := by decide
  have small : (min receivers maxReceivers).toNat ≤ 4096 := by omega
  have room := mirrors.represents.room small
  have fits : ck.senderIndex.toNat + (min senders maxSenders).toNat ≤ 2 ^ 48 := by omega
  have bindable := bindable_of_few w.lru room fits (by omega) (by omega)
  exact (pullLedgerDiff_bounded outside mirrors room fits).1 bindable

end MantaIndexer
