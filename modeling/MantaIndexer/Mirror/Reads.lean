import MantaIndexer.Mirror.Growth

/-!
A pull with any arguments, whether its statements fail or not, leaves the database alone and writes
only entries of committed rows to the cache.
-/

namespace MantaIndexer
open Effects Encoding Collections

variable [P : Pallet]

def Mirrored (w : World) : Prop := ∃ L, Mirrors L w

theorem Grows.mirrored {inv : Database → Prop} {w v : World} (grows : Grows inv w v)
    (mirrored : Mirrored w) : Mirrored v := by
  obtain ⟨L, mirrors⟩ := mirrored
  obtain ⟨⟨M, -, later⟩, -⟩ := grows L mirrors
  exact ⟨M, later⟩

theorem Quiet.mirrored {w v : World} (quiet : Quiet w v) (mirrored : Mirrored w) : Mirrored v := by
  obtain ⟨L, mirrors⟩ := mirrored
  exact ⟨L, quiet.mirrors mirrors⟩

/-- Every operation of the task is quiet while the others only add to the ledger. -/
abbrev Reads {α : Type} (serves : Serves) (rely : World → World → Prop) (p : Task α) (w : World) :
    Prop :=
  Ensures (Performs serves) rely (fun w _ v => Quiet w v) (fun _ t => Mirrored t) p w

/-! ### Rows of the database as cache entries -/

theorem Represents.mem_shardsIn {db : Database} {L : Ledger} (h : Represents db L)
    {s : ShardIndex} {indices : List Int} {row : Shard} (member : row ∈ db.shardsIn s indices) :
    ∃ i receiver, (L.receivers s)[i]? = some receiver ∧ row = shardRow s i receiver := by
  obtain ⟨stored, chosen⟩ := List.mem_filter.mp ((List.mem_insertionSort _).mp member)
  simp only [decide_eq_true_eq] at chosen
  have ofShard : row ∈ db.rowsOf s := List.mem_filter.mpr ⟨stored, by simp [chosen.1]⟩
  exact mem_rows.mp ((h.shards s).mem_iff.mp ofShard)

theorem Represents.mem_nullifiersIn {db : Database} {L : Ledger} (h : Represents db L)
    {indices : List Int} {row : Nullifier} (member : row ∈ db.nullifiersIn indices) :
    ∃ i sender, L.senders[i]? = some sender ∧ row = nullifierRow i sender := by
  obtain ⟨stored, -⟩ := List.mem_filter.mp ((List.mem_insertionSort _).mp member)
  exact mem_rows.mp (h.nullifiers.mem_iff.mp stored)

omit P in
theorem decodeRows_writeBack {ρ α β : Type} [Codec α] [Codec β] {index : ρ → Int}
    {first second : ρ → Bytes} {row : Nat → α × β → ρ} {values : List (α × β)}
    (numbered : ∀ i value, index (row i value) = i)
    (columns : ∀ i value, first (row i value) = encode value.1 ∧ second (row i value) = encode value.2)
    {rows : List ρ} (stored : ∀ r ∈ rows, ∃ i value, values[i]? = some value ∧ r = row i value)
    {decoded : List (α × β)} {batch : List (UInt64 × Bytes)}
    (h : decodeRows α β index first second rows = .ok (decoded, batch)) :
    ∀ item ∈ batch, ∃ i value, values[i]? = some value ∧ item = (UInt64.ofNat i, encode value) := by
  induction rows generalizing decoded batch with
  | nil =>
    cases h
    intro item member
    cases member
  | cons r rows ih =>
    obtain ⟨i, value, there, rfl⟩ := stored r List.mem_cons_self
    simp only [decodeRows, numbered, (columns i value).1, (columns i value).2, decodeOrFail_encode,
      ofInt_natCast] at h
    cases tail : decodeRows α β index first second rows with
    | error error =>
      rw [tail] at h
      cases h
    | ok rest =>
      rw [tail] at h
      cases h
      rw [List.forall_mem_cons]
      exact ⟨⟨i, value, there, rfl⟩, ih (fun r member => stored r (List.mem_cons_of_mem _ member)) tail⟩

/-! ### The operations -/

section Rules

variable {serves : Serves} {rely : World → World → Prop} {inv : Database → Prop} {α β : Type}
  {w : World} (refl : ∀ w, rely w w) (grows : ∀ w v, rely w v → Grows inv w v)
  (mirrored : Mirrored w)

include grows mirrored

theorem reads_ret (value : α) : Reads serves rely (.ret value) w :=
  fun t step => (grows w t step).mirrored mirrored

theorem reads_fail (error : Error) : Reads serves rely (.fail error : Task α) w :=
  fun t step => (grows w t step).mirrored mirrored

theorem reads_lift {result : Except Error α} {f : α → Task β}
    (h : ∀ value, result = .ok value → Reads serves rely (f value) w) :
    Reads serves rely (Prog.lift result >>= f) w := by
  cases result with
  | error error => exact reads_fail grows mirrored error
  | ok value => exact h value rfl

theorem reads_sql {query : Query} (pure : ∀ w : World, (w.execute query).2 = w)
    {next : Except SqlxError query.Answer → Task α}
    (h : ∀ t r, Mirrored t → (∀ answer, r = .ok answer → (t.execute query).1 = .ok answer) →
      Reads serves rely (next r) t) : Reads serves rely (.perform (.sql query) next) w := by
  intro t step r u performed
  have there := (grows w t step).mirrored mirrored
  cases performed with
  | handled outside answers =>
    simp only [World.handle, pure]
    exact ⟨Quiet.refl t, h t _ there fun _ same => same⟩
  | failed query error =>
    exact ⟨Quiet.refl t, h t _ there fun answer same => nomatch same⟩

theorem reads_found {query : Query} (pure : ∀ w : World, (w.execute query).2 = w)
    {f : Bool → Task α} (h : ∀ b t, Mirrored t → Reads serves rely (f b) t) :
    Reads serves rely (found query >>= f) w := by
  refine reads_sql grows mirrored pure fun t r there _ => ?_
  cases r with
  | ok answer => exact h true t there
  | error error => cases error <;> exact h false t there

theorem reads_getBatchLru {keys : List Cache.LruKeyType} {f : List (Option Bytes) → Task α}
    (h : ∀ cached t, Mirrored t → Reads serves rely (f cached) t) :
    Reads serves rely ((perform (.getBatchLru keys) : Task _) >>= f) w := by
  intro t step r u performed
  have there := (grows w t step).mirrored mirrored
  cases performed
  have quiet := quiet_getBatchLru t keys
  exact ⟨quiet, h _ _ (quiet.mirrored there)⟩

omit mirrored in
theorem reads_putBatchLru {L : Ledger} (mirrors : Mirrors L w)
    {batch : List (Cache.LruKeyType × Bytes)} (cached : ∀ entry ∈ batch, Caches L entry)
    {f : Unit → Task α} (h : ∀ t, Mirrored t → Reads serves rely (f ()) t) :
    Reads serves rely ((perform (.putBatchLru batch) : Task _) >>= f) w := by
  intro t step r u performed
  obtain ⟨⟨M, le, later⟩, -⟩ := grows w t step L mirrors
  cases performed
  have quiet := quiet_putBatchLru later fun entry member => (cached entry member).mono le
  exact ⟨quiet, h _ ⟨M, quiet.mirrors later⟩⟩

theorem reads_getBatchedShardsByIdxs {s : ShardIndex} {indices : List Int}
    {f : List Shard → Task α}
    (h : ∀ t L rows, Mirrors L t → (∀ row ∈ rows, ∃ i receiver,
      (L.receivers s)[i]? = some receiver ∧ row = shardRow s i receiver) →
      Reads serves rely (f rows) t) :
    Reads serves rely (getBatchedShardsByIdxs s indices >>= f) w := by
  obtain ⟨L, mirrors⟩ := mirrored
  unfold getBatchedShardsByIdxs
  split
  · exact h w L [] mirrors fun row member => nomatch member
  · refine reads_sql grows ⟨L, mirrors⟩ (fun _ => rfl) fun t r there answered => ?_
    cases r with
    | error error => exact reads_fail grows there _
    | ok rows =>
      obtain ⟨M, later⟩ := there
      cases answered rows rfl
      exact h t M _ later fun row member => later.represents.mem_shardsIn member

theorem reads_getBatchedNullifierByIdxs {indices : List Int} {f : List Nullifier → Task α}
    (h : ∀ t L rows, Mirrors L t → (∀ row ∈ rows, ∃ i sender,
      L.senders[i]? = some sender ∧ row = nullifierRow i sender) →
      Reads serves rely (f rows) t) :
    Reads serves rely (getBatchedNullifierByIdxs indices >>= f) w := by
  obtain ⟨L, mirrors⟩ := mirrored
  unfold getBatchedNullifierByIdxs
  split
  · exact h w L [] mirrors fun row member => nomatch member
  · refine reads_sql grows ⟨L, mirrors⟩ (fun _ => rfl) fun t r there answered => ?_
    cases r with
    | error error => exact reads_fail grows there _
    | ok rows =>
      obtain ⟨M, later⟩ := there
      cases answered rows rfl
      exact h t M _ later fun row member => later.represents.mem_nullifiersIn member

/-! ### The calls -/

theorem pullReceiversForShard_reads {s : ShardIndex} {x amount : UInt64}
    {before : List Receiver} : Reads serves rely (pullReceiversForShard s x amount before) w := by
  unfold pullReceiversForShard getBatchShardReceiver putBatchReceiver
  refine reads_getBatchLru grows mirrored fun cached t there => ?_
  refine reads_lift grows there fun split _ => ?_
  refine reads_getBatchedShardsByIdxs grows there fun u L rows mirrors stored => ?_
  refine reads_lift grows ⟨L, mirrors⟩ fun decoded same => ?_
  have batch := decodeRows_writeBack (shardRow_numbered s) (fun _ _ => ⟨rfl, rfl⟩) stored same
  refine reads_putBatchLru grows mirrors ?_ fun v there => ?_
  · intro entry member
    obtain ⟨item, written, rfl⟩ := List.mem_map.mp member
    obtain ⟨i, receiver, there, rfl⟩ := batch item written
    exact .receiver there
  · split
    · exact reads_found grows there (fun _ => rfl) fun b t there => reads_ret grows there _
    · exact reads_ret grows there _

theorem pullSenders_reads {x amount : UInt64} : Reads serves rely (pullSenders x amount) w := by
  unfold pullSenders getBatchSender putBatchSender
  refine reads_getBatchLru grows mirrored fun cached t there => ?_
  refine reads_lift grows there fun split _ => ?_
  refine reads_getBatchedNullifierByIdxs grows there fun u L rows mirrors stored => ?_
  refine reads_lift grows ⟨L, mirrors⟩ fun decoded same => ?_
  have batch := decodeRows_writeBack nullifierRow_numbered (fun _ _ => ⟨rfl, rfl⟩) stored same
  refine reads_putBatchLru grows mirrors ?_ fun v there => ?_
  · intro entry member
    obtain ⟨item, written, rfl⟩ := List.mem_map.mp member
    obtain ⟨i, sender, there, rfl⟩ := batch item written
    exact .sender there
  · exact reads_found grows there (fun _ => rfl) fun b t there => reads_ret grows there _

include refl

omit mirrored in
theorem reads_bind {p : Task α} {f : α → Task β} (first : Reads serves rely p w)
    (h : ∀ value t, Mirrored t → Reads serves rely (f value) t) :
    Reads serves rely (p >>= f) w := by
  refine Ensures.bind refl (first.mono ?_)
  intro out t there
  cases out with
  | ok value => exact h value t there
  | error error => exact fun u step => (grows t u step).mirrored there

theorem pullShards_reads {indices : ShardIndex → UInt64} {maxAmount : UInt64}
    {shards : List ShardIndex} {state : PullState} :
    Reads serves rely (pullShards indices maxAmount shards state) w := by
  induction shards generalizing state w with
  | nil => exact reads_ret grows mirrored _
  | cons s shards ih =>
    unfold pullShards
    refine reads_found grows mirrored (fun _ => rfl) fun b t there => ?_
    cases b with
    | false => exact ih there
    | true =>
      refine reads_bind refl grows (pullReceiversForShard_reads grows there) fun result u there => ?_
      simp only
      split
      · exact reads_ret grows there _
      · exact ih there

theorem pullLedgerDiff_reads {ck : Checkpoint} {maxReceivers maxSenders : UInt64} :
    Reads serves rely (pullLedgerDiff ck maxReceivers maxSenders) w := by
  unfold pullLedgerDiff pullReceivers
  refine reads_bind refl grows ?_ fun result t there => ?_
  · refine reads_bind refl grows (pullShards_reads refl grows mirrored) fun state t there => ?_
    exact reads_ret grows there _
  refine reads_bind refl grows (pullSenders_reads grows there) fun result u there => ?_
  refine reads_bind refl grows ?_ fun total v there => reads_ret grows there _
  refine reads_sql grows there (fun _ => rfl) fun v r there _ => ?_
  cases r with
  | error error => exact reads_fail grows there _
  | ok total =>
    show Reads serves rely (if h : total.length = 16 then _ else _) v
    split
    · exact reads_ret grows there _
    · exact reads_fail grows there _

end Rules

end MantaIndexer
