import MantaIndexer.Mirror.Walking
import MantaIndexer.Mirror.Delivery
import Mathlib.Algebra.Order.BigOperators.Group.List

/-!
The dense form of a response says what the plain form says: whatever runs beside the call, a dense pull
is a plain one whose lists are written as text, and a client reads the same lists from it.
-/

namespace MantaIndexer
open Effects Encoding Collections

section DenseForm

variable [P : Pallet]

/-! ### The size of a page -/

omit P in
theorem splitCached_length {α : Type} [Codec α] {indices : List UInt64} {cells : List (Option Bytes)}
    {values : List α} {queried : List Int}
    (split : splitCached α indices cells = .ok (values, queried)) :
    values.length + queried.length ≤ indices.length := by
  induction indices generalizing cells values queried with
  | nil =>
    cases cells <;> cases split <;> exact Nat.le_refl 0
  | cons i indices ih =>
    cases cells with
    | nil =>
      cases split
      exact Nat.zero_le _
    | cons cell cells =>
      cases cell with
      | none =>
        unfold splitCached at split
        obtain ⟨⟨values, queried⟩, rest, same⟩ := bind_ok split
        cases same
        have fewer := ih rest
        simp only [List.length_cons]
        omega
      | some bytes =>
        unfold splitCached at split
        obtain ⟨value, -, split⟩ := bind_ok split
        obtain ⟨⟨values, queried⟩, rest, same⟩ := bind_ok split
        cases same
        have fewer := ih rest
        simp only [List.length_cons]
        omega

omit P in
theorem decodeRows_length {ρ α β : Type} [Codec α] [Codec β] {index : ρ → Int}
    {first second : ρ → Bytes} {rows : List ρ} {values : List (α × β)}
    {writeBack : List (UInt64 × Bytes)}
    (decoded : decodeRows α β index first second rows = .ok (values, writeBack)) :
    values.length = rows.length := by
  induction rows generalizing values writeBack with
  | nil =>
    cases decoded
    rfl
  | cons row rows ih =>
    unfold decodeRows at decoded
    obtain ⟨a, -, decoded⟩ := bind_ok decoded
    obtain ⟨b, -, decoded⟩ := bind_ok decoded
    obtain ⟨⟨rest, others⟩, later, same⟩ := bind_ok decoded
    cases same
    rw [List.length_cons, List.length_cons, ih later]

/-- No index is stored twice, so a query for some indices returns no more rows than it names. -/
theorem Represents.length_nullifiersIn {db : Database} {L : Ledger} (holds : Represents db L)
    (indices : List Int) : (db.nullifiersIn indices).length ≤ indices.length := by
  have stored : (db.nullifier.map Nullifier.idx).Nodup := by
    rw [(holds.nullifiers.map Nullifier.idx).nodup_iff, rows_keys nullifierRow_numbered]
    exact (List.nodup_range).map Nat.cast_injective
  have found : ((db.nullifiersIn indices).map Nullifier.idx).Nodup := by
    rw [Database.nullifiersIn, ((List.perm_insertionSort _ _).map Nullifier.idx).nodup_iff]
    exact stored.sublist (List.filter_sublist.map _)
  have asked : (db.nullifiersIn indices).map Nullifier.idx ⊆ indices := by
    intro i member
    obtain ⟨row, there, rfl⟩ := List.mem_map.mp member
    rw [Database.nullifiersIn, List.mem_insertionSort, List.mem_filter, decide_eq_true_eq] at there
    exact there.2
  have fewer := (List.subperm_of_subset found asked).length_le
  rwa [List.length_map] at fewer

theorem length_gathered_le (view : ShardIndex → Ledger) (indices : ShardIndex → UInt64)
    (budget : Nat) : (gathered view indices allShards budget).length ≤ budget := by
  rw [gathered, List.length_flatMap]
  calc _ ≤ (allShards.map (taken (left view indices) allShards budget)).sum := by
        refine List.sum_le_sum fun s _ => ?_
        rw [length_page]
        exact Nat.min_le_left _ _
    _ = min budget (allShards.map (left view indices)).sum := sum_taken (List.nodup_finRange _) _ _
    _ ≤ budget := Nat.min_le_left _ _

section Calls

variable {rely : World → World → Prop} {w : World} {inv : Database → Prop} {L : Ledger}
  (grows : ∀ w v, rely w v → Grows inv w v) (follows : Follows inv L w)

include grows follows

/-- Whatever index a client sends, it gets no more senders than it asked for. -/
theorem pullSenders_short {x amount : UInt64} :
    Pulls rely (fun out _ => ∀ result, out = .ok result → result.2.2.length ≤ amount.toNat)
      (pullSenders x amount) w := by
  have spanned : (span x (x + amount)).length ≤ amount.toNat := by
    have sum := UInt64.toNat_add x amount
    have bound := x.toNat_lt
    have bound' := amount.toNat_lt
    rw [span, List.length_map, List.length_range']
    omega
  unfold pullSenders getBatchSender putBatchSender
  refine pulls_getBatchLru fun t step => ?_
  obtain ⟨M, -, later⟩ := (grows w t step).later follows
  have later := (quiet_getBatchLru t ((span x (x + amount)).map Cache.senderKey)).follows later
  cases split : splitCached Sender (span x (x + amount))
      (((span x (x + amount)).map Cache.senderKey).map t.lru.lookup) with
  | error error =>
    intro u step result same
    cases same
  | ok parts =>
    obtain ⟨hits, queried⟩ := parts
    have fewer := splitCached_length split
    rw [Prog.lift_ok, Prog.bind_ret]
    -- The rows of the query, whenever it is executed.
    have rest : ∀ u rows, rows.length ≤ queried.length → Pulls rely
        (fun out _ => ∀ result, out = .ok result → result.2.2.length ≤ amount.toNat) (do
          let decoded ← Prog.lift (decodeNullifiers rows)
          perform (.putBatchLru (decoded.2.map fun item => (Cache.senderKey item.1, item.2)))
          return (← hasNullifier (x + amount), x + amount, hits ++ decoded.1)) u := by
      intro u rows few
      cases decoding : decodeNullifiers rows with
      | error error =>
        intro u step result same
        cases same
      | ok decoded =>
        obtain ⟨values, writeBack⟩ := decoded
        have counted := decodeRows_length decoding
        rw [Prog.lift_ok, Prog.bind_ret]
        refine pulls_putBatchLru fun v step => pulls_hasNullifier fun v' step' => ?_
        rintro v'' step'' result same
        cases same
        show (hits ++ values).length ≤ _
        rw [List.length_append]
        omega
    cases queried with
    | nil => exact rest _ [] (Nat.le_refl 0)
    | cons i queried =>
      refine pulls_sql fun u step => ?_
      obtain ⟨N, -, later⟩ := (grows _ u step).later later
      exact rest u _ (later.represents.length_nullifiersIn _)

include follows in
omit grows in
/-- A pull answers with no more receivers and no more senders than its limits say. -/
theorem pullLedgerDiff_short {ck : Checkpoint} {maxReceivers maxSenders : UInt64}
    (limit : maxReceivers.toNat ≤ 4096) :
    Pulls (Grows inv) (fun out _ => ∀ response next, out = .ok (response, next) →
        response.receivers.length ≤ maxReceivers.toNat ∧ response.senders.length ≤ maxSenders.toNat)
      (pullLedgerDiff ck maxReceivers maxSenders) w := by
  unfold pullLedgerDiff
  rw [← Profile.pullReceivers_release]
  apply Ensures.bind (Grows.refl inv)
  refine (pullReceivers_pulls (Grows.refl inv) (fun _ _ => id) follows (room_of_le inv limit)).mono ?_
  rintro out t ⟨O, view, chunk, -, followsO, -, chunks, rfl⟩
  have receivers := length_gathered_le view ck.receiverIndex maxReceivers.toNat
  rw [← chunks.perm.length_eq] at receivers
  apply Ensures.bind (Grows.refl inv)
  apply (pullSenders_short (fun _ _ => id) followsO).mono
  intro out u short
  cases out with
  | error error =>
    intro v step response next same
    cases same
  | ok pulled =>
    have senders := short pulled rfl
    refine pulls_getTotal fun v step => Ensures.lift_map ?_
    intro v' step response next same
    obtain ⟨total, -, same⟩ := map_ok same
    cases same
    exact ⟨receivers, senders⟩

end Calls

/-! ### Both forms -/

section Forms

variable [T : Transport]

/-- The dense form of a plain response. -/
def PullResponse.dense (response : PullResponse) (next : Checkpoint) : DensePullResponse where
  shouldContinue := response.shouldContinue
  receivers := T.base64 (T.encodeVec response.receivers)
  senders := T.base64 (T.encodeVec response.senders)
  sendersReceiversTotal := response.sendersReceiversTotal
  nextCheckpoint := some next

theorem densePullLedgerDiff_eq (ck : Checkpoint) (receivers senders : UInt64) :
    densePullLedgerDiff ck receivers senders =
      pullLedgerDiffImpl ck receivers senders >>= fun result => .ret (result.1.dense result.2) := rfl

theorem PullResponse.receiverChunk_dense {response : PullResponse} {next : Checkpoint}
    (short : response.receivers.length < 2 ^ 32) :
    (response.dense next).receiverChunk = some response.receivers := by
  simp [DensePullResponse.receiverChunk, PullResponse.dense, T.fromBase64_base64,
    T.decodeVec_encodeVec short]

theorem PullResponse.senderChunk_dense {response : PullResponse} {next : Checkpoint}
    (short : response.senders.length < 2 ^ 32) :
    (response.dense next).senderChunk = some response.senders := by
  simp [DensePullResponse.senderChunk, PullResponse.dense, T.fromBase64_base64,
    T.decodeVec_encodeVec short]

/-- What a client reads from the dense response is the plain one. -/
structure DensePullResponse.Carries (data : DensePullResponse) (response : PullResponse)
    (next : Checkpoint) : Prop where
  receivers : data.receiverChunk = some response.receivers
  senders : data.senderChunk = some response.senders
  shouldContinue : data.shouldContinue = response.shouldContinue
  sendersReceiversTotal : data.sendersReceiversTotal = response.sendersReceiversTotal
  nextCheckpoint : data.nextCheckpoint = some next

theorem PullResponse.dense_carries {response : PullResponse} {next : Checkpoint}
    (receivers : response.receivers.length ≤ 4096) (senders : response.senders.length ≤ 4096) :
    (response.dense next).Carries response next :=
  ⟨receiverChunk_dense (by omega), senderChunk_dense (by omega), rfl, rfl, rfl⟩

end Forms

end DenseForm

/-- Beside any number of commits and of other pulls, and for whatever checkpoint and limits a client
sends: a dense pull does what a plain one does, and ends with its error, or with a response from which
the client reads the plain one, of at most 4096 receivers and 4096 senders. -/
theorem dense_agrees [Pallet] [Transport] {w : World} {L : Ledger} (holds : Represents w.db L)
    (coherent : Coherent L w.lru) {ck : Checkpoint} {receivers senders : UInt64}
    {history : List (Event World Op)} {out : Except Error DensePullResponse} {t : World}
    (run : Exec Handles Extends (densePullLedgerDiff ck receivers senders) w history out t) :
    (∃ error, out = .error error ∧
        Exec Handles Extends (pullLedgerDiffImpl ck receivers senders) w history (.error error) t) ∨
      ∃ data response next, out = .ok data ∧ data.Carries response next ∧
        Exec Handles Extends (pullLedgerDiffImpl ck receivers senders) w history
          (.ok (response, next)) t ∧
        response.receivers.length ≤ min receivers.toNat 4096 ∧
        response.senders.length ≤ min senders.toNat 4096 := by
  rw [densePullLedgerDiff_eq] at run
  obtain ⟨plain, ran, rfl⟩ := run.of_map
  cases plain with
  | error error => exact .inl ⟨error, rfl, ran⟩
  | ok result =>
    obtain ⟨response, next⟩ := result
    have follows : Follows (fun _ => True) L w := ⟨⟨holds, coherent⟩, trivial⟩
    have limit := toNat_min_maxReceivers receivers
    have limit' := toNat_min_maxSenders senders
    have short : Pulls Extends _ (pullLedgerDiffImpl ck receivers senders) w :=
      pullLedgerDiff_short follows (by omega)
    obtain ⟨few, few'⟩ := short.exec (Grows.refl _) Grows.trans (fun _ _ => id) ran response next rfl
    rw [limit] at few
    rw [limit'] at few'
    have carries : (response.dense next).Carries response next :=
      PullResponse.dense_carries (by omega) (by omega)
    exact .inr ⟨_, response, next, rfl, carries, ran, few, few'⟩

section Sample

attribute [local instance] samplePallet sampleTransport

/-- A dense pull from the beginning, over tables that the syncing task left. -/
theorem dense_agrees_synced : ∃ history data response next t,
    Exec Handles Extends (densePullLedgerDiff Checkpoint.default 16 16) sampleSynced.world history
      (.ok data) t ∧ data.Carries response next ∧ response.receivers.length = 1 ∧
    Exec Handles Extends (pullLedgerDiffImpl Checkpoint.default 16 16) sampleSynced.world history
      (.ok (response, next)) t := by
  obtain ⟨found, after, answered, one, -⟩ := sampleAnswer_ok
  have ran : ∃ history, Exec Handles Extends (densePullLedgerDiff Checkpoint.default 16 16)
      sampleSynced.world history _ _ :=
    Prog.run_exec (fun w op => Handles.handled w op sampleOutside) _ _
  have dense : ((densePullLedgerDiff Checkpoint.default 16 16).run (World.handle sampleOutside)
      sampleSynced.world).1 = .ok (found.dense after) := by
    unfold sampleAnswer at answered
    rw [densePullLedgerDiff_eq, Prog.run_bind]
    generalize (pullLedgerDiffImpl Checkpoint.default 16 16).run (World.handle sampleOutside)
      sampleSynced.world = result at answered
    obtain ⟨answer, v⟩ := result
    cases answered
    rfl
  obtain ⟨history, run⟩ := ran
  rw [dense] at run
  rcases dense_agrees sampleSynced_mirrors.represents sampleSynced_mirrors.coherent run with
    ⟨error, failed, -⟩ | ⟨data, response, next, same, carries, plain, -⟩
  · cases failed
  · cases same
    have read := carries.receivers
    rw [PullResponse.receiverChunk_dense (by omega)] at read
    rw [Option.some.inj read] at one
    exact ⟨history, _, response, next, _, run, carries, one, plain⟩

end Sample

end MantaIndexer
