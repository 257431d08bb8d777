import MantaIndexer.Indexer.Sync
import MantaIndexer.Mirror.Aliases
import MantaIndexer.Mirror.Greedy

/-!
The limits of a request. `synchronize_ledger` sends the limit of the senders before that of the
receivers; the method of the server takes them in the other order.
-/

namespace MantaIndexer
open Effects Encoding Collections

section Limits

variable [P : Pallet]

/-- The requests are answered by an indexer's own server. -/
def Outside.indexer (outside : Outside) (server : World) : Outside where
  pullLedgerDiff checkpoint second third :=
    ((MantaPayIndexerServer.pullLedgerDiff checkpoint second third).run (World.handle outside)
      server).1.mapError fun _ => .jsonRpsee
  hashOrder := outside.hashOrder
  perm := outside.perm

/-- The response holds no more senders and no more receivers than `synchronize_ledger` was asked
for. -/
def WithinLimits (outside : Outside) (server client : World) (ck : Checkpoint)
    (maxSenderCount maxReceiverCount : UInt64) : Prop :=
  ∀ response, ((synchronizeLedger ck maxSenderCount maxReceiverCount).run
      (World.handle (outside.indexer server)) client).1 = .ok response →
    response.senders.length ≤ min maxSenderCount.toNat 4096 ∧
      response.receivers.length ≤ min maxReceiverCount.toNat 4096

/-- The indices of a range of senders that are cached or stored. -/
def findable (w : World) (x amount : UInt64) : Nat :=
  (List.range' x.toNat ((x + amount).toNat - x.toNat)).countP fun i =>
    (w.lru.lookup (Cache.senderKey (UInt64.ofNat i))).isSome || (w.db.nullifierAt i).isSome

/-- There is no total to answer with, or each limit also covers what the other one lets through. -/
def LimitsFit (w : World) (ck : Checkpoint) (maxSenderCount maxReceiverCount : UInt64) : Prop :=
  (∀ total, totalOf w.db ≠ .ok total) ∨
    findable w ck.senderIndex (min maxReceiverCount maxReceivers) ≤ min maxSenderCount.toNat 4096 ∧
      min (min maxSenderCount.toNat 4096) (allShards.map (unpulled w.db ck.receiverIndex)).sum ≤
        min maxReceiverCount.toNat 4096

variable {w v : World} {L : Ledger}

theorem synchronizeLedger_run (outside : Outside) (client : World) (ck : Checkpoint)
    (maxSenderCount maxReceiverCount : UInt64) :
    ((synchronizeLedger ck maxSenderCount maxReceiverCount).run (World.handle outside) client).1 =
      outside.pullLedgerDiff ck (min maxSenderCount maxSenders)
        (min maxReceiverCount maxReceivers) := by
  unfold synchronizeLedger
  simp only [perform, Prog.bind_ask, Prog.run_perform, World.handle]
  cases outside.pullLedgerDiff ck (min maxSenderCount maxSenders) (min maxReceiverCount maxReceivers) with
  | error error => rfl
  | ok response => rfl

theorem pullLedgerDiff_server (outside : Outside) (server : World) (ck : Checkpoint)
    (second third : UInt64) :
    (outside.indexer server).pullLedgerDiff ck second third =
      (((pullLedgerDiff ck (min second maxReceivers) (min third maxSenders)).run
        (World.handle outside) server).1.map Prod.fst).mapError fun _ => .jsonRpsee := by
  unfold Outside.indexer MantaPayIndexerServer.pullLedgerDiff pullLedgerDiffImpl
  dsimp only
  rw [Prog.run_bind]
  generalize (pullLedgerDiff ck (min second maxReceivers) (min third maxSenders)).run
    (World.handle outside) server = out
  obtain ⟨outcome, v⟩ := out
  cases outcome with
  | error error => rfl
  | ok result => rfl

/-- The pull of the receivers puts no sender into the cache. -/
theorem cached_before (mirrors : Mirrors L w) {indices : ShardIndex → UInt64} {maxAmount : UInt64}
    (limit : maxAmount.toNat ≤ 4096) {outside : Outside}
    {pulled : Bool × (ShardIndex → UInt64) × List Receiver}
    (ran : (pullReceivers indices maxAmount).run (World.handle outside) w = (.ok pulled, v))
    {i : UInt64} (hit : (v.lru.lookup (Cache.senderKey i)).isSome = true) :
    (w.lru.lookup (Cache.senderKey i)).isSome = true := by
  obtain ⟨more, next, receivers, alone, -⟩ :=
    pullReceivers_alone outside mirrors indices (mirrors.represents.room limit)
  have same := alone.ran
  rw [ran] at same
  cases same
  by_contra absent
  have without : Without {Cache.senderKey i} w.lru := by
    rintro ⟨key, bytes⟩ member rfl
    exact absent (Option.isSome_iff_exists.mpr ⟨bytes, Lru.lookup_eq_some.mpr member⟩)
  obtain ⟨bytes, content⟩ := Option.isSome_iff_exists.mp hit
  exact without.shardCells mirrors.below (fun s j => Cache.receiverKey_ne_senderKey _ j i) _
    (Lru.lookup_eq_some.mp content) rfl

section Findable

variable (holds : Represents w.db L) (before : ∀ i,
  (v.lru.lookup (Cache.senderKey i)).isSome = true → (w.lru.lookup (Cache.senderKey i)).isSome = true)
  (x amount : UInt64)

include holds

theorem stored_isSome (i : Nat) : (w.db.nullifierAt i).isSome = (L.senders[i]?).isSome := by
  rw [nullifierAt_rows holds.nullifiers, Option.isSome_map]

include before in
theorem served_le_findable :
    (served v.lru L.senders x.toNat ((x + amount).toNat - x.toNat)).length ≤ findable w x amount := by
  rw [served, List.length_filterMap_eq_countP, findable]
  apply List.countP_mono_left
  intro i _ found
  rw [Bool.or_eq_true, stored_isSome holds]
  unfold servedAt at found
  split at found
  · rename_i hit
    exact .inl (before _ hit)
  · exact .inr found

theorem findable_le_served (coherent : Coherent L w.lru)
    (unaliased : x.toNat + amount.toNat < 2 ^ 64 → ¬ Aliased w.lru x amount) :
    findable w x amount ≤
      (served v.lru L.senders x.toNat ((x + amount).toNat - x.toNat)).length := by
  have few := holds.below.2
  rw [served, List.length_filterMap_eq_countP, findable]
  apply List.countP_mono_left
  intro i member found
  have range := List.mem_range'_1.mp member
  have sum := UInt64.toNat_add x amount
  have bound := x.toNat_lt
  have bound' := amount.toNat_lt
  have inside : x.toNat + amount.toNat < 2 ^ 64 := by omega
  have last : i < x.toNat + amount.toNat := by omega
  rw [Bool.or_eq_true, stored_isSome holds] at found
  -- Below 2^48 what is cached is stored, and past it nothing in the range is cached.
  have stored : (L.senders[i]?).isSome = true := by
    rcases found with hit | stored
    · have small : i < 2 ^ 48 := by
        by_contra large
        exact unaliased inside ⟨i, by omega, range.1, last, hit⟩
      obtain ⟨bytes, content⟩ := Option.isSome_iff_exists.mp hit
      obtain ⟨sender, there, -⟩ := coherent.lookup_senderKey (by omega) content
      rw [toNat_ofNat (by omega), Nat.mod_eq_of_lt small] at there
      rw [there]
      rfl
    · exact stored
  have small : i < L.senders.length := by
    rw [isSome_getElem?] at stored
    exact stored
  unfold servedAt
  split
  · rwa [Nat.mod_eq_of_lt (by omega)]
  · exact stored

end Findable

end Limits

/-- The limits reach the right halves of the response when each of them also covers what the other
one lets through, and only then, unless keys past 2^48 are cached: what the cache finds there is up
to the receivers pulled before. -/
theorem limits_reach_halves [Pallet] {server : World} {L : Ledger} (holds : Represents server.db L)
    (coherent : Coherent L server.lru) (client : World) (ck : Checkpoint)
    (maxSenderCount maxReceiverCount : UInt64) (outside : Outside) :
    (LimitsFit server ck maxSenderCount maxReceiverCount →
      WithinLimits outside server client ck maxSenderCount maxReceiverCount) ∧
    ((ck.senderIndex.toNat + min maxReceiverCount.toNat 4096 < 2 ^ 64 →
        ¬ Aliased server.lru ck.senderIndex (min maxReceiverCount maxReceivers)) →
      WithinLimits outside server client ck maxSenderCount maxReceiverCount →
      LimitsFit server ck maxSenderCount maxReceiverCount) := by
  have mirrors : Mirrors L server := ⟨holds, coherent⟩
  have first : (min (min maxSenderCount maxSenders) maxReceivers).toNat =
      min maxSenderCount.toNat 4096 := by
    rw [toNat_min_maxReceivers, toNat_min_maxSenders]
    omega
  have second : min (min maxReceiverCount maxReceivers) maxSenders =
      min maxReceiverCount maxReceivers := by
    apply UInt64.toNat.inj
    rw [toNat_min_maxSenders, toNat_min_maxReceivers]
    omega
  have limit : (min (min maxSenderCount maxSenders) maxReceivers).toNat ≤ 4096 := by omega
  obtain ⟨chunk, v, senders, ran, chunks, perm, answer⟩ :=
    pullLedgerDiff_serves mirrors ck (min (min maxReceiverCount maxReceivers) maxSenders)
      (holds.room limit) outside
  have before := fun i => cached_before (i := i) mirrors limit ran
  have receivers := chunks.perm.length_eq
  rw [length_gathered, ← holds.unpulled, first] at receivers
  have sent := perm.length_eq
  rw [second] at sent
  have most := served_le_findable holds before ck.senderIndex (min maxReceiverCount maxReceivers)
  unfold WithinLimits LimitsFit
  rw [synchronizeLedger_run, pullLedgerDiff_server, answer]
  cases total : totalOf server.db with
  | error error => exact ⟨fun _ => nofun, fun _ _ => .inl nofun⟩
  | ok bytes =>
    constructor
    · rintro fit response same
      cases same
      rcases fit with none | ⟨fewSenders, fewReceivers⟩
      · exact absurd rfl (none bytes)
      · exact ⟨(sent.trans_le most).trans fewSenders, receivers.trans_le fewReceivers⟩
    · intro unaliased within
      rw [← toNat_min_maxReceivers] at unaliased
      have least := findable_le_served (v := v) holds ck.senderIndex
        (min maxReceiverCount maxReceivers) coherent unaliased
      obtain ⟨fewSenders, fewReceivers⟩ := within _ rfl
      exact .inr ⟨least.trans (sent.symm.trans_le fewSenders), receivers.symm.trans_le fewReceivers⟩

section Sample

attribute [local instance] samplePallet

/-- With equal limits the exchange does no harm: both receivers are sent, and no sender. -/
theorem limits_reach_halves_equal :
    ((synchronizeLedger Checkpoint.default 2 2).run
      (World.handle (Outside.offline.indexer sampleTwoFilled)) sampleTwoFilled).1.map
        (fun response => (response.senders.length, response.receivers.length)) = .ok (0, 2) ∧
    LimitsFit sampleTwoFilled Checkpoint.default 2 2 ∧
    WithinLimits Outside.offline sampleTwoFilled sampleTwoFilled Checkpoint.default 2 2 := by
  have fits : LimitsFit sampleTwoFilled Checkpoint.default 2 2 := .inr (by decide +kernel)
  have reach := limits_reach_halves sampleTwoFilled_mirrors.represents
    sampleTwoFilled_mirrors.coherent sampleTwoFilled Checkpoint.default 2 2 Outside.offline
  exact ⟨by decide +kernel, fits, reach.1 fits⟩

/-- Two senders and one receiver are asked for; two receivers are sent. -/
theorem limits_exchanged :
    Represents sampleTwoFilled.db sampleTwoShards ∧ Coherent sampleTwoShards sampleTwoFilled.lru ∧
    ((synchronizeLedger Checkpoint.default 2 1).run
      (World.handle (Outside.offline.indexer sampleTwoFilled)) sampleTwoFilled).1.map
        (fun response => response.receivers.length) = .ok 2 ∧
    ¬ WithinLimits Outside.offline sampleTwoFilled sampleTwoFilled Checkpoint.default 2 1 := by
  have answer : ((synchronizeLedger Checkpoint.default 2 1).run
      (World.handle (Outside.offline.indexer sampleTwoFilled)) sampleTwoFilled).1.map
        (fun response => response.receivers.length) = .ok 2 := by decide +kernel
  refine ⟨sampleTwoFilled_mirrors.represents, sampleTwoFilled_mirrors.coherent, answer,
    fun within => ?_⟩
  obtain ⟨response, answered, two⟩ := map_ok answer
  have one := (within response answered).2
  rw [two] at one
  exact absurd one (by decide)

end Sample

end MantaIndexer
