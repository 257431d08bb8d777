import Mathlib.Data.UInt
import MantaIndexer.Mirror.Order

/-!
The senders of any range of words. Nothing checks that a sender is stored under the index a client
asks for before the cache is read, and a cache key has room for the lower 48 bits of an index only.
-/

namespace MantaIndexer
open Effects Encoding Collections

section Aliases

variable [P : Pallet]

/-- What the pull of a range of senders finds at an index: the sender its cache key stands for when
the key is cached, and otherwise the stored one. -/
def servedAt (lru : Lru Cache.LruKeyType Bytes) (senders : List Sender) (i : Nat) : Option Sender :=
  if (lru.lookup (Cache.senderKey (UInt64.ofNat i))).isSome then senders[i % 2 ^ 48]?
  else senders[i]?

def served (lru : Lru Cache.LruKeyType Bytes) (senders : List Sender) (first amount : Nat) :
    List Sender :=
  (List.range' first amount).filterMap (servedAt lru senders)

variable {w : World} {L : Ledger}

/-- The rows asked for by words: a word from 2^63 on is a negative number, which is no index. -/
theorem nullifiersIn_words {db : Database} {senders : List Sender}
    (rows : db.nullifier.Perm (senders.mapIdx nullifierRow)) (few : senders.length < 2 ^ 48)
    {positions : List Nat} (sorted : positions.Pairwise (· < ·)) (words : ∀ i ∈ positions, i < 2 ^ 64) :
    db.nullifiersIn (positions.map fun i => asI64 (UInt64.ofNat i)) =
      positions.filterMap fun i => senders[i]?.map (nullifierRow i) := by
  rw [← nullifiersIn_rows rows sorted, Database.nullifiersIn, Database.nullifiersIn]
  congr 1
  apply List.filter_congr
  intro row member
  obtain ⟨j, sender, stored, rfl⟩ := mem_rows.mp (rows.mem_iff.mp member)
  have inside := (List.getElem?_eq_some_iff.mp stored).1
  have same : ∀ i ∈ positions, asI64 (UInt64.ofNat i) = (j : Int) ↔ (i : Int) = j := by
    intro i there
    have word := toNat_ofNat (words i there)
    have bound := words i there
    rw [asI64_eq, word]
    split <;> omega
  rw [decide_eq_decide, List.mem_map, List.mem_map]
  constructor
  · rintro ⟨i, there, index⟩
    exact ⟨i, there, (same i there).mp index⟩
  · rintro ⟨i, there, index⟩
    exact ⟨i, there, (same i there).mpr index⟩

/-- Cached and stored senders together are those that each index of the range finds. -/
theorem served_perm (lru : Lru Cache.LruKeyType Bytes) (senders : List Sender) (first amount : Nat) :
    (pick senders ((hits lru Cache.senderKey first amount).map (· % 2 ^ 48)) ++
      pick senders (misses lru Cache.senderKey first amount)).Perm
      (served lru senders first amount) := by
  have cached : pick senders ((hits lru Cache.senderKey first amount).map (· % 2 ^ 48)) =
      (hits lru Cache.senderKey first amount).filterMap (servedAt lru senders) := by
    rw [pick, List.filterMap_map]
    apply List.filterMap_congr
    intro i member
    rw [servedAt, if_pos (List.mem_filter.mp member).2]
    rfl
  have stored : pick senders (misses lru Cache.senderKey first amount) =
      (misses lru Cache.senderKey first amount).filterMap (servedAt lru senders) := by
    apply List.filterMap_congr
    intro i member
    have miss := (List.mem_filter.mp member).2
    rw [Bool.not_eq_true'] at miss
    rw [servedAt, if_neg (by simp [miss])]
  rw [cached, stored, ← List.filterMap_append]
  exact (List.filter_append_perm _ _).filterMap _

theorem getBatchedNullifierByIdxs_run (outside : Outside) (w : World) (indices : List Int) :
    (getBatchedNullifierByIdxs indices).run (World.handle outside) w =
      (.ok (w.db.nullifiersIn indices), w) := by
  cases indices with
  | nil =>
    have none : w.db.nullifiersIn [] = [] := by simp [Database.nullifiersIn]
    rw [none]
    rfl
  | cons i indices => rfl

omit P in
theorem mem_span_lt {x last : UInt64} {i : Nat}
    (member : i ∈ List.range' x.toNat (last.toNat - x.toNat)) : i < 2 ^ 64 := by
  have range := List.mem_range'_1.mp member
  have bound := last.toNat_lt
  omega

theorem Coherent.split_served {lru : Lru Cache.LruKeyType Bytes} (coherent : Coherent L lru)
    (few : L.senders.length < 2 ^ 48) (x last : UInt64) :
    splitCached Sender (span x last) (((span x last).map Cache.senderKey).map lru.lookup) =
      .ok (pick L.senders ((hits lru Cache.senderKey x.toNat (last.toNat - x.toNat)).map (· % 2 ^ 48)),
        (misses lru Cache.senderKey x.toNat (last.toNat - x.toNat)).map
          fun i => asI64 (UInt64.ofNat i)) := by
  rw [span, List.map_map, List.map_map]
  refine splitCached_place (· % 2 ^ 48) fun i member bytes hit => ?_
  have found := coherent.lookup_senderKey few hit
  rwa [toNat_ofNat (mem_span_lt member)] at found

theorem nullifiersIn_misses {db : Database} (lru : Lru Cache.LruKeyType Bytes) {senders : List Sender}
    (rows : db.nullifier.Perm (senders.mapIdx nullifierRow)) (few : senders.length < 2 ^ 48)
    (x last : UInt64) :
    db.nullifiersIn ((misses lru Cache.senderKey x.toNat (last.toNat - x.toNat)).map
        fun i => asI64 (UInt64.ofNat i)) =
      (misses lru Cache.senderKey x.toNat (last.toNat - x.toNat)).filterMap
        fun i => senders[i]?.map (nullifierRow i) :=
  nullifiersIn_words rows few (misses_sorted _ _) fun _ member =>
    mem_span_lt (List.mem_filter.mp member).1

/-- A pull of senders answers from any checkpoint, and it only touches the cache. -/
theorem pullSenders_served (rows : w.db.nullifier.Perm (L.senders.mapIdx nullifierRow))
    (few : L.senders.length < 2 ^ 48) (coherent : Coherent L w.lru) (x amount : UInt64)
    (outside : Outside) :
    ∃ chunk lru, (pullSenders x amount).run (World.handle outside) w =
        (.ok (decide ((x + amount).toNat < L.senders.length), x + amount, chunk), { w with lru }) ∧
      chunk.Perm (served w.lru L.senders x.toNat ((x + amount).toNat - x.toNat)) := by
  have queried := nullifiersIn_misses w.lru rows few x (x + amount)
  have flag := nullifierAt_isSome rows (few.trans (by decide)) (x + amount)
  refine ⟨_, (w.lru.getBatch ((span x (x + amount)).map Cache.senderKey)).2.putBatch
    ((writeBack L.senders (misses w.lru Cache.senderKey x.toNat ((x + amount).toNat - x.toNat))).map
      fun item => (Cache.senderKey item.1, item.2)), ?_, served_perm w.lru L.senders x.toNat _⟩
  unfold pullSenders getBatchSender putBatchSender
  rw [Prog.run_bind_ok (alone_getBatchLru outside w _).ran, coherent.split_served few, Prog.lift_ok,
    Prog.bind_ret, Prog.run_bind_ok (getBatchedNullifierByIdxs_run outside _ _), queried,
    decodeNullifiers_pick, Prog.lift_ok, Prog.bind_ret, ← flag]
  exact Prog.run_bind_ok (alone_hasNullifier outside _ (x + amount)).ran

/-- A whole pull from any checkpoint, by a build whose sums stay in range where they are checked. -/
theorem pullLedgerDiff_served (mirrors : Mirrors L w) {profile : Profile} {ck : Checkpoint}
    {maxReceivers maxSenders : UInt64} (room : ∀ s, L.count s + maxReceivers.toNat ≤ 2 ^ 48)
    (sends : profile.pullSenders ck.senderIndex maxSenders = pullSenders ck.senderIndex maxSenders)
    (outside : Outside) :
    ∃ chunk v senders,
      (profile.pullReceivers ck.receiverIndex maxReceivers).run (World.handle outside) w =
        (.ok (cut (left (fun _ => L) ck.receiverIndex) allShards maxReceivers.toNat,
          advanced (fun _ => L) ck.receiverIndex maxReceivers.toNat, allShards.flatMap chunk), v) ∧
      Chunks (fun _ => L) ck.receiverIndex allShards maxReceivers.toNat chunk ∧ Mirrors L v ∧
      senders.Perm (served v.lru L.senders ck.senderIndex.toNat
        ((ck.senderIndex + maxSenders).toNat - ck.senderIndex.toNat)) ∧
      ((profile.pullLedgerDiff ck maxReceivers maxSenders).run (World.handle outside) w).1 =
        (totalOf w.db).map fun total =>
          (⟨cut (left (fun _ => L) ck.receiverIndex) allShards maxReceivers.toNat ||
                decide ((ck.senderIndex + maxSenders).toNat < L.senders.length),
              allShards.flatMap chunk, senders, total⟩,
            ⟨advanced (fun _ => L) ck.receiverIndex maxReceivers.toNat,
              ck.senderIndex + maxSenders⟩) := by
  obtain ⟨chunk, v, ran, chunks, later, same⟩ := pullReceivers_still mirrors profile ck.receiverIndex room outside
  obtain ⟨senders, lru, ran', perm⟩ := pullSenders_served later.represents.nullifiers
    (later.represents.below.2.trans (by decide)) later.coherent ck.senderIndex maxSenders outside
  refine ⟨chunk, v, senders, ran, chunks, later, perm, ?_⟩
  unfold Profile.pullLedgerDiff
  rw [Prog.run_bind_ok ran]
  dsimp only
  rw [sends, Prog.run_bind_ok ran']
  apply (getTotal_alone outside _ _).trans
  rw [← same]

theorem pullLedgerDiff_serves (mirrors : Mirrors L w) (ck : Checkpoint)
    {maxReceivers : UInt64} (maxSenders : UInt64)
    (room : ∀ s, L.count s + maxReceivers.toNat ≤ 2 ^ 48) (outside : Outside) :
    ∃ chunk v senders, (pullReceivers ck.receiverIndex maxReceivers).run (World.handle outside) w =
        (.ok (cut (left (fun _ => L) ck.receiverIndex) allShards maxReceivers.toNat,
          advanced (fun _ => L) ck.receiverIndex maxReceivers.toNat, allShards.flatMap chunk), v) ∧
      Chunks (fun _ => L) ck.receiverIndex allShards maxReceivers.toNat chunk ∧
      senders.Perm (served v.lru L.senders ck.senderIndex.toNat
        ((ck.senderIndex + maxSenders).toNat - ck.senderIndex.toNat)) ∧
      ((pullLedgerDiff ck maxReceivers maxSenders).run (World.handle outside) w).1 =
        (totalOf w.db).map fun total =>
          (⟨cut (left (fun _ => L) ck.receiverIndex) allShards maxReceivers.toNat ||
                decide ((ck.senderIndex + maxSenders).toNat < L.senders.length),
              allShards.flatMap chunk, senders, total⟩,
            ⟨advanced (fun _ => L) ck.receiverIndex maxReceivers.toNat,
              ck.senderIndex + maxSenders⟩) := by
  obtain ⟨chunk, v, senders, ran, chunks, -, perm, answer⟩ :=
    pullLedgerDiff_served mirrors room (Profile.pullSenders_release ck.senderIndex maxSenders) outside
  rw [Profile.pullReceivers_release] at ran
  rw [Profile.pullLedgerDiff_release] at answer
  exact ⟨chunk, v, senders, ran, chunks, perm, answer⟩

/-- The chunk holds the columns of exactly the rows whose index is in the range. -/
def AskedFor (db : Database) (x amount : UInt64) (chunk : List Sender) : Prop :=
  (chunk.map fun sender => (encode sender.1, encode sender.2)).Perm
    ((db.nullifier.filter fun row =>
        (x.toNat : Int) ≤ row.idx ∧ row.idx < ((x.toNat + amount.toNat : Nat) : Int)).map
      fun row => (row.nullifierCommitment, row.outgoingNote))

/-- A key in the range that is cached although its index is past every index a key can hold. -/
def Aliased (lru : Lru Cache.LruKeyType Bytes) (x amount : UInt64) : Prop :=
  ∃ i, 2 ^ 48 ≤ i ∧ x.toNat ≤ i ∧ i < x.toNat + amount.toNat ∧
    (lru.lookup (Cache.senderKey (UInt64.ofNat i))).isSome = true

theorem rows_in_range {db : Database} {senders : List Sender}
    (rows : db.nullifier.Perm (senders.mapIdx nullifierRow)) (first amount : Nat) :
    ((db.nullifier.filter fun row =>
        (first : Int) ≤ row.idx ∧ row.idx < ((first + amount : Nat) : Int)).map
      fun row => (row.nullifierCommitment, row.outgoingNote)).Perm
      ((page senders first amount).map fun sender => (encode sender.1, encode sender.2)) := by
  have between := rows_between nullifierRow_numbered senders
    (fun row => (row.nullifierCommitment, row.outgoingNote))
    (fun sender => (encode sender.1, encode sender.2)) (fun _ _ => rfl) first (first + amount)
  rw [Nat.add_sub_cancel_left] at between
  exact ((rows.filter _).map _).trans (.of_eq between)

theorem served_eq_page {lru : Lru Cache.LruKeyType Bytes} {x amount : UInt64}
    (unaliased : ¬ Aliased lru x amount) (senders : List Sender) :
    served lru senders x.toNat amount.toNat = page senders x.toNat amount.toNat := by
  rw [← pick_range', served, pick]
  apply List.filterMap_congr
  intro i member
  have range := List.mem_range'_1.mp member
  unfold servedAt
  split
  · rename_i hit
    have small : i < 2 ^ 48 := by
      by_contra large
      exact unaliased ⟨i, by omega, range.1, range.2, hit⟩
    rw [Nat.mod_eq_of_lt small]
  · rfl

theorem length_served_lt {lru : Lru Cache.LruKeyType Bytes} {x amount : UInt64}
    (aliased : Aliased lru x amount) (few : L.senders.length < 2 ^ 48) (coherent : Coherent L lru)
    (inside : x.toNat + amount.toNat < 2 ^ 64) :
    (page L.senders x.toNat amount.toNat).length <
      (served lru L.senders x.toNat amount.toNat).length := by
  have found : ∀ i < 2 ^ 64, (lru.lookup (Cache.senderKey (UInt64.ofNat i))).isSome = true →
      (L.senders[i % 2 ^ 48]?).isSome = true := by
    intro i word hit
    obtain ⟨bytes, content⟩ := Option.isSome_iff_exists.mp hit
    obtain ⟨sender, stored, -⟩ := coherent.lookup_senderKey few content
    rw [toNat_ofNat word] at stored
    rw [stored]
    rfl
  rw [← pick_range', pick, served, List.length_filterMap_eq_countP,
    List.length_filterMap_eq_countP]
  obtain ⟨i, large, first, last, hit⟩ := aliased
  apply countP_lt _ (List.mem_range'_1.mpr ⟨first, last⟩)
  · rw [servedAt, if_pos hit]
    exact found i (by omega) hit
  · rw [List.getElem?_eq_none (by omega)]
    rfl
  · intro j member stored
    have range := List.mem_range'_1.mp member
    unfold servedAt
    split
    · rename_i cached
      exact found j (by omega) cached
    · exact stored

end Aliases

/-- A pull of senders answers for every range of words, and its chunk holds exactly the stored rows
of the range, unless the range reaches past 2^48 and the cache has an entry under a key there: the
key of a smaller index. -/
theorem senders_asked_for [Pallet] {w : World} {L : Ledger}
    (rows : w.db.nullifier.Perm (L.senders.mapIdx nullifierRow)) (few : L.senders.length < 2 ^ 48)
    (coherent : Coherent L w.lru) (x amount : UInt64)
    (inside : x.toNat + amount.toNat < 2 ^ 64) (outside : Outside) :
    ∃ more chunk v, (pullSenders x amount).run (World.handle outside) w =
        (.ok (more, x + amount, chunk), v) ∧
      (AskedFor w.db x amount chunk ↔ ¬ Aliased w.lru x amount) := by
  obtain ⟨chunk, lru, ran, perm⟩ := pullSenders_served rows few coherent x amount outside
  rw [toNat_add inside, Nat.add_sub_cancel_left] at perm
  have stored := rows_in_range rows x.toNat amount.toNat
  refine ⟨_, chunk, _, ran, fun asked aliased => ?_, fun unaliased => ?_⟩
  · have lengths := (asked.trans stored).length_eq
    have more := length_served_lt aliased few coherent inside
    simp only [List.length_map, perm.length_eq] at lengths
    omega
  · rw [served_eq_page unaliased] at perm
    exact (perm.map _).trans stored.symm

section Sample

attribute [local instance] samplePallet

/-- One sender, stored and cached. -/
def sampleStoredSpent : Ledger := ⟨fun _ => [], [sampleSender 9]⟩

def sampleCached : World :=
  World.filled sampleStoredSpent sampleTotal
    ((Lru.empty 4).putBatch [(Cache.senderKey 0, encode (sampleSender 9))])

theorem sampleCached_mirrors : Mirrors sampleStoredSpent sampleCached := by
  apply mirrors_filled _ ⟨by decide +kernel, by decide⟩
  apply (Coherent.empty _ 4).putBatch
  intro entry member
  obtain rfl := List.mem_singleton.mp member
  exact Caches.sender (L := sampleStoredSpent) (i := 0) rfl

/-- The cached sender comes once, and no key of the range stands for another index. -/
theorem senders_asked_for_cached :
    ∃ v, (pullSenders 0 2).run (World.handle Outside.offline) sampleCached =
        (.ok (false, 2, [sampleSender 9]), v) ∧
      ¬ Aliased sampleCached.lru 0 2 ∧ AskedFor sampleCached.db 0 2 [sampleSender 9] := by
  obtain ⟨more, chunk, v, ran, asked⟩ := senders_asked_for sampleCached_mirrors.represents.nullifiers
    (by decide) sampleCached_mirrors.coherent 0 2 (by decide) Outside.offline
  have unaliased : ¬ Aliased sampleCached.lru 0 2 := by
    rintro ⟨i, large, -, last, -⟩
    exact absurd (large.trans_lt last) (by decide)
  have page : ((pullSenders 0 2).run (World.handle Outside.offline) sampleCached).1 =
      .ok (false, 2, [sampleSender 9]) := by decide +kernel
  rw [ran] at page
  simp only [Except.ok.injEq, Prod.mk.injEq] at page
  obtain ⟨rfl, -, rfl⟩ := page
  exact ⟨v, ran, unaliased, asked.mpr unaliased⟩

/-- The range holds the index 2^48 only, where nothing is stored; its key is that of the index 0. -/
theorem sender_not_asked_for :
    sampleCached.db.nullifier.Perm (sampleStoredSpent.senders.mapIdx nullifierRow) ∧
    sampleStoredSpent.senders.length < 2 ^ 48 ∧ Coherent sampleStoredSpent sampleCached.lru ∧
    ((pullSenders (2 ^ 48) 1).run (World.handle Outside.offline) sampleCached).1 =
      .ok (false, 2 ^ 48 + 1, [sampleSender 9]) ∧
    ¬ AskedFor sampleCached.db (2 ^ 48) 1 [sampleSender 9] := by
  refine ⟨sampleCached_mirrors.represents.nullifiers, by decide, sampleCached_mirrors.coherent,
    by decide +kernel, fun asked => ?_⟩
  exact absurd asked.length_eq (by decide +kernel)

end Sample

end MantaIndexer
