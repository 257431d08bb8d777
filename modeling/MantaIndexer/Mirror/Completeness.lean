import MantaIndexer.Indexer.Session
import MantaIndexer.Mirror.Safety
import MantaIndexer.Mirror.Still

/-!
Paging through a ledger that does not change: every page that is not empty brings the client closer
to the end, and at the end it has everything exactly once.
-/

namespace MantaIndexer
open Effects Encoding Collections

section Remaining

variable [P : Pallet] {L : Ledger} {ck : Checkpoint} (maxReceivers : UInt64) {maxSenders : UInt64}

def remaining (L : Ledger) (ck : Checkpoint) : Nat :=
  (allShards.map (left (fun _ => L) ck.receiverIndex)).sum +
    (L.senders.length - ck.senderIndex.toNat)

def nextPage (L : Ledger) (ck : Checkpoint) (maxReceivers maxSenders : UInt64) : Checkpoint :=
  ⟨advanced (fun _ => L) ck.receiverIndex maxReceivers.toNat, ck.senderIndex + maxSenders⟩

theorem taken_le_count (L : Ledger) (indices : ShardIndex → UInt64) (budget : Nat)
    (s : ShardIndex) :
    taken (left (fun _ => L) indices) allShards budget s ≤ L.count s - (indices s).toNat :=
  taken_le _ _ _ s

theorem length_gathered (L : Ledger) (indices : ShardIndex → UInt64) (budget : Nat) :
    (gathered (fun _ => L) indices allShards budget).length =
      min budget (allShards.map (left (fun _ => L) indices)).sum := by
  rw [gathered, List.length_flatMap, ← sum_taken (List.nodup_finRange _)]
  congr 1
  apply List.map_congr_left
  intro s _
  rw [length_page]
  exact Nat.min_eq_left (taken_le_count L indices budget s)

variable (below : L.Below (2 ^ 48 - 4096))
  (fits : ck.senderIndex.toNat + maxSenders.toNat ≤ 2 ^ 48)

include below in
theorem advanced_toNat (indices : ShardIndex → UInt64) (budget : Nat) (s : ShardIndex) :
    (advanced (fun _ => L) indices budget s).toNat =
      (indices s).toNat + taken (left (fun _ => L) indices) allShards budget s := by
  have room := taken_le_count L indices budget s
  have small := below.1 s
  have bound := (indices s).toNat_lt
  have word := toNat_ofNat (n := taken (left (fun _ => L) indices) allShards budget s) (by omega)
  rw [advanced, toNat_add, word]
  omega

include below in
theorem left_advanced (indices : ShardIndex → UInt64) (budget : Nat) :
    (allShards.map (left (fun _ => L) (advanced (fun _ => L) indices budget))).sum =
      (allShards.map (left (fun _ => L) indices)).sum -
        (gathered (fun _ => L) indices allShards budget).length := by
  rw [length_gathered, ← sum_left (List.nodup_finRange _)]
  congr 1
  apply List.map_congr_left
  intro s _
  show L.count s - _ = L.count s - _ - _
  rw [advanced_toNat below]
  exact Nat.sub_add_eq _ _ _

include fits in
theorem nextPage_sender : (nextPage L ck maxReceivers maxSenders).senderIndex.toNat =
    ck.senderIndex.toNat + maxSenders.toNat :=
  toNat_add (by omega)

include below fits in
theorem remaining_nextPage :
    remaining L (nextPage L ck maxReceivers maxSenders) +
        ((gathered (fun _ => L) ck.receiverIndex allShards maxReceivers.toNat).length +
          (page L.senders ck.senderIndex.toNat maxSenders.toNat).length) =
      remaining L ck := by
  have shards := left_advanced below ck.receiverIndex maxReceivers.toNat
  have lengths := length_gathered L ck.receiverIndex maxReceivers.toNat
  unfold remaining
  rw [nextPage_sender maxReceivers fits, length_page, nextPage, shards]
  omega

theorem page_pos (receivers : 1 ≤ maxReceivers.toNat) (senders : 1 ≤ maxSenders.toNat)
    (more : 0 < remaining L ck) :
    0 < (gathered (fun _ => L) ck.receiverIndex allShards maxReceivers.toNat).length +
      (page L.senders ck.senderIndex.toNat maxSenders.toNat).length := by
  rw [length_gathered, length_page]
  unfold remaining at more
  omega

def receiversPast (L : Ledger) (ck : Checkpoint) : List Receiver :=
  allShards.flatMap fun s => (L.receivers s).drop (ck.receiverIndex s).toNat

def sendersPast (L : Ledger) (ck : Checkpoint) : List Sender := L.senders.drop ck.senderIndex.toNat

include below in
theorem receiversPast_nextPage (ck : Checkpoint) (maxReceivers maxSenders : UInt64) :
    (gathered (fun _ => L) ck.receiverIndex allShards maxReceivers.toNat ++
      receiversPast L (nextPage L ck maxReceivers maxSenders)).Perm (receiversPast L ck) := by
  refine (List.flatMap_append_perm _ _ _).trans (.of_eq (List.flatMap_congr fun s _ => ?_))
  simp only [nextPage, advanced_toNat below, page]
  rw [← List.drop_drop, List.take_append_drop]

include fits in
theorem sendersPast_nextPage :
    page L.senders ck.senderIndex.toNat maxSenders.toNat ++
      sendersPast L (nextPage L ck maxReceivers maxSenders) = sendersPast L ck := by
  unfold sendersPast page
  rw [nextPage_sender maxReceivers fits, ← List.drop_drop, List.take_append_drop]

theorem length_receiversPast (L : Ledger) (ck : Checkpoint) :
    (receiversPast L ck).length = (allShards.map (left (fun _ => L) ck.receiverIndex)).sum := by
  rw [receiversPast, List.length_flatMap]
  congr 1
  apply List.map_congr_left
  intro s _
  exact List.length_drop

theorem nothing_past (h : remaining L ck = 0) :
    receiversPast L ck = [] ∧ sendersPast L ck = [] := by
  unfold remaining at h
  refine ⟨List.eq_nil_of_length_eq_zero ?_, List.eq_nil_of_length_eq_zero ?_⟩
  · rw [length_receiversPast]
    omega
  · rw [sendersPast, List.length_drop]
    omega

end Remaining

section Pages

variable [P : Pallet] {L : Ledger} {outside : Outside}

theorem pullLedgerDiffImpl_page (outside : Outside) {w : World} {ck : Checkpoint}
    (receivers senders : UInt64) (mirrors : Mirrors L w) {total : TotalBytes}
    (present : totalOf w.db = .ok total) (fits : ck.senderIndex.toNat + 4096 ≤ 2 ^ 48) :
    ∃ response t, (pullLedgerDiffImpl ck receivers senders).run (World.handle outside) w =
        (.ok (response, nextPage L ck (min receivers maxReceivers) (min senders maxSenders)), t) ∧
      response.receivers.Perm
        (gathered (fun _ => L) ck.receiverIndex allShards (min receivers maxReceivers).toNat) ∧
      response.senders.Perm
        (page L.senders ck.senderIndex.toNat (min senders maxSenders).toNat) ∧ Quiet w t := by
  have limit := toNat_min_maxReceivers receivers
  have limit' := toNat_min_maxSenders senders
  have alone : Still L w.db ck (min receivers maxReceivers) (min senders maxSenders) _ ∧ Quiet w _ :=
    pullLedgerDiff_alone mirrors (mirrors.represents.room (by omega)) (by omega) outside
  obtain ⟨⟨delivered, spent, gatheredAll, paged, answer⟩, quiet⟩ := alone
  rw [present] at answer
  exact ⟨_, _, Prod.ext answer rfl, gatheredAll, paged, quiet⟩

/-- The pages of a client from a checkpoint on, up to the first empty one, hold everything past the
checkpoint exactly once. -/
def Completes (outside : Outside) (receivers senders : UInt64) (L : Ledger) (w : World)
    (ck : Checkpoint) : Prop :=
  ∃ n before last final t, (pages receivers senders (n + 1) ck).run (World.handle outside) w =
      (.ok (before ++ [last], final), t) ∧
    last.receivers = [] ∧ last.senders = [] ∧
    (∀ response ∈ before, response.receivers ≠ [] ∨ response.senders ≠ []) ∧
    (before.flatMap PullResponse.receivers).Perm (receiversPast L ck) ∧
    (before.flatMap PullResponse.senders).Perm (sendersPast L ck)

theorem Completes.last {w t : World} {ck next : Checkpoint} {receivers senders : UInt64}
    {response : PullResponse}
    (ran : (pullLedgerDiffImpl ck receivers senders).run (World.handle outside) w =
      (.ok (response, next), t))
    (noReceivers : response.receivers = []) (noSenders : response.senders = [])
    (done : remaining L ck = 0) : Completes outside receivers senders L w ck := by
  obtain ⟨none, none'⟩ := nothing_past done
  refine ⟨0, [], response, next, t, ?_, noReceivers, noSenders, by simp, ?_, ?_⟩
  · unfold pages
    rw [Prog.run_bind_ok ran]
    rfl
  · rw [none]
    exact .rfl
  · rw [none']
    exact .rfl

theorem Completes.more {w t : World} {ck next : Checkpoint} {receivers senders : UInt64}
    {response : PullResponse}
    (ran : (pullLedgerDiffImpl ck receivers senders).run (World.handle outside) w =
      (.ok (response, next), t))
    (full : response.receivers ≠ [] ∨ response.senders ≠ [])
    (delivered : (response.receivers ++ receiversPast L next).Perm (receiversPast L ck))
    (spent : (response.senders ++ sendersPast L next).Perm (sendersPast L ck))
    (rest : Completes outside receivers senders L t next) :
    Completes outside receivers senders L w ck := by
  obtain ⟨n, before, last, final, u, more, noReceivers, noSenders, others, past, past'⟩ := rest
  refine ⟨n + 1, response :: before, last, final, u, ?_, noReceivers, noSenders,
    List.forall_mem_cons.mpr ⟨full, others⟩, ?_, ?_⟩
  · unfold pages
    rw [Prog.run_bind_ok ran]
    simp only
    rw [Prog.run_bind_ok more]
    rfl
  · rw [List.flatMap_cons]
    exact (past.append_left _).trans delivered
  · rw [List.flatMap_cons]
    exact (past'.append_left _).trans spent

theorem pages_complete {receivers senders : UInt64} (asksReceivers : 1 ≤ receivers.toNat)
    (asksSenders : 1 ≤ senders.toNat) {total : TotalBytes} (steps : Nat) {w : World}
    {ck : Checkpoint} (counted : remaining L ck = steps) (mirrors : Mirrors L w)
    (present : totalOf w.db = .ok total)
    (fits : ck.senderIndex.toNat + (steps + 1) * 4096 ≤ 2 ^ 48) :
    Completes outside receivers senders L w ck := by
  -- On the rows that remain: a page that is not empty leaves fewer of them.
  induction steps using Nat.strong_induction_on generalizing w ck with
  | h steps ih =>
    have below := mirrors.represents.below
    have limit := toNat_min_maxReceivers receivers
    have limit' := toNat_min_maxSenders senders
    have fitsPage : ck.senderIndex.toNat + (min senders maxSenders).toNat ≤ 2 ^ 48 := by omega
    have fitsLimit : ck.senderIndex.toNat + 4096 ≤ 2 ^ 48 := by omega
    obtain ⟨response, t, ran, gatheredAll, paged, quiet⟩ :=
      pullLedgerDiffImpl_page outside receivers senders mirrors present fitsLimit
    have moved := remaining_nextPage (min receivers maxReceivers) below fitsPage
    have lengths := gatheredAll.length_eq
    have lengths' := paged.length_eq
    by_cases done : remaining L ck = 0
    · have noReceivers : response.receivers = [] := List.eq_nil_of_length_eq_zero (by omega)
      have noSenders : response.senders = [] := List.eq_nil_of_length_eq_zero (by omega)
      exact .last ran noReceivers noSenders done
    · have some := page_pos (min receivers maxReceivers)
        (by omega : 1 ≤ (min receivers maxReceivers).toNat)
        (by omega : 1 ≤ (min senders maxSenders).toNat) (Nat.pos_of_ne_zero done)
      have full : response.receivers ≠ [] ∨ response.senders ≠ [] := by
        by_contra empty
        simp only [ne_eq, not_or, not_not] at empty
        rw [empty.1, List.length_nil] at lengths
        rw [empty.2, List.length_nil] at lengths'
        omega
      have delivered := (gatheredAll.append_right _).trans
        (receiversPast_nextPage below ck (min receivers maxReceivers) (min senders maxSenders))
      have spent := (paged.append_right _).trans
        (.of_eq (sendersPast_nextPage (min receivers maxReceivers) fitsPage))
      refine .more ran full delivered spent (ih _ ?_ rfl (quiet.mirrors mirrors) ?_ ?_)
      · omega
      · rw [quiet.db]
        exact present
      · rw [nextPage_sender _ fitsPage]
        omega

theorem remaining_le (L : Ledger) (ck : Checkpoint) :
    remaining L ck ≤ (allShards.map L.count).sum + L.senders.length := by
  have less : ∀ s, left (fun _ => L) ck.receiverIndex s ≤ L.count s := fun s => Nat.sub_le _ _
  have shards : (allShards.map (left (fun _ => L) ck.receiverIndex)).sum ≤
      (allShards.map L.count).sum := (sum_map_sub less).1
  unfold remaining
  omega

end Pages

/-- On a ledger of fewer than 2^35 rows that does not change, repeated requests from the returned
checkpoint reach an empty page, and the pages before it hold every row from the starting checkpoint
on exactly once. -/
theorem paging_complete [Pallet] {w : World} {L : Ledger} (holds : Represents w.db L)
    (coherent : Coherent L w.lru) (few : (allShards.map L.count).sum + L.senders.length < 2 ^ 35)
    (total : TotalBytes) (present : w.db.total = some total.val) (start : Checkpoint)
    (sendersAt : start.senderIndex.toNat ≤ L.senders.length) (receivers senders : UInt64)
    (asksReceivers : 1 ≤ receivers.toNat) (asksSenders : 1 ≤ senders.toNat) (outside : Outside) :
    ∃ n before last final t, (pages receivers senders (n + 1) start).run (World.handle outside) w =
        (.ok (before ++ [last], final), t) ∧
      last.receivers = [] ∧ last.senders = [] ∧
      (∀ response ∈ before, response.receivers ≠ [] ∨ response.senders ≠ []) ∧
      (before.flatMap PullResponse.receivers).Perm (allShards.flatMap fun s =>
        (L.receivers s).drop (start.receiverIndex s).toNat) ∧
      (before.flatMap PullResponse.senders).Perm (L.senders.drop start.senderIndex.toNat) := by
  have rows := remaining_le L start
  have read : totalOf w.db = .ok total := by
    simp only [totalOf, present, total.property, dite_true]
  exact pages_complete asksReceivers asksSenders (remaining L start) rfl ⟨holds, coherent⟩
    read (by omega)

section Sample

attribute [local instance] samplePallet

theorem paging_complete_synced :
    ∃ n before last final t, (pages 1 1 (n + 1) Checkpoint.default).run
        (World.handle sampleOutside) sampleSynced.world = (.ok (before ++ [last], final), t) ∧
      last.receivers = [] ∧ last.senders = [] ∧
      (∀ response ∈ before, response.receivers ≠ [] ∨ response.senders ≠ []) ∧
      (before.flatMap PullResponse.receivers).Perm (allShards.flatMap fun s =>
        (sampleNode.receivers s).drop (Checkpoint.default.receiverIndex s).toNat) ∧
      (before.flatMap PullResponse.senders).Perm
        (sampleNode.senders.drop Checkpoint.default.senderIndex.toNat) := by
  have mirrors := sampleSynced_mirrors
  exact paging_complete mirrors.represents mirrors.coherent (by decide +kernel)
    ⟨List.replicate 16 0, rfl⟩ (by decide +kernel) Checkpoint.default (Nat.zero_le _) 1 1
    (by decide) (by decide) sampleOutside

end Sample

end MantaIndexer
