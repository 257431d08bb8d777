import MantaIndexer.Indexer.Dense
import MantaIndexer.Encoding.Base64
import MantaIndexer.Encoding.Vector
import MantaIndexer.Mirror.Order

/-!
The senders of a walk over a growing ledger. The cursor moves past the whole range that was asked
for, so a short page of senders is only harmless when it ends the walk.
-/

namespace MantaIndexer
open Effects Encoding Collections

section Walk

variable [P : Pallet] [T : Transport]

/-- The page of senders of a request is full, or the receivers do not keep the walk going: the page
of receivers does not end inside a shard. -/
def Covered (w : World) (ck : Checkpoint) (receivers senders : UInt64) : Prop :=
  ck.senderIndex.toNat + (min senders maxSenders).toNat ≤ w.db.countNullifier ∨
    cut (fun s => w.db.countShards s - (ck.receiverIndex s).toNat) allShards
      (min receivers maxReceivers).toNat = false

theorem densePullLedgerDiff_alone {L : Ledger} {w v : World} (mirrors : Mirrors L w)
    {ck : Checkpoint} (inside : ck.senderIndex.toNat ≤ L.senders.length)
    {receivers senders : UInt64} {outside : Outside} {response : DensePullResponse}
    (ran : (densePullLedgerDiff ck receivers senders).run (World.handle outside) w =
      (.ok response, v)) :
    ∃ next chunk, Quiet w v ∧ response.nextCheckpoint = some next ∧
      response.senderChunk = some chunk ∧
      next.senderIndex.toNat = ck.senderIndex.toNat + (min senders maxSenders).toNat ∧
      chunk.Perm (page L.senders ck.senderIndex.toNat (min senders maxSenders).toNat) ∧
      response.shouldContinue =
        (cut (left (fun _ => L) ck.receiverIndex) allShards (min receivers maxReceivers).toNat ||
          decide (ck.senderIndex.toNat + (min senders maxSenders).toNat < L.senders.length)) := by
  have below := mirrors.represents.below
  have counted := below.2
  have limit := toNat_min_maxReceivers receivers
  have limit' := toNat_min_maxSenders senders
  have alone : Still L w.db ck (min receivers maxReceivers) (min senders maxSenders) _ ∧ Quiet w _ :=
    pullLedgerDiff_alone mirrors (mirrors.represents.room (by omega)) (by omega) outside
  rw [densePullLedgerDiff, Prog.run_bind, pullLedgerDiffImpl] at ran
  generalize (pullLedgerDiff ck (min receivers maxReceivers) (min senders maxSenders)).run
    (World.handle outside) w = result at ran alone
  obtain ⟨out, t⟩ := result
  obtain ⟨⟨items, chunk, -, paged, rfl⟩, quiet⟩ := alone
  cases present : totalOf w.db with
  | error error =>
    rw [present] at ran
    cases ran
  | ok total =>
    rw [present] at ran
    cases ran
    refine ⟨_, chunk, quiet, rfl, ?_, ?_, paged, rfl⟩
    · have short : chunk.length < 2 ^ 32 := by
        rw [paged.length_eq, length_page]
        omega
      simp [DensePullResponse.senderChunk, T.fromBase64_base64, T.decodeVec_encodeVec short]
    · exact toNat_add (by omega)

/-- While the walk goes on, the client has every sender between its start and its cursor. -/
structure Walk.Invariant (start : Checkpoint) (c : Walk) (L : Ledger) : Prop where
  mirrors : Mirrors L c.world
  forward : c.shouldContinue = true → start.senderIndex.toNat ≤ c.checkpoint.senderIndex.toNat
  inside : c.shouldContinue = true → c.checkpoint.senderIndex.toNat ≤ L.senders.length
  once : c.shouldContinue = true → c.delivered.Perm (page L.senders start.senderIndex.toNat
    (c.checkpoint.senderIndex.toNat - start.senderIndex.toNat))

theorem Walk.Invariant.step {start : Checkpoint} {c d : Walk} {L : Ledger}
    (invariant : c.Invariant start L) (step : Walk.Step Extends Covered c d) :
    ∃ M, d.Invariant start M := by
  cases step with
  | committed extended =>
    obtain ⟨M, le, mirrors⟩ := Extends.later extended invariant.mirrors
    refine ⟨M, mirrors, invariant.forward, ?_, ?_⟩
    · exact fun continues => (invariant.inside continues).trans (Ledger.senders_le le)
    · intro continues
      have forward := invariant.forward continues
      have inside := invariant.inside continues
      have room : start.senderIndex.toNat +
          (c.checkpoint.senderIndex.toNat - start.senderIndex.toNat) ≤ L.senders.length := by omega
      have same := page_longer le.2 room
      exact same ▸ invariant.once continues
  | @asked receivers senders outside world response next chunk continues met ran found read =>
    have forward := invariant.forward continues
    have inside := invariant.inside continues
    obtain ⟨_, _, quiet, next_eq, chunk_eq, cursor, paged, flag⟩ :=
      densePullLedgerDiff_alone invariant.mirrors inside ran
    obtain rfl := Option.some.inj (found.symm.trans next_eq)
    obtain rfl := Option.some.inj (read.symm.trans chunk_eq)
    have holds := invariant.mirrors.represents
    have counts : ∀ s, c.world.db.countShards s = L.count s := holds.count
    -- If the walk goes on, the whole range that was asked for is stored.
    have stored : response.shouldContinue = true → next.senderIndex.toNat ≤ L.senders.length := by
      intro more
      rw [flag, Bool.or_eq_true, decide_eq_true_eq] at more
      rcases met with full | uncut
      · rw [holds.countNullifier] at full
        omega
      · simp only [counts] at uncut
        have uncut : cut (left (fun _ => L) c.checkpoint.receiverIndex) allShards _ = false := uncut
        rw [uncut] at more
        simp only [Bool.false_eq_true, false_or] at more
        omega
    refine ⟨L, quiet.mirrors invariant.mirrors, fun _ => ?_, stored, fun more => ?_⟩
    · show start.senderIndex.toNat ≤ next.senderIndex.toNat
      omega
    · have amount : (min senders maxSenders).toNat =
          next.senderIndex.toNat - c.checkpoint.senderIndex.toNat := by omega
      rw [amount] at paged
      have later : c.checkpoint.senderIndex.toNat ≤ next.senderIndex.toNat := by omega
      exact ((invariant.once continues).append paged).trans (.of_eq (page_append _ forward later))

theorem Walk.Reachable.invariant {start : Checkpoint} {w : World} {L : Ledger}
    (mirrors : Mirrors L w) (inside : start.senderIndex.toNat ≤ L.senders.length) {c : Walk}
    (reachable : Walk.Reachable Extends Covered w start c) : ∃ M, c.Invariant start M := by
  induction reachable with
  | start =>
    refine ⟨L, mirrors, fun _ => le_rfl, fun _ => inside, fun _ => ?_⟩
    show ([] : List Sender).Perm (page L.senders _ (start.senderIndex.toNat - _))
    rw [Nat.sub_self, page, List.take_zero]
  | step before step ih =>
    obtain ⟨M, invariant⟩ := ih
    exact invariant.step step

end Walk

/-- In every walk in which each request has a full page of senders or a page of receivers that does
not end inside a shard: whenever the last response had `should_continue = true`, the senders
delivered are exactly those from the start of the walk up to its cursor, and the cursor is not past
the stored senders. -/
theorem no_sender_skipped [Pallet] [Transport] {w : World} {L : Ledger} (holds : Represents w.db L)
    (coherent : Coherent L w.lru) (start : Checkpoint)
    (inside : start.senderIndex.toNat ≤ L.senders.length) {c : Walk}
    (reachable : Walk.Reachable Extends Covered w start c) (continues : c.shouldContinue = true) :
    ∃ M, Mirrors M c.world ∧ c.checkpoint.senderIndex.toNat ≤ M.senders.length ∧
      c.checkpoint.senderIndex.toNat = start.senderIndex.toNat + c.delivered.length ∧
      c.delivered.Perm (page M.senders start.senderIndex.toNat
        (c.checkpoint.senderIndex.toNat - start.senderIndex.toNat)) := by
  obtain ⟨M, invariant⟩ := reachable.invariant ⟨holds, coherent⟩ inside
  have once := invariant.once continues
  have forward := invariant.forward continues
  have within := invariant.inside continues
  have lengths := once.length_eq
  rw [length_page] at lengths
  exact ⟨M, invariant.mirrors, within, by omega, once⟩

section Sample

attribute [local instance] samplePallet

@[reducible] def sampleTransport : Transport where
  base64 := Base64.encode
  fromBase64 := Base64.decode
  encodeVec := encodeVec
  decodeVec := decodeVec
  fromBase64_base64 := Base64.decode_encode
  decodeVec_encodeVec := decodeVec_encodeVec

attribute [local instance] sampleTransport

theorem sample_dense {w : World} {ck : Checkpoint} {receivers senders : UInt64} {flag : Bool}
    {chunk : List Sender} {index : UInt64} (short : chunk.length < 2 ^ 32)
    (answer : ((pullLedgerDiffImpl ck receivers senders).run (World.handle Outside.offline) w).1.map
      (fun result => (result.1.shouldContinue, result.1.senders, result.2.senderIndex)) =
        .ok (flag, chunk, index)) :
    ∃ response next v, (densePullLedgerDiff ck receivers senders).run (World.handle Outside.offline) w =
        (.ok response, v) ∧ response.nextCheckpoint = some next ∧
      response.senderChunk = some chunk ∧ response.shouldContinue = flag ∧
      next.senderIndex = index ∧
      v = ((pullLedgerDiffImpl ck receivers senders).run (World.handle Outside.offline) w).2 := by
  rw [densePullLedgerDiff, Prog.run_bind]
  generalize (pullLedgerDiffImpl ck receivers senders).run (World.handle Outside.offline) w = result
    at answer
  obtain ⟨out, v⟩ := result
  cases out with
  | error error => cases answer
  | ok value =>
    cases answer
    refine ⟨_, value.2, v, rfl, rfl, ?_, rfl, rfl, rfl⟩
    simp [DensePullResponse.senderChunk, Transport.fromBase64_base64,
      Transport.decodeVec_encodeVec short]

def sampleStock (senders : List Sender) : Ledger := ⟨samplePair.receivers, senders⟩

def sampleStocked (senders : List Sender) : World :=
  World.filled (sampleStock senders) sampleTotal (Lru.empty 4)

theorem sampleStock_holds {senders : List Sender} (few : senders.length < 2 ^ 48 - 4096) :
    Represents (Database.filled (sampleStock senders) sampleTotal) (sampleStock senders) := by
  refine represents_filled _ ⟨?_, few⟩
  show ∀ s, samplePair.count s < 2 ^ 48 - 4096
  decide +kernel

theorem sampleStocked_mirrors {senders : List Sender} (few : senders.length < 2 ^ 48 - 4096) :
    Mirrors (sampleStock senders) (sampleStocked senders) :=
  ⟨sampleStock_holds few, Coherent.empty _ _⟩

theorem no_sender_skipped_stocked :
    ∃ c, Walk.Reachable Extends Covered (sampleStocked [sampleSender 8, sampleSender 9])
        Checkpoint.default c ∧ c.shouldContinue = true ∧ c.delivered = [sampleSender 8] ∧
      ∃ M, Mirrors M c.world ∧ c.checkpoint.senderIndex.toNat ≤ M.senders.length ∧
        c.checkpoint.senderIndex.toNat =
          Checkpoint.default.senderIndex.toNat + c.delivered.length ∧
        c.delivered.Perm (page M.senders Checkpoint.default.senderIndex.toNat
          (c.checkpoint.senderIndex.toNat - Checkpoint.default.senderIndex.toNat)) := by
  obtain ⟨response, next, v, ran, found, read, more, -, -⟩ :=
    sample_dense (w := sampleStocked [sampleSender 8, sampleSender 9]) (by decide)
      (by decide +kernel : ((pullLedgerDiffImpl Checkpoint.default 1 1).run
        (World.handle Outside.offline) (sampleStocked [sampleSender 8, sampleSender 9])).1.map
          (fun result => (result.1.shouldContinue, result.1.senders, result.2.senderIndex)) =
            .ok (true, [sampleSender 8], 1))
  have mirrors : Mirrors _ (sampleStocked [sampleSender 8, sampleSender 9]) :=
    sampleStocked_mirrors (by decide)
  have covered : Covered (sampleStocked [sampleSender 8, sampleSender 9]) Checkpoint.default 1 1 :=
    .inl (by decide)
  have reachable : Walk.Reachable Extends Covered _ Checkpoint.default
      ⟨v, next, response.shouldContinue, [] ++ [sampleSender 8]⟩ :=
    .step .start (.asked (c := Walk.start _ _) rfl covered ran found read)
  exact ⟨_, reachable, more, rfl, no_sender_skipped mirrors.represents mirrors.coherent
    Checkpoint.default (Nat.zero_le _) reachable more⟩

/-- No sender is stored, and the receivers keep the walk going: the cursor moves to 1, and the sender
committed next gets the index 0. -/
theorem sender_skipped :
    Mirrors (sampleStock []) (sampleStocked []) ∧
    ∃ c, Walk.Reachable Extends (fun _ _ _ _ => True) (sampleStocked []) Checkpoint.default c ∧
      c.shouldContinue = true ∧ c.checkpoint.senderIndex = 1 ∧ c.delivered = [] ∧
      ∃ M, Mirrors M c.world ∧ M.senders = [sampleSender 9] ∧
        ¬ c.delivered.Perm (page M.senders Checkpoint.default.senderIndex.toNat
          (c.checkpoint.senderIndex.toNat - Checkpoint.default.senderIndex.toNat)) := by
  have mirrors : Mirrors (sampleStock []) (sampleStocked []) := sampleStocked_mirrors (by decide)
  obtain ⟨response, next, v, ran, found, read, more, index, -⟩ :=
    sample_dense (w := sampleStocked []) (by decide)
      (by decide +kernel : ((pullLedgerDiffImpl Checkpoint.default 1 1).run
        (World.handle Outside.offline) (sampleStocked [])).1.map
          (fun result => (result.1.shouldContinue, result.1.senders, result.2.senderIndex)) =
            .ok (true, [], 1))
  obtain ⟨_, _, quiet, -⟩ := densePullLedgerDiff_alone mirrors (Nat.zero_le _) ran
  have served := quiet.mirrors mirrors
  have longer : sampleStock [] ≤ sampleStock [sampleSender 9] :=
    ⟨fun _ => List.prefix_rfl, List.nil_prefix⟩
  have committed : Mirrors (sampleStock [sampleSender 9])
      { v with db := Database.filled (sampleStock [sampleSender 9]) sampleTotal } :=
    ⟨sampleStock_holds (by decide), served.coherent.mono longer⟩
  have grows : Extends v { v with db := Database.filled (sampleStock [sampleSender 9]) sampleTotal } :=
    served.grows committed longer id
  have reachable : Walk.Reachable Extends (fun _ _ _ _ => True) (sampleStocked [])
      Checkpoint.default ⟨v, next, response.shouldContinue, []⟩ :=
    .step .start (.asked (c := Walk.start _ _) rfl trivial ran found read)
  refine ⟨mirrors, _, reachable.step (.committed grows), more, index, rfl, _, committed, rfl, ?_⟩
  show ¬ ([] : List Sender).Perm (page [sampleSender 9] 0 (next.senderIndex.toNat - 0))
  rw [index]
  exact fun perm => absurd perm.length_eq (by decide)

end Sample

end MantaIndexer
