import MantaIndexer.Mirror.Aliases
import MantaIndexer.Mirror.Completeness

/-!
Sums and differences of words in a request. The receivers are guarded: an index is only added to
once a row is found at it. Nothing guards the index of the senders, which is the client's own.
-/

namespace MantaIndexer
open Effects Encoding Collections

section InRange

variable [P : Pallet]

/-- A request in which no sum and no difference leaves the range of a word, so that the cursors it
answers with are not before those it was sent, and senders past the end do not continue. -/
structure InRange (outside : Outside) (w : World) (ck : Checkpoint) (receivers senders : UInt64) :
    Prop where
  checked : ((Profile.debug.pullLedgerDiffImpl ck receivers senders).run (World.handle outside) w).1 ≠
    .error .panicked
  same : (Profile.debug.pullLedgerDiffImpl ck receivers senders).run (World.handle outside) w =
    (pullLedgerDiffImpl ck receivers senders).run (World.handle outside) w
  forward : ∀ response next,
    ((pullLedgerDiffImpl ck receivers senders).run (World.handle outside) w).1 =
        .ok (response, next) →
      (∀ s, ck.receiverIndex s ≤ next.receiverIndex s) ∧ ck.senderIndex ≤ next.senderIndex
  ends : w.db.countNullifier ≤ ck.senderIndex.toNat → ∀ pulled v more next chunk u,
    (pullReceivers ck.receiverIndex (min receivers maxReceivers)).run (World.handle outside) w =
        (.ok pulled, v) →
      (pullSenders ck.senderIndex (min senders maxSenders)).run (World.handle outside) v =
        (.ok (more, next, chunk), u) → more = false

omit P in
theorem totalOf_not_panicked {α : Type} (db : Database) (f : TotalBytes → α) :
    (totalOf db).map f ≠ .error .panicked := by
  unfold totalOf
  split
  · exact nofun
  · split
    · exact nofun
    · exact nofun

variable {w : World} {L : Ledger} (mirrors : Mirrors L w) {ck : Checkpoint}
  {maxReceivers maxSenders : UInt64} (room : ∀ s, L.count s + maxReceivers.toNat ≤ 2 ^ 48)

include mirrors room

theorem pullLedgerDiff_panics
    (wraps : 2 ^ 64 ≤ ck.senderIndex.toNat + maxSenders.toNat) (outside : Outside) :
    ((Profile.debug.pullLedgerDiff ck maxReceivers maxSenders).run (World.handle outside) w).1 =
      .error .panicked := by
  obtain ⟨chunk, v, ran, -⟩ := pullReceivers_still mirrors .debug ck.receiverIndex room outside
  unfold Profile.pullLedgerDiff
  rw [Prog.run_bind_ok ran]
  dsimp only
  rw [Profile.pullSenders_panics wraps]
  rfl

theorem pullLedgerDiff_not_panicked
    (inRange : ck.senderIndex.toNat + maxSenders.toNat < 2 ^ 64) (outside : Outside) :
    ((Profile.debug.pullLedgerDiff ck maxReceivers maxSenders).run (World.handle outside) w).1 ≠
      .error .panicked := by
  obtain ⟨chunk, v, senders, -, -, -, -, answer⟩ :=
    pullLedgerDiff_served mirrors room (Profile.pullSenders_inRange .debug inRange) outside
  rw [answer]
  exact totalOf_not_panicked _ _

theorem pullLedgerDiff_forward (inRange : ck.senderIndex.toNat + maxSenders.toNat < 2 ^ 64)
    (outside : Outside) {response : PullResponse} {next : Checkpoint}
    (answered : ((pullLedgerDiff ck maxReceivers maxSenders).run (World.handle outside) w).1 =
      .ok (response, next)) :
    (∀ s, ck.receiverIndex s ≤ next.receiverIndex s) ∧ ck.senderIndex ≤ next.senderIndex := by
  obtain ⟨chunk, v, senders, -, -, -, answer⟩ :=
    pullLedgerDiff_serves mirrors ck maxSenders room outside
  rw [answer] at answered
  cases total : totalOf w.db with
  | error error =>
    rw [total] at answered
    cases answered
  | ok bytes =>
    rw [total] at answered
    cases answered
    constructor
    · intro s
      rw [UInt64.le_iff_toNat_le, advanced_toNat mirrors.represents.below]
      exact Nat.le_add_right _ _
    · rw [UInt64.le_iff_toNat_le, toNat_add inRange]
      exact Nat.le_add_right _ _

theorem pullSenders_ends (inRange : ck.senderIndex.toNat + maxSenders.toNat < 2 ^ 64)
    (past : w.db.countNullifier ≤ ck.senderIndex.toNat) (outside : Outside)
    {pulled : Bool × (ShardIndex → UInt64) × List Receiver} {v u : World} {more : Bool}
    {next : UInt64} {senders : List Sender}
    (first : (pullReceivers ck.receiverIndex maxReceivers).run (World.handle outside) w =
      (.ok pulled, v))
    (second : (pullSenders ck.senderIndex maxSenders).run (World.handle outside) v =
      (.ok (more, next, senders), u)) : more = false := by
  obtain ⟨chunk, v', ran, -, later, -⟩ :=
    pullReceivers_still mirrors .release ck.receiverIndex room outside
  rw [Profile.pullReceivers_release, first] at ran
  cases ran
  obtain ⟨found, lru, ran', -⟩ := pullSenders_served later.represents.nullifiers
    (later.represents.below.2.trans (by decide)) later.coherent ck.senderIndex maxSenders outside
  rw [second] at ran'
  cases ran'
  rw [mirrors.represents.countNullifier] at past
  rw [decide_eq_false_iff_not, toNat_add inRange]
  omega

end InRange

/-- On a contiguous database with a coherent cache, nothing wraps in a request exactly when the index
of the senders and their capped number fit a word together. Otherwise a debug build panics. -/
theorem request_in_range [Pallet] {w : World} {L : Ledger} (holds : Represents w.db L)
    (coherent : Coherent L w.lru) (ck : Checkpoint) (receivers senders : UInt64)
    (outside : Outside) :
    InRange outside w ck receivers senders ↔
      ck.senderIndex.toNat + min senders.toNat 4096 < 2 ^ 64 := by
  have mirrors : Mirrors L w := ⟨holds, coherent⟩
  have limit : (min receivers maxReceivers).toNat ≤ 4096 := by
    rw [toNat_min_maxReceivers]
    exact Nat.min_le_right _ _
  have room := holds.room limit
  rw [← toNat_min_maxSenders]
  constructor
  · intro within
    by_contra wraps
    exact within.checked (pullLedgerDiff_panics mirrors room (Nat.le_of_not_lt wraps) outside)
  · intro inRange
    have fine := pullLedgerDiff_not_panicked mirrors room inRange outside
    refine ⟨fine, ?_, fun response next => ?_, fun past pulled v more next chunk u => ?_⟩
    · have either := Profile.panicsOr_pullLedgerDiff .debug ck (min receivers maxReceivers)
        (min senders maxSenders) outside w
      rw [Profile.pullLedgerDiff_release] at either
      exact either.resolve_left fine
    · exact pullLedgerDiff_forward mirrors room inRange outside
    · exact pullSenders_ends mirrors room inRange past outside

section Sample

attribute [local instance] samplePallet

/-- The last index of all. -/
def sampleLast : Checkpoint := ⟨fun _ => 0, 2 ^ 64 - 1⟩

theorem request_in_range_cached :
    InRange Outside.offline sampleCached Checkpoint.default 1 1 ↔
      Checkpoint.default.senderIndex.toNat + min (1 : UInt64).toNat 4096 < 2 ^ 64 :=
  request_in_range sampleCached_mirrors.represents sampleCached_mirrors.coherent
    Checkpoint.default 1 1 Outside.offline

/-- From the last index, the release build goes back to zero and finds the first sender
there; the debug build panics. -/
theorem request_wraps :
    Represents sampleCached.db sampleStoredSpent ∧ Coherent sampleStoredSpent sampleCached.lru ∧
    ((Profile.debug.pullLedgerDiffImpl sampleLast 1 1).run
      (World.handle Outside.offline) sampleCached).1.map (fun _ => ()) = .error .panicked ∧
    ((pullLedgerDiffImpl sampleLast 1 1).run (World.handle Outside.offline)
      sampleCached).1.map (fun result => (result.1.shouldContinue, result.2.senderIndex)) =
        .ok (true, 0) ∧
    ¬ InRange Outside.offline sampleCached sampleLast 1 1 := by
  have panics : ((Profile.debug.pullLedgerDiffImpl sampleLast 1 1).run
      (World.handle Outside.offline) sampleCached).1.map (fun _ => ()) = .error .panicked := by
    decide +kernel
  refine ⟨sampleCached_mirrors.represents, sampleCached_mirrors.coherent, panics,
    by decide +kernel, fun within => within.checked ?_⟩
  generalize ((Profile.debug.pullLedgerDiffImpl sampleLast 1 1).run
    (World.handle Outside.offline) sampleCached).1 = out at panics
  cases out with
  | error error =>
    cases panics
    rfl
  | ok result => cases panics

end Sample

end MantaIndexer
