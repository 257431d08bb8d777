import MantaIndexer.Indexer.Pull

/-!
The pulls as each build profile runs them. Where a sum or a difference of words leaves the range, a
debug build panics; a release build, and the production profile that inherits from it, wraps around
and goes on. `Pull.lean` is the release build.
-/

namespace MantaIndexer
open Effects Encoding Collections

inductive Profile where
  | debug
  | release
  deriving DecidableEq

namespace Profile

variable [P : Pallet]

def check (inRange : Prop) [Decidable inRange] : Profile → Task Unit
  | .debug => if inRange then return () else Prog.fail .panicked
  | .release => return ()

def add (profile : Profile) (a b : UInt64) : Task UInt64 := do
  profile.check (a.toNat + b.toNat < 2 ^ 64)
  return a + b

def sub (profile : Profile) (a b : UInt64) : Task UInt64 := do
  profile.check (b.toNat ≤ a.toNat)
  return a - b

/-- The sum of two lengths. -/
def addLengths (profile : Profile) (m n : Nat) : Task Nat := do
  profile.check (m + n < 2 ^ 64)
  return m + n

theorem check_eq {inRange : Prop} [Decidable inRange] (profile : Profile) (h : inRange) :
    profile.check inRange = (.ret () : Task Unit) := by
  cases profile with
  | debug => exact if_pos h
  | release => rfl

theorem add_eq (profile : Profile) {a b : UInt64} (h : a.toNat + b.toNat < 2 ^ 64) :
    profile.add a b = .ret (a + b) := by
  rw [add, check_eq profile h]
  rfl

theorem sub_eq (profile : Profile) {a b : UInt64} (h : b.toNat ≤ a.toNat) :
    profile.sub a b = .ret (a - b) := by
  rw [sub, check_eq profile h]
  rfl

theorem addLengths_eq (profile : Profile) {m n : Nat} (h : m + n < 2 ^ 64) :
    profile.addLengths m n = .ret (m + n) := by
  rw [addLengths, check_eq profile h]
  rfl

theorem add_panics {a b : UInt64} (h : 2 ^ 64 ≤ a.toNat + b.toNat) :
    debug.add a b = Prog.fail .panicked := by
  unfold add check
  rw [if_neg (by omega)]
  rfl

/-! ### `pull.rs` and `indexer/mod.rs` -/

def pullReceiversForShard (profile : Profile) (shardIndex : ShardIndex)
    (receiverIndex amount : UInt64) (receivers : List Receiver) : Task (Bool × List Receiver) := do
  let maxReceiverIndex ← profile.add receiverIndex amount
  let allIndices := span receiverIndex maxReceiverIndex
  let cached ← getBatchShardReceiver shardIndex allIndices
  let (hits, queryDbIndices) ← Prog.lift (splitCached Receiver allIndices cached)
  let shards ← getBatchedShardsByIdxs shardIndex queryDbIndices
  let (rows, writeBack) ← Prog.lift (decodeShards shards)
  putBatchReceiver shardIndex writeBack
  let receivers := receivers ++ hits ++ rows
  if (← profile.addLengths shards.length hits.length) = amount.toNat then
    return (← hasShard shardIndex maxReceiverIndex, receivers)
  else return (false, receivers)

def pullShards (profile : Profile) (receiverIndices : ShardIndex → UInt64) (maxAmount : UInt64) :
    List ShardIndex → PullState → Task PullState
  | [], state => return state
  | shardIndex :: rest, state => do
    let utxoIndex := receiverIndices shardIndex
    if !(← hasShard shardIndex utxoIndex) then
      profile.pullShards receiverIndices maxAmount rest state
    else
      let beforePull := UInt64.ofNat state.receivers.length
      let (more, receivers) ←
        profile.pullReceiversForShard shardIndex utxoIndex state.remain state.receivers
      let afterPull := UInt64.ofNat receivers.length
      let nextIndex ← profile.sub (← profile.add utxoIndex afterPull) beforePull
      let state := { state with
        moreReceivers := state.moreReceivers || more
        receivers := receivers
        nextIndices := Function.update state.nextIndices shardIndex nextIndex }
      if receivers.length = maxAmount.toNat then return state
      else
        let remain ← profile.sub maxAmount (UInt64.ofNat receivers.length)
        profile.pullShards receiverIndices maxAmount rest { state with remain }

def pullReceivers (profile : Profile) (receiverIndices : ShardIndex → UInt64) (maxAmount : UInt64) :
    Task (Bool × (ShardIndex → UInt64) × List Receiver) := do
  let state ← profile.pullShards receiverIndices maxAmount (List.finRange forestWidth)
    ⟨false, [], receiverIndices, maxAmount⟩
  return (state.moreReceivers, state.nextIndices, state.receivers)

def pullSenders (profile : Profile) (senderIndex amount : UInt64) :
    Task (Bool × UInt64 × List Sender) := do
  let allIndices := span senderIndex (← profile.add senderIndex amount)
  let cached ← getBatchSender allIndices
  let (hits, queryDbIndices) ← Prog.lift (splitCached Sender allIndices cached)
  let nullifiers ← getBatchedNullifierByIdxs queryDbIndices
  let (rows, writeBack) ← Prog.lift (decodeNullifiers nullifiers)
  putBatchSender writeBack
  let more ← hasNullifier (← profile.add senderIndex amount)
  return (more, ← profile.add senderIndex amount, hits ++ rows)

def pullLedgerDiff (profile : Profile) (checkpoint : Checkpoint) (maxReceivers maxSenders : UInt64) :
    Task (PullResponse × Checkpoint) := do
  let (moreReceivers, nextReceiverIndex, receivers) ←
    profile.pullReceivers checkpoint.receiverIndex maxReceivers
  let (moreSenders, nextSenderIndex, senders) ←
    profile.pullSenders checkpoint.senderIndex maxSenders
  let sendersReceiversTotal ← getTotalSendersReceivers
  return ({ shouldContinue := moreReceivers || moreSenders
            receivers, senders, sendersReceiversTotal },
    ⟨nextReceiverIndex, nextSenderIndex⟩)

def pullLedgerDiffImpl (profile : Profile) (checkpoint : Checkpoint) (receivers senders : UInt64) :
    Task (PullResponse × Checkpoint) :=
  profile.pullLedgerDiff checkpoint (min receivers maxReceivers) (min senders maxSenders)

/-! ### The release build -/

theorem pullReceiversForShard_release (s : ShardIndex) (x amount : UInt64)
    (before : List Receiver) :
    release.pullReceiversForShard s x amount before =
      MantaIndexer.pullReceiversForShard s x amount before := rfl

theorem pullShards_release (indices : ShardIndex → UInt64) (maxAmount : UInt64)
    (shards : List ShardIndex) (state : PullState) :
    release.pullShards indices maxAmount shards state =
      MantaIndexer.pullShards indices maxAmount shards state := by
  induction shards generalizing state with
  | nil => rfl
  | cons s shards ih =>
    unfold pullShards MantaIndexer.pullShards
    simp only [pullReceiversForShard_release, ih]
    rfl

theorem pullReceivers_release (indices : ShardIndex → UInt64) (maxAmount : UInt64) :
    release.pullReceivers indices maxAmount = MantaIndexer.pullReceivers indices maxAmount := by
  rw [pullReceivers, pullShards_release]
  rfl

theorem pullSenders_release (x amount : UInt64) :
    release.pullSenders x amount = MantaIndexer.pullSenders x amount := rfl

theorem pullSenders_inRange (profile : Profile) {x amount : UInt64}
    (inRange : x.toNat + amount.toNat < 2 ^ 64) :
    profile.pullSenders x amount = MantaIndexer.pullSenders x amount := by
  rw [pullSenders]
  simp only [profile.add_eq inRange]
  rfl

theorem pullSenders_panics {x amount : UInt64} (outside : 2 ^ 64 ≤ x.toNat + amount.toNat) :
    debug.pullSenders x amount = Prog.fail .panicked := by
  rw [pullSenders, add_panics outside]
  rfl

theorem pullLedgerDiff_release (ck : Checkpoint) (maxReceivers maxSenders : UInt64) :
    release.pullLedgerDiff ck maxReceivers maxSenders =
      MantaIndexer.pullLedgerDiff ck maxReceivers maxSenders := by
  rw [pullLedgerDiff, pullReceivers_release]
  rfl

/-! ### The debug build -/

/-- The first program panics, or it does what the second one does. -/
def PanicsOr {α : Type} (p q : Task α) : Prop :=
  ∀ (outside : Outside) (w : World), (p.run (World.handle outside) w).1 = .error .panicked ∨
    p.run (World.handle outside) w = q.run (World.handle outside) w

section PanicsOr

variable {α β : Type} {p q : Task α} {f g : α → Task β}

theorem PanicsOr.refl (p : Task α) : PanicsOr p p := fun _ _ => .inr rfl

theorem PanicsOr.bind (first : PanicsOr p q) (rest : ∀ value, PanicsOr (f value) (g value)) :
    PanicsOr (p >>= f) (q >>= g) := by
  intro outside w
  rw [Prog.run_bind, Prog.run_bind]
  rcases first outside w with panics | same
  · left
    generalize p.run (World.handle outside) w = out at panics
    obtain ⟨outcome, v⟩ := out
    obtain rfl : outcome = .error .panicked := panics
    rfl
  · rw [same]
    generalize q.run (World.handle outside) w = out
    obtain ⟨outcome, v⟩ := out
    cases outcome with
    | error error => exact .inr rfl
    | ok value => exact rest value outside v

theorem panicsOr_check (profile : Profile) (inRange : Prop) [Decidable inRange] :
    PanicsOr (profile.check inRange) (release.check inRange) := by
  intro outside w
  by_cases h : inRange
  · rw [check_eq profile h]
    exact .inr rfl
  · cases profile with
    | debug =>
      left
      unfold check
      rw [if_neg h]
      rfl
    | release => exact .inr rfl

end PanicsOr

theorem panicsOr_add (profile : Profile) (a b : UInt64) :
    PanicsOr (profile.add a b) (release.add a b) :=
  (panicsOr_check profile _).bind fun _ => .refl _

theorem panicsOr_sub (profile : Profile) (a b : UInt64) :
    PanicsOr (profile.sub a b) (release.sub a b) :=
  (panicsOr_check profile _).bind fun _ => .refl _

theorem panicsOr_addLengths (profile : Profile) (m n : Nat) :
    PanicsOr (profile.addLengths m n) (release.addLengths m n) :=
  (panicsOr_check profile _).bind fun _ => .refl _

theorem panicsOr_pullReceiversForShard (profile : Profile) (s : ShardIndex) (x amount : UInt64)
    (before : List Receiver) :
    PanicsOr (profile.pullReceiversForShard s x amount before)
      (release.pullReceiversForShard s x amount before) := by
  refine (panicsOr_add profile x amount).bind fun last => ?_
  refine (PanicsOr.refl _).bind fun cached => ?_
  refine (PanicsOr.refl _).bind fun split => ?_
  refine (PanicsOr.refl _).bind fun shards => ?_
  refine (PanicsOr.refl _).bind fun decoded => ?_
  refine (PanicsOr.refl _).bind fun _ => ?_
  refine (panicsOr_addLengths profile shards.length split.1.length).bind fun _ => ?_
  exact .refl _

theorem panicsOr_pullShards (profile : Profile) (indices : ShardIndex → UInt64) (maxAmount : UInt64)
    (shards : List ShardIndex) (state : PullState) :
    PanicsOr (profile.pullShards indices maxAmount shards state)
      (release.pullShards indices maxAmount shards state) := by
  induction shards generalizing state with
  | nil => exact .refl _
  | cons s shards ih =>
    unfold pullShards
    refine (PanicsOr.refl _).bind fun there => ?_
    cases there with
    | false => exact ih state
    | true =>
      refine (panicsOr_pullReceiversForShard profile s _ _ _).bind fun pulled => ?_
      refine (panicsOr_add profile _ _).bind fun sum => ?_
      refine (panicsOr_sub profile _ _).bind fun next => ?_
      split
      · exact .refl _
      · exact (panicsOr_sub profile _ _).bind fun remain => ih _

theorem panicsOr_pullReceivers (profile : Profile) (indices : ShardIndex → UInt64)
    (maxAmount : UInt64) :
    PanicsOr (profile.pullReceivers indices maxAmount) (release.pullReceivers indices maxAmount) :=
  (panicsOr_pullShards profile _ _ _ _).bind fun _ => .refl _

theorem panicsOr_pullSenders (profile : Profile) (x amount : UInt64) :
    PanicsOr (profile.pullSenders x amount) (release.pullSenders x amount) := by
  refine (panicsOr_add profile x amount).bind fun last => ?_
  refine (PanicsOr.refl _).bind fun cached => ?_
  refine (PanicsOr.refl _).bind fun split => ?_
  refine (PanicsOr.refl _).bind fun nullifiers => ?_
  refine (PanicsOr.refl _).bind fun decoded => ?_
  refine (PanicsOr.refl _).bind fun _ => ?_
  refine (panicsOr_add profile x amount).bind fun next => ?_
  refine (PanicsOr.refl _).bind fun more => ?_
  exact (panicsOr_add profile x amount).bind fun last => .refl _

theorem panicsOr_pullLedgerDiff (profile : Profile) (ck : Checkpoint)
    (maxReceivers maxSenders : UInt64) :
    PanicsOr (profile.pullLedgerDiff ck maxReceivers maxSenders)
      (release.pullLedgerDiff ck maxReceivers maxSenders) := by
  refine (panicsOr_pullReceivers profile _ _).bind fun receivers => ?_
  refine (panicsOr_pullSenders profile _ _).bind fun senders => ?_
  exact .refl _

end Profile

end MantaIndexer
