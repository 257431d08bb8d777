import MantaIndexer.Mirror.Paging

/-!
The answer of a pull. It is read from several databases, one after the other; when nothing is
committed meanwhile it depends on the ledger alone, up to the order of the items, whatever happens to
the cache.
-/

namespace MantaIndexer
open Effects Encoding Collections

variable [P : Pallet]

/-- The outcome of a pull on a database that holds the ledger `L`, up to the order of the items. -/
def Still (L : Ledger) (db : Database) (ck : Checkpoint) (maxReceivers maxSenders : UInt64)
    (out : Except Error (PullResponse × Checkpoint)) : Prop :=
  ∃ receivers senders,
    receivers.Perm (gathered (fun _ => L) ck.receiverIndex allShards maxReceivers.toNat) ∧
    senders.Perm (page L.senders ck.senderIndex.toNat maxSenders.toNat) ∧
    out = (totalOf db).map fun sendersReceiversTotal =>
      (⟨cut (left (fun _ => L) ck.receiverIndex) allShards maxReceivers.toNat ||
          decide (ck.senderIndex.toNat + maxSenders.toNat < L.senders.length),
        receivers, senders, sendersReceiversTotal⟩,
      ⟨advanced (fun _ => L) ck.receiverIndex maxReceivers.toNat, ck.senderIndex + maxSenders⟩)

/-- The outcome of a pull read from several databases with the property `inv`, one after the other:
each shard from a ledger of its own, in the order of the shards, then the senders from `M`, the flag
of the senders from `N` and the total from `db`. -/
def ReadFrom (inv : Database → Prop) (L : Ledger) (ck : Checkpoint) (maxReceivers maxSenders : UInt64)
    (out : Except Error (PullResponse × Checkpoint)) : Prop :=
  ∃ view M N T receivers senders db, Views inv L M allShards view ∧ Held inv M ∧ M ≤ N ∧
    Held inv N ∧ N ≤ T ∧ inv db ∧ Represents db T ∧
    receivers.Perm (gathered view ck.receiverIndex allShards maxReceivers.toNat) ∧
    senders.Perm (page M.senders ck.senderIndex.toNat maxSenders.toNat) ∧
    out = (totalOf db).map fun sendersReceiversTotal =>
      (⟨cut (left view ck.receiverIndex) allShards maxReceivers.toNat ||
          decide (ck.senderIndex.toNat + maxSenders.toNat < N.senders.length),
        receivers, senders, sendersReceiversTotal⟩,
      ⟨advanced view ck.receiverIndex maxReceivers.toNat, ck.senderIndex + maxSenders⟩)

theorem ReadFrom.still {inv : Database → Prop} {L : Ledger} {ck : Checkpoint}
    {maxReceivers maxSenders : UInt64} {out : Except Error (PullResponse × Checkpoint)}
    {db : Database} (holds : Represents db L) (one : ∀ other, inv other → other = db)
    (h : ReadFrom inv L ck maxReceivers maxSenders out) :
    Still L db ck maxReceivers maxSenders out := by
  have unique : ∀ M, Held inv M → M = L := by
    rintro M ⟨other, meets, held⟩
    rw [one other meets] at held
    exact held.unique holds
  obtain ⟨view, M, N, T, receivers, senders, last, views, heldM, -, heldN, -, meets, -, gatheredAll,
    paged, rfl⟩ := h
  have same : view = fun _ => L := by
    funext s
    exact unique _ (views.held s (List.mem_finRange s))
  obtain rfl := unique M heldM
  obtain rfl := unique N heldN
  obtain rfl := one last meets
  subst same
  exact ⟨receivers, senders, gatheredAll, paged, rfl⟩

theorem pullLedgerDiff_readFrom {rely : World → World → Prop} {w : World} {inv : Database → Prop}
    {L : Ledger} (refl : ∀ w, rely w w) (grows : ∀ w v, rely w v → Grows inv w v)
    (follows : Follows inv L w) {ck : Checkpoint} {maxReceivers maxSenders : UInt64}
    (room : Room inv maxReceivers) (fits : ck.senderIndex.toNat + maxSenders.toNat ≤ 2 ^ 48) :
    Pulls rely (fun out _ => ReadFrom inv L ck maxReceivers maxSenders out)
      (pullLedgerDiff ck maxReceivers maxSenders) w := by
  apply (pullLedgerDiff_pulls refl grows follows room fits).mono
  rintro out t ⟨O, view, M, N, T, receivers, senders, db, -, views, leM, leN, leT, heldM, heldN,
    holds, represents, -, gatheredAll, paged, same⟩
  exact ⟨view, M, N, T, receivers, senders, db, views.later leM, heldM, leN, heldN, leT, holds,
    represents, gatheredAll, paged, same⟩

/-! ### The only database the call meets is the one it started with -/

theorem Represents.held {db : Database} {L M : Ledger} (holds : Represents db L)
    (held : Held (fun other => other = db) M) : M = L := by
  obtain ⟨_, rfl, other⟩ := held
  exact other.unique holds

theorem Represents.roomAlone {db : Database} {L : Ledger} (holds : Represents db L)
    {maxAmount : UInt64} (room : ∀ s, L.count s + maxAmount.toNat ≤ 2 ^ 48) :
    Room (fun other => other = db) maxAmount := by
  intro M held
  rw [holds.held held]
  exact room

theorem pullReceivers_still {w : World} {L : Ledger} (mirrors : Mirrors L w) (profile : Profile)
    (indices : ShardIndex → UInt64) {maxAmount : UInt64}
    (room : ∀ s, L.count s + maxAmount.toNat ≤ 2 ^ 48) (outside : Outside) :
    ∃ chunk v, (profile.pullReceivers indices maxAmount).run (World.handle outside) w =
        (.ok (cut (left (fun _ => L) indices) allShards maxAmount.toNat,
          advanced (fun _ => L) indices maxAmount.toNat, allShards.flatMap chunk), v) ∧
      Chunks (fun _ => L) indices allShards maxAmount.toNat chunk ∧ Mirrors L v ∧ v.db = w.db := by
  have follows : Follows (fun db => db = w.db) L w := ⟨mirrors, rfl⟩
  have pulls : Pulls Quiet _ (profile.pullReceivers indices maxAmount) w := pullReceivers_pulls
    Quiet.refl (fun _ _ => Quiet.grows) follows (mirrors.represents.roomAlone room)
  obtain ⟨O, view, chunk, -, last, views, chunks, answer⟩ :=
    pulls.run Quiet.refl fun w op => .handled w op outside
  have same : view = fun _ => L := by
    funext s
    exact mirrors.represents.held (views.held s (List.mem_finRange s))
  subst same
  obtain rfl := mirrors.represents.held last.held
  exact ⟨chunk, _, Prod.ext answer rfl, chunks, last.toMirrors, last.holds⟩

section Still

variable {w : World} {L : Ledger} (mirrors : Mirrors L w) {ck : Checkpoint}
  {maxReceivers maxSenders : UInt64} (room : ∀ s, L.count s + maxReceivers.toNat ≤ 2 ^ 48)
  (fits : ck.senderIndex.toNat + maxSenders.toNat ≤ 2 ^ 48)

include mirrors room fits

theorem pullLedgerDiff_still :
    Pulls Quiet (fun out t => Still L w.db ck maxReceivers maxSenders out ∧ Quiet w t)
      (pullLedgerDiff ck maxReceivers maxSenders) w := by
  have follows : Follows (fun db => db = w.db) L w := ⟨mirrors, rfl⟩
  have within := mirrors.represents.roomAlone room
  have read := pullLedgerDiff_readFrom Quiet.refl (fun _ _ => Quiet.grows) follows within fits
  have reads : Reads anyNode Quiet (pullLedgerDiff ck maxReceivers maxSenders) w :=
    pullLedgerDiff_reads Quiet.refl
      (fun w v step => (step.grows : Grows (fun _ => True) w v)) ⟨L, mirrors⟩
  have quiet := (reads.reach Quiet.trans (fun _ _ _ => id) (Quiet.refl w)).weaken
    (fun _ _ _ _ => Handles.performs) (fun _ _ => id) fun _ _ _ _ => trivial
  refine ((read.and quiet).weaken (fun _ _ _ _ => id) (fun _ _ => id)
    fun _ _ _ _ => trivial).mono ?_
  rintro out t ⟨whole, -, last⟩
  exact ⟨whole.still mirrors.represents fun _ => id, last⟩

theorem pullLedgerDiff_alone (outside : Outside) :
    Still L w.db ck maxReceivers maxSenders
      ((pullLedgerDiff ck maxReceivers maxSenders).run (World.handle outside) w).1 ∧
    Quiet w ((pullLedgerDiff ck maxReceivers maxSenders).run (World.handle outside) w).2 :=
  (pullLedgerDiff_still mirrors room fits).run Quiet.refl
    fun w op => .handled w op outside

theorem pullLedgerDiff_ok {bytes : TotalBytes} (total : totalOf w.db = .ok bytes)
    (outside : Outside) :
    ∃ response next v, (pullLedgerDiff ck maxReceivers maxSenders).run (World.handle outside) w =
      (.ok (response, next), v) := by
  obtain ⟨⟨receivers, senders, -, -, answer⟩, -⟩ := pullLedgerDiff_alone mirrors room fits outside
  rw [total] at answer
  exact ⟨_, _, _, Prod.ext answer rfl⟩

end Still

end MantaIndexer
