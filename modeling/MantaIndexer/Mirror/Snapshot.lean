import MantaIndexer.Mirror.Safety
import MantaIndexer.Mirror.Still
import MantaIndexer.Mirror.Filled

/-!
A pull with commits inside it. It reads outside any transaction, so each of its parts comes from a
committed state but not all from the same one; without a commit inside they do.
-/

namespace MantaIndexer
open Effects Encoding Collections

section Runs

variable [P : Pallet]

/-- The databases a call meets: the one at its start and those left by the steps of the others. -/
def Met (w : World) (history : List (Event World Op)) (db : Database) : Prop :=
  db = w.db ∨ ∃ v, .interfered v ∈ history ∧ db = v.db

/-- The same outcome of a pull, up to the order of the items. -/
def Alike : Except Error (PullResponse × Checkpoint) → Except Error (PullResponse × Checkpoint) → Prop
  | .ok (response, next), .ok (response', next') =>
    response.receivers.Perm response'.receivers ∧ response.senders.Perm response'.senders ∧
      response.shouldContinue = response'.shouldContinue ∧
      response.sendersReceiversTotal = response'.sendersReceiversTotal ∧ next = next'
  | .error error, .error error' => error = error'
  | _, _ => False

theorem Still.alike {L : Ledger} {db : Database} {ck : Checkpoint} {maxReceivers maxSenders : UInt64}
    {out out' : Except Error (PullResponse × Checkpoint)}
    (h : Still L db ck maxReceivers maxSenders out)
    (h' : Still L db ck maxReceivers maxSenders out') : Alike out out' := by
  obtain ⟨receivers, senders, gatheredAll, paged, rfl⟩ := h
  obtain ⟨receivers', senders', gatheredAll', paged', rfl⟩ := h'
  cases totalOf db with
  | error error => rfl
  | ok total => exact ⟨gatheredAll.trans gatheredAll'.symm, paged.trans paged'.symm, rfl, rfl, rfl⟩

theorem Still.pages {L : Ledger} {db : Database} {ck : Checkpoint} {maxReceivers maxSenders : UInt64}
    {out : Except Error (PullResponse × Checkpoint)} {response : PullResponse} {next : Checkpoint}
    (h : Still L db ck maxReceivers maxSenders out) (alike : Alike (.ok (response, next)) out) :
    response.receivers.Perm (gathered (fun _ => L) ck.receiverIndex allShards maxReceivers.toNat) ∧
      response.senders.Perm (page L.senders ck.senderIndex.toNat maxSenders.toNat) := by
  obtain ⟨receivers, senders, gatheredAll, paged, rfl⟩ := h
  cases total : totalOf db with
  | error error =>
    rw [total] at alike
    cases alike
  | ok total =>
    rw [total] at alike
    exact ⟨alike.1.trans gatheredAll, alike.2.1.trans paged⟩

theorem Exec.readFrom {w t : World} {L : Ledger} (mirrors : Mirrors L w) {ck : Checkpoint}
    {maxReceivers maxSenders : UInt64} (limit : maxReceivers.toNat ≤ 4096)
    (fits : ck.senderIndex.toNat + maxSenders.toNat ≤ 2 ^ 48) {history : List (Event World Op)}
    {out : Except Error (PullResponse × Checkpoint)}
    (run : Exec Handles Extends (pullLedgerDiff ck maxReceivers maxSenders) w history out t) :
    ReadFrom (Met w history) L ck maxReceivers maxSenders out := by
  -- Whatever state the others leave is in the history, so every database read is one of those met.
  have visited : Exec Handles (Grows (Met w history)) (pullLedgerDiff ck maxReceivers maxSenders) w
      history out t := by
    refine run.weaken fun a b grows member M mirrored => ?_
    exact ⟨(grows M mirrored).1, fun _ => .inr ⟨b, member, rfl⟩⟩
  exact (pullLedgerDiff_readFrom (Grows.refl _) (fun _ _ => id) ⟨mirrors, .inl rfl⟩
    (room_of_le _ limit) fits).exec (Grows.refl _) Grows.trans (fun _ _ => id) visited

end Runs

/-- However commits fall into a pull, each shard, the senders, their flag and the total are read from
committed states of the run, in the order of the commits. When none falls into it, the outcome is
the one of the same pull running alone on that state, with any coherent cache. -/
theorem pull_reads_committed [Pallet] {w t : World} {L : Ledger} (holds : Represents w.db L)
    (coherent : Coherent L w.lru) {ck : Checkpoint} {maxReceivers maxSenders : UInt64}
    (limit : maxReceivers.toNat ≤ 4096) (fits : ck.senderIndex.toNat + maxSenders.toNat ≤ 2 ^ 48)
    {history : List (Event World Op)} {out : Except Error (PullResponse × Checkpoint)}
    (run : Exec Handles Extends (pullLedgerDiff ck maxReceivers maxSenders) w history out t) :
    ReadFrom (Met w history) L ck maxReceivers maxSenders out ∧
    ((∀ v, .interfered v ∈ history → v.db = w.db) →
      ∀ v outside, v.db = w.db → Coherent L v.lru →
        Alike out ((pullLedgerDiff ck maxReceivers maxSenders).run (World.handle outside) v).1) := by
  have mirrors : Mirrors L w := ⟨holds, coherent⟩
  have read := Exec.readFrom mirrors limit fits run
  refine ⟨read, fun none v outside same cached => ?_⟩
  have one : ∀ other, Met w history other → other = w.db := by
    rintro other (same | ⟨v, member, rfl⟩)
    · exact same
    · exact none v member
  have alone := pullLedgerDiff_alone ⟨same ▸ holds, cached⟩ (holds.room limit) fits outside
  rw [same] at alone
  exact (read.still holds one).alike alone.1

section Sample

attribute [local instance] samplePallet

def sampleWorld (L : Ledger) : World := World.filled L sampleTotal (Lru.empty 4)

theorem sampleEmpty_mirrors : Mirrors Ledger.empty (sampleWorld Ledger.empty) :=
  mirrors_filled _ (Ledger.empty_below (by decide)) (Coherent.empty _ _)

theorem sampleNode_filled : Represents (Database.filled sampleNode sampleTotal) sampleNode :=
  represents_filled _ ⟨by decide +kernel, by decide⟩

/-- A pull that starts on empty tables; one receiver and one sender are committed before
operation `k`. -/
def sampleMixed (k : Nat) :
    List (Event World Op) × Except Error (PullResponse × Checkpoint) × World :=
  (pullLedgerDiff Checkpoint.default 1 1).scheduled (World.handle Outside.offline)
    (commitsAt k Ledger.empty sampleNode sampleTotal sampleTotal) 0 (sampleWorld Ledger.empty)

theorem sampleMixed_exec (k : Nat) :
    Exec Handles Extends (pullLedgerDiff Checkpoint.default 1 1) (sampleWorld Ledger.empty)
      (sampleMixed k).1 (sampleMixed k).2.1 (sampleMixed k).2.2 :=
  Prog.scheduled_exec (fun w op => .handled w op _)
    (commitsAt_grows (Ledger.empty_le _) sampleEmpty_mirrors.represents sampleNode_filled trivial)
    0 _ _

theorem sampleMixed_met {k : Nat} {db : Database}
    (met : Met (sampleWorld Ledger.empty) (sampleMixed k).1 db) :
    db = Database.filled Ledger.empty sampleTotal ∨ db = Database.filled sampleNode sampleTotal := by
  rcases met with rfl | ⟨v, member, rfl⟩
  · exact .inl rfl
  · obtain ⟨n, u, taken⟩ := Prog.scheduled_interfered member
    unfold commitsAt at taken
    split at taken
    · obtain rfl := Option.some.inj taken
      exact .inr rfl
    · cases taken

theorem sampleMixed_outcome :
    ∃ response next, (sampleMixed 256).2.1 = .ok (response, next) ∧ response.receivers = [] ∧
      response.senders = [sampleSender 9] ∧ response.shouldContinue = false := by
  have outcome : (sampleMixed 256).2.1.map (fun result =>
      (result.1.receivers, result.1.senders, result.1.shouldContinue)) =
        .ok ([], [sampleSender 9], false) := by decide +kernel
  cases result : (sampleMixed 256).2.1 with
  | error error =>
    rw [result] at outcome
    cases outcome
  | ok value =>
    rw [result] at outcome
    simp only [Except.map, Except.ok.injEq, Prod.mk.injEq] at outcome
    exact ⟨value.1, value.2, rfl, outcome⟩

theorem pull_reads_committed_mixed :
    (∃ response next, (sampleMixed 256).2.1 = .ok (response, next) ∧
      response.senders = [sampleSender 9]) ∧
    ReadFrom (Met (sampleWorld Ledger.empty) (sampleMixed 256).1) Ledger.empty Checkpoint.default 1 1
      (sampleMixed 256).2.1 := by
  obtain ⟨response, next, outcome, -, senders, -⟩ := sampleMixed_outcome
  have committed := pull_reads_committed sampleEmpty_mirrors.represents sampleEmpty_mirrors.coherent
    (by decide) (by decide) (sampleMixed_exec 256)
  exact ⟨⟨response, next, outcome, senders⟩, committed.1⟩

theorem sampleMixed_run :
    ∃ history response next t, Exec Handles Extends (pullLedgerDiff Checkpoint.default 1 1)
      (sampleWorld Ledger.empty) history (.ok (response, next)) t ∧
      (∀ db, Met (sampleWorld Ledger.empty) history db →
        db = Database.filled Ledger.empty sampleTotal ∨
          db = Database.filled sampleNode sampleTotal) ∧
      response.receivers = [] ∧ response.senders = [sampleSender 9] ∧
      response.shouldContinue = false := by
  obtain ⟨response, next, outcome, pages⟩ := sampleMixed_outcome
  have run := sampleMixed_exec 256
  rw [outcome] at run
  exact ⟨_, response, next, _, run, fun _ => sampleMixed_met, pages⟩

/-- A batch committed between the two parts: the response has its sender and not its receiver, with
`should_continue = false`, and no committed state of the run gives that response. -/
theorem pull_mixes_states :
    Mirrors Ledger.empty (sampleWorld Ledger.empty) ∧
    ∃ history response next t, Exec Handles Extends (pullLedgerDiff Checkpoint.default 1 1)
        (sampleWorld Ledger.empty) history (.ok (response, next)) t ∧
      response.receivers = [] ∧ response.senders = [sampleSender 9] ∧
      response.shouldContinue = false ∧
      ¬ ∃ L v outside, Mirrors L v ∧ Met (sampleWorld Ledger.empty) history v.db ∧
        Alike (.ok (response, next))
          ((pullLedgerDiff Checkpoint.default 1 1).run (World.handle outside) v).1 := by
  obtain ⟨history, response, next, t, run, met, noReceivers, oneSender, stops⟩ := sampleMixed_run
  refine ⟨sampleEmpty_mirrors, history, response, next, t, run, noReceivers, oneSender, stops, ?_⟩
  rintro ⟨L, v, outside, mirrors, committed, alike⟩
  obtain ⟨sameReceivers, sameSenders⟩ := (pullLedgerDiff_alone mirrors
    (mirrors.represents.room (by decide)) (by decide) outside).1.pages alike
  have stored := mirrors.represents
  rcases met v.db committed with before | after
  · rw [before] at stored
    obtain rfl := stored.unique sampleEmpty_mirrors.represents
    have lengths := sameSenders.length_eq
    rw [oneSender] at lengths
    exact absurd lengths (by decide)
  · rw [after] at stored
    obtain rfl := stored.unique sampleNode_filled
    have lengths := sameReceivers.length_eq
    rw [noReceivers] at lengths
    exact absurd lengths (by decide +kernel)

end Sample

end MantaIndexer
