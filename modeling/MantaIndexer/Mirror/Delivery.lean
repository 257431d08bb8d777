import MantaIndexer.Indexer.Session
import MantaIndexer.Mirror.Paging
import MantaIndexer.Mirror.Safety

/-!
A client pages through the receivers exactly once, whatever the other tasks do between its requests
and inside them.
-/

namespace MantaIndexer
open Effects Encoding Collections

section Session

variable [P : Pallet] {serves : Serves}

theorem Represents.small {db : Database} {L : Ledger} (holds : Represents db L) :
    db.Below (2 ^ 48 - 4096) := by
  refine ⟨fun s => ?_, ?_⟩
  · rw [holds.count]
    exact holds.below.1 s
  · rw [holds.countNullifier]
    exact holds.below.2

structure Session.Invariant (serves : Serves) (c : Session) : Prop where
  system : MantaIndexer.Invariant (shardedContract serves) c.system
  paged : ∃ L, Mirrors L c.system.world ∧ Paged L c.start c.cursor c.delivered
  request : ∀ rest, c.request = some rest →
    Ensures Handles Extends (fun w _ v => Quiet w v) (Answers c.cursor) rest c.system.world

namespace Session.Invariant

variable {c : Session}

theorem opened {s : System} (running : s.Reachable serves) (start : ShardIndex → UInt64) :
    Session.Invariant serves ⟨s, start, start, [], none⟩ := by
  have system := Invariant.reachable (C := shardedContract serves) running
  obtain ⟨L, mirrors⟩ := system.mirrored
  exact ⟨system, ⟨L, mirrors, Paged.nothing L start⟩, nofun⟩

theorem grow (h : Session.Invariant serves c) {system : System}
    (holds : MantaIndexer.Invariant (shardedContract serves) system)
    (grows : Extends c.system.world system.world)
    {request : Option (Task (PullResponse × Checkpoint))}
    (serving : ∀ rest, request = some rest →
      Ensures Handles Extends (fun w _ v => Quiet w v) (Answers c.cursor) rest system.world) :
    Session.Invariant serves { c with system, request } := by
  obtain ⟨L, mirrors, paged⟩ := h.paged
  obtain ⟨M, le, later⟩ := grows.later mirrors
  exact ⟨holds, ⟨M, later, paged.later le⟩, serving⟩

theorem step (h : Session.Invariant serves c) {d : Session} (step : Session.Step serves c d) :
    Session.Invariant serves d := by
  obtain ⟨L, mirrors, paged⟩ := h.paged
  cases step with
  | around step =>
    have holds := h.system.step step
    have grows := h.system.grows step
    exact h.grow holds grows fun rest here => (h.request rest here).stable Grows.trans grows
  | asked senderIndex receivers senders free =>
    refine h.grow h.system (Grows.refl _ _) fun rest here => ?_
    cases here
    have follows : Follows (fun _ => True) L c.system.world := ⟨mirrors, trivial⟩
    have limit : (min receivers maxReceivers).toNat ≤ 4096 := by
      rw [toNat_min_maxReceivers]
      exact Nat.min_le_right _ _
    have answers : Pulls Extends (Answers c.cursor) (pullLedgerDiffImpl
        ⟨c.cursor, senderIndex⟩ receivers senders) c.system.world :=
      pullLedgerDiff_answers follows limit
    have reads : Reads anyNode Extends (pullLedgerDiffImpl ⟨c.cursor, senderIndex⟩
        receivers senders) c.system.world :=
      pullLedgerDiff_reads (Grows.refl _) (fun _ _ => id) ⟨L, mirrors⟩
    have quiet := reads.weaken (fun _ _ _ _ => Handles.performs) (fun _ _ => id) fun _ _ _ => id
    exact ((answers.and quiet).weaken (fun _ _ _ _ => id) (fun _ _ => id)
      fun _ _ _ => And.right).mono fun _ _ => And.left
  | serving at' performed =>
    obtain ⟨quiet, rest⟩ := h.request _ at' _ (Grows.refl _ _) _ _ performed
    have holds := h.system.quiet quiet fun p member =>
      (h.system.pulls p member).stable Grows.trans quiet.grows
    refine h.grow holds quiet.grows fun p here => ?_
    cases here
    exact rest
  | answered at' =>
    obtain ⟨M, mirrors', paged'⟩ := h.request _ at' _ (Grows.refl _ _) _ _ rfl
    obtain rfl := mirrors.represents.unique mirrors'.represents
    exact ⟨h.system, ⟨L, mirrors, paged.append paged'⟩, nofun⟩
  | lost => exact h.grow h.system (Grows.refl _ _) nofun

theorem reachable (h : c.Reachable serves (2 ^ 48 - 4096)) : Session.Invariant serves c := by
  induction h with
  | opened running _ start => exact opened running start
  | step _ step _ before => exact before.step step

theorem small (h : Session.Invariant serves c) : c.system.world.db.Below (2 ^ 48 - 4096) := by
  obtain ⟨L, mirrors, -⟩ := h.paged
  exact mirrors.represents.small

theorem served (outside : Outside) {rest : Task (PullResponse × Checkpoint)}
    (before : c.Reachable serves (2 ^ 48 - 4096)) (here : c.request = some rest) :
    Session.Reachable serves (2 ^ 48 - 4096) { c with
      system := { c.system with world := (rest.run (World.handle outside) c.system.world).2 }
      request := some (Prog.lift (rest.run (World.handle outside) c.system.world).1) } := by
  induction rest generalizing c with
  | ret value | fail value =>
    simp only [Prog.run_ret, Prog.run_fail, Prog.lift_ok, Prog.lift_error]
    rw [← here]
    exact before
  | perform op next ih =>
    have known := reachable before
    have performed := Handles.handled c.system.world op outside
    obtain ⟨quiet, -⟩ := known.request _ here _ (Grows.refl _ _) _ _ performed
    have small := known.small
    rw [← quiet.db] at small
    exact ih _ (before.step (.serving here performed) small) rfl

end Session.Invariant

end Session

/-- However the steps interleave, the receivers delivered for a shard are the rows of the shard from
the first cursor up to the current one, each exactly once. -/
theorem receivers_delivered_once [Pallet] {serves : Serves} {c : Session}
    (reachable : c.Reachable serves (2 ^ 48 - 4096)) :
    (∀ receiver ∈ c.delivered, ∃ s, treeIndex receiver.1 = some s) ∧
    ∀ s, (c.start s).toNat ≤ (c.cursor s).toNat ∧
      (c.cursor s = c.start s ∨ (c.cursor s).toNat ≤ c.system.world.db.countShards s) ∧
      ((Ledger.ofShard c.delivered s).map fun receiver =>
          (encode receiver.1, encode receiver.2)).Perm
        (((c.system.world.db.rowsOf s).filter fun row =>
            ((c.start s).toNat : Int) ≤ row.utxoIndex ∧ row.utxoIndex < ((c.cursor s).toNat : Int)).map
          fun row => (row.utxo, row.fullIncomingNote)) := by
  have known := Session.Invariant.reachable reachable
  obtain ⟨L, mirrors, sharded, -⟩ := known.system.ledger
  obtain ⟨M, mirrors', paged⟩ := known.paged
  have holds := mirrors.represents
  obtain rfl := holds.unique mirrors'.represents
  have own : ∀ s, ∀ receiver ∈ between L c.start c.cursor s, treeIndex receiver.1 = some s :=
    fun s receiver member =>
      sharded s receiver (List.mem_of_mem_drop (List.mem_of_mem_take member))
  refine ⟨fun receiver member => ?_, fun s => ⟨paged.forward s, ?_, ?_⟩⟩
  · obtain ⟨s, -, stored⟩ := List.mem_flatMap.mp (paged.once.mem_iff.mp member)
    exact ⟨s, own s receiver stored⟩
  · rw [holds.count]
    exact paged.inside s
  · have filtered := paged.once.filter fun receiver => decide (treeIndex receiver.1 = some s)
    have delivered : (Ledger.ofShard c.delivered s).Perm (between L c.start c.cursor s) :=
      filtered.trans (.of_eq (ofShard_flatMap own s))
    have rows := rows_between (shardRow_numbered s) (L.receivers s)
      (fun row => (row.utxo, row.fullIncomingNote))
      (fun receiver => (encode receiver.1, encode receiver.2)) (fun _ _ => rfl)
      (c.start s).toNat (c.cursor s).toNat
    exact (delivered.map _).trans
      ((List.Perm.of_eq rows.symm).trans (((holds.shards s).filter _).map _).symm)

section Sample

attribute [local instance] samplePallet

def sampleAsked : Session where
  system := sampleSynced
  start _ := 0
  cursor _ := 0
  delivered := []
  request := some (pullLedgerDiffImpl Checkpoint.default 16 16)

def sampleAnswer : Except Error (PullResponse × Checkpoint) × World :=
  (pullLedgerDiffImpl Checkpoint.default 16 16).run (World.handle sampleOutside)
    sampleSynced.world

theorem sampleAsked_reachable : sampleAsked.Reachable anyNode (2 ^ 48 - 4096) := by
  have running : sampleSynced.Reachable anyNode := sampleSynced_reachable fun _ _ => trivial
  have small := sampleSynced_mirrors.represents.small
  exact (Session.Reachable.opened running small fun _ => 0).step (.asked 0 16 16 rfl) small

theorem sampleAnswer_ok : ∃ response next, sampleAnswer.1 = .ok (response, next) ∧
    response.receivers.length = 1 ∧ next.receiverIndex 0 = 1 := by
  have checked : (match sampleAnswer.1 with
      | .ok (response, next) => response.receivers.length == 1 && next.receiverIndex 0 == 1
      | .error _ => false) = true := by decide +kernel
  generalize sampleAnswer.1 = out at checked
  cases out with
  | error error => cases checked
  | ok answer =>
    simp only [Bool.and_eq_true, beq_iff_eq] at checked
    exact ⟨answer.1, answer.2, rfl, checked⟩

theorem receivers_delivered_once_answered : ∃ c : Session, c.Reachable anyNode (2 ^ 48 - 4096) ∧
    c.delivered.length = 1 ∧ c.cursor 0 = 1 ∧
    ((Ledger.ofShard c.delivered 0).map fun receiver => (encode receiver.1, encode receiver.2)).Perm
      (((c.system.world.db.rowsOf 0).filter fun row =>
          ((c.start 0).toNat : Int) ≤ row.utxoIndex ∧ row.utxoIndex < ((c.cursor 0).toNat : Int)).map
        fun row => (row.utxo, row.fullIncomingNote)) := by
  obtain ⟨response, next, answer, one, cursor⟩ := sampleAnswer_ok
  have served := Session.Invariant.served sampleOutside sampleAsked_reachable rfl
  have small := (Session.Invariant.reachable served).small
  have answered := served.step (.answered (congrArg (fun out => some (Prog.lift out)) answer)) small
  exact ⟨_, answered, one, cursor, ((receivers_delivered_once answered).2 0).2.2⟩

end Sample

end MantaIndexer
