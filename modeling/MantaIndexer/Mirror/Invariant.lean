import MantaIndexer.Indexer.System
import MantaIndexer.Mirror.SyncSpec

/-!
What holds in every state of the indexer, whatever the full node keeps to: the database mirrors a
ledger that the contract accepts, the cache agrees with it, and every task is in a state from which
all its runs keep this.
-/

namespace MantaIndexer
open Effects Encoding Collections

variable [P : Pallet]

theorem Adds.grows {serves : Serves} {C : Contract serves} {w v : World} (adds : Adds C w v) :
    Extends w v := by
  obtain ⟨L, M, before, after, le, -⟩ := adds.ledger
  intro L' mirrors
  obtain rfl := before.represents.unique mirrors.represents
  exact ⟨⟨M, le, after⟩, id⟩

def Latest {serves : Serves} (C : Contract serves) (out : Except Error Checkpoint) (w : World) :
    Prop :=
  ∃ L, Mirrors L w ∧ C.keeps L w.node ∧ ∀ ck, out = .ok ck → ck = L.checkpoint

/-- What the syncing task knows, with the ledger `L` mirrored. -/
def SyncTask.Knows {serves : Serves} (C : Contract serves) (L : Ledger) (w : World) :
    SyncTask → Prop
  | .idle => True
  | .starting _ rest => Syncs C Checkpoint.default (Latest C) rest w
  | .head _ current => current = L.checkpoint
  | .body _ current rest => Syncs C current (Iterated C) rest w
  | .returned => C.complete L w.served

structure Invariant {serves : Serves} (C : Contract serves) (s : System) : Prop where
  ledger : ∃ L, Mirrors L s.world ∧ C.keeps L s.world.node ∧ s.sync.Knows C L s.world
  behind : s.world.served ≤ s.world.node
  pulls : ∀ rest ∈ s.pulls, Reads serves Extends rest s.world

section Steps

variable {serves : Serves} {C : Contract serves} {s : System}

theorem Invariant.initial (capacity : Nat) (node : Ledger) :
    Invariant C (System.initial capacity node) := by
  refine ⟨⟨Ledger.empty, ?_, C.starts node, trivial⟩, Ledger.empty_le node, ?_⟩
  · exact ⟨represents_migrated, Coherent.empty _ capacity⟩
  · exact fun rest member => nomatch member

theorem Invariant.mirrored (h : Invariant C s) : Mirrored s.world := by
  obtain ⟨L, mirrors, -, -⟩ := h.ledger
  exact ⟨L, mirrors⟩

theorem SyncTask.Knows.quiet {L : Ledger} {w v : World} {sync : SyncTask}
    (h : sync.Knows C L w) (quiet : Quiet w v) : sync.Knows C L v := by
  cases sync with
  | idle => trivial
  | starting config rest => exact Ensures.stable Quiet.trans h quiet
  | head config current => exact h
  | body config current rest => exact Ensures.stable Quiet.trans h quiet
  | returned =>
    show C.complete L v.served
    rw [quiet.served]
    exact h

theorem Invariant.quiet (h : Invariant C s) {v : World} (quiet : Quiet s.world v)
    {pulls : List (Task (PullResponse × Checkpoint))}
    (reading : ∀ rest ∈ pulls, Reads serves Extends rest v) :
    Invariant C { s with world := v, pulls } := by
  obtain ⟨L, mirrors, keeps, knows⟩ := h.ledger
  refine ⟨⟨L, quiet.mirrors mirrors, C.later keeps quiet.node, knows.quiet quiet⟩, ?_, reading⟩
  show v.served ≤ v.node
  rw [quiet.served]
  exact Ledger.le_trans h.behind quiet.node

theorem Invariant.adds (h : Invariant C s) {v : World} (step : Adds C s.world v)
    {sync : SyncTask} (knows : ∀ L, sync.Knows C L v) : Invariant C { s with world := v, sync } := by
  obtain ⟨L, M, -, after, -, keeps⟩ := step.ledger
  refine ⟨⟨M, after, keeps, knows M⟩, ?_,
    fun rest member => (h.pulls rest member).stable Grows.trans step.grows⟩
  show v.served ≤ v.node
  rw [step.node]
  rcases step.served with same | now
  · rw [same]
    exact h.behind
  · rw [now]
    exact Ledger.le_refl _

theorem Invariant.moves (h : Invariant C s) {sync : SyncTask}
    (knows : ∃ M, Mirrors M s.world ∧ C.keeps M s.world.node ∧ sync.Knows C M s.world) :
    Invariant C { s with sync } :=
  ⟨knows, h.behind, h.pulls⟩

theorem Invariant.step (h : Invariant C s) {t : System} (step : System.Step serves s t) :
    Invariant C t := by
  obtain ⟨L, mirrors, keeps, knows⟩ := h.ledger
  have here : Syncing C L s.world.served s.world.transaction s.world :=
    ⟨mirrors, keeps, rfl, h.behind, rfl⟩
  cases step with
  | call config ready =>
    refine h.moves ⟨L, mirrors, keeps, ?_⟩
    show Syncs C Checkpoint.default (Latest C) getLatestCheckPoint s.world
    rw [← Prog.bind_pure getLatestCheckPoint]
    refine syncs_getLatestCheckPoint here (fun error t there => ?_) fun t there u step => ?_
    · exact ⟨L, there.mirrors, there.keeps, nofun⟩
    · have last := there.quiet step
      refine ⟨L, last.mirrors, last.keeps, fun ck same => ?_⟩
      cases same
      rfl
  | counting at' performed =>
    rw [at'] at knows
    obtain ⟨⟨adds, -⟩, rest⟩ := knows _ (Quiet.refl _) _ _ performed
    exact h.adds adds fun _ => rest
  | started at' =>
    rw [at'] at knows
    obtain ⟨M, mirrors, keeps, latest⟩ := knows _ (Quiet.refl _)
    exact h.moves ⟨M, mirrors, keeps, latest _ rfl⟩
  | notStarted at' => exact h.moves ⟨L, mirrors, keeps, trivial⟩
  | iterate at' =>
    rw [at'] at knows
    refine h.moves ⟨L, mirrors, keeps, ?_⟩
    cases knows
    exact syncIteration_syncs here _
  | syncing at' performed =>
    rw [at'] at knows
    obtain ⟨⟨adds, -⟩, rest⟩ := knows _ (Quiet.refl _) _ _ performed
    exact h.adds adds fun _ => rest
  | continued at' =>
    rw [at'] at knows
    obtain ⟨M, mirrors, keeps, next, -⟩ := knows _ (Quiet.refl _)
    exact h.moves ⟨M, mirrors, keeps, next _ rfl⟩
  | finished at' =>
    rw [at'] at knows
    obtain ⟨M, mirrors, keeps, -, complete⟩ := knows _ (Quiet.refl _)
    exact h.moves ⟨M, mirrors, keeps, complete rfl⟩
  | failed at' => exact h.moves ⟨L, mirrors, keeps, trivial⟩
  | pull checkpoint receivers senders =>
    refine h.quiet (Quiet.refl _) (List.forall_mem_cons.mpr ⟨?_, h.pulls⟩)
    exact pullLedgerDiff_reads (Grows.refl _) (fun _ _ => id) h.mirrored
  | pulling at' performed =>
    have reading := h.pulls
    rw [at'] at reading
    obtain ⟨quiet, rest⟩ := reading _ List.mem_append_cons_self _ (Grows.refl _ _) _ _ performed
    refine h.quiet quiet fun p member => ?_
    rcases List.mem_append.mp member with before | after
    · exact (reading p (List.mem_append_left _ before)).stable Grows.trans quiet.grows
    · rcases List.mem_cons.mp after with rfl | after
      · exact rest
      · exact (reading p (List.mem_append_right _ (List.mem_cons_of_mem _ after))).stable
          Grows.trans quiet.grows
  | pulled at' =>
    have reading := h.pulls
    rw [at'] at reading
    refine h.quiet (Quiet.refl _) fun p member => reading p ?_
    rcases List.mem_append.mp member with before | after
    · exact List.mem_append_left _ before
    · exact List.mem_append_right _ (List.mem_cons_of_mem _ after)
  | evicted fewer =>
    have quiet := quiet_evicted fewer
    exact h.quiet quiet fun p member => (h.pulls p member).stable Grows.trans quiet.grows
  | grown longer =>
    have quiet := quiet_grown longer
    exact h.quiet quiet fun p member => (h.pulls p member).stable Grows.trans quiet.grows
  | restarted capacity =>
    refine ⟨⟨L, ⟨mirrors.represents, Coherent.empty _ capacity⟩, keeps, trivial⟩, h.behind, ?_⟩
    exact fun rest member => nomatch member

theorem Invariant.grows (h : Invariant C s) {t : System} (step : System.Step serves s t) :
    Extends s.world t.world := by
  obtain ⟨L, mirrors, keeps, knows⟩ := h.ledger
  cases step with
  | counting at' performed =>
    rw [at'] at knows
    exact (knows _ (Quiet.refl _) _ _ performed).1.1.grows
  | syncing at' performed =>
    rw [at'] at knows
    exact (knows _ (Quiet.refl _) _ _ performed).1.1.grows
  | pulling at' performed =>
    have reading := h.pulls
    rw [at'] at reading
    exact (reading _ List.mem_append_cons_self _ (Grows.refl _ _) _ _ performed).1.grows
  | evicted fewer => exact (quiet_evicted fewer).grows
  | grown longer => exact (quiet_grown longer).grows
  | restarted capacity =>
    exact fun M other => ⟨⟨M, M.le_refl, other.represents, Coherent.empty _ capacity⟩, id⟩
  | _ => exact Grows.refl _ _

theorem Invariant.reachable (h : System.Reachable serves s) : Invariant C s := by
  induction h with
  | initial capacity node => exact Invariant.initial capacity node
  | step _ step before => exact before.step step

end Steps

end MantaIndexer
