import MantaIndexer.Indexer.Sync

/-!
The indexer as a whole: one syncing task, any number of pulls, and what happens around them. The
tasks take turns at their operations, so every interleaving of them is a run.
-/

namespace MantaIndexer
open Effects Encoding Collections

variable [P : Pallet]

/-- Where the calls of `sync_shards_from_full_node` are. -/
inductive SyncTask where
  /-- No call is running; the last one failed, or there was none. -/
  | idle
  | starting (config : SyncConfig) (rest : Task Checkpoint)
  | head (config : SyncConfig) (current : Checkpoint)
  | body (config : SyncConfig) (current : Checkpoint) (rest : Task (Option Checkpoint))
  /-- The last call returned `Ok`. -/
  | returned

structure System where
  world : World
  sync : SyncTask
  pulls : List (Task (PullResponse × Checkpoint))

namespace System

def initial (capacity : Nat) (node : Ledger) : System where
  world := ⟨Database.migrated, none, Lru.empty capacity, false, node, Ledger.empty⟩
  sync := .idle
  pulls := []

inductive Step (serves : Serves) : System → System → Prop where
  | call {s : System} (config : SyncConfig) (ready : s.sync = .idle ∨ s.sync = .returned) :
      Step serves s { s with sync := .starting config getLatestCheckPoint }
  | counting {s : System} {config : SyncConfig} {op : Op} {next : op.Res → Task Checkpoint}
      {r : op.Res} {world : World} (here : s.sync = .starting config (.perform op next))
      (performed : Performs serves s.world op r world) :
      Step serves s { s with world, sync := .starting config (next r) }
  | started {s : System} {config : SyncConfig} {current : Checkpoint}
      (here : s.sync = .starting config (.ret current)) :
      Step serves s { s with sync := .head config current }
  | notStarted {s : System} {config : SyncConfig} {error : Error}
      (here : s.sync = .starting config (.fail error)) : Step serves s { s with sync := .idle }
  | iterate {s : System} {config : SyncConfig} {current : Checkpoint}
      (here : s.sync = .head config current) :
      Step serves s { s with sync := .body config current (syncIteration config current) }
  | syncing {s : System} {config : SyncConfig} {current : Checkpoint} {op : Op}
      {next : op.Res → Task (Option Checkpoint)} {r : op.Res} {world : World}
      (here : s.sync = .body config current (.perform op next))
      (performed : Performs serves s.world op r world) :
      Step serves s { s with world, sync := .body config current (next r) }
  | continued {s : System} {config : SyncConfig} {current next : Checkpoint}
      (here : s.sync = .body config current (.ret (some next))) :
      Step serves s { s with sync := .head config next }
  | finished {s : System} {config : SyncConfig} {current : Checkpoint}
      (here : s.sync = .body config current (.ret none)) : Step serves s { s with sync := .returned }
  | failed {s : System} {config : SyncConfig} {current : Checkpoint} {error : Error}
      (here : s.sync = .body config current (.fail error)) : Step serves s { s with sync := .idle }
  | pull {s : System} (checkpoint : Checkpoint) (receivers senders : UInt64) :
      Step serves s { s with pulls := pullLedgerDiffImpl checkpoint receivers senders :: s.pulls }
  | pulling {s : System} {before after : List (Task (PullResponse × Checkpoint))} {op : Op}
      {next : op.Res → Task (PullResponse × Checkpoint)} {r : op.Res} {world : World}
      (here : s.pulls = before ++ .perform op next :: after)
      (performed : Performs serves s.world op r world) :
      Step serves s { s with world, pulls := before ++ next r :: after }
  /-- A pull was answered, or its connection is gone. -/
  | pulled {s : System} {before after : List (Task (PullResponse × Checkpoint))}
      {rest : Task (PullResponse × Checkpoint)} (here : s.pulls = before ++ rest :: after) :
      Step serves s { s with pulls := before ++ after }
  | evicted {s : System} {lru : Lru Cache.LruKeyType Bytes} (fewer : s.world.lru.Evicted lru) :
      Step serves s { s with world := { s.world with lru } }
  | grown {s : System} {node : Ledger} (longer : s.world.node ≤ node) :
      Step serves s { s with world := { s.world with node } }
  /-- The process ends in any state and is started again on its database. -/
  | restarted {s : System} (capacity : Nat) :
      Step serves s
        ⟨⟨s.world.db, none, Lru.empty capacity, false, s.world.node, s.world.served⟩, .idle, []⟩

inductive Reachable (serves : Serves) : System → Prop where
  | initial (capacity : Nat) (node : Ledger) : Reachable serves (initial capacity node)
  | step {s t : System} (before : Reachable serves s) (step : Step serves s t) : Reachable serves t

/-! ### Tasks that run without interruption -/

section Alone

variable {serves : Serves} {outside : Outside} {s : System} {config : SyncConfig}

omit P in
theorem handle_node [Pallet] (outside : Outside) (w : World) (op : Op) :
    (w.handle outside op).2.node = w.node := by
  cases op with
  | sql query =>
    cases query with
    | insertShard executor row | insertNullifier executor row | insertTotal executor row
    | appendNullifier executor first second =>
      simp only [World.handle, World.execute, World.write]
      split
      · rfl
      · cases executor <;> rfl
    | countNullifier executor | commit =>
      simp only [World.handle, World.execute]
      split <;> rfl
    | _ => rfl
  | _ => rfl

theorem Reachable.counts {rest : Task Checkpoint} (before : Reachable serves s)
    (here : s.sync = .starting config rest)
    (answers : ∀ checkpoint second third response,
      outside.pullLedgerDiff checkpoint second third = .ok response →
        serves s.world.node checkpoint second third response) :
    Reachable serves { s with
      world := (rest.run (World.handle outside) s.world).2
      sync := .starting config (Prog.lift (rest.run (World.handle outside) s.world).1) } := by
  induction rest generalizing s with
  | ret value | fail value =>
    simp only [Prog.run_ret, Prog.run_fail, Prog.lift_ok, Prog.lift_error]
    rw [← here]
    exact before
  | perform op next ih =>
    have first := before.step (.counting here (.handled s.world op outside answers))
    apply ih _ first rfl
    rw [handle_node]
    exact answers

theorem Reachable.iterates {current : Checkpoint} {rest : Task (Option Checkpoint)}
    (before : Reachable serves s) (here : s.sync = .body config current rest)
    (answers : ∀ checkpoint second third response,
      outside.pullLedgerDiff checkpoint second third = .ok response →
        serves s.world.node checkpoint second third response) :
    Reachable serves { s with
      world := (rest.run (World.handle outside) s.world).2
      sync := .body config current (Prog.lift (rest.run (World.handle outside) s.world).1) } := by
  induction rest generalizing s with
  | ret value | fail value =>
    simp only [Prog.run_ret, Prog.run_fail, Prog.lift_ok, Prog.lift_error]
    rw [← here]
    exact before
  | perform op next ih =>
    have first := before.step (.syncing here (.handled s.world op outside answers))
    apply ih _ first rfl
    rw [handle_node]
    exact answers

theorem Reachable.starts {current : Checkpoint} {world : World} (before : Reachable serves s)
    (ready : s.sync = .idle ∨ s.sync = .returned) (config : SyncConfig)
    (answers : ∀ checkpoint second third response,
      outside.pullLedgerDiff checkpoint second third = .ok response →
        serves s.world.node checkpoint second third response)
    (ran : getLatestCheckPoint.run (World.handle outside) s.world = (.ok current, world)) :
    Reachable serves { s with world, sync := .head config current } := by
  have counted := (before.step (.call config ready)).counts rfl answers
  rw [ran] at counted
  exact counted.step (.started rfl)

theorem Reachable.finishes {current : Checkpoint} {world : World} (before : Reachable serves s)
    (here : s.sync = .head config current)
    (answers : ∀ checkpoint second third response,
      outside.pullLedgerDiff checkpoint second third = .ok response →
        serves s.world.node checkpoint second third response)
    (ran : (syncIteration config current).run (World.handle outside) s.world = (.ok none, world)) :
    Reachable serves { s with world, sync := .returned } := by
  have iterated := (before.step (.iterate here)).iterates rfl answers
  rw [ran] at iterated
  exact iterated.step (.finished rfl)

end Alone

end System

/-- The world of a first start, beside an empty ledger. -/
def sampleFresh : @World samplePallet :=
  letI := samplePallet
  (System.initial 4 Ledger.empty).world

end MantaIndexer
