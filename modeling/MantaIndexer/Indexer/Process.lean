import MantaIndexer.Indexer.Service

/-!
The process (`main.rs`): it starts the service, waits for a signal, stops the server and leaves when
every task has dropped its sender of the channel for the graceful exit.
-/

namespace MantaIndexer
open Effects Encoding Collections

variable [P : Pallet]

/-- The process ends in any state and is started again on its database. -/
def Service.Restarts (s t : Service) : Prop :=
  ∃ capacity around,
    around.config.stringAt "db" "db_path" = s.around.config.stringAt "db" "db_path" ∧
    t = { initial capacity s.system.world.node around with
      system := ⟨⟨s.system.world.db, none, Lru.empty capacity, false, s.system.world.node,
        s.system.world.served⟩, .idle, []⟩ }

/-- Where `main` is. -/
inductive Main where
  | starting
  /-- Reads the shutdown flag every three seconds. -/
  | running
  /-- Awaits the end of the server. -/
  | stopping
  /-- Awaits the channel, on which nothing is ever sent. -/
  | draining
  | exited (success : Bool)

structure Process where
  service : Service
  main : Main

namespace Process

/-- `start_service` holds one sender until it returns, and the job a clone of it until its loop is
left or its task is dropped by a panic. -/
def senders (p : Process) : Nat :=
  (match p.main with
    | .starting => 1
    | _ => 0) +
  match p.service.job with
  | .absent | .ended => 0
  | _ => 1

def initial (capacity : Nat) (node : Ledger) (around : Surroundings) : Process :=
  ⟨.initial capacity node around, .starting⟩

/-- What one process does between its start and its exit. -/
inductive Advances : Process → Process → Prop where
  | served {p : Process} {t : Service} (alive : ∀ success, p.main ≠ .exited success)
      (step : Service.Step p.service t) (same : ¬ p.service.Restarts t) :
      Advances p { p with service := t }
  | returned {p : Process} (here : p.main = .starting) (ready : p.service.start = .ret .serving) :
      Advances p { p with main := .running }
  | refused {p : Process} {error : StartError} (here : p.main = .starting)
      (failed : p.service.start = .fail error) : Advances p { p with main := .exited false }
  | noticed {p : Process} (here : p.main = .running) (flag : p.service.shutdown = true) :
      Advances p { p with main := .stopping }
  | stopped {p : Process} (here : p.main = .stopping) : Advances p { p with main := .draining }
  /-- The server was stopped already. -/
  | notStopped {p : Process} (here : p.main = .stopping) :
      Advances p { p with main := .exited false }
  | drained {p : Process} (here : p.main = .draining) (dropped : p.senders = 0) :
      Advances p { p with main := .exited true }

inductive Step : Process → Process → Prop where
  | advanced {p q : Process} (step : Advances p q) : Step p q
  | restarted {p : Process} {t : Service} (again : p.service.Restarts t) : Step p ⟨t, .starting⟩

inductive Reachable : Process → Prop where
  | initial (capacity : Nat) (node : Ledger) (around : Surroundings) :
      Reachable (initial capacity node around)
  | step {p q : Process} (before : Reachable p) (step : Step p q) : Reachable q

/-- What becomes of this process, without starting it again. -/
abbrev Later : Process → Process → Prop := Relation.ReflTransGen Advances

end Process

end MantaIndexer
