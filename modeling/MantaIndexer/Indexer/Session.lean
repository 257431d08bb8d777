import MantaIndexer.Indexer.System

/-!
One client that pages through the receivers while the rest of the indexer runs. Its request is a
task beside the others, so their steps may fall between any two operations of it.
-/

namespace MantaIndexer
open Effects Encoding Collections

variable [P : Pallet]

structure Session where
  system : System
  start : ShardIndex → UInt64
  /-- The receiver indices of the next request. -/
  cursor : ShardIndex → UInt64
  delivered : List Receiver
  /-- What is left of the request being served. -/
  request : Option (Task (PullResponse × Checkpoint))

def Database.Below (bound : Nat) (db : Database) : Prop :=
  (∀ s, db.countShards s < bound) ∧ db.countNullifier < bound

namespace Session

inductive Step (serves : Serves) : Session → Session → Prop where
  | around {c : Session} {system : System} (step : System.Step serves c.system system) :
      Step serves c { c with system }
  | asked {c : Session} (senderIndex receivers senders : UInt64) (free : c.request = none) :
      Step serves c { c with
        request := some (pullLedgerDiffImpl ⟨c.cursor, senderIndex⟩ receivers senders) }
  | serving {c : Session} {op : Op} {next : op.Res → Task (PullResponse × Checkpoint)} {r : op.Res}
      {world : World} (here : c.request = some (.perform op next))
      (performed : Handles c.system.world op r world) :
      Step serves c { c with system := { c.system with world }, request := some (next r) }
  /-- The client takes the receivers and the next cursor from the answer. -/
  | answered {c : Session} {response : PullResponse} {next : Checkpoint}
      (here : c.request = some (.ret (response, next))) :
      Step serves c { c with
        cursor := next.receiverIndex
        delivered := c.delivered ++ response.receivers
        request := none }
  | lost {c : Session} : Step serves c { c with request := none }

/-- The states of a client that comes to a running indexer, as long as the tables stay below the
bound. -/
inductive Reachable (serves : Serves) (bound : Nat) : Session → Prop where
  | opened {s : System} (running : s.Reachable serves) (small : s.world.db.Below bound)
      (start : ShardIndex → UInt64) : Reachable serves bound ⟨s, start, start, [], none⟩
  | step {c d : Session} (before : Reachable serves bound c) (step : Step serves c d)
      (small : d.system.world.db.Below bound) : Reachable serves bound d

end Session

def pages (receivers senders : UInt64) : Nat → Checkpoint → Task (List PullResponse × Checkpoint)
  | 0, checkpoint => return ([], checkpoint)
  | n + 1, checkpoint => do
    let (response, next) ← pullLedgerDiffImpl checkpoint receivers senders
    let (rest, last) ← pages receivers senders n next
    return (response :: rest, last)

end MantaIndexer
