import MantaIndexer.Indexer.Pull

/-!
The dense form of a response (`indexer/mod.rs`), and a client that walks through the ledger with it:
as long as `should_continue` is set, it asks again from the returned checkpoint.
-/

namespace MantaIndexer
open Effects Encoding

/-- What the dense form takes from the base64 and codec crates, and from their counterparts at the
client. -/
class Transport where
  base64 : Bytes → String
  fromBase64 : String → Option Bytes
  encodeVec : {α : Type} → [Codec α] → List α → Bytes
  decodeVec : (α : Type) → [Codec α] → Bytes → Option (List α)
  fromBase64_base64 : ∀ bytes, fromBase64 (base64 bytes) = some bytes
  decodeVec_encodeVec : ∀ {α : Type} [Codec α] {values : List α}, values.length < 2 ^ 32 →
    decodeVec α (encodeVec values) = some values

structure DensePullResponse where
  shouldContinue : Bool
  receivers : String
  senders : String
  sendersReceiversTotal : TotalBytes
  nextCheckpoint : Option Checkpoint

variable [P : Pallet] [T : Transport]

def densePullLedgerDiff (checkpoint : Checkpoint) (maxReceivers maxSenders : UInt64) :
    Task DensePullResponse := do
  let (raw, nextCheckpoint) ← pullLedgerDiffImpl checkpoint maxReceivers maxSenders
  return {
    sendersReceiversTotal := raw.sendersReceiversTotal
    receivers := T.base64 (T.encodeVec raw.receivers)
    senders := T.base64 (T.encodeVec raw.senders)
    shouldContinue := raw.shouldContinue
    nextCheckpoint := some nextCheckpoint }

/-- The senders as the client reads them from the response. -/
def DensePullResponse.senderChunk (response : DensePullResponse) : Option (List Sender) :=
  (T.fromBase64 response.senders).bind (T.decodeVec Sender)

/-- The receivers as the client reads them from the response. -/
def DensePullResponse.receiverChunk (response : DensePullResponse) : Option (List Receiver) :=
  (T.fromBase64 response.receivers).bind (T.decodeVec Receiver)

/-- `one_user_thread` of the stress test from a checkpoint on, for at most so many requests: the
responses it gets. -/
def userThread (maxReceiverNum maxSenderNum : UInt64) :
    Nat → Checkpoint → Task (Option (List DensePullResponse))
  | 0, _ => return none
  | fuel + 1, checkpoint => do
    let data ← densePullLedgerDiff checkpoint maxReceiverNum maxSenderNum
    match data.nextCheckpoint with
    -- The thread reads the fields of `next_checkpoint` without looking whether there is one.
    | none => Prog.fail .panicked
    | some nextCheckpoint =>
      if data.shouldContinue then
        let rest ← userThread maxReceiverNum maxSenderNum fuel nextCheckpoint
        return rest.map (data :: ·)
      else return some [data]

def oneUserThread (maxReceiverNum maxSenderNum : UInt64) (fuel : Nat) :
    Task (Option (List DensePullResponse)) :=
  userThread maxReceiverNum maxSenderNum fuel Checkpoint.default

structure Walk where
  world : World
  checkpoint : Checkpoint
  shouldContinue : Bool
  delivered : List Sender

namespace Walk

omit T in
def start (w : World) (checkpoint : Checkpoint) : Walk := ⟨w, checkpoint, true, []⟩

/-- The steps of a walk in which the others change the world as in `commits`, and each request meets
the condition `meets` on the world and its parameters. -/
inductive Step (commits : World → World → Prop)
    (meets : World → Checkpoint → UInt64 → UInt64 → Prop) : Walk → Walk → Prop where
  | committed {c : Walk} {world : World} (step : commits c.world world) :
      Step commits meets c { c with world }
  | asked {c : Walk} {maxReceivers maxSenders : UInt64} {outside : Outside} {world : World}
      {response : DensePullResponse} {next : Checkpoint} {senders : List Sender}
      (continues : c.shouldContinue = true)
      (met : meets c.world c.checkpoint maxReceivers maxSenders)
      (ran : (densePullLedgerDiff c.checkpoint maxReceivers maxSenders).run (World.handle outside)
        c.world = (.ok response, world))
      (found : response.nextCheckpoint = some next) (read : response.senderChunk = some senders) :
      Step commits meets c ⟨world, next, response.shouldContinue, c.delivered ++ senders⟩

inductive Reachable (commits : World → World → Prop)
    (meets : World → Checkpoint → UInt64 → UInt64 → Prop) (w : World) (checkpoint : Checkpoint) :
    Walk → Prop where
  | start : Reachable commits meets w checkpoint (start w checkpoint)
  | step {c d : Walk} (before : Reachable commits meets w checkpoint c)
      (step : Step commits meets c d) : Reachable commits meets w checkpoint d

end Walk

end MantaIndexer
