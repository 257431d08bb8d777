import MantaIndexer.Effects.Interference
import Mathlib.Data.List.AList

/-!
The relay of subscriptions (`relayer/sub_client_pool.rs`) with the connection counts of
`monitoring.rs`. A subscribe call is a program; the relay runs any number of them, interleaved with
connections that open and close and with relay tasks that end.
-/

namespace MantaIndexer.Relayer
open Effects

abbrev ConnectionId := Nat

/-- A connection to the full node, by its number among those opened so far. -/
abbrev WsClient := Nat

structure SubscriptionKey where
  connId : ConnectionId
  subId : Nat
  deriving DecidableEq

inductive RelayError where
  | notAccepted
  /-- `try_send` on the queue of the worker thread. -/
  | trySend
  /-- `recv` when the worker dropped the job. -/
  | recv
  | clientCreation (error : String)
  | clientSubscribe (error : String)
  /-- `unwrap` on a missing client. -/
  | panicked

def RelayError.text : RelayError → Option String
  | .notAccepted => some ""
  | .clientCreation error => some ("MtoM client creation fail: " ++ error)
  | .clientSubscribe error => some ("new client subscribe fail: " ++ error)
  | .trySend | .recv | .panicked => none

/-! ### One call -/

inductive Op where
  /-- `sink.accept()` and then `sink.sub_keys()`. -/
  | accept
  | containsKey (connId : ConnectionId)
  /-- A job of the worker that connects to the full node. -/
  | build (uri : String)
  | insert (connId : ConnectionId) (client : WsClient)
  | get (connId : ConnectionId)
  /-- A job of the worker that subscribes downstream. -/
  | subscribe (client : WsClient) (subMethod : String) (params : Option String)
      (unsubMethod : String)
  /-- `tokio::spawn` of the task that pipes the stream into the sink. -/
  | spawn (key : SubscriptionKey)

@[reducible] def Op.Res : Op → Type
  | .accept => Option SubscriptionKey
  | .containsKey _ => Bool
  | .build _ => Except RelayError WsClient
  | .insert _ _ => Unit
  | .get _ => Option WsClient
  | .subscribe _ _ _ _ => Except RelayError Unit
  | .spawn _ => Unit

abbrev Call (α : Type) := Prog Op.Res RelayError α

abbrev perform (op : Op) : Call op.Res := Prog.ask op

def getClient (backendUri : String) (key : SubscriptionKey) : Call WsClient := do
  if !(← perform (.containsKey key.connId)) then
    let client ← Prog.lift (← perform (.build backendUri))
    perform (.insert key.connId client)
    return client
  else
    match (← perform (.get key.connId) : Option WsClient) with
    | some client => return client
    | none => Prog.fail .panicked

def subscribe (backendUri subMethod : String) (params : Option String) (unsubMethod : String) :
    Call Unit := do
  match (← perform .accept : Option SubscriptionKey) with
  | none => Prog.fail .notAccepted
  | some key =>
    let client ← getClient backendUri key
    Prog.lift (← perform (.subscribe client subMethod params unsubMethod))
    perform (.spawn key)

/-! ### The relay -/

structure Relay where
  backendUri : String
  /-- The id of the next connection: ids are not used twice. -/
  nextId : ConnectionId
  connections : List ConnectionId
  /-- `IndexerMiddleware.conn_num`. -/
  connNum : UInt64
  /-- `MtoMSubClientPool.clients`. -/
  clients : AList fun _ : ConnectionId => WsClient
  nextClient : WsClient
  nextSub : Nat
  /-- The subscribe calls in progress, each with the connection it came over. -/
  calls : List (ConnectionId × Call Unit)
  relays : List SubscriptionKey
  /-- `RELAYING_SUB_CHANNEL_NUM`. -/
  relayingSubChannelNum : Int

def Relay.start (backendUri : String) : Relay :=
  ⟨backendUri, 0, [], 0, ∅, 0, 0, [], [], 0⟩

inductive SubscriptionClosed where
  | success
  | remotePeerAborted
  | failed (error : String)

inductive Event where
  | connect
  | subscribe (connId : ConnectionId) (subMethod : String) (params : Option String)
      (unsubMethod : String)
  /-- The next operation of a call, which fails with the error if it can and one is given; or the
  return of the call. -/
  | proceed (call : Nat) (error : Option RelayError)
  | unsubscribe (key : SubscriptionKey)
  | streamEnded (key : SubscriptionKey) (closed : SubscriptionClosed)
  | disconnect (connId : ConnectionId)

namespace Relay

def answer (r : Relay) (connId : ConnectionId) (error : Option RelayError) :
    (op : Op) → op.Res × Relay
  | .accept =>
    match error with
    | none => (some ⟨connId, r.nextSub⟩, { r with nextSub := r.nextSub + 1 })
    | some _ => (none, r)
  | .containsKey id => (decide (id ∈ r.clients.keys), r)
  | .build _ =>
    match error with
    | none => (.ok r.nextClient, { r with nextClient := r.nextClient + 1 })
    | some error => (.error error, r)
  | .insert id client => ((), { r with clients := r.clients.insert id client })
  | .get id => (r.clients.lookup id, r)
  | .subscribe _ _ _ _ =>
    match error with
    | none => (.ok (), r)
    | some error => (.error error, r)
  | .spawn key =>
    ((), { r with
      relays := key :: r.relays
      relayingSubChannelNum := r.relayingSubChannelNum + 1 })

/-- The relay task returns; `sink.close` only tells the Dapp. -/
def endRelay (r : Relay) (key : SubscriptionKey) : Option Relay :=
  if key ∈ r.relays then
    some { r with
      relays := r.relays.erase key
      relayingSubChannelNum := r.relayingSubChannelNum - 1 }
  else none

def step (r : Relay) : Event → Option Relay
  | .connect => some { r with
      nextId := r.nextId + 1
      connections := r.nextId :: r.connections
      connNum := r.connNum + 1 }
  | .subscribe connId subMethod params unsubMethod =>
    if connId ∈ r.connections then
      some { r with
        calls := (connId, Relayer.subscribe r.backendUri subMethod params unsubMethod) :: r.calls }
    else none
  | .proceed i error =>
    match r.calls[i]? with
    | none => none
    | some (_, .ret _) => some { r with calls := r.calls.eraseIdx i }
    | some (_, .fail _) => some { r with calls := r.calls.eraseIdx i }
    | some (connId, .perform op next) =>
      some { (r.answer connId error op).2 with
        calls := r.calls.set i (connId, next (r.answer connId error op).1) }
  | .unsubscribe key => r.endRelay key
  | .streamEnded key _ => r.endRelay key
  | .disconnect connId =>
    if connId ∈ r.connections then
      some { r with
        connections := r.connections.erase connId
        connNum := r.connNum - 1
        relays := r.relays.filter fun key => key.connId ≠ connId
        relayingSubChannelNum := r.relayingSubChannelNum -
          (r.relays.countP fun key => key.connId = connId) }
    else none

def run (r : Relay) (events : List Event) : Option Relay := events.foldlM step r

/-- No subscribe call and no relay task is in progress. -/
def AtRest (r : Relay) : Prop := r.calls = [] ∧ r.relays = []

end Relay

end MantaIndexer.Relayer
