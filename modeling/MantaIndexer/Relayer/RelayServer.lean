import MantaIndexer.Encoding.Json
import Mathlib.Data.List.Nodup

/-!
The methods that the relay passes on (`relayer/relay_server.rs`). A request is read with the types of its
method, sent to the full node under the method's own name, and the reply is read and written again.
-/

namespace MantaIndexer.Relayer
open Encoding

/-! ### The types of the methods -/

/-- What the methods take from the substrate crates, with the JSON form of each type. -/
class NodeTypes where
  Bytes : Type
  Hash : Type
  StorageKey : Type
  StorageData : Type
  StorageChangeSet : Type
  RuntimeVersion : Type
  TraceBlockResponse : Type
  Properties : Type
  AccountId : Type
  SignedBlock : Type
  Header : Type
  /-- `ListOrValue<NumberOrHex>` -/
  BlockNumbers : Type
  /-- `ListOrValue<Option<Hash>>` -/
  BlockHashes : Type
  [bytesSerde : SolidSerde Bytes]
  [hashSerde : SolidSerde Hash]
  [storageKeySerde : SolidSerde StorageKey]
  [storageDataSerde : SolidSerde StorageData]
  [storageChangeSetSerde : SolidSerde StorageChangeSet]
  [runtimeVersionSerde : SolidSerde RuntimeVersion]
  [traceBlockResponseSerde : SolidSerde TraceBlockResponse]
  [propertiesSerde : SolidSerde Properties]
  [accountIdSerde : SolidSerde AccountId]
  [signedBlockSerde : SolidSerde SignedBlock]
  [headerSerde : SolidSerde Header]
  [blockNumbersSerde : SolidSerde BlockNumbers]
  [blockHashesSerde : Serde BlockHashes]

section Relay

variable [N : NodeTypes]

instance : SolidSerde N.Bytes := N.bytesSerde
instance : SolidSerde N.Hash := N.hashSerde
instance : SolidSerde N.StorageKey := N.storageKeySerde
instance : SolidSerde N.StorageData := N.storageDataSerde
instance : SolidSerde N.StorageChangeSet := N.storageChangeSetSerde
instance : SolidSerde N.RuntimeVersion := N.runtimeVersionSerde
instance : SolidSerde N.TraceBlockResponse := N.traceBlockResponseSerde
instance : SolidSerde N.Properties := N.propertiesSerde
instance : SolidSerde N.AccountId := N.accountIdSerde
instance : SolidSerde N.SignedBlock := N.signedBlockSerde
instance : SolidSerde N.Header := N.headerSerde
instance : SolidSerde N.BlockNumbers := N.blockNumbersSerde
instance : Serde N.BlockHashes := N.blockHashesSerde

abbrev Index := UInt32

structure Health where
  peers : UInt64
  isSyncing : Bool
  shouldHavePeers : Bool

/-- The field of an object; one that is there twice is an error. -/
def field (fields : List (String × Json)) (name : String) : Option Json :=
  match fields.filter fun entry => entry.1 == name with
  | [entry] => some entry.2
  | _ => none

instance : Serde Health where
  toJson health := .object [("peers", Serde.toJson health.peers),
    ("isSyncing", Serde.toJson health.isSyncing),
    ("shouldHavePeers", Serde.toJson health.shouldHavePeers)]
  fromJson
    | .object fields => do
      return {
        peers := ← Serde.fromJson (← field fields "peers")
        isSyncing := ← Serde.fromJson (← field fields "isSyncing")
        shouldHavePeers := ← Serde.fromJson (← field fields "shouldHavePeers") }
    | _ => none
  fromJson_toJson health := by simp [field, Serde.fromJson_toJson]

/-! ### The methods -/

/-- A method of the server and what its handler does: it requests a method of the full node with the
parameters it was given, and answers with the result. -/
structure Method where
  name : String
  aliases : List String
  requests : String
  /-- `rpc_params!` of the parameters, if they can be read. -/
  params : List Json → Option (List Json)
  /-- The result as it is written again, if it can be read. -/
  result : Json → Option Json
  params_params : ∀ {given read}, params given = some read → params read = some read
  result_result : ∀ {reply read}, result reply = some read → result read = some read

/-- A handler with parameters `π` and the result `ρ`. -/
def relaying (π ρ : Type) [Positional π] [Serde ρ] (name : String) (aliases : List String)
    (requests : String) : Method where
  name := name
  aliases := aliases
  requests := requests
  params given := (Positional.parse given : Option π).map Positional.print
  result reply := (Serde.fromJson reply : Option ρ).map Serde.toJson
  params_params read := by
    obtain ⟨params, -, rfl⟩ := Option.map_eq_some_iff.mp read
    rw [Positional.parse_print, Option.map_some]
  result_result read := by
    obtain ⟨value, -, rfl⟩ := Option.map_eq_some_iff.mp read
    rw [Serde.fromJson_toJson, Option.map_some]

def Method.names (method : Method) : List String := method.name :: method.aliases

namespace MantaRpcRelayServer

def call : Method :=
  relaying (String × N.Bytes × Option N.Hash × Unit) N.Bytes
    "state_call" ["state_callAt"] "state_call"

def storagePairs : Method :=
  relaying (N.StorageKey × Option N.Hash × Unit) (List (N.StorageKey × N.StorageData))
    "state_getPairs" [] "state_getPairs"

def storageKeysPaged : Method :=
  relaying (Option N.StorageKey × UInt32 × Option N.StorageKey × Option N.Hash × Unit)
    (List N.StorageKey) "state_getKeysPaged" ["state_getKeysPagedAt"] "state_getKeysPaged"

def storage : Method :=
  relaying (N.StorageKey × Option N.Hash × Unit) (Option N.StorageData)
    "state_getStorage" ["state_getStorageAt"] "state_getStorage"

def storageHash : Method :=
  relaying (N.StorageKey × Option N.Hash × Unit) (Option N.Hash)
    "state_getStorageHash" ["state_getStorageHashAt"] "state_getStorageHash"

def storageSize : Method :=
  relaying (N.StorageKey × Option N.Hash × Unit) (Option UInt64)
    "state_getStorageSize" ["state_getStorageSizeAt"] "state_getStorageSize"

def metadata : Method :=
  relaying (Option N.Hash × Unit) N.Bytes "state_getMetadata" [] "state_getMetadata"

def runtimeVersion : Method :=
  relaying (Option N.Hash × Unit) N.RuntimeVersion
    "state_getRuntimeVersion" ["chain_getRuntimeVersion"] "state_getRuntimeVersion"

def queryStorage : Method :=
  relaying (List N.StorageKey × N.Hash × Option N.Hash × Unit) (List N.StorageChangeSet)
    "state_queryStorage" [] "state_queryStorage"

def queryStorageAt : Method :=
  relaying (List N.StorageKey × Option N.Hash × Unit) (List N.StorageChangeSet)
    "state_queryStorageAt" [] "state_queryStorageAt"

def traceBlock : Method :=
  relaying (N.Hash × Option String × Option String × Option String × Unit) N.TraceBlockResponse
    "state_traceBlock" [] "state_traceBlock"

def systemName : Method := relaying Unit String "system_name" [] "system_name"

def systemVersion : Method := relaying Unit String "system_version" [] "system_version"

def systemChain : Method := relaying Unit String "system_chain" [] "system_chain"

def systemProperties : Method :=
  relaying Unit N.Properties "system_properties" [] "system_properties"

def systemHealth : Method := relaying Unit Health "system_health" [] "system_health"

def nonce : Method :=
  relaying (N.AccountId × Unit) Index
    "system_accountNextIndex" ["account_nextIndex"] "system_accountNextIndex"

def block : Method :=
  relaying (Option N.Hash × Unit) (Option N.SignedBlock) "chain_getBlock" [] "chain_getBlock"

def header : Method :=
  relaying (Option N.Hash × Unit) (Option N.Header) "chain_getHeader" [] "chain_getHeader"

def blockHash : Method :=
  relaying (Option N.BlockNumbers × Unit) N.BlockHashes
    "chain_getBlockHash" ["chain_getHead"] "chain_getBlockHash"

def finalizedHead : Method :=
  relaying Unit N.Hash "chain_getFinalizedHead" ["chain_getFinalisedHead"] "chain_getFinalizedHead"

def submitExtrinsic : Method :=
  relaying (N.Bytes × Unit) N.Hash "author_submitExtrinsic" [] "author_submitExtrinsic"

def pendingExtrinsics : Method :=
  relaying Unit (List N.Bytes) "author_pendingExtrinsics" [] "author_pendingExtrinsics"

/-- The methods of the server that are no subscriptions. -/
def methods : List Method :=
  [call, storagePairs, storageKeysPaged, storage, storageHash, storageSize, metadata, runtimeVersion,
    queryStorage, queryStorageAt, traceBlock, systemName, systemVersion, systemChain,
    systemProperties, systemHealth, nonce, block, header, blockHash, finalizedHead, submitExtrinsic,
    pendingExtrinsics]

end MantaRpcRelayServer

/-- A subscription of the server, and the methods of the full node that its handler subscribes and
unsubscribes with. -/
structure Subscription where
  name : String
  aliases : List String
  unsubscribe : String
  unsubscribeAliases : List String
  subMethod : String
  unsubMethod : String
  params : List Json → Option (List Json)

def subscribing (π : Type) [Positional π] (name : String) (aliases : List String)
    (unsubscribe : String) (unsubscribeAliases : List String) (subMethod unsubMethod : String) :
    Subscription where
  name := name
  aliases := aliases
  unsubscribe := unsubscribe
  unsubscribeAliases := unsubscribeAliases
  subMethod := subMethod
  unsubMethod := unsubMethod
  params given := (Positional.parse given : Option π).map Positional.print

def Subscription.names (subscription : Subscription) : List String :=
  subscription.name :: subscription.aliases ++
    subscription.unsubscribe :: subscription.unsubscribeAliases

namespace MantaRpcRelayServer

def subscribeRuntimeVersion : Subscription :=
  subscribing Unit "state_subscribeRuntimeVersion" ["chain_subscribeRuntimeVersion"]
    "state_unsubscribeRuntimeVersion" ["chain_unsubscribeRuntimeVersion"]
    "state_subscribeRuntimeVersion" "state_unsubscribeRuntimeVersion"

def subscribeStorage : Subscription :=
  subscribing (Option (List N.StorageKey) × Unit) "state_subscribeStorage" []
    "state_unsubscribeStorage" [] "state_subscribeStorage" "state_unsubscribeStorage"

def subscribeAllHeads : Subscription :=
  subscribing Unit "chain_subscribeAllHeads" [] "chain_unsubscribeAllHeads" []
    "chain_subscribeAllHeads" "chain_unsubscribeAllHeads"

def subscribeNewHeads : Subscription :=
  subscribing Unit "chain_subscribeNewHeads" ["subscribe_newHead", "chain_subscribeNewHead"]
    "chain_unsubscribeNewHeads" ["unsubscribe_newHead", "chain_unsubscribeNewHead"]
    "chain_subscribeNewHeads" "chain_unsubscribeNewHeads"

def subscribeFinalizedHeads : Subscription :=
  subscribing Unit "chain_subscribeFinalizedHeads" ["chain_subscribeFinalisedHeads"]
    "chain_unsubscribeFinalizedHeads" ["chain_unsubscribeFinalisedHeads"]
    "chain_subscribeFinalizedHeads" "chain_unsubscribeFinalizedHeads"

def watchExtrinsic : Subscription :=
  subscribing (N.Bytes × Unit) "author_submitAndWatchExtrinsic" [] "author_unwatchExtrinsic" []
    "author_submitAndWatchExtrinsic" "author_unwatchExtrinsic"

def subscriptions : List Subscription :=
  [subscribeRuntimeVersion, subscribeStorage, subscribeAllHeads, subscribeNewHeads,
    subscribeFinalizedHeads, watchExtrinsic]

end MantaRpcRelayServer

/-! ### Registered names -/

section Names

omit N in
/-- The item that a key belongs to, when no key belongs to two of them. -/
theorem find?_flatMap {α κ : Type} [DecidableEq κ] {keys : α → List κ} {items : List α}
    (nodup : (items.flatMap keys).Nodup) {item : α} (member : item ∈ items) {key : κ}
    (own : key ∈ keys item) : (items.find? fun other => key ∈ keys other) = some item := by
  induction items with
  | nil => cases member
  | cons head rest ih =>
    rw [List.flatMap_cons, List.nodup_append] at nodup
    obtain ⟨-, nodup, apart⟩ := nodup
    rcases List.mem_cons.mp member with rfl | later
    · exact List.find?_cons_of_pos (decide_eq_true own)
    · have other : ¬ key ∈ keys head := fun mine =>
        apart key mine key (List.mem_flatMap.mpr ⟨item, later, own⟩) rfl
      rw [List.find?_cons_of_neg (by simpa using other)]
      exact ih nodup later

open MantaRpcRelayServer

/-- The methods of `MantaPayIndexerApi`. -/
def indexerNames : List String := ["mantaPay_pull_ledger_diff", "mantaPay_dense_pull_ledger_diff"]

def relayNames : List String :=
  methods.flatMap Method.names ++ subscriptions.flatMap Subscription.names

/-- `merge` and `register_method` of the RPC module: a name that is there already is an error. -/
def register (module names : List String) : Option (List String) :=
  if (module ++ names).Nodup then some (module ++ names) else none

/-- The names that `start_service` registers. -/
def rpcModule : Option (List String) := do
  let module ← register [] indexerNames
  let module ← register module relayNames
  register module ["rpc_methods"]

theorem relayNames_eq : relayNames = ["state_call", "state_callAt", "state_getPairs",
    "state_getKeysPaged", "state_getKeysPagedAt", "state_getStorage", "state_getStorageAt",
    "state_getStorageHash", "state_getStorageHashAt", "state_getStorageSize",
    "state_getStorageSizeAt", "state_getMetadata", "state_getRuntimeVersion",
    "chain_getRuntimeVersion", "state_queryStorage", "state_queryStorageAt", "state_traceBlock",
    "system_name", "system_version", "system_chain", "system_properties", "system_health",
    "system_accountNextIndex", "account_nextIndex", "chain_getBlock", "chain_getHeader",
    "chain_getBlockHash", "chain_getHead", "chain_getFinalizedHead", "chain_getFinalisedHead",
    "author_submitExtrinsic", "author_pendingExtrinsics", "state_subscribeRuntimeVersion",
    "chain_subscribeRuntimeVersion", "state_unsubscribeRuntimeVersion",
    "chain_unsubscribeRuntimeVersion", "state_subscribeStorage", "state_unsubscribeStorage",
    "chain_subscribeAllHeads", "chain_unsubscribeAllHeads", "chain_subscribeNewHeads",
    "subscribe_newHead", "chain_subscribeNewHead", "chain_unsubscribeNewHeads",
    "unsubscribe_newHead", "chain_unsubscribeNewHead", "chain_subscribeFinalizedHeads",
    "chain_subscribeFinalisedHeads", "chain_unsubscribeFinalizedHeads",
    "chain_unsubscribeFinalisedHeads", "author_submitAndWatchExtrinsic",
    "author_unwatchExtrinsic"] := rfl

/-- No name is there twice, so the module is always put together. -/
theorem registered_nodup : (indexerNames ++ relayNames ++ ["rpc_methods"]).Nodup := by
  rw [relayNames_eq]
  decide

theorem rpcModule_eq : rpcModule = some (indexerNames ++ relayNames ++ ["rpc_methods"]) := by
  have all := registered_nodup
  have both := all.sublist (List.sublist_append_left _ _)
  have indexer : indexerNames.Nodup := both.sublist (List.sublist_append_left _ _)
  simp only [rpcModule, register, List.nil_append, Option.bind_eq_bind, Option.bind_some,
    if_pos indexer, if_pos both, if_pos all]

theorem names_nodup : (methods.flatMap Method.names).Nodup := by
  have all := registered_nodup
  rw [List.append_assoc] at all
  have relay := (all.sublist (List.sublist_append_right _ _)).sublist (List.sublist_append_left _ _)
  exact relay.sublist (List.sublist_append_left _ _)

/-- Each subscription subscribes and unsubscribes with its own methods. -/
theorem subscribes_eq_name {subscription : Subscription} (member : subscription ∈ subscriptions) :
    subscription.subMethod = subscription.name ∧
      subscription.unsubMethod = subscription.unsubscribe := by
  have same : subscriptions.map Subscription.subMethod = subscriptions.map Subscription.name := rfl
  have same' : subscriptions.map Subscription.unsubMethod =
      subscriptions.map Subscription.unsubscribe := rfl
  exact ⟨List.map_inj_left.mp same subscription member,
    List.map_inj_left.mp same' subscription member⟩

theorem requests_eq_name {method : Method} (member : method ∈ methods) :
    method.requests = method.name := by
  have same : methods.map Method.requests = methods.map Method.name := rfl
  exact List.map_inj_left.mp same method member

/-- The method of the server that has this name or alias. -/
def route (name : String) : Option Method :=
  methods.find? fun method => name ∈ method.names

theorem route_of_mem {method : Method} (member : method ∈ methods) {name : String}
    (named : name ∈ method.names) : route name = some method :=
  find?_flatMap names_nodup member named

theorem route_inv {name : String} {method : Method} (routed : route name = some method) :
    method ∈ methods ∧ name ∈ method.names :=
  ⟨List.mem_of_find?_eq_some routed, by simpa using List.find?_some routed⟩

/-- The handler of a method requests the method itself. -/
theorem route_requests {name : String} {method : Method} (routed : route name = some method) :
    route method.requests = some method := by
  obtain ⟨member, -⟩ := route_inv routed
  apply route_of_mem member
  rw [requests_eq_name member]
  exact List.mem_cons_self

end Names

/-! ### Forwarded requests -/

/-- A request with positional parameters. -/
structure RpcRequest where
  method : String
  params : List Json

/-- What the relay sends to the full node for a request over its client for direct methods, if
anything. A subscription goes to the pool, which has clients of its own. -/
def forwarded (request : RpcRequest) : Option RpcRequest := do
  let method ← route request.method
  return ⟨method.requests, ← method.params request.params⟩

section Forwarded

variable {request sent : RpcRequest}

theorem forwarded_inv (h : forwarded request = some sent) :
    ∃ method, route request.method = some method ∧ sent.method = method.requests ∧
      method.params request.params = some sent.params := by
  obtain ⟨method, routed, h⟩ := Option.bind_eq_some_iff.mp h
  obtain ⟨params, read, same⟩ := Option.bind_eq_some_iff.mp h
  cases same
  exact ⟨method, routed, rfl, read⟩

/-- What the relay sends on would be sent on as it is. -/
theorem forwarded_forwarded (h : forwarded request = some sent) : forwarded sent = some sent := by
  obtain ⟨method, routed, named, read⟩ := forwarded_inv h
  rw [forwarded, named, route_requests routed, Option.bind_eq_bind, Option.bind_some,
    method.params_params read, ← named]
  rfl

end Forwarded

/-! ### The server -/

/-- An error as the response carries it. -/
structure ErrorObject where
  code : Int
  message : String
  data : Option Json

/-- The errors that the JSON-RPC server and client make up themselves; their texts name the types that
the method has for what they could not read. -/
class RpcErrors where
  methodNotFound : ErrorObject
  invalidParams (method : String) (params : List Json) : ErrorObject
  /-- The client cannot read the result. -/
  parseError (method : String) (reply : Json) : ErrorObject

variable [E : RpcErrors] {σ : Type}

/-- Something that answers requests one after the other. -/
abbrev Server (σ : Type) := σ → RpcRequest → Except ErrorObject Json × σ

def Server.run (server : Server σ) (s : σ) : List RpcRequest → List (Except ErrorObject Json) × σ
  | [] => ([], s)
  | request :: requests =>
    let answered := server s request
    let rest := Server.run server answered.2 requests
    (answered.1 :: rest.1, rest.2)

/-- What a handler makes of the reply to its request. -/
def Method.answer (method : Method) : Except ErrorObject Json → Except ErrorObject Json
  | .error error => .error error
  | .ok reply =>
    match method.result reply with
    | none => .error (E.parseError method.name reply)
    | some result => .ok result

/-- `MantaRpcRelayServer` by itself, without its subscriptions, in front of a full node. -/
def relay (node : Server σ) : Server σ := fun s request =>
  match route request.method with
  | none => (.error E.methodNotFound, s)
  | some method =>
    match method.params request.params with
    | none => (.error (E.invalidParams method.name request.params), s)
    | some params =>
      let answered := node s ⟨method.requests, params⟩
      (method.answer answered.1, answered.2)

/-! ### Requests through the relay -/

section Relayed

variable (node : Server σ) (s : σ) {request sent : RpcRequest}

theorem relay_sent {method : Method} (h : forwarded request = some sent)
    (routed : route request.method = some method) :
    relay node s request = (method.answer (node s sent).1, (node s sent).2) := by
  obtain ⟨_, routed', named, read⟩ := forwarded_inv h
  cases routed.symm.trans routed'
  simp only [relay, routed, read, ← named]

end Relayed

omit N in
theorem Method.answer_answer (method : Method) (reply : Except ErrorObject Json) :
    method.answer (method.answer reply) = method.answer reply := by
  cases reply with
  | error error => rfl
  | ok reply =>
    cases read : method.result reply with
    | none => simp only [Method.answer, read]
    | some result => simp only [Method.answer, read, method.result_result read]

/-- To the server a request is the same under an alias and with optional parameters left out, and
reading and writing its results changes nothing. -/
structure Speaks (node : Server σ) : Prop where
  requests : ∀ s {request sent}, forwarded request = some sent → node s request = node s sent
  results : ∀ s {request method}, route request.method = some method →
    (forwarded request).isSome = true → method.answer (node s request).1 = (node s request).1

theorem Speaks.same {node : Server σ} (speaks : Speaks node) (s : σ) {request : RpcRequest}
    (asked : (forwarded request).isSome = true) : relay node s request = node s request := by
  obtain ⟨sent, h⟩ := Option.isSome_iff_exists.mp asked
  obtain ⟨method, routed, -⟩ := forwarded_inv h
  have results := speaks.results s routed asked
  rw [relay_sent node s h routed, ← speaks.requests s h, results]

/-- Whatever the full node does, the relay in front of it speaks the methods. -/
theorem relay_speaks (node : Server σ) : Speaks (relay node) := by
  constructor
  · intro s request sent h
    obtain ⟨method, routed, named, -⟩ := forwarded_inv h
    have again : route sent.method = some method := by rw [named, route_requests routed]
    rw [relay_sent node s h routed, relay_sent node s (forwarded_forwarded h) again]
  · intro s request method routed asked
    obtain ⟨sent, h⟩ := Option.isSome_iff_exists.mp asked
    rw [relay_sent node s h routed, method.answer_answer]

/-- A full node that has the methods: what its handlers make of the parameters that were read, and
what it answers to everything else. -/
structure FullNode (σ : Type) where
  handle (method : Method) (s : σ) (params : List Json) : Except ErrorObject Json × σ
  other (s : σ) (request : RpcRequest) : Except ErrorObject Json × σ
  /-- A result is written in the form of the result type of its method. -/
  written : ∀ method ∈ MantaRpcRelayServer.methods, ∀ s params reply,
    (handle method s params).1 = .ok reply → method.result reply = some reply

/-- Its RPC module, with the names, aliases and parameter types of the methods. -/
def FullNode.server (node : FullNode σ) : Server σ := fun s request =>
  match route request.method with
  | none => node.other s request
  | some method =>
    match method.params request.params with
    | none => node.other s request
    | some params => node.handle method s params

omit E in
theorem FullNode.server_sent (node : FullNode σ) (s : σ) {request sent : RpcRequest}
    {method : Method} (h : forwarded request = some sent)
    (routed : route request.method = some method) :
    node.server s request = node.handle method s sent.params := by
  obtain ⟨_, routed', -, read⟩ := forwarded_inv h
  cases routed.symm.trans routed'
  simp only [FullNode.server, routed, read]

theorem FullNode.speaks (node : FullNode σ) : Speaks node.server := by
  constructor
  · intro s request sent h
    obtain ⟨method, routed, named, -⟩ := forwarded_inv h
    have again : route sent.method = some method := by rw [named, route_requests routed]
    rw [node.server_sent s h routed, node.server_sent s (forwarded_forwarded h) again]
  · intro s request method routed asked
    obtain ⟨sent, h⟩ := Option.isSome_iff_exists.mp asked
    obtain ⟨member, -⟩ := route_inv routed
    rw [node.server_sent s h routed]
    cases answer : (node.handle method s sent.params).1 with
    | error error => rfl
    | ok reply => simp only [Method.answer, node.written method member _ _ _ answer]

theorem Speaks.run {node : Server σ} (speaks : Speaks node) (s : σ) {requests : List RpcRequest}
    (asked : ∀ request ∈ requests, (forwarded request).isSome = true) :
    (relay node).run s requests = node.run s requests := by
  induction requests generalizing s with
  | nil => rfl
  | cons request rest ih =>
    obtain ⟨first, asked⟩ := List.forall_mem_cons.mp asked
    unfold Server.run
    rw [speaks.same s first]
    simp only [ih _ asked]

end Relay

/-- A relay in front of a relay is one relay. -/
theorem relay_behind_relay [NodeTypes] [RpcErrors] {σ : Type} (node : Server σ) :
    relay (relay node) = relay node := by
  funext s request
  cases h : forwarded request with
  | some sent => exact (relay_speaks node).same s (by rw [h]; rfl)
  | none =>
    -- Both answer by themselves, with the same error.
    unfold relay
    cases routed : route request.method with
    | none => rfl
    | some method =>
      cases read : method.params request.params with
      | none => simp only [read]
      | some params => simp [forwarded, routed, read] at h

section Sample

@[reducible] def sampleNodeTypes : NodeTypes where
  Bytes := String
  Hash := String
  StorageKey := String
  StorageData := String
  StorageChangeSet := String
  RuntimeVersion := String
  TraceBlockResponse := String
  Properties := String
  AccountId := String
  SignedBlock := String
  Header := String
  BlockNumbers := String
  BlockHashes := String

@[reducible] def sampleRpcErrors : RpcErrors where
  methodNotFound := ⟨-32601, "Method not found", none⟩
  invalidParams _ _ := ⟨-32602, "Invalid params", none⟩
  parseError _ _ := ⟨-32603, "Parse error", none⟩

attribute [local instance] sampleNodeTypes sampleRpcErrors

end Sample

end MantaIndexer.Relayer
