import MantaIndexer.Indexer.System
import Mathlib.Logic.Relation

/-!
Starting the indexer (`service.rs`, with `is_the_rpc_methods_existed` of `utils.rs` and the job of
`sync.rs`): the configuration is read, the full node is asked for its methods, the syncing job is
started, and the server follows once the first synchronization is done or the process is told to
shut down.
-/

namespace MantaIndexer
open Effects Encoding Collections

/-! ### The configuration -/

/-- A value of a TOML document. Floats, dates and arrays are read by nothing here. -/
inductive Toml where
  | string (value : String)
  | integer (value : Int64)
  | boolean (value : Bool)
  | table (entries : List (String × Toml))
  | other

def fullNodeBlockGenIntervalSec : UInt64 := 12

inductive StartError where
  | wrongConfig
  | rpcMethodNotExists
  | frequencyLimit (frequency : UInt64)
  /-- The error of something outside, with its text. -/
  | outside (text : String)
  | panicked (text : String)

def StartError.text : StartError → String
  | .wrongConfig => "Wrong config file(config.toml)."
  | .rpcMethodNotExists => "This rpc method doesn't exist."
  | .frequencyLimit frequency => "frequency config(" ++ toString frequency ++
      ") is larger than limit(" ++ toString fullNodeBlockGenIntervalSec ++ ")"
  | .outside text | .panicked text => text

namespace Toml

def get (value : Toml) (key : String) : Option Toml :=
  match value with
  | .table entries => (entries.find? fun entry => entry.1 = key).map Prod.snd
  | _ => none

/-- `value[key]`, which panics on a key that is not there. -/
def index (value : Toml) (key : String) : Except StartError Toml :=
  match value.get key with
  | some entry => .ok entry
  | none => .error (.panicked "index not found")

/-- `as_str`, with `ok_or(WrongConfig)`. -/
def asStr : Toml → Except StartError String
  | .string value => .ok value
  | _ => .error .wrongConfig

/-- `as_integer`, with `ok_or(WrongConfig)`. -/
def asInteger : Toml → Except StartError Int64
  | .integer value => .ok value
  | _ => .error .wrongConfig

/-- `config[part]["configuration"][key]`. -/
def setting (config : Toml) (part key : String) : Except StartError Toml := do
  (← (← config.index part).index "configuration").index key

def stringAt (config : Toml) (part key : String) : Except StartError String := do
  (← config.setting part key).asStr

def integerAt (config : Toml) (part key : String) : Except StartError Int64 := do
  (← config.setting part key).asInteger

/-- A field of an unsigned type with `bits` bits, as `serde` reads it. -/
def unsigned (value : Toml) (bits : Nat) (key : String) : Except StartError Nat :=
  match value.get key with
  | some (.integer n) =>
    if 0 ≤ n.toInt ∧ n.toInt < 2 ^ bits then .ok n.toInt.toNat
    else .error (.outside "invalid value")
  | some _ => .error (.outside "invalid type")
  | none => .error (.outside "missing field")

def bool (value : Toml) (key : String) : Except StartError Bool :=
  match value.get key with
  | some (.boolean b) => .ok b
  | some _ => .error (.outside "invalid type")
  | none => .error (.outside "missing field")

end Toml

structure WsServerConfig where
  maxRequestBodySize : UInt32
  maxResponseBodySize : UInt32
  maxConnections : UInt64
  maxSubscriptionsPerConnection : UInt32
  maxLogLength : UInt32
  batchRequestsSupported : Bool
  /-- In seconds. -/
  pingInterval : UInt64

/-- `toml::from_str` on `config["server"]["configuration"]`. -/
def WsServerConfig.fromToml (config : Toml) : Except StartError WsServerConfig := do
  let value ← (← config.index "server").index "configuration"
  return {
    maxRequestBodySize := .ofNat (← value.unsigned 32 "max_request_body_size")
    maxResponseBodySize := .ofNat (← value.unsigned 32 "max_response_body_size")
    maxConnections := .ofNat (← value.unsigned 64 "max_connections")
    maxSubscriptionsPerConnection := .ofNat
      (← value.unsigned 32 "max_subscriptions_per_connection")
    maxLogLength := .ofNat (← value.unsigned 32 "max_log_length")
    batchRequestsSupported := ← value.bool "batch_requests_supported"
    pingInterval := .ofNat (← value.unsigned 64 "ping_interval") }

/-! ### Starting -/

inductive Rpc where
  | indexer
  | relay

structure ServerOptions where
  maxConnections : UInt64
  maxRequestBodySize : UInt32
  maxResponseBodySize : UInt32
  pingInterval : UInt64
  maxSubscriptionsPerConnection : UInt32

/-- An address of the loopback interface, by its port. -/
abbrev LocalAddr := UInt16

/-- `format!("127.0.0.1:{port}").parse::<SocketAddr>()`: the digits of a port fit 16 bits. -/
def localAddr (port : Int64) : Except StartError LocalAddr :=
  if 0 ≤ port.toInt ∧ port.toInt < 65536 then .ok (.ofNat port.toInt.toNat)
  else .error (.outside "invalid socket address syntax")

/-- What is done outside and succeeds or fails with an error. -/
inductive StartAction where
  | initializeDbPool (migrationsPath dbUrl : String) (poolSize : UInt32)
  | merge (rpc : Rpc)
  | newRelayServer (fullNode : String)
  | initRpcMethods
  | registerRpcMethods
  | createWsClient (url : String)
  | startPrometheus (addr : LocalAddr)
  | startServer (port : Int64) (options : ServerOptions)

inductive StartOp where
  | readConfig
  | act (action : StartAction)
  /-- `rpc_methods` of the full node. -/
  | requestRpcMethods
  | startSyncLedgerJob (maxCount : UInt64 × UInt64) (frequency : UInt64)
  | loadInitSyncingFinished
  | loadShutdownFlag
  | sleep (seconds : Nat)

@[reducible] def StartOp.Res : StartOp → Type
  | .readConfig => Except String Toml
  | .act _ => Except String Unit
  | .requestRpcMethods => Except String (List String)
  | .startSyncLedgerJob _ _ => Unit
  | .loadInitSyncingFinished | .loadShutdownFlag => Bool
  | .sleep _ => Unit

abbrev StartTask (α : Type) := Prog StartOp.Res StartError α

abbrev StartOp.ask (op : StartOp) : StartTask op.Res := Prog.ask op

/-- The value, or the error of something outside: `?`. -/
def orFail {α : Type} : Except String α → StartTask α
  | .ok value => .ret value
  | .error text => .fail (.outside text)

def act (action : StartAction) : StartTask Unit := do
  orFail (← StartOp.ask (.act action))

/-- An action whose error is a panic. -/
def expect (action : StartAction) (message : String → String) : StartTask Unit := do
  match (← StartOp.ask (.act action) : Except String Unit) with
  | .ok _ => return ()
  | .error text => Prog.fail (.panicked (message text))

def isTheRpcMethodsExisted (rpcMethod : String) : StartTask Bool := do
  let methods ← orFail (← StartOp.ask .requestRpcMethods)
  return methods.any fun m => m == rpcMethod

/-- What is left to open when the service waits for the first synchronization. -/
structure Ports where
  port : Int64
  monitorPort : Int64
  srvConfig : WsServerConfig

/-- Where `start_service` is between two rounds of its loop, and after it. -/
inductive Stage where
  | waiting (ports : Ports)
  | opening (ports : Ports)
  | serving

/-- `start_service` up to the loop that waits. -/
def startService (migrationsPath : String) : StartTask Stage := do
  let config ← orFail (← StartOp.ask .readConfig)
  let fullNode ← Prog.lift (config.stringAt "indexer" "full_node")
  let rpcMethod ← Prog.lift (config.stringAt "indexer" "rpc_method")
  let poolSize ← Prog.lift (config.integerAt "db" "pool_size")
  let dbPath ← Prog.lift (config.stringAt "db" "db_path")
  act (.initializeDbPool migrationsPath dbPath poolSize.toUInt64.toUInt32)
  act (.merge .indexer)
  let port ← Prog.lift (config.integerAt "indexer" "port")
  let monitorPort ← Prog.lift (config.integerAt "indexer" "prometheus_port")
  let frequency ← Prog.lift (config.integerAt "indexer" "frequency")
  if fullNodeBlockGenIntervalSec ≤ frequency.toUInt64 then
    Prog.fail (.frequencyLimit frequency.toUInt64)
  else
    act (.newRelayServer fullNode)
    act (.merge .relay)
    let srvConfig ← Prog.lift (WsServerConfig.fromToml config)
    expect .initRpcMethods fun _ =>
      "internal error: entered unreachable code: global config RPC_METHODS init twice"
    expect .registerRpcMethods fun error =>
      "infallible all other methods have their own address space; qed: " ++ error
    act (.createWsClient fullNode)
    -- Only a failed request is an error here; the answer itself is dropped.
    let _ ← (isTheRpcMethodsExisted rpcMethod).mapError fun _ => .rpcMethodNotExists
    StartOp.ask (.startSyncLedgerJob (maxReceivers, maxSenders) frequency.toUInt64)
    return .waiting ⟨port, monitorPort, srvConfig⟩

def megabyte : UInt32 := 1024 * 1024

/-- The sizes wrap around, as the release profile does. -/
def WsServerConfig.options (config : WsServerConfig) : ServerOptions where
  maxConnections := config.maxConnections
  maxRequestBodySize := config.maxRequestBodySize * megabyte
  maxResponseBodySize := config.maxResponseBodySize * megabyte
  pingInterval := config.pingInterval
  maxSubscriptionsPerConnection := config.maxSubscriptionsPerConnection

/-- One round of the loop of `start_service` that waits, or what follows it. -/
def Stage.task : Stage → StartTask Stage
  | .waiting ports => do
    if !(← StartOp.ask .loadInitSyncingFinished) then
      if !(← StartOp.ask .loadShutdownFlag) then
        StartOp.ask (.sleep 5)
        return .waiting ports
      else return .opening ports
    else return .opening ports
  | .opening ports => do
    let prometheusAddr ← Prog.lift (localAddr ports.monitorPort)
    act (.startPrometheus prometheusAddr)
    act (.startServer ports.port ports.srvConfig.options)
    return .serving
  | .serving => return .serving

/-! ### The process -/

variable [P : Pallet]

/-- Where the loop of `start_sync_ledger_job` is. -/
inductive Job where
  /-- Not started yet. -/
  | absent
  | head
  | calling
  /-- A call has returned, and the shutdown flag is to be read. -/
  | checking
  | ended

/-- The configuration the job calls `sync_shards_from_full_node` with. -/
def Job.config : SyncConfig := ⟨(maxReceivers, maxSenders), true⟩

/-- Only the panic of a call ends the loop. -/
def Job.afterError : Error → Job
  | .panicked => .ended
  | _ => .checking

/-- The responses of the full node since the process began: the last one, and those whose
transaction was committed. -/
structure Log where
  answered : Option PullResponse
  committed : List PullResponse

def Log.empty : Log := ⟨none, []⟩

def Log.observe (log : Log) : (op : Op) → op.Res → Log
  | .request _ _ _, .ok response => { log with answered := some response }
  | .sql .commit, .ok _ => { log with committed := log.committed ++ log.answered.toList }
  | _, _ => log

def Log.Last (log : Log) : Prop := ∃ response ∈ log.committed, response.shouldContinue = false

/-- What the process finds around it when it is started. -/
structure Surroundings where
  migrationsPath : String
  /-- The configuration file. -/
  config : Toml
  /-- The methods the full node reports. -/
  methods : List String
  /-- The database pools that can be opened: the path of the migrations, the URL and the size. -/
  opens : String → String → UInt32 → Bool
  /-- The URLs at which a full node can be connected to. -/
  connects : String → Bool
  /-- The addresses that can be bound. -/
  free : LocalAddr → Bool

/-- What can succeed; everything else outside is refused, whenever it is tried. The address of the
server is only resolved when it is bound. -/
def Surroundings.accepts (around : Surroundings) : StartAction → Bool
  | .initializeDbPool migrationsPath dbUrl poolSize => around.opens migrationsPath dbUrl poolSize
  | .newRelayServer url | .createWsClient url => around.connects url
  | .startPrometheus addr => around.free addr
  | .startServer port _ =>
    match localAddr port with
    | .ok addr => around.free addr
    | .error _ => false
  | .merge _ | .initRpcMethods | .registerRpcMethods => true

structure Service where
  system : System
  log : Log
  /-- `SHUTDOWN_FLAG`. -/
  shutdown : Bool
  job : Job
  /-- What is left of `start_service`. -/
  start : StartTask Stage
  around : Surroundings

namespace Service

def initial (capacity : Nat) (node : Ledger) (around : Surroundings) : Service where
  system := .initial capacity node
  log := .empty
  shutdown := false
  job := .absent
  start := startService around.migrationsPath
  around := around

/-- What an operation of `start_service` may be answered. Whatever is outside may fail. -/
def Answers (s : Service) : (op : StartOp) → op.Res → Prop
  | .readConfig, .ok config => config = s.around.config
  | .act action, .ok _ => s.around.accepts action = true
  | .requestRpcMethods, .ok methods => methods = s.around.methods
  | .loadInitSyncingFinished, flag => flag = s.system.world.initSyncingFinished
  | .loadShutdownFlag, flag => flag = s.shutdown
  | _, _ => True

def jobAfter (s : Service) : StartOp → Job
  | .startSyncLedgerJob _ _ => .head
  | _ => s.job

inductive Step : Service → Service → Prop where
  | performed {s : Service} {op : StartOp} {next : op.Res → StartTask Stage} {r : op.Res}
      (here : s.start = .perform op next) (answers : s.Answers op r) :
      Step s { s with start := next r, job := s.jobAfter op }
  | entered {s : Service} {stage : Stage} (here : s.start = .ret stage) :
      Step s { s with start := stage.task }
  | called {s : Service} (here : s.job = .head) :
      Step s { s with
        job := .calling
        system := { s.system with sync := .starting Job.config getLatestCheckPoint } }
  | counting {s : Service} {config : SyncConfig} {op : Op} {next : op.Res → Task Checkpoint}
      {r : op.Res} {world : World} (here : s.system.sync = .starting config (.perform op next))
      (performed : Performs anyNode s.system.world op r world) :
      Step s { s with
        system := { s.system with world, sync := .starting config (next r) }
        log := s.log.observe op r }
  | started {s : Service} {config : SyncConfig} {current : Checkpoint}
      (here : s.system.sync = .starting config (.ret current)) :
      Step s { s with system := { s.system with sync := .head config current } }
  | notStarted {s : Service} {config : SyncConfig} {error : Error}
      (here : s.system.sync = .starting config (.fail error)) :
      Step s { s with system := { s.system with sync := .idle }, job := .afterError error }
  | iterate {s : Service} {config : SyncConfig} {current : Checkpoint}
      (here : s.system.sync = .head config current) :
      Step s { s with
        system := { s.system with sync := .body config current (syncIteration config current) } }
  | syncing {s : Service} {config : SyncConfig} {current : Checkpoint} {op : Op}
      {next : op.Res → Task (Option Checkpoint)} {r : op.Res} {world : World}
      (here : s.system.sync = .body config current (.perform op next))
      (performed : Performs anyNode s.system.world op r world) :
      Step s { s with
        system := { s.system with world, sync := .body config current (next r) }
        log := s.log.observe op r }
  | continued {s : Service} {config : SyncConfig} {current next : Checkpoint}
      (here : s.system.sync = .body config current (.ret (some next))) :
      Step s { s with system := { s.system with sync := .head config next } }
  | finished {s : Service} {config : SyncConfig} {current : Checkpoint}
      (here : s.system.sync = .body config current (.ret none)) :
      Step s { s with system := { s.system with sync := .returned }, job := .checking }
  | failed {s : Service} {config : SyncConfig} {current : Checkpoint} {error : Error}
      (here : s.system.sync = .body config current (.fail error)) :
      Step s { s with system := { s.system with sync := .idle }, job := .afterError error }
  | looped {s : Service} (here : s.job = .checking) :
      Step s { s with job := if s.shutdown then .ended else .head }
  /-- One of the signals the process listens to. -/
  | signalled {s : Service} : Step s { s with shutdown := true }
  | pull {s : Service} (serving : s.start = .ret .serving) (checkpoint : Checkpoint)
      (receivers senders : UInt64) :
      Step s { s with system := { s.system with
        pulls := pullLedgerDiffImpl checkpoint receivers senders :: s.system.pulls } }
  | pulling {s : Service} {before after : List (Task (PullResponse × Checkpoint))} {op : Op}
      {next : op.Res → Task (PullResponse × Checkpoint)} {r : op.Res} {world : World}
      (here : s.system.pulls = before ++ .perform op next :: after)
      (performed : Performs anyNode s.system.world op r world) :
      Step s { s with system := { s.system with world, pulls := before ++ next r :: after } }
  | pulled {s : Service} {before after : List (Task (PullResponse × Checkpoint))}
      {rest : Task (PullResponse × Checkpoint)}
      (here : s.system.pulls = before ++ rest :: after) :
      Step s { s with system := { s.system with pulls := before ++ after } }
  | evicted {s : Service} {lru : Lru Cache.LruKeyType Bytes}
      (fewer : s.system.world.lru.Evicted lru) :
      Step s { s with system := { s.system with world := { s.system.world with lru } } }
  | grown {s : Service} {node : Ledger} (longer : s.system.world.node ≤ node) :
      Step s { s with system := { s.system with world := { s.system.world with node } } }
  /-- The process ends in any state and is started again on its database. -/
  | restarted {s : Service} (capacity : Nat) (around : Surroundings)
      (same : around.config.stringAt "db" "db_path" = s.around.config.stringAt "db" "db_path") :
      Step s { initial capacity s.system.world.node around with
        system := ⟨⟨s.system.world.db, none, Lru.empty capacity, false, s.system.world.node,
          s.system.world.served⟩, .idle, []⟩ }

inductive Reachable : Service → Prop where
  | initial (capacity : Nat) (node : Ledger) (around : Surroundings) :
      Reachable (initial capacity node around)
  | step {s t : Service} (before : Reachable s) (step : Step s t) : Reachable t

/-- The states of every run from here. -/
abbrev Later : Service → Service → Prop := Relation.ReflTransGen Step

/-- The next thing `start_service` does is to start the server. -/
def StartsServer (s : Service) : Prop :=
  ∃ port options next, s.start = .perform (.act (.startServer port options)) next

end Service

end MantaIndexer
