import MantaIndexer.Mirror.Atomic
import MantaIndexer.Mirror.Startup

/-!
The gate before the server, over every run of the process, and the runs that pass it.
-/

namespace MantaIndexer
open Effects Encoding Collections

namespace Service

section Gate

variable [P : Pallet] {s t : Service}

/-! ### The gate -/

/-- The full node reports the method that is configured. -/
def Reports (config : Toml) (methods : List String) : Prop :=
  ∃ method, config.stringAt "indexer" "rpc_method" = .ok method ∧ method ∈ methods

/-- A step of anything in a run from `s`, as a pull beside it sees it. -/
def Around (s : Service) (w v : World) : Prop :=
  ∃ t u, Later s t ∧ Step t u ∧ t.system.world = w ∧ u.system.world = v

/-- From here on there is exactly one row of totals, and no pull beside anything else in a later run
fails because there is none. -/
def TotalsStay (s : Service) : Prop :=
  ∀ t, Later s t → t.system.world.db.OneTotal ∧
    ∀ ck maxReceivers maxSenders history out v,
      Exec Handles (Around t)
        (MantaPayIndexerServer.pullLedgerDiff ck maxReceivers maxSenders) t.system.world history out v →
      out ≠ .error missingTotal

/-- What has to hold when the server is about to start. -/
structure Gate (s : Service) : Prop where
  reports : Reports s.around.config s.around.methods
  synced : s.shutdown = true ∨ s.log.Last
  totals : s.log.Last → TotalsStay s

theorem Reachable.totalsStay (h : Reachable s) (last : s.log.Last) : TotalsStay s := by
  obtain ⟨trail, log, -, kept⟩ := (Invariant.reachable h).job
  obtain ⟨response, member, -⟩ := last
  have one : s.system.world.db.OneTotal := by
    apply kept.committed
    rw [log]
    exact List.ne_nil_of_mem member
  intro t later
  have here := h.total_stays one later
  refine ⟨here, ?_⟩
  intro ck maxReceivers maxSenders history out v ran
  have found := finds_pullLedgerDiff ck maxReceivers maxSenders t.system.world here
  have around : ∀ w v, Around t w v → KeepsTotal w v := by
    rintro w v ⟨a, b, since, step, rfl, rfl⟩ before
    exact (Invariant.reachable ((h.later later).later since)).total_stays step before
  exact (found.exec KeepsTotal.refl KeepsTotal.trans around ran).1

/-- Except for the methods of the node the gate holds in every run. -/
theorem Reachable.gate (h : Reachable s) (starts : s.StartsServer)
    (reports : Reports s.around.config s.around.methods) : Gate s := by
  obtain ⟨seen, gated, -, flags, -⟩ := (Invariant.reachable h).gate
  obtain ⟨trail, log, -, kept⟩ := (Invariant.reachable h).job
  obtain ⟨port, options, next, here⟩ := starts
  rw [here] at gated
  have seen := (gated.next (.ok ())).1.2
  refine ⟨reports, ?_, h.totalsStay⟩
  rcases flags seen with init | shutdown
  · exact .inr (log ▸ kept.finished init)
  · exact .inl shutdown

/-! ### Runs that start the server -/

/-- Everything outside succeeds that can. -/
def accepting (s : Service) : (op : StartOp) → op.Res
  | .readConfig => .ok s.around.config
  | .act action => if s.around.accepts action then .ok () else .error ""
  | .requestRpcMethods => .ok s.around.methods
  | .startSyncLedgerJob _ _ => ()
  | .loadInitSyncingFinished => s.system.world.initSyncingFinished
  | .loadShutdownFlag => s.shutdown
  | .sleep _ => ()

theorem answers_accepting (s : Service) (op : StartOp) : s.Answers op (s.accepting op) := by
  cases op with
  | act action =>
    by_cases accepted : s.around.accepts action = true
    · rw [show s.accepting (.act action) = .ok () from if_pos accepted]
      exact accepted
    · rw [show s.accepting (.act action) = .error "" from if_neg accepted]
      trivial
  | readConfig | requestRpcMethods | loadInitSyncingFinished | loadShutdownFlag => rfl
  | startSyncLedgerJob | sleep => trivial

theorem Reachable.asks (h : Reachable s) {op : StartOp} {next : op.Res → StartTask Stage}
    (here : s.start = .perform op next) (r : op.Res) (answers : s.Answers op r) :
    Reachable { s with start := next r, job := s.jobAfter op } := h.step (.performed here answers)

/-- The next `n` operations of `start_service`, when everything outside succeeds that can. -/
def accepts (s : Service) : Nat → Service
  | 0 => s
  | n + 1 =>
    match s.start with
    | .perform op next => accepts { s with start := next (s.accepting op), job := s.jobAfter op } n
    | _ => s

theorem Reachable.accepts (h : Reachable s) (n : Nat) : Reachable (s.accepts n) := by
  induction n generalizing s with
  | zero => exact h
  | succ n ih =>
    unfold Service.accepts
    split
    · rename_i op next here
      exact ih (h.asks here _ (s.answers_accepting op))
    · exact h

theorem accepts_succ {op : StartOp} {next : op.Res → StartTask Stage}
    (here : s.start = .perform op next) (n : Nat) :
    s.accepts (n + 1) =
      accepts { s with start := next (s.accepting op), job := s.jobAfter op } n := by
  rw [accepts, here]

theorem accepts_done {action : StartAction} (accepted : s.around.accepts action = true)
    {next : Except String Unit → StartTask Stage} (here : s.start = .perform (.act action) next)
    (n : Nat) : s.accepts (n + 1) = accepts { s with start := next (.ok ()) } n := by
  have answer : s.accepting (.act action) = .ok () := if_pos accepted
  rw [accepts_succ here, answer]
  rfl

theorem accepts_act {action : StartAction} (accepted : s.around.accepts action = true)
    (f : Unit → StartTask Stage) (n : Nat) :
    accepts { s with start := act action >>= f } (n + 1) = accepts { s with start := f () } n := by
  have done := accepts_done (s := { s with start := act action >>= f }) accepted rfl n
  exact done

theorem accepts_expect {action : StartAction} (accepted : s.around.accepts action = true)
    (message : String → String) (f : Unit → StartTask Stage) (n : Nat) :
    accepts { s with start := expect action message >>= f } (n + 1) =
      accepts { s with start := f () } n := by
  have done := accepts_done (s := { s with start := expect action message >>= f }) accepted rfl n
  exact done

/-- With what it needs around it `start_service` comes to its loop, whatever the methods. -/
theorem startService_accepts (startable : s.around.Startable)
    (here : s.start = startService s.around.migrationsPath) :
    ∃ ports addr, s.accepts 10 = { s with start := .ret (.waiting ports), job := .head } ∧
      s.around.config.integerAt "indexer" "port" = .ok ports.port ∧
      localAddr ports.monitorPort = .ok addr ∧ s.around.free addr = true := by
  obtain ⟨fullNode, fullNode_read, relay, client⟩ := startable.fullNode
  obtain ⟨rpcMethod, rpcMethod_read⟩ := startable.rpcMethod
  obtain ⟨poolSize, dbPath, poolSize_read, dbPath_read, pool⟩ := startable.pool
  obtain ⟨port, port_read⟩ := startable.port
  obtain ⟨monitorPort, addr, monitorPort_read, parsed, free⟩ := startable.monitorPort
  obtain ⟨frequency, frequency_read, accepted⟩ := startable.frequency
  obtain ⟨srvConfig, srvConfig_read⟩ := startable.srvConfig
  refine ⟨⟨port, monitorPort, srvConfig⟩, addr, ?_, port_read, parsed, free⟩
  have merged : ∀ rpc, s.around.accepts (.merge rpc) = true := fun _ => rfl
  have init : s.around.accepts .initRpcMethods = true := rfl
  have registered : s.around.accepts .registerRpcMethods = true := rfl
  rw [startService, Prog.bind_ask] at here
  rw [accepts_succ here]
  simp only [accepting, orFail, Prog.bind_ret, fullNode_read, rpcMethod_read, poolSize_read,
    dbPath_read, port_read, monitorPort_read, frequency_read, srvConfig_read, Prog.lift_ok,
    if_neg accepted, jobAfter, accepts_act pool, accepts_act (merged _), accepts_act relay,
    accepts_act client, accepts_expect init, accepts_expect registered]
  rfl

/-- Once one of the flags is set, the loop is left. -/
theorem waiting_accepts {ports : Ports}
    (flag : s.system.world.initSyncingFinished = true ∨ s.shutdown = true) :
    accepts { s with start := (Stage.waiting ports).task } 2 =
      { s with start := .ret (.opening ports) } := by
  cases init : s.system.world.initSyncingFinished with
  | true =>
    simp only [accepts, Stage.task, Prog.bind_ask, accepting, init]
    rfl
  | false =>
    have shutdown : s.shutdown = true := flag.resolve_left (by rw [init]; decide)
    simp only [accepts, Stage.task, Prog.bind_ask, accepting, init, shutdown]
    rfl

/-- Out of its loop `start_service` starts Prometheus and then the server. -/
theorem opening_accepts {ports : Ports} {addr : LocalAddr}
    (parsed : localAddr ports.monitorPort = .ok addr) (free : s.around.free addr = true)
    (bound : s.around.accepts (.startServer ports.port ports.srvConfig.options) = true) :
    accepts { s with start := (Stage.opening ports).task } 2 =
      { s with start := .ret .serving } := by
  simp only [Stage.task, parsed, Prog.lift_ok, Prog.bind_ret]
  rw [accepts_act (show s.around.accepts (.startPrometheus addr) = true from free),
    accepts_act bound]
  rfl

/-- The service with its job started, waiting for the first synchronization. -/
theorem reaches_waiting {around : Surroundings} (startable : around.Startable) (capacity : Nat)
    (node : Ledger) :
    ∃ ports addr, Reachable { initial capacity node around with
        start := .ret (.waiting ports), job := .head } ∧
      localAddr ports.monitorPort = .ok addr ∧ around.free addr = true := by
  obtain ⟨ports, addr, waiting, -, parsed, free⟩ :=
    startService_accepts (s := initial capacity node around) startable rfl
  exact ⟨ports, addr, waiting ▸ (Reachable.initial capacity node around).accepts 10, parsed, free⟩

/-- Once one of the flags is set, the loop is left and the server is started. -/
theorem Reachable.starts (h : Reachable s) {ports : Ports} (here : s.start = .ret (.waiting ports))
    {addr : LocalAddr} (parsed : localAddr ports.monitorPort = .ok addr)
    (free : s.around.free addr = true)
    (flag : s.system.world.initSyncingFinished = true ∨ s.shutdown = true) :
    ∃ t, Reachable t ∧ t.StartsServer ∧ t = { s with start := t.start } := by
  have looped : Reachable { s with start := (Stage.waiting ports).task } := h.step (.entered here)
  have left := looped.accepts 2
  rw [waiting_accepts flag] at left
  have opening := left.step (.entered rfl)
  simp only [Stage.task, parsed, Prog.lift_ok, Prog.bind_ret] at opening
  exact ⟨_, opening.asks rfl (.ok ()) free, ⟨ports.port, ports.srvConfig.options, _, rfl⟩, rfl⟩

/-- When nothing around keeps the server from being started, a signal leads to it. -/
theorem reaches_server {around : Surroundings} (startable : around.Startable) :
    ∃ s, Reachable s ∧ s.around = around ∧ s.StartsServer := by
  obtain ⟨ports, addr, waiting, parsed, free⟩ := reaches_waiting startable 1 Ledger.empty
  obtain ⟨t, reachable, starts, same⟩ := (waiting.step .signalled).starts rfl parsed free (.inr rfl)
  rw [same] at reachable
  exact ⟨t, same ▸ reachable, by rw [same]; rfl, starts⟩

/-- A part of a call that runs without interruption. -/
theorem Reachable.runs {α : Type} (part : Task α → SyncTask) (outside : Outside)
    (steps : ∀ {s : Service} {op : Op} {next : op.Res → Task α} {r : op.Res} {world : World},
      s.system.sync = part (.perform op next) → Performs anyNode s.system.world op r world →
      Step s { s with
        system := { s.system with world, sync := part (next r) }, log := s.log.observe op r })
    {rest : Task α} (h : Reachable s) (here : s.system.sync = part rest) :
    ∃ log, Reachable { s with
      system := { s.system with
        world := (rest.run (World.handle outside) s.system.world).2
        sync := part (Prog.lift (rest.run (World.handle outside) s.system.world).1) }
      log } := by
  induction rest generalizing s with
  | ret value | fail value =>
    refine ⟨s.log, ?_⟩
    simp only [Prog.run_ret, Prog.run_fail, Prog.lift_ok, Prog.lift_error]
    rw [← here]
    exact h
  | perform op next ih =>
    have performed : Performs anyNode s.system.world op _ _ :=
      .handled s.system.world op outside fun _ _ _ _ _ => trivial
    exact ih _ (h.step (steps here performed)) rfl

/-- A call of the job that counts and commits one last batch. -/
theorem Reachable.syncs (h : Reachable s) (here : s.job = .head) (outside : Outside)
    {current : Checkpoint} {counted synced : World}
    (counts : getLatestCheckPoint.run (World.handle outside) s.system.world = (.ok current, counted))
    (iterates : (syncIteration Job.config current).run (World.handle outside) counted =
      (.ok none, synced)) :
    ∃ log, Reachable { s with
      system := { s.system with world := synced, sync := .returned }, job := .checking, log } := by
  obtain ⟨log, counting⟩ := (h.step (.called here)).runs (.starting Job.config) outside
    .counting rfl
  rw [counts] at counting
  have head := (counting.step (.started rfl)).step (.iterate rfl)
  obtain ⟨log, syncing⟩ := head.runs (.body Job.config current) outside .syncing rfl
  rw [iterates] at syncing
  exact ⟨log, syncing.step (.finished rfl)⟩

theorem Reachable.startable (h : Reachable s) (starts : s.StartsServer) : s.around.Startable := by
  obtain ⟨seen, gated, -, -, read⟩ := (Invariant.reachable h).gate
  obtain ⟨port, options, next, here⟩ := starts
  rw [here] at gated
  obtain ⟨config, known, opened⟩ := (gated.next (.ok ())).1.1
  obtain rfl := read.config config known
  exact opened.mono read.done

end Gate

end Service

open Service in
/-- Whatever the order of the sync job, the waiting loop and the signals, the server is started behind
the gate exactly when the node reports the configured method, or when something keeps the server from
being started at all: a setting that is refused, a port that is none, a database, full node or address
that cannot be had. -/
theorem server_behind_gate [Pallet] (around : Surroundings) :
    (∀ s : Service, s.Reachable → s.around = around → s.StartsServer → s.Gate) ↔
      Reports around.config around.methods ∨ ¬ around.Startable := by
  constructor
  · intro gates
    by_cases startable : around.Startable
    · obtain ⟨s, reachable, rfl, starts⟩ := reaches_server startable
      exact .inl (gates s reachable rfl starts).reports
    · exact .inr startable
  · rintro met s reachable rfl starts
    rcases met with reports | refused
    · exact reachable.gate starts reports
    · exact absurd (reachable.startable starts) refused

/-! ### The configuration of the repository -/

/-- `conf/config.toml`. -/
def repositoryConfig : Toml := .table [
  ("indexer", .table [("configuration", .table [
    ("frequency", .integer 2), ("rpc_method", .string "mantaPay_pull_ledger_diff"),
    ("full_node", .string "ws://127.0.0.1:9800"), ("port", .integer 7788),
    ("prometheus_port", .integer 7789)])]),
  ("server", .table [("configuration", .table [
    ("max_request_body_size", .integer 10), ("max_response_body_size", .integer 10),
    ("max_connections", .integer 1000), ("max_subscriptions_per_connection", .integer 1024),
    ("max_log_length", .integer 4096), ("batch_requests_supported", .boolean true),
    ("ping_interval", .integer 30)])]),
  ("db", .table [("configuration", .table [
    ("db_path", .string "utxo.db"), ("pool_size", .integer 16)])])]

/-- The repository's configuration beside a full node at its URL that reports these methods, with the
ports free and a pool of any size but none. -/
def repositoryAround (methods : List String) : Surroundings where
  migrationsPath := "./migrations"
  config := repositoryConfig
  methods := methods
  opens migrationsPath _ poolSize := migrationsPath == "./migrations" && poolSize != 0
  connects url := url == "ws://127.0.0.1:9800"
  free _ := true

theorem repositoryAround_startable (methods : List String) : (repositoryAround methods).Startable where
  fullNode := ⟨_, rfl, rfl, rfl⟩
  rpcMethod := ⟨_, rfl⟩
  pool := ⟨_, _, rfl, rfl, rfl⟩
  port := ⟨_, rfl⟩
  monitorPort := ⟨_, _, rfl, rfl, rfl⟩
  frequency := ⟨_, rfl, by decide⟩
  srvConfig := ⟨_, rfl⟩

section Sample

attribute [local instance] samplePallet

open Service in
/-- A node that reports no method at all does not keep the server from being started. -/
theorem server_started_without_method :
    ¬ ∀ s : Service, s.Reachable → s.around = repositoryAround [] → s.StartsServer → s.Gate := by
  intro gates
  obtain ⟨s, reachable, around, starts⟩ := reaches_server (repositoryAround_startable [])
  obtain ⟨method, -, member⟩ := (gates s reachable around starts).reports
  rw [around] at member
  exact absurd member List.not_mem_nil

open Service in
/-- A run through the gate: the job commits a last batch, and the server is started. -/
theorem server_behind_gate_synced :
    ∃ s : Service, s.Reachable ∧ s.StartsServer ∧ s.shutdown = false ∧ s.log.Last ∧ s.Gate := by
  obtain ⟨ports, addr, waiting, parsed, free⟩ := reaches_waiting
    (repositoryAround_startable ["mantaPay_pull_ledger_diff"]) 4 Ledger.empty
  have last : ((syncIteration Job.config sampleFresh.db.latest).run (World.handle sampleAnswering)
      sampleFresh).1 = .ok none := by decide +kernel
  have set : ((syncIteration Job.config sampleFresh.db.latest).run (World.handle sampleAnswering)
      sampleFresh).2.initSyncingFinished = true := by decide +kernel
  obtain ⟨log, synced⟩ := waiting.syncs rfl sampleAnswering
    (getLatestCheckPoint_run (w := sampleFresh) (by decide)) (Prod.ext last rfl)
  obtain ⟨t, reachable, starts, same⟩ := synced.starts rfl parsed free (.inl set)
  have running : t.shutdown = false := by rw [same]; rfl
  have flag : t.system.world.initSyncingFinished = true := by rw [same]; exact set
  obtain ⟨trail, seen, -, kept⟩ := (Service.Invariant.reachable reachable).job
  have reports : Reports repositoryConfig ["mantaPay_pull_ledger_diff"] :=
    ⟨"mantaPay_pull_ledger_diff", rfl, List.mem_singleton_self _⟩
  exact ⟨t, reachable, starts, running, seen ▸ kept.finished flag,
    (server_behind_gate (repositoryAround ["mantaPay_pull_ledger_diff"])).mpr (.inl reports) t
      reachable (by rw [same]; rfl) starts⟩

end Sample

end MantaIndexer
