import MantaIndexer.Mirror.Totals

/-!
What `start_service` does before it starts the server, whatever the answers, and what every step of
the process keeps: the flags it has seen are set, and the job leaves the totals in place.
-/

namespace MantaIndexer
open Effects Encoding Collections

/-- `start_service` finds what it reads in the configuration, accepts the frequency, and gets from
outside what it needs before it waits. -/
structure Prepares (migrationsPath : String) (config : Toml) (done : StartAction → Prop) : Prop where
  fullNode : ∃ url, config.stringAt "indexer" "full_node" = .ok url ∧ done (.newRelayServer url) ∧
    done (.createWsClient url)
  rpcMethod : ∃ value, config.stringAt "indexer" "rpc_method" = .ok value
  pool : ∃ size url, config.integerAt "db" "pool_size" = .ok size ∧
    config.stringAt "db" "db_path" = .ok url ∧
    done (.initializeDbPool migrationsPath url size.toUInt64.toUInt32)
  port : ∃ value, config.integerAt "indexer" "port" = .ok value
  frequency : ∃ value, config.integerAt "indexer" "frequency" = .ok value ∧
    ¬ fullNodeBlockGenIntervalSec ≤ value.toUInt64
  srvConfig : ∃ value, WsServerConfig.fromToml config = .ok value

/-- And it starts Prometheus, at the address it makes of the configured port. -/
structure Opens (migrationsPath : String) (config : Toml) (done : StartAction → Prop) : Prop extends
    Prepares migrationsPath config done where
  monitorPort : ∃ port addr, config.integerAt "indexer" "prometheus_port" = .ok port ∧
    localAddr port = .ok addr ∧ done (.startPrometheus addr)

/-- Nothing in the configuration or outside keeps `start_service` from the start of the server. -/
abbrev Surroundings.Startable (around : Surroundings) : Prop :=
  Opens around.migrationsPath around.config fun action => around.accepts action = true

theorem Prepares.mono {migrationsPath : String} {config : Toml} {done could : StartAction → Prop}
    (h : Prepares migrationsPath config done) (imp : ∀ action, done action → could action) :
    Prepares migrationsPath config could := by
  obtain ⟨url, read, relay, client⟩ := h.fullNode
  obtain ⟨size, db, sized, named, opened⟩ := h.pool
  exact { h with
    fullNode := ⟨url, read, imp _ relay, imp _ client⟩
    pool := ⟨size, db, sized, named, imp _ opened⟩ }

theorem Opens.mono {migrationsPath : String} {config : Toml} {done could : StartAction → Prop}
    (h : Opens migrationsPath config done) (imp : ∀ action, done action → could action) :
    Opens migrationsPath config could := by
  obtain ⟨port, addr, read, parsed, started⟩ := h.monitorPort
  exact ⟨h.toPrepares.mono imp, port, addr, read, parsed, imp _ started⟩

/-! ### What `start_service` has seen -/

structure Seen where
  /-- The configuration, once it was read. -/
  config : Option Toml
  /-- What was done outside. -/
  done : List StartAction
  /-- One of the two flags was read as set. -/
  flag : Bool
  /-- The job was started. -/
  started : Bool

namespace Seen

def did (seen : Seen) (action : StartAction) : Seen := { seen with done := action :: seen.done }

def observe (seen : Seen) (op : StartOp) (r : op.Res) : Seen :=
  match op, r with
  | .readConfig, .ok config => { seen with config := some config }
  | .act action, .ok _ => seen.did action
  | .loadInitSyncingFinished, flag | .loadShutdownFlag, flag =>
    { seen with flag := seen.flag || flag }
  | .startSyncLedgerJob _ _, _ => { seen with started := true }
  | _, _ => seen

/-- What was seen is what is around. -/
structure Of (seen : Seen) (around : Surroundings) : Prop where
  config : ∀ config, seen.config = some config → config = around.config
  done : ∀ action ∈ seen.done, around.accepts action = true

variable (migrationsPath : String)

/-- The service may wait: it has read these ports. -/
def Ready (seen : Seen) (ports : Ports) : Prop :=
  ∃ config, seen.config = some config ∧
    config.integerAt "indexer" "prometheus_port" = .ok ports.monitorPort ∧
    Prepares migrationsPath config (· ∈ seen.done)

/-- The service may start its server. -/
def Opened (seen : Seen) : Prop :=
  ∃ config, seen.config = some config ∧ Opens migrationsPath config (· ∈ seen.done)

/-- The server is started after a flag was seen, and the job only once. -/
def Allows (seen : Seen) : StartOp → Prop
  | .act (.startServer _ _) => seen.Opened migrationsPath ∧ seen.flag = true
  | .startSyncLedgerJob _ _ => seen.started = false
  | _ => True

/-- The loop that waits is left when a flag was seen. -/
def Ends (out : Except StartError Stage) (seen : Seen) : Prop :=
  match out with
  | .ok (.waiting ports) => seen.Ready migrationsPath ports
  | .ok (.opening ports) => seen.Ready migrationsPath ports ∧ seen.flag = true
  | .ok .serving | .error _ => True

end Seen

/-- Whatever the answers, the server is started after a flag was seen. -/
abbrev Gated (migrationsPath : String) (p : StartTask Stage) (seen : Seen) : Prop :=
  Tracks Seen.observe (Seen.Allows migrationsPath) (Seen.Ends migrationsPath) p seen

/-- Does nothing outside that succeeds or fails, reads no flag and starts neither the job nor the
server. -/
abbrev Prelude {α : Type} (migrationsPath : String) (p : StartTask α) : Prop :=
  Unseen Seen.observe (Seen.Allows migrationsPath) p

section Prelude

variable {α : Type} {migrationsPath : String} {seen : Seen}

theorem prelude_orFail (result : Except String α) : Prelude migrationsPath (orFail result) := by
  cases result with
  | ok value => exact .ret value
  | error text => exact .fail _

theorem prelude_isTheRpcMethodsExisted (rpcMethod : String) :
    Prelude migrationsPath (isTheRpcMethodsExisted rpcMethod) := by
  apply Unseen.perform (fun _ => trivial) fun _ _ => rfl
  intro r
  exact (prelude_orFail r).bind fun _ => .ret _

theorem gated_lift {result : Except StartError α} {f : α → StartTask Stage}
    (rest : ∀ value, result = .ok value → Gated migrationsPath (f value) seen) :
    Gated migrationsPath (Prog.lift result >>= f) seen := by
  cases result with
  | ok value => exact rest value rfl
  | error error => exact Tracks.fail trivial

theorem gated_after {p : StartTask α} {f : α → StartTask Stage} (quiet : Prelude migrationsPath p)
    (rest : ∀ value, Gated migrationsPath (f value) seen) : Gated migrationsPath (p >>= f) seen :=
  quiet.tracks rest fun _ => trivial

/-- Every action but starting the server. -/
def StartAction.early : StartAction → Bool
  | .startServer _ _ => false
  | _ => true

theorem StartAction.allowed {action : StartAction} (early : action.early = true) :
    seen.Allows migrationsPath (.act action) := by
  cases action with
  | startServer port options => cases early
  | _ => trivial

theorem gated_act {action : StartAction} (early : action.early = true) {f : Unit → StartTask Stage}
    (rest : Gated migrationsPath (f ()) (seen.did action)) :
    Gated migrationsPath (act action >>= f) seen := by
  apply Tracks.perform (StartAction.allowed early)
  intro r
  cases r with
  | ok _ => exact rest
  | error text => exact Tracks.fail trivial

theorem gated_expect {action : StartAction} (early : action.early = true)
    {message : String → String} {f : Unit → StartTask Stage}
    (rest : Gated migrationsPath (f ()) (seen.did action)) :
    Gated migrationsPath (expect action message >>= f) seen := by
  apply Tracks.perform (StartAction.allowed early)
  intro r
  cases r with
  | ok _ => exact rest
  | error text => exact Tracks.fail trivial

end Prelude

theorem startService_gated (migrationsPath : String) {seen : Seen} (fresh : seen.started = false) :
    Gated migrationsPath (startService migrationsPath) seen := by
  unfold startService
  apply Tracks.perform trivial
  intro answer
  cases answer with
  | error text => exact Tracks.fail trivial
  | ok config =>
    apply gated_lift
    intro fullNode fullNode_read
    apply gated_lift
    intro rpcMethod rpcMethod_read
    apply gated_lift
    intro poolSize poolSize_read
    apply gated_lift
    intro dbPath dbPath_read
    refine gated_act rfl ?_
    refine gated_act rfl ?_
    apply gated_lift
    intro port port_read
    apply gated_lift
    intro monitorPort monitorPort_read
    apply gated_lift
    intro frequency frequency_read
    split
    · exact Tracks.fail trivial
    · rename_i accepted
      refine gated_act rfl ?_
      refine gated_act rfl ?_
      apply gated_lift
      intro srvConfig srvConfig_read
      refine gated_expect rfl ?_
      refine gated_expect rfl ?_
      refine gated_act rfl ?_
      apply gated_after ((prelude_isTheRpcMethodsExisted rpcMethod).mapError _)
      intro _
      refine Tracks.perform fresh fun _ => ?_
      apply Tracks.ret
      refine ⟨config, rfl, monitorPort_read, ⟨_, fullNode_read, ?_, ?_⟩, ⟨_, rpcMethod_read⟩,
        ⟨_, _, poolSize_read, dbPath_read, ?_⟩, ⟨_, port_read⟩, ⟨_, frequency_read, accepted⟩,
        ⟨_, srvConfig_read⟩⟩
      · simp [Seen.observe, Seen.did]
      · simp [Seen.observe, Seen.did]
      · simp [Seen.observe, Seen.did]

theorem Stage.task_gated {migrationsPath : String} {stage : Stage} {seen : Seen}
    (ended : Seen.Ends migrationsPath (.ok stage) seen) : Gated migrationsPath stage.task seen := by
  cases stage with
  | waiting ports =>
    apply Tracks.perform trivial
    intro init
    cases init with
    | true => exact Tracks.ret ⟨ended, Bool.or_true _⟩
    | false =>
      apply Tracks.perform trivial
      intro shutdown
      cases shutdown with
      | true => exact Tracks.ret ⟨ended, Bool.or_true _⟩
      | false => exact Tracks.perform trivial fun _ => Tracks.ret ended
  | opening ports =>
    obtain ⟨⟨config, read, monitorPort_read, prepared⟩, flag⟩ := ended
    apply gated_lift
    intro addr parsed
    refine gated_act rfl ?_
    have before := prepared.mono fun action there =>
      List.mem_cons_of_mem (StartAction.startPrometheus addr) there
    have opened : (seen.did (.startPrometheus addr)).Opened migrationsPath :=
      ⟨config, read, before, _, addr, monitorPort_read, parsed, List.mem_cons_self⟩
    refine Tracks.perform ⟨opened, flag⟩ fun r => ?_
    cases r with
    | ok _ => exact Tracks.ret trivial
    | error text => exact Tracks.fail trivial
  | serving => exact Tracks.ret trivial

/-! ### The invariant of the process -/

variable [P : Pallet]

/-- What is left of a call keeps the discipline of the job. -/
def SyncTask.Keeps (trail : Trail) : SyncTask → Prop
  | .starting _ rest => MantaIndexer.Keeps (fun _ _ => True) rest trail
  | .body _ _ rest => MantaIndexer.Keeps (fun _ _ => True) rest trail
  | _ => True

/-- A call is running. -/
def SyncTask.Running : SyncTask → Prop
  | .idle | .returned => False
  | _ => True

namespace Service

structure Invariant (s : Service) : Prop where
  gate : ∃ seen : Seen, Gated s.around.migrationsPath s.start seen ∧
    (seen.started = false → s.job = .absent) ∧
    (seen.flag = true → s.system.world.initSyncingFinished = true ∨ s.shutdown = true) ∧
    seen.Of s.around
  job : ∃ trail : Trail, trail.log = s.log ∧ s.system.sync.Keeps trail ∧ Kept trail s.system.world
  reads : ∀ p ∈ s.system.pulls, ReadsOnly p
  between : s.job ≠ .calling → s.system.sync = .idle ∨ s.system.sync = .returned

variable {s t : Service}

theorem Invariant.initial (capacity : Nat) (node : Ledger) (around : Surroundings) :
    Invariant (initial capacity node around) where
  gate := by
    refine ⟨⟨none, [], false, false⟩, startService_gated _ rfl, fun _ => rfl, ?_, ?_, ?_⟩
    · exact fun flag => by cases flag
    · exact fun _ read => by cases read
    · exact fun _ member => absurd member List.not_mem_nil
  job := by
    refine ⟨⟨.empty, false⟩, rfl, trivial, ?_, ?_, ?_, ?_, ?_⟩
    · exact fun row member => absurd member List.not_mem_nil
    · exact fun _ opened => by cases opened
    · exact fun held => by cases held
    · exact fun some => absurd rfl some
    · exact fun flag => by cases flag
  reads := fun _ member => absurd member List.not_mem_nil
  between := fun _ => .inl rfl

/-- An operation of the job, with what it leaves of the call. -/
theorem Invariant.works (h : Invariant s) {op : Op} {r : op.Res} {world : World} {sync : SyncTask}
    (performed : Performs anyNode s.system.world op r world)
    (next : ∀ trail, s.system.sync.Keeps trail →
      trail.Disciplined op ∧ sync.Keeps (trail.observe op r))
    (busy : s.job = .calling) :
    Invariant { s with system := { s.system with world, sync }, log := s.log.observe op r } := by
  obtain ⟨trail, log, keeps, kept⟩ := h.job
  obtain ⟨allowed, keeps⟩ := next trail keeps
  obtain ⟨seen, gated, absent, flags, read⟩ := h.gate
  refine ⟨⟨seen, gated, absent, ?_, read⟩, ⟨trail.observe op r, ?_, keeps, ?_⟩, h.reads, ?_⟩
  · exact fun flag => (flags flag).imp_left performed.flag
  · rw [← log]
    rfl
  · exact (kept.performs allowed performed).1
  · exact fun other => absurd busy other

/-- The call moves on without an operation. -/
theorem Invariant.moves (h : Invariant s) {sync : SyncTask} {job : Job}
    (next : ∀ trail, s.system.sync.Keeps trail → sync.Keeps trail) (started : s.job ≠ .absent)
    (between : job ≠ .calling → sync = .idle ∨ sync = .returned) :
    Invariant { s with system := { s.system with sync }, job } := by
  obtain ⟨trail, log, keeps, kept⟩ := h.job
  obtain ⟨seen, gated, absent, flags, read⟩ := h.gate
  refine ⟨⟨seen, gated, ?_, flags, read⟩, ⟨trail, log, next trail keeps, kept⟩, h.reads, between⟩
  exact fun fresh => absurd (absent fresh) started

/-- What is around the call changes no total and no flag. -/
theorem Invariant.around (h : Invariant s) {world : World}
    {pulls : List (Task (PullResponse × Checkpoint))} (same : SameTotals s.system.world world)
    (reads : ∀ p ∈ pulls, ReadsOnly p) :
    Invariant { s with system := { s.system with world, pulls } } := by
  obtain ⟨trail, log, keeps, kept⟩ := h.job
  obtain ⟨seen, gated, absent, flags, read⟩ := h.gate
  refine ⟨⟨seen, gated, absent, ?_, read⟩, ⟨trail, log, keeps, same.kept kept⟩, reads, h.between⟩
  intro flag
  rw [same.flag]
  exact flags flag

theorem Invariant.performed (h : Invariant s) {op : StartOp} {next : op.Res → StartTask Stage}
    {r : op.Res} (here : s.start = .perform op next) (answers : s.Answers op r) :
    Invariant { s with start := next r, job := s.jobAfter op } := by
  obtain ⟨seen, gated, absent, flags, read⟩ := h.gate
  rw [here] at gated
  obtain ⟨allowed, rest⟩ := gated.next r
  cases op with
  | readConfig =>
    cases r with
    | error text => exact ⟨⟨_, rest, absent, flags, read⟩, h.job, h.reads, h.between⟩
    | ok config =>
      refine ⟨⟨_, rest, absent, flags, ?_, read.done⟩, h.job, h.reads, h.between⟩
      rintro _ ⟨⟩
      exact answers
  | act action =>
    cases r with
    | error text => exact ⟨⟨_, rest, absent, flags, read⟩, h.job, h.reads, h.between⟩
    | ok done =>
      refine ⟨⟨_, rest, absent, flags, read.config, ?_⟩, h.job, h.reads, h.between⟩
      exact List.forall_mem_cons.mpr ⟨answers, read.done⟩
  | loadInitSyncingFinished =>
    have equal : r = s.system.world.initSyncingFinished := answers
    refine ⟨⟨_, rest, absent, ?_, read.config, read.done⟩, h.job, h.reads, h.between⟩
    intro flag
    rcases Bool.or_eq_true_iff.mp flag with before | now
    · exact flags before
    · exact .inl (equal ▸ now)
  | loadShutdownFlag =>
    have equal : r = s.shutdown := answers
    refine ⟨⟨_, rest, absent, ?_, read.config, read.done⟩, h.job, h.reads, h.between⟩
    intro flag
    rcases Bool.or_eq_true_iff.mp flag with before | now
    · exact flags before
    · exact .inr (equal ▸ now)
  | startSyncLedgerJob maxCount frequency =>
    -- The job was absent, so no call is running.
    have idle := h.between (by rw [absent allowed]; exact fun same => by cases same)
    exact ⟨⟨_, rest, (fun fresh => by cases fresh), flags, read.config, read.done⟩, h.job, h.reads,
      fun _ => idle⟩
  | _ => exact ⟨⟨_, rest, absent, flags, read⟩, h.job, h.reads, h.between⟩

theorem Invariant.busy (h : Invariant s) {sync : SyncTask} (here : s.system.sync = sync)
    (running : sync.Running) : s.job = .calling := by
  by_contra other
  rcases h.between other with idle | returned
  · exact absurd running (by rw [← here, idle]; exact id)
  · exact absurd running (by rw [← here, returned]; exact id)

theorem Invariant.begun (h : Invariant s) {sync : SyncTask} (here : s.system.sync = sync)
    (running : sync.Running) : s.job ≠ .absent := by
  rw [h.busy here running]
  exact fun same => by cases same

theorem Invariant.restarted (h : Invariant s) (capacity : Nat) (around : Surroundings) :
    Invariant { Service.initial capacity s.system.world.node around with
      system := ⟨⟨s.system.world.db, none, Lru.empty capacity, false, s.system.world.node,
        s.system.world.served⟩, .idle, []⟩ } := by
  obtain ⟨trail, log, keeps, kept⟩ := h.job
  have first := Invariant.initial capacity s.system.world.node around
  refine ⟨first.gate, ⟨⟨.empty, false⟩, rfl, trivial, kept.checked, ?_, ?_, ?_, ?_⟩, ?_, ?_⟩
  · exact fun _ opened => by cases opened
  · exact fun held => by cases held
  · exact fun some => absurd rfl some
  · exact fun flag => by cases flag
  · exact fun _ member => absurd member List.not_mem_nil
  · exact fun _ => .inl rfl

theorem Invariant.step (h : Invariant s) (step : Step s t) : Invariant t := by
  cases step with
  | performed here answers => exact h.performed here answers
  | entered here =>
    obtain ⟨seen, gated, absent, flags, read⟩ := h.gate
    rw [here] at gated
    exact ⟨⟨seen, Stage.task_gated (gated seen rfl), absent, flags, read⟩, h.job, h.reads, h.between⟩
  | called here =>
    apply h.moves
    · exact fun trail _ => (silent_getLatestCheckPoint trail).mono fun _ _ _ => trivial
    · rw [here]
      exact fun same => by cases same
    · exact fun other => absurd rfl other
  | counting here performed =>
    apply h.works performed _ (h.busy here trivial)
    intro trail keeps
    rw [here] at keeps
    exact keeps.next _
  | started here =>
    exact h.moves (fun _ _ => trivial) (h.begun here trivial) fun other =>
      absurd (h.busy here trivial) other
  | notStarted here =>
    exact h.moves (fun _ _ => trivial) (h.begun here trivial) fun _ => .inl rfl
  | iterate here =>
    exact h.moves (fun trail _ => syncIteration_disciplined _ _ trail) (h.begun here trivial)
      fun other => absurd (h.busy here trivial) other
  | syncing here performed =>
    apply h.works performed _ (h.busy here trivial)
    intro trail keeps
    rw [here] at keeps
    exact keeps.next _
  | continued here =>
    exact h.moves (fun _ _ => trivial) (h.begun here trivial) fun other =>
      absurd (h.busy here trivial) other
  | finished here =>
    exact h.moves (fun _ _ => trivial) (h.begun here trivial) fun _ => .inr rfl
  | failed here =>
    exact h.moves (fun _ _ => trivial) (h.begun here trivial) fun _ => .inl rfl
  | looped here =>
    have between := h.between (by rw [here]; exact fun same => by cases same)
    exact h.moves (fun _ => id) (by rw [here]; exact fun same => by cases same) fun _ => between
  | signalled =>
    obtain ⟨seen, gated, absent, flags, read⟩ := h.gate
    exact ⟨⟨seen, gated, absent, (fun _ => .inr rfl), read⟩, h.job, h.reads, h.between⟩
  | pull serving ck receivers senders =>
    apply h.around (.refl _)
    intro p member
    rcases List.mem_cons.mp member with rfl | member
    · exact ReadsOnly.parts.pullLedgerDiff _ _ _
    · exact h.reads p member
  | @pulling _ _ op next _ _ here performed =>
    have own := h.reads (.perform op next) (by rw [here]; simp)
    obtain ⟨same, rest⟩ := own.performs performed
    apply h.around same
    intro p member
    rcases List.mem_append.mp member with before | after
    · exact h.reads p (by rw [here]; exact List.mem_append_left _ before)
    · rcases List.mem_cons.mp after with rfl | after
      · exact rest
      · exact h.reads p (by rw [here]; exact List.mem_append_right _ (List.mem_cons_of_mem _ after))
  | @pulled before after rest here =>
    apply h.around (.refl _)
    intro p member
    apply h.reads p
    rw [here]
    rcases List.mem_append.mp member with member | member
    · exact List.mem_append_left _ member
    · exact List.mem_append_right _ (List.mem_cons_of_mem _ member)
  | evicted fewer => exact h.around ⟨rfl, rfl, rfl⟩ h.reads
  | grown longer => exact h.around ⟨rfl, rfl, rfl⟩ h.reads
  | restarted capacity around same => exact h.restarted capacity around

theorem Invariant.reachable (h : Reachable s) : Invariant s := by
  induction h with
  | initial capacity node around => exact .initial _ _ _
  | step _ step ih => exact ih.step step

/-- No step takes the row of totals away. -/
theorem Invariant.total_stays (h : Invariant s) (step : Step s t)
    (one : s.system.world.db.OneTotal) : t.system.world.db.OneTotal := by
  obtain ⟨trail, -, keeps, kept⟩ := h.job
  cases step with
  | @counting _ op next r _ here performed =>
    rw [here] at keeps
    exact (kept.performs (keeps.next r).1 performed).2 one
  | @syncing _ _ op next r _ here performed =>
    rw [here] at keeps
    exact (kept.performs (keeps.next r).1 performed).2 one
  | @pulling _ _ op next _ _ here performed =>
    have own := h.reads (.perform op next) (by rw [here]; simp)
    exact (own.performs performed).1.oneTotal one
  | _ => exact one

theorem Reachable.later (h : Reachable s) (later : Later s t) : Reachable t := by
  induction later with
  | refl => exact h
  | tail _ step ih => exact ih.step step

theorem Reachable.total_stays (h : Reachable s) (one : s.system.world.db.OneTotal)
    (later : Later s t) : t.system.world.db.OneTotal := by
  induction later with
  | refl => exact one
  | tail before step ih => exact (Invariant.reachable (h.later before)).total_stays step ih

/-! ### The service is the indexer with its start -/

/-- Every step of the process is one of the indexer, or leaves it. -/
theorem Invariant.refines (h : Invariant s) (step : Step s t) :
    System.Step anyNode s.system t.system ∨ t.system = s.system := by
  cases step with
  | performed here answers => exact .inr rfl
  | entered here => exact .inr rfl
  | called here => exact .inl (.call Job.config (h.between (by rw [here]; exact fun same => by cases same)))
  | counting here performed => exact .inl (.counting here performed)
  | started here => exact .inl (.started here)
  | notStarted here => exact .inl (.notStarted here)
  | iterate here => exact .inl (.iterate here)
  | syncing here performed => exact .inl (.syncing here performed)
  | continued here => exact .inl (.continued here)
  | finished here => exact .inl (.finished here)
  | failed here => exact .inl (.failed here)
  | looped here => exact .inr rfl
  | signalled => exact .inr rfl
  | pull serving ck receivers senders => exact .inl (.pull ck receivers senders)
  | pulling here performed => exact .inl (.pulling here performed)
  | pulled here => exact .inl (.pulled here)
  | evicted fewer => exact .inl (.evicted fewer)
  | grown longer => exact .inl (.grown longer)
  | restarted capacity around same => exact .inl (.restarted capacity)

theorem Reachable.system (h : Reachable s) : s.system.Reachable anyNode := by
  induction h with
  | initial capacity node around => exact .initial capacity node
  | step before step ih =>
    rcases (Invariant.reachable before).refines step with step | same
    · exact ih.step step
    · rwa [same]

end Service

end MantaIndexer
