import MantaIndexer.Indexer.Process
import MantaIndexer.Mirror.Safety
import MantaIndexer.Mirror.Gate

/-!
The end of the process. No iteration leaves its transaction open, whatever fails in it, and `main`
returns only after the job has left its loop, so a graceful exit never cuts a batch.
-/

namespace MantaIndexer
open Effects Encoding Collections

section Exit

variable [P : Pallet]

/-! ### Transactions end with their iteration -/

section Closes

variable {serves : Serves} {α : Type}

/-- What the others leave alone beside the syncing task. -/
def SameTransaction (w v : World) : Prop := v.transaction = w.transaction

/-- Every run of the task from here ends with no transaction open. -/
abbrev Closes (serves : Serves) (p : Task α) (w : World) : Prop :=
  Ensures (Performs serves) SameTransaction (fun _ _ _ => True) (fun _ t => t.transaction = none) p w

theorem SameTransaction.refl (w : World) : SameTransaction w w := rfl

theorem SameTransaction.trans (u v w : World) (first : SameTransaction u v)
    (second : SameTransaction v w) : SameTransaction u w :=
  Eq.trans second first

/-- Neither begins nor ends a transaction. -/
def Op.outside : Op → Bool
  | .sql (.countShards _) | .sql (.countNullifier .pool) | .request _ _ _ | .iterate _
  | .putBatchLru _ | .storeInitSyncingFinished => true
  | _ => false

theorem Op.outside_transaction {op : Op} (out : op.outside = true) {w v : World} {r : op.Res}
    (performed : Performs serves w op r v) : v.transaction = w.transaction := by
  cases performed with
  | failed query error => rfl
  | handled _ _ outside answers =>
    cases op with
    | sql query =>
      cases query with
      | countShards s => rfl
      | countNullifier executor =>
        cases executor with
        | pool => rfl
        | transaction => cases out
      | _ => cases out
    | request | iterate | putBatchLru | storeInitSyncingFinished => rfl
    | rollback | getBatchLru => cases out

variable {w : World}

theorem closes_ret (value : α) (closed : w.transaction = none) : Closes serves (.ret value) w :=
  fun _ same => Eq.trans same closed

theorem closes_fail (error : Error) (closed : w.transaction = none) :
    Closes serves (.fail error : Task α) w :=
  fun _ same => Eq.trans same closed

theorem closes_perform {op : Op} (out : op.outside = true) {f : op.Res → Task α}
    (closed : w.transaction = none)
    (rest : ∀ r t, t.transaction = none → Closes serves (f r) t) :
    Closes serves ((perform op : Task _) >>= f) w := by
  intro t same r u performed
  have still := (op.outside_transaction out performed).trans (Eq.trans same closed)
  exact ⟨trivial, rest r u still⟩

theorem closes_lift {result : Except Error α} {β : Type} {f : α → Task β}
    (closed : w.transaction = none) (rest : ∀ value, Closes serves (f value) w) :
    Closes serves (Prog.lift result >>= f) w := by
  cases result with
  | ok value => exact rest value
  | error error => exact closes_fail error closed

theorem closes_fetch {query : Query} (out : (Op.sql query).outside = true)
    {f : query.Answer → Task α} (closed : w.transaction = none)
    (rest : ∀ answer t, t.transaction = none → Closes serves (f answer) t) :
    Closes serves (fetch query >>= f) w := by
  unfold fetch
  rw [Prog.bind_assoc]
  refine closes_perform out closed fun r t still => ?_
  cases r with
  | ok answer => exact rest answer t still
  | error error => exact closes_fail _ still

theorem closes_rollback (error : Error) :
    Closes serves ((perform .rollback : Task _) >>= fun _ => (.fail error : Task α)) w := by
  intro t same r u performed
  cases performed with
  | handled _ _ outside answers => exact ⟨trivial, closes_fail error rfl⟩

/-- The transaction is committed, or dropped, whatever its updates did. -/
theorem inTransaction_closes {updates : Task α} (closed : w.transaction = none) :
    Closes serves (inTransaction updates) w := by
  intro t same r u performed
  refine ⟨trivial, ?_⟩
  have still : t.transaction = none := Eq.trans same closed
  cases performed with
  | failed _ error => exact closes_fail _ still
  | handled _ _ outside answers =>
    apply Ensures.onFail SameTransaction.refl
    apply Ensures.bind SameTransaction.refl
    apply (Ensures.anything updates).mono
    intro out v _
    cases out with
    | error error => exact fun v' _ => closes_rollback error
    | ok value =>
      intro v' _ r v'' performed
      refine ⟨trivial, ?_⟩
      cases performed with
      | failed _ error => exact fun _ _ => closes_rollback _
      | handled _ _ outside answers =>
        simp only [World.handle, World.execute]
        split
        · exact fun _ same => closes_ret value same
        · exact fun _ _ => closes_rollback _

theorem refreshReceivers_closes {ck : Checkpoint} {groups : List (ShardIndex × List Receiver)}
    {f : Unit → Task α} (closed : w.transaction = none)
    (rest : ∀ t, t.transaction = none → Closes serves (f ()) t) :
    Closes serves (refreshReceivers ck groups >>= f) w := by
  induction groups generalizing w with
  | nil => exact rest w closed
  | cons group groups ih =>
    unfold refreshReceivers putBatchReceiver
    rw [Prog.bind_assoc]
    exact closes_perform rfl closed fun _ t still => ih still

theorem leave_closes {more : Bool} {next : Checkpoint} (closed : w.transaction = none) :
    Closes serves (if !more then do
        perform .storeInitSyncingFinished
        return none
      else return some next) w := by
  cases more with
  | false => exact closes_perform rfl closed fun _ t still => closes_ret _ still
  | true => exact closes_ret _ closed

theorem syncIteration_closes (config : SyncConfig) (current : Checkpoint)
    (closed : w.transaction = none) : Closes serves (syncIteration config current) w := by
  unfold syncIteration synchronizeLedger reconstructShardsFromPullResponse
  simp only [Prog.bind_assoc]
  refine closes_perform rfl closed fun answer t closed => ?_
  refine closes_lift closed fun response => ?_
  refine closes_lift closed fun shards => ?_
  refine closes_perform rfl closed fun order u closed => ?_
  rw [Prog.pure_eq, Prog.bind_ret]
  apply Ensures.bind SameTransaction.refl
  apply (inTransaction_closes closed).mono
  intro out v closed
  cases out with
  | error error => exact fun t same => Eq.trans same closed
  | ok first =>
    simp only [thenEnsures]
    split
    · refine refreshReceivers_closes closed fun v' closed => ?_
      exact closes_perform rfl closed fun _ v'' closed => leave_closes closed
    · exact leave_closes closed

theorem countReceivers_closes {shards : List ShardIndex} {start : Checkpoint}
    {f : Checkpoint → Task α} (closed : w.transaction = none)
    (rest : ∀ ckp t, t.transaction = none → Closes serves (f ckp) t) :
    Closes serves (countReceivers shards start >>= f) w := by
  induction shards generalizing start w with
  | nil => exact rest start w closed
  | cons first shards ih =>
    unfold countReceivers
    rw [Prog.bind_assoc]
    exact closes_fetch rfl closed fun count t still => ih still

theorem getLatestCheckPoint_closes (closed : w.transaction = none) :
    Closes serves getLatestCheckPoint w := by
  unfold getLatestCheckPoint getLenOfNullifier
  refine countReceivers_closes closed fun ckp t closed => ?_
  rw [Prog.bind_assoc]
  refine closes_fetch rfl closed fun count u closed => ?_
  split
  · exact closes_ret _ closed
  · exact closes_fail _ closed

end Closes

/-! ### The invariant of the indexer -/

section Open

variable {serves : Serves} {s : System}

/-- What the syncing task makes of its transaction. -/
def SyncTask.Closes (serves : Serves) (w : World) : SyncTask → Prop
  | .starting _ rest => MantaIndexer.Closes serves rest w
  | .body _ _ rest => MantaIndexer.Closes serves rest w
  | _ => w.transaction = none

theorem SyncTask.Closes.same {w v : World} {sync : SyncTask} (closes : sync.Closes serves w)
    (same : SameTransaction w v) : sync.Closes serves v := by
  cases sync with
  | starting config rest => exact Ensures.stable SameTransaction.trans closes same
  | body config current rest => exact Ensures.stable SameTransaction.trans closes same
  | idle | head | returned => exact Eq.trans same closes

theorem System.Reachable.closes (reachable : s.Reachable serves) :
    s.sync.Closes serves s.world := by
  induction reachable with
  | initial capacity node => exact rfl
  | @step s t before step closes =>
    have known := MantaIndexer.Invariant.reachable (C := shardedContract serves) before
    cases step with
    | call config ready =>
      have closed : s.world.transaction = none := by
        rcases ready with here | here
        · rw [here] at closes
          exact closes
        · rw [here] at closes
          exact closes
      exact getLatestCheckPoint_closes closed
    | counting here performed =>
      rw [here] at closes
      exact (closes _ rfl _ _ performed).2
    | started here | notStarted here =>
      rw [here] at closes
      exact closes _ rfl
    | iterate here =>
      rw [here] at closes
      exact syncIteration_closes _ _ closes
    | syncing here performed =>
      rw [here] at closes
      exact (closes _ rfl _ _ performed).2
    | continued here | finished here | failed here =>
      rw [here] at closes
      exact closes _ rfl
    | pull | pulled => exact closes
    | @pulling _ _ op next r world here performed =>
      have reads := known.pulls (.perform op next) (by rw [here]; simp)
      obtain ⟨quiet, -⟩ := reads _ (Grows.refl _ _) _ _ performed
      exact closes.same quiet.transaction
    | evicted fewer => exact closes.same rfl
    | grown longer => exact closes.same rfl
    | restarted => exact rfl

end Open

/-! ### The process -/

/-- Every way to the end of the task starts the job. -/
def StartsJob : StartTask Stage → Prop
  | .ret _ => False
  | .fail _ => True
  | .perform (.startSyncLedgerJob _ _) _ => True
  | .perform _ next => ∀ r, StartsJob (next r)

omit P in
theorem StartsJob.bind {α : Type} (p : StartTask α) {f : α → StartTask Stage}
    (rest : ∀ value, StartsJob (f value)) : StartsJob (p >>= f) := by
  induction p with
  | ret value => exact rest value
  | fail error => trivial
  | perform op next ih =>
    cases op with
    | startSyncLedgerJob => trivial
    | _ => exact fun r => ih r

omit P in
theorem startService_startsJob (migrationsPath : String) : StartsJob (startService migrationsPath) := by
  unfold startService
  iterate 11 refine .bind _ fun _ => ?_
  split
  · trivial
  · iterate 7 refine .bind _ fun _ => ?_
    trivial

namespace Service

variable {s t : Service}

theorem Restarts.shutdown (again : s.Restarts t) : t.shutdown = false := by
  obtain ⟨_, _, -, rfl⟩ := again
  rfl

/-- Until the process ends, the flag stays set and the job does not become absent again. -/
theorem Step.keeps (step : Step s t) (same : ¬ s.Restarts t) :
    (s.shutdown = true → t.shutdown = true) ∧ (s.job ≠ .absent → t.job ≠ .absent) := by
  cases step with
  | @performed op next r here answers =>
    refine ⟨id, ?_⟩
    cases op with
    | startSyncLedgerJob => exact fun _ same => by cases same
    | _ => exact id
  | called => exact ⟨id, fun _ same => by cases same⟩
  | finished => exact ⟨id, fun _ same => by cases same⟩
  | @notStarted config error here | @failed config current error here =>
    refine ⟨id, fun _ => ?_⟩
    cases error <;> exact fun same => by cases same
  | looped here =>
    refine ⟨id, fun _ => ?_⟩
    simp only
    split <;> exact fun same => by cases same
  | signalled => exact ⟨fun _ => rfl, id⟩
  | restarted capacity around path => exact absurd ⟨capacity, around, path, rfl⟩ same
  | _ => exact ⟨id, id⟩

theorem Reachable.startsJob (h : Reachable s) : s.job = .absent → StartsJob s.start := by
  induction h with
  | initial capacity node around => exact fun _ => startService_startsJob around.migrationsPath
  | step _ step starts =>
    cases step with
    | @performed op next r here answers =>
      intro absent
      cases op with
      | startSyncLedgerJob => cases absent
      | _ =>
        have before := starts absent
        rw [here] at before
        exact before r
    | entered here =>
      intro absent
      have before := starts absent
      rw [here] at before
      exact before.elim
    | called => exact fun absent => by cases absent
    | finished => exact fun absent => by cases absent
    | @notStarted config error here | @failed config current error here =>
      intro absent
      cases error <;> cases absent
    | looped here =>
      intro absent
      simp only at absent
      split at absent <;> cases absent
    | restarted _ around => exact fun _ => startService_startsJob around.migrationsPath
    | _ => exact starts

end Service

/-- What is known while `main` is where it is. -/
def Main.Holds : Main → Service → Prop
  | .starting, _ | .exited false, _ => True
  | .running, s => s.job ≠ .absent
  | .stopping, s | .draining, s => s.job ≠ .absent ∧ s.shutdown = true
  | .exited true, s => s.job = .ended ∧ s.shutdown = true

namespace Process

variable {p q : Process}

structure Invariant (p : Process) : Prop where
  service : Service.Reachable p.service
  main : p.main.Holds p.service

theorem Invariant.advances (h : Invariant p) (step : Advances p q) : Invariant q := by
  obtain ⟨reachable, holds⟩ := h
  cases step with
  | served alive step same =>
    obtain ⟨flag, begun⟩ := step.keeps same
    refine ⟨reachable.step step, ?_⟩
    cases here : p.main with
    | exited success => exact absurd here (alive success)
    | starting => trivial
    | running =>
      rw [here] at holds
      exact begun holds
    | stopping | draining =>
      rw [here] at holds
      exact ⟨begun holds.1, flag holds.2⟩
  | returned here ready =>
    refine ⟨reachable, fun absent => ?_⟩
    have starts := reachable.startsJob absent
    rw [ready] at starts
    exact starts
  | refused here failed => exact ⟨reachable, trivial⟩
  | noticed here flag =>
    rw [here] at holds
    exact ⟨reachable, holds, flag⟩
  | stopped here =>
    rw [here] at holds
    exact ⟨reachable, holds⟩
  | notStopped here => exact ⟨reachable, trivial⟩
  | drained here dropped =>
    rw [here] at holds
    refine ⟨reachable, ?_, holds.2⟩
    unfold senders at dropped
    rw [here] at dropped
    cases job : p.service.job with
    | absent => exact absurd job holds.1
    | ended => rfl
    | head | calling | checking =>
      rw [job] at dropped
      cases dropped

theorem Invariant.step (h : Invariant p) (step : Step p q) : Invariant q := by
  cases step with
  | advanced step => exact h.advances step
  | restarted again =>
    obtain ⟨capacity, around, path, rfl⟩ := again
    exact ⟨h.service.step (.restarted capacity around path), trivial⟩

theorem Reachable.invariant (h : Reachable p) : Invariant p := by
  induction h with
  | initial capacity node around => exact ⟨.initial _ _ _, trivial⟩
  | step _ step before => exact before.step step

end Process

/-! ### The way out -/

theorem Service.Reachable.running {s : Service} (h : Service.Reachable s) :
    s.job = .calling → s.system.sync.Running := by
  induction h with
  | initial => exact fun same => by cases same
  | step _ step running =>
    cases step with
    | @performed op next r here answers =>
      cases op with
      | startSyncLedgerJob => exact fun same => by cases same
      | _ => exact running
    | called | started | iterate | continued => exact fun _ => trivial
    | counting here | syncing here => exact fun _ => trivial
    | finished => exact fun same => by cases same
    | @notStarted config error here | @failed config current error here =>
      intro same
      cases error <;> cases same
    | looped here =>
      intro same
      simp only at same
      split at same <;> cases same
    | restarted => exact fun same => by cases same
    | _ => exact running

/-- `main` is past the start and has not returned. -/
def Main.Leaving : Main → Prop
  | .running | .stopping | .draining => True
  | _ => False

/-- Some run of the process from here ends with a graceful exit. -/
def Process.CanExit (p : Process) : Prop := ∃ q, Process.Later p q ∧ q.main = .exited true

namespace Process.CanExit

variable {s t : Service} {m : Main}

theorem step {p q : Process} (step : Process.Advances p q) (h : q.CanExit) : p.CanExit := by
  obtain ⟨r, later, exited⟩ := h
  exact ⟨r, .head step later, exited⟩

theorem served (leaving : m.Leaving) (step : Service.Step s t) (flag : t.shutdown = true)
    (h : CanExit ⟨t, m⟩) : CanExit ⟨s, m⟩ := by
  refine .step (.served (fun success exited => ?_) step fun again => ?_) h
  · rw [show m = .exited success from exited] at leaving
    exact leaving
  · rw [again.shutdown] at flag
    cases flag

theorem ended (leaving : m.Leaving) (flag : s.shutdown = true) (job : s.job = .ended) :
    CanExit ⟨s, m⟩ := by
  have draining : CanExit ⟨s, .draining⟩ := by
    refine .step (.drained rfl ?_) ⟨_, .refl, rfl⟩
    simp only [senders, job]
  have stopping : CanExit ⟨s, .stopping⟩ := .step (.stopped rfl) draining
  cases m with
  | running => exact .step (.noticed rfl flag) stopping
  | stopping => exact stopping
  | draining => exact draining
  | starting | exited => exact leaving.elim

theorem checking (leaving : m.Leaving) (flag : s.shutdown = true) (job : s.job = .checking) :
    CanExit ⟨s, m⟩ := by
  refine .served leaving (.looped job) flag (.ended leaving flag ?_)
  simp only [flag, if_true]

theorem afterError {error : Error} (leaving : m.Leaving) (flag : s.shutdown = true)
    (job : s.job = .afterError error) : CanExit ⟨s, m⟩ := by
  cases error with
  | panicked => exact .ended leaving flag job
  | _ => exact .checking leaving flag job

/-- A part of a call is run to its end, with the full node out of reach. -/
theorem runs {α : Type} (part : Task α → SyncTask)
    (steps : ∀ {s : Service} {op : Op} {next : op.Res → Task α} {r : op.Res} {world : World},
      s.system.sync = part (.perform op next) → Performs anyNode s.system.world op r world →
      Service.Step s { s with
        system := { s.system with world, sync := part (next r) }, log := s.log.observe op r })
    (leaving : m.Leaving) (flag : s.shutdown = true) {rest : Task α}
    (here : s.system.sync = part rest)
    (h : ∀ t : Service, t.shutdown = true →
      t.system.sync = part (Prog.lift (rest.run (World.handle .offline) s.system.world).1) →
      CanExit ⟨t, m⟩) : CanExit ⟨s, m⟩ := by
  induction rest generalizing s with
  | ret value | fail value => exact h s flag here
  | perform op next ih =>
    have performed : Performs anyNode s.system.world op _ _ :=
      .handled s.system.world op .offline fun _ _ _ _ _ => trivial
    exact .served leaving (steps here performed) flag (ih _ flag rfl h)

theorem syncing (leaving : m.Leaving) (flag : s.shutdown = true) {config : SyncConfig}
    {current : Checkpoint} (here : s.system.sync = .head config current) : CanExit ⟨s, m⟩ := by
  refine .served leaving (.iterate here) flag (.runs (.body config current) .syncing leaving flag rfl
    fun t flag there => ?_)
  exact .served leaving (.failed there) flag (.checking leaving flag rfl)

theorem calling (leaving : m.Leaving) (flag : s.shutdown = true) (running : s.system.sync.Running) :
    CanExit ⟨s, m⟩ := by
  cases here : s.system.sync with
  | idle | returned =>
    rw [here] at running
    exact running.elim
  | head config current => exact .syncing leaving flag here
  | starting config rest =>
    refine .runs (.starting config) .counting leaving flag here fun t flag there => ?_
    cases out : (rest.run (World.handle .offline) s.system.world).1 with
    | ok current =>
      rw [out] at there
      exact .served leaving (.started there) flag (.syncing leaving flag rfl)
    | error error =>
      rw [out] at there
      exact .served leaving (.notStarted there) flag (.afterError leaving flag rfl)
  | body config current rest =>
    refine .runs (.body config current) .syncing leaving flag here fun t flag there => ?_
    cases out : (rest.run (World.handle .offline) s.system.world).1 with
    | ok next =>
      rw [out] at there
      cases next with
      | none => exact .served leaving (.finished there) flag (.checking leaving flag rfl)
      | some next => exact .served leaving (.continued there) flag (.syncing leaving flag rfl)
    | error error =>
      rw [out] at there
      exact .served leaving (.failed there) flag (.afterError leaving flag rfl)

end Process.CanExit

namespace Process

variable {p : Process} {s : Service}

theorem Reachable.canExit (reachable : p.Reachable) (leaving : p.main.Leaving)
    (flag : p.service.shutdown = true) : p.CanExit := by
  obtain ⟨service, holds⟩ := reachable.invariant
  obtain ⟨s, m⟩ := p
  cases job : s.job with
  | absent =>
    cases m with
    | running => exact absurd job holds
    | stopping | draining => exact absurd job holds.1
    | starting | exited => exact leaving.elim
  | head => exact .served leaving (.called job) flag (.calling leaving flag trivial)
  | calling => exact .calling leaving flag (service.running job)
  | checking => exact .checking leaving flag job
  | ended => exact .ended leaving flag job

theorem Reachable.later {q : Process} (reachable : p.Reachable) (later : Later p q) :
    q.Reachable := by
  induction later with
  | refl => exact reachable
  | tail _ step before => exact before.step (.advanced step)

theorem Reachable.starting {t : Service} (reachable : Reachable ⟨s, .starting⟩)
    (step : Service.Step s t) (flag : t.shutdown = true) : Reachable ⟨t, .starting⟩ := by
  refine reachable.step (.advanced (.served (fun _ same => by cases same) step fun again => ?_))
  rw [again.shutdown] at flag
  cases flag

theorem Reachable.accepts (reachable : Reachable ⟨s, .starting⟩) (flag : s.shutdown = true)
    (n : Nat) : Reachable ⟨s.accepts n, .starting⟩ := by
  induction n generalizing s with
  | zero => exact reachable
  | succ n ih =>
    unfold Service.accepts
    split
    · rename_i op next here
      exact ih (reachable.starting (.performed here (s.answers_accepting op)) flag) flag
    · exact reachable

/-- Once there was a signal, the service is started without waiting if its two addresses are free. -/
theorem Reachable.running {ports : Ports} (reachable : Reachable ⟨s, .starting⟩)
    (here : s.start = .ret (.waiting ports)) (flag : s.shutdown = true) {addr monitorAddr : LocalAddr}
    (parsed : localAddr ports.port = .ok addr) (free : s.around.free addr = true)
    (monitorParsed : localAddr ports.monitorPort = .ok monitorAddr)
    (monitorFree : s.around.free monitorAddr = true) :
    ∃ t, Reachable ⟨t, .running⟩ ∧ t.shutdown = true := by
  have bound : s.around.accepts (.startServer ports.port ports.srvConfig.options) = true := by
    simp only [Surroundings.accepts, parsed, free]
  have left := (reachable.starting (.entered here) flag).accepts flag 2
  rw [Service.waiting_accepts (.inr flag)] at left
  have serving := (left.starting (.entered rfl) flag).accepts flag 2
  have opened := Service.opening_accepts monitorParsed monitorFree bound
  exact ⟨{ s with start := .ret .serving }, (opened ▸ serving).step (.advanced (.returned rfl rfl)), flag⟩

/-- A signal during the start takes the service through it, when its server can be bound. -/
theorem reaches_running {around : Surroundings} (startable : around.Startable) {port : Int64}
    {addr : LocalAddr} (port_read : around.config.integerAt "indexer" "port" = .ok port)
    (parsed : localAddr port = .ok addr) (free : around.free addr = true) (capacity : Nat)
    (node : Ledger) : ∃ s, Reachable ⟨s, .running⟩ ∧ s.shutdown = true := by
  have signalled := (Reachable.initial capacity node around).starting .signalled rfl
  obtain ⟨ports, monitorAddr, waits, read, monitorParsed, monitorFree⟩ :=
    Service.startService_accepts
      (s := { Service.initial capacity node around with shutdown := true }) startable rfl
  obtain rfl : port = ports.port := Except.ok.inj (port_read.symm.trans read)
  have waiting := signalled.accepts rfl 10
  rw [waits] at waiting
  exact waiting.running rfl rfl parsed free monitorParsed monitorFree

end Process

end Exit

/-- When `main` has returned `Ok` there was a signal, the job has left its loop, no call is running
and no transaction is open: what the tables hold are whole batches. -/
theorem exit_between_batches [Pallet] {p : Process} (reachable : p.Reachable)
    (exited : p.main = .exited true) :
    p.service.shutdown = true ∧ p.service.job = .ended ∧
      (p.service.system.sync = .idle ∨ p.service.system.sync = .returned) ∧
      p.service.system.world.transaction = none := by
  obtain ⟨service, holds⟩ := reachable.invariant
  rw [exited] at holds
  obtain ⟨ended, flag⟩ := holds
  have between := (Service.Invariant.reachable service).between (by rw [ended]; nofun)
  refine ⟨flag, ended, between, ?_⟩
  have closes := service.system.closes
  rcases between with here | here
  · rw [here] at closes
    exact closes
  · rw [here] at closes
    exact closes

section Sample

attribute [local instance] samplePallet

theorem exit_between_batches_signalled :
    ∃ p : Process, p.Reachable ∧ p.main = .exited true ∧ p.service.shutdown = true ∧
      p.service.job = .ended ∧
      (p.service.system.sync = .idle ∨ p.service.system.sync = .returned) ∧
      p.service.system.world.transaction = none := by
  obtain ⟨s, reachable, flag⟩ := Process.reaches_running (repositoryAround_startable [])
    rfl rfl rfl 4 sampleNode
  obtain ⟨q, later, exited⟩ := reachable.canExit trivial flag
  exact ⟨q, reachable.later later, exited, exit_between_batches (reachable.later later) exited⟩

end Sample

section Sample

attribute [local instance] samplePallet

end Sample

end MantaIndexer
