import MantaIndexer.Indexer.Service
import MantaIndexer.Mirror.Failures

/-!
The table of totals: what the job asks of the database is such that every commit leaves exactly one
row there, which stays, and that the flag of the first synchronization is set only after the commit
of a last batch.
-/

namespace MantaIndexer
open Effects Encoding Collections

variable [P : Pallet]

/-! ### What the job does -/

/-- What the job has seen: the responses, and whether the open transaction has stored a total. -/
structure Trail where
  log : Log
  totalled : Bool

namespace Trail

def observe (trail : Trail) (op : Op) (r : op.Res) : Trail where
  log := trail.log.observe op r
  totalled :=
    match op, r with
    | .sql (.insertTotal .transaction _), .ok _ => true
    | .sql .begin, _ | .sql .commit, _ | .rollback, _ => false
    | _, _ => trail.totalled

/-- A commit comes after a total, and the flag after the commit of a last batch. -/
def Disciplined (trail : Trail) : Op → Prop
  | .sql .commit => trail.totalled = true
  | .storeInitSyncingFinished => trail.log.Last
  | _ => True

end Trail

/-- Whatever the answers, the task keeps the discipline of the job. -/
abbrev Keeps {α : Type} (post : Except Error α → Trail → Prop) (p : Task α) (trail : Trail) : Prop :=
  Tracks Trail.observe Trail.Disciplined post p trail

/-- Neither stores a total nor begins or ends a transaction. -/
def Query.silent : Query → Bool
  | .insertTotal _ _ | .begin | .commit => false
  | _ => true

theorem Trail.observe_silent {query : Query} (silent : query.silent = true) (trail : Trail)
    (r : Except SqlxError query.Answer) : trail.observe (.sql query) r = trail := by
  cases query with
  | insertTotal executor row | begin | commit => cases silent
  | _ => cases r <;> rfl

theorem Trail.disciplined_silent {query : Query} (silent : query.silent = true) (trail : Trail) :
    trail.Disciplined (.sql query) := by
  cases query with
  | insertTotal executor row | begin | commit => cases silent
  | _ => trivial

/-- Adds nothing to what the job has seen. -/
abbrev Silent {α : Type} (p : Task α) : Prop := Unseen Trail.observe Trail.Disciplined p

section Silent

theorem silent_fetch {query : Query} (silent : query.silent = true) : Silent (fetch query) := by
  apply Unseen.perform (Trail.disciplined_silent silent) (Trail.observe_silent silent)
  intro r
  cases r with
  | ok answer => exact .ret answer
  | error error => exact .fail _

theorem silent_insertItems (s : ShardIndex) (beginning : UInt64) (offset : Nat)
    (items : List Receiver) : Silent (insertItems s beginning offset items) := by
  induction items generalizing offset with
  | nil => exact .ret ()
  | cons item items ih => exact (silent_fetch rfl).bind fun _ => ih _

theorem silent_insertShards (current : Checkpoint) (groups : List (ShardIndex × List Receiver)) :
    Silent (insertShards current groups) := by
  induction groups with
  | nil => exact .ret ()
  | cons group groups ih => exact (silent_insertItems _ _ _ _).bind fun _ => ih

theorem silent_getLenOfNullifier (executor : Executor) : Silent (getLenOfNullifier executor) := by
  apply (silent_fetch rfl).bind
  intro count
  split
  · exact .ret _
  · exact .fail _

theorem silent_insertNullifiers (first : UInt64) (idx : Nat) (senders : List Sender) :
    Silent (insertNullifiers first idx senders) := by
  induction senders generalizing idx with
  | nil => exact .ret ()
  | cons sender senders ih => exact (silent_fetch rfl).bind fun _ => ih _

theorem silent_countReceivers (shards : List ShardIndex) (ck : Checkpoint) :
    Silent (countReceivers shards ck) := by
  induction shards generalizing ck with
  | nil => exact .ret ck
  | cons s shards ih => exact (silent_fetch rfl).bind fun _ => ih _

theorem silent_getLatestCheckPoint : Silent getLatestCheckPoint := by
  apply (silent_countReceivers _ _).bind
  intro ck
  exact (silent_getLenOfNullifier _).bind fun _ => .ret _

theorem silent_putBatchLru (batch : List (Cache.LruKeyType × Bytes)) :
    Silent (perform (.putBatchLru batch)) :=
  .perform (fun _ => trivial) (fun _ _ => rfl) .ret

theorem silent_refreshReceivers (current : Checkpoint)
    (groups : List (ShardIndex × List Receiver)) : Silent (refreshReceivers current groups) := by
  induction groups with
  | nil => exact .ret ()
  | cons group groups ih => exact (silent_putBatchLru _).bind fun _ => ih

theorem silent_reconstruct (response : PullResponse) :
    Silent (reconstructShardsFromPullResponse response) := by
  unfold reconstructShardsFromPullResponse
  apply (Unseen.lift _).bind
  intro shards
  exact .perform (fun _ => trivial) (fun _ _ => rfl) fun _ => .ret _

end Silent

/-- The updates have stored a total when they succeed, and nothing is committed yet. -/
def Updated {α : Type} (log : Log) (out : Except Error α) (trail : Trail) : Prop :=
  trail.log = log ∧ ∀ value, out = .ok value → trail.totalled = true

theorem updateTables_totalled (current : Checkpoint)
    (groups : List (ShardIndex × List Receiver)) (response : PullResponse) (trail : Trail) :
    Keeps (Updated trail.log) (updateTables current groups response) trail := by
  have early : ∀ error : Error, Updated (α := UInt64) trail.log (.error error) trail :=
    fun error => ⟨rfl, fun _ same => by cases same⟩
  apply (silent_insertShards _ _).tracks _ early
  intro _
  apply (silent_getLenOfNullifier _).tracks _ early
  intro first
  apply (silent_insertNullifiers _ _ _).tracks _ early
  intro _
  apply Tracks.perform trivial
  intro r
  cases r with
  | error error => exact Tracks.fail ⟨rfl, fun _ same => by cases same⟩
  | ok answer => exact Tracks.ret ⟨rfl, fun _ _ => rfl⟩

/-- The response answered last is committed. -/
def Logged {α : Type} (log : Log) (out : Except Error α) (trail : Trail) : Prop :=
  ∀ value, out = .ok value → trail.log.committed = log.committed ++ log.answered.toList

theorem inTransaction_commits {updates : Task UInt64} {trail : Trail}
    (stores : ∀ begun : Trail, begun.log = trail.log → Keeps (Updated trail.log) updates begun) :
    Keeps (Logged trail.log) (inTransaction updates) trail := by
  apply Tracks.perform trivial
  intro r
  cases r with
  | error error => exact Tracks.fail fun _ same => by cases same
  | ok answer =>
    apply Ensures.onFail fun _ => rfl
    apply Tracks.bind
    apply (stores (trail.observe (.sql .begin) (.ok answer)) rfl).mono
    intro out t updated
    cases out with
    | error error => exact Tracks.perform trivial fun _ => Tracks.fail fun _ same => by cases same
    | ok first =>
      have allowed : t.Disciplined (.sql .commit) := updated.2 first rfl
      show Keeps _ (fetch .commit >>= fun _ => Prog.ret first) t
      apply Tracks.perform allowed
      intro r
      cases r with
      | error error =>
        apply Tracks.fail
        exact Tracks.perform trivial fun _ => Tracks.fail fun _ same => by cases same
      | ok answer =>
        apply Tracks.ret
        apply Tracks.ret
        intro _ _
        show t.log.committed ++ t.log.answered.toList = _
        rw [updated.1]

/-- The flag is set after the batch that is said to be the last. -/
theorem leave_disciplined {response : PullResponse} (next : Checkpoint) {trail : Trail}
    (logged : response ∈ trail.log.committed) :
    Keeps (fun _ _ => True) (if !response.shouldContinue then do
        perform .storeInitSyncingFinished
        return none
      else return some next) trail := by
  cases more : response.shouldContinue with
  | true => exact Tracks.ret trivial
  | false =>
    have last : trail.log.Last := ⟨response, logged, more⟩
    exact Tracks.perform last fun _ => Tracks.ret trivial

theorem syncIteration_disciplined (config : SyncConfig) (ck : Checkpoint) (trail : Trail) :
    Keeps (fun _ _ => True) (syncIteration config ck) trail := by
  unfold syncIteration synchronizeLedger
  simp only [Prog.bind_assoc]
  apply Tracks.perform trivial
  intro r
  cases r with
  | error error => exact Tracks.fail trivial
  | ok response =>
    apply (silent_reconstruct response).tracks _ fun _ => trivial
    intro groups
    apply Tracks.bind
    apply (inTransaction_commits fun begun same => same ▸ updateTables_totalled _ _ _ begun).mono
    intro out t committed
    cases out with
    | error error => exact trivial
    | ok first =>
      have logged : response ∈ t.log.committed := by
        rw [committed first rfl]
        simp [Trail.observe, Log.observe]
      cases refresh : config.refreshCache with
      | false => exact leave_disciplined _ logged
      | true =>
        apply (silent_refreshReceivers _ _).tracks _ fun _ => trivial
        intro _
        exact (silent_putBatchLru _).tracks (fun _ => leave_disciplined _ logged) fun _ => trivial

/-! ### What the database holds -/

/-- Exactly one row of totals. -/
def Database.OneTotal (db : Database) : Prop := ∃ row, db.sendersReceiversTotal = [row]

/-- The constraint on the table of totals. -/
def Database.Checked (db : Database) : Prop := ∀ row ∈ db.sendersReceiversTotal, row.id = true

omit P in
/-- The new row takes the place of every row there is: their key is the same. -/
theorem insertTotal_replaces {db db' : Database} {row : SendersReceiversTotal}
    (checked : db.Checked) (inserted : db.insertTotal row = some db') :
    db'.OneTotal ∧ db'.Checked := by
  unfold Database.insertTotal at inserted
  split at inserted
  · rename_i own
    unfold Database.insertOrReplace at inserted
    split at inserted
    · cases inserted
      have gone : (db.sendersReceiversTotal.filter fun r => !decide (r.id = row.id)) = [] := by
        rw [List.filter_eq_nil_iff]
        intro r member
        simp [checked r member, own]
      refine ⟨⟨row, by rw [gone, List.nil_append]⟩, ?_⟩
      intro r member
      rw [gone, List.nil_append, List.mem_singleton] at member
      exact member ▸ own
    · cases inserted
  · cases inserted

/-- The table of totals as the job has left it, and what follows from the responses committed. -/
structure Kept (trail : Trail) (w : World) : Prop where
  checked : w.db.Checked
  inside : ∀ db, w.transaction = some db → db.Checked
  totalled : trail.totalled = true → ∃ db, w.transaction = some db ∧ db.OneTotal
  committed : trail.log.committed ≠ [] → w.db.OneTotal
  finished : w.initSyncingFinished = true → trail.log.Last

/-- Nothing that the tables of totals and the flag tell has changed. -/
structure SameTotals (w v : World) : Prop where
  db : v.db.sendersReceiversTotal = w.db.sendersReceiversTotal
  transaction : v.transaction.map Database.sendersReceiversTotal =
    w.transaction.map Database.sendersReceiversTotal
  flag : v.initSyncingFinished = w.initSyncingFinished

theorem SameTotals.refl (w : World) : SameTotals w w := ⟨rfl, rfl, rfl⟩

theorem SameTotals.oneTotal {w v : World} (same : SameTotals w v) (one : w.db.OneTotal) :
    v.db.OneTotal := by
  unfold Database.OneTotal
  rwa [same.db]

theorem SameTotals.kept {w v : World} (same : SameTotals w v) {trail : Trail}
    (kept : Kept trail w) : Kept trail v where
  checked := by
    unfold Database.Checked
    rw [same.db]
    exact kept.checked
  inside := by
    intro db here
    have tables := same.transaction
    rw [here, Option.map_some] at tables
    obtain ⟨before, there, equal⟩ := Option.map_eq_some_iff.mp tables.symm
    unfold Database.Checked
    rw [← equal]
    exact kept.inside before there
  totalled := by
    intro totalled
    obtain ⟨before, there, one⟩ := kept.totalled totalled
    have tables := same.transaction
    rw [there, Option.map_some] at tables
    obtain ⟨db, here, equal⟩ := Option.map_eq_some_iff.mp tables
    refine ⟨db, here, ?_⟩
    unfold Database.OneTotal
    rwa [equal]
  committed := fun some => same.oneTotal (kept.committed some)
  finished := by
    rw [same.flag]
    exact kept.finished

/-- A statement that leaves the totals, through either executor. -/
theorem write_sameTotals {statement : Database → Option Database}
    (leaves : ∀ db db', statement db = some db' →
      db'.sendersReceiversTotal = db.sendersReceiversTotal)
    (w : World) (executor : Executor) : SameTotals w (w.write executor statement).2 := by
  unfold World.write
  split
  · exact .refl w
  · rename_i db' written
    obtain ⟨db, visible, ran⟩ := Option.bind_eq_some_iff.mp written
    have equal := leaves db db' ran
    cases executor with
    | pool =>
      cases visible
      exact ⟨equal, rfl, rfl⟩
    | transaction =>
      have opened : w.transaction = some db := visible
      refine ⟨rfl, ?_, rfl⟩
      rw [opened, Option.map_some, Option.map_some, equal]

theorem execute_sameTotals {query : Query} (silent : query.silent = true) (w : World) :
    SameTotals w (w.execute query).2 := by
  cases query with
  | insertTotal executor row | begin | commit => cases silent
  | insertShard executor row =>
    apply write_sameTotals
    intro db db' ran
    obtain ⟨shards, -, rfl⟩ := Option.map_eq_some_iff.mp ran
    rfl
  | insertNullifier executor row =>
    apply write_sameTotals
    intro db db' ran
    obtain ⟨rows, -, rfl⟩ := Option.map_eq_some_iff.mp ran
    rfl
  | appendNullifier executor first second =>
    apply write_sameTotals
    intro db db' ran
    unfold Database.appendNullifier at ran
    split at ran
    · cases ran
      rfl
    · cases ran
  | countNullifier executor =>
    simp only [World.execute]
    split <;> exact .refl w
  | _ => exact .refl w

section Steps

variable {trail seen : Trail} {w v : World}

/-- Kept for what is seen later, when nothing more is committed and the transaction holds no less. -/
theorem Kept.later (kept : Kept trail w) (committed : seen.log.committed = trail.log.committed)
    (totalled : seen.totalled = true → trail.totalled = true) : Kept seen w where
  checked := kept.checked
  inside := kept.inside
  totalled := fun held => kept.totalled (totalled held)
  committed := by
    rw [committed]
    exact kept.committed
  finished := by
    intro flag
    unfold Log.Last
    rw [committed]
    exact kept.finished flag

/-- A transaction that begins or ends, with no total of its own. -/
theorem Kept.reopened (kept : Kept trail w) {transaction : Option Database}
    (log : seen.log = trail.log) (totalled : seen.totalled = false)
    (checked : ∀ db, transaction = some db → db.Checked) : Kept seen { w with transaction } where
  checked := kept.checked
  inside := checked
  totalled := by
    rw [totalled]
    exact fun held => by cases held
  committed := by
    rw [log]
    exact kept.committed
  finished := by
    rw [log]
    exact kept.finished

/-- A commit puts the total of the transaction in place. -/
theorem Kept.commits (kept : Kept trail w) (held : trail.totalled = true) (answer : Unit) :
    Kept (trail.observe (.sql .commit) (.ok answer)) (w.execute .commit).2 ∧
      (w.execute .commit).2.db.OneTotal := by
  obtain ⟨db, opened, one⟩ := kept.totalled held
  simp only [World.execute, opened]
  refine ⟨⟨kept.inside db opened, ?_, ?_, fun _ => one, ?_⟩, one⟩
  · exact fun _ here => by cases here
  · exact fun held => by cases held
  · intro flag
    obtain ⟨response, member, last⟩ := kept.finished flag
    exact ⟨response, List.mem_append_left _ member, last⟩

/-- Storing a total leaves exactly one row where it is stored. -/
theorem Kept.stores (kept : Kept trail w) (executor : Executor) (row : SendersReceiversTotal) :
    Kept (trail.observe (.sql (.insertTotal executor row)) (w.execute (.insertTotal executor row)).1)
        (w.execute (.insertTotal executor row)).2 ∧
      (w.db.OneTotal → (w.execute (.insertTotal executor row)).2.db.OneTotal) := by
  simp only [World.execute, World.write]
  split
  · refine ⟨kept.later rfl ?_, id⟩
    cases executor <;> exact id
  · rename_i db' written
    obtain ⟨db, visible, inserted⟩ := Option.bind_eq_some_iff.mp written
    cases executor with
    | pool =>
      obtain rfl : w.db = db := Option.some.inj visible
      obtain ⟨one, checked⟩ := insertTotal_replaces kept.checked inserted
      exact ⟨⟨checked, kept.inside, kept.totalled, fun _ => one, kept.finished⟩, fun _ => one⟩
    | transaction =>
      obtain ⟨one, checked⟩ := insertTotal_replaces (kept.inside db visible) inserted
      refine ⟨⟨kept.checked, ?_, fun _ => ⟨db', rfl, one⟩, kept.committed, kept.finished⟩, id⟩
      rintro _ ⟨⟩
      exact checked

/-- Every operation that keeps the discipline keeps the totals. -/
theorem Kept.performs {op : Op} {r : op.Res} (kept : Kept trail w) (allowed : trail.Disciplined op)
    (performed : Performs anyNode w op r v) :
    Kept (trail.observe op r) v ∧ (w.db.OneTotal → v.db.OneTotal) := by
  cases performed with
  | failed _ query error =>
    refine ⟨kept.later ?_ ?_, id⟩
    · cases query <;> rfl
    · cases query with
      | begin | commit => exact fun held => by cases held
      | insertTotal executor row => cases executor <;> exact id
      | _ => exact id
  | handled _ _ outside answers =>
    cases op with
    | sql query =>
      by_cases silent : query.silent = true
      · have same := execute_sameTotals silent w
        rw [Trail.observe_silent silent]
        exact ⟨same.kept kept, same.oneTotal⟩
      · cases query with
        | insertTotal executor row => exact kept.stores executor row
        | begin =>
          have begun : ∀ db, some w.db = some db → db.Checked := by
            rintro _ ⟨⟩
            exact kept.checked
          exact ⟨kept.reopened rfl rfl begun, id⟩
        | commit =>
          obtain ⟨db, opened, -⟩ := kept.totalled allowed
          have committed := kept.commits allowed ()
          have answered : (w.execute .commit).1 = .ok () := by simp only [World.execute, opened]
          rw [World.handle, answered]
          exact ⟨committed.1, fun _ => committed.2⟩
        | _ => exact absurd rfl silent
    | rollback => exact ⟨kept.reopened rfl rfl fun _ none => (by cases none), id⟩
    | request ck second third =>
      have later : Kept (trail.observe (.request ck second third)
          (outside.pullLedgerDiff ck second third)) w := by
        cases outside.pullLedgerDiff ck second third with
        | ok response => exact kept.later rfl id
        | error error => exact kept.later rfl id
      have same : SameTotals w (w.handle outside (.request ck second third)).2 := ⟨rfl, rfl, rfl⟩
      exact ⟨same.kept later, id⟩
    | storeInitSyncingFinished =>
      exact ⟨⟨kept.checked, kept.inside, kept.totalled, kept.committed, fun _ => allowed⟩, id⟩
    | getBatchLru keys =>
      have same : SameTotals w (w.handle outside (.getBatchLru keys)).2 := ⟨rfl, rfl, rfl⟩
      exact ⟨same.kept (kept.later rfl id), id⟩
    | putBatchLru batch =>
      have same : SameTotals w (w.handle outside (.putBatchLru batch)).2 := ⟨rfl, rfl, rfl⟩
      exact ⟨same.kept (kept.later rfl id), id⟩
    | iterate keys => exact ⟨kept.later rfl id, id⟩

end Steps

/-! ### The flag -/

theorem write_flag (w : World) (executor : Executor) (statement : Database → Option Database) :
    (w.write executor statement).2.initSyncingFinished = w.initSyncingFinished := by
  unfold World.write
  split
  · rfl
  · cases executor <;> rfl

theorem execute_flag (w : World) (query : Query) :
    (w.execute query).2.initSyncingFinished = w.initSyncingFinished := by
  cases query with
  | insertShard executor row | insertNullifier executor row | insertTotal executor row
  | appendNullifier executor first second => exact write_flag _ _ _
  | countNullifier executor | commit =>
    simp only [World.execute]
    split <;> rfl
  | _ => rfl

/-- No operation takes the flag back. -/
theorem Performs.flag {w v : World} {op : Op} {r : op.Res}
    (performed : Performs anyNode w op r v) (set : w.initSyncingFinished = true) :
    v.initSyncingFinished = true := by
  cases performed with
  | failed _ query error => exact set
  | handled _ _ outside answers =>
    cases op with
    | sql query => rwa [World.handle, execute_flag]
    | storeInitSyncingFinished => rfl
    | _ => exact set

/-! ### Pulls -/

section Pulls

variable {α β : Type} {w v : World}

/-- One operation of a task that only reads. -/
theorem ReadsOnly.performs {op : Op} {next : op.Res → Task α} {r : op.Res}
    (reads : ReadsOnly (.perform op next)) (performed : Performs anyNode w op r v) :
    SameTotals w v ∧ ReadsOnly (next r) := by
  cases reads with
  | lookup isLookup same rest =>
    refine ⟨?_, rest r⟩
    cases performed with
    | handled _ _ outside answers =>
      rw [World.handle, (execute_lookup isLookup w).1]
      exact .refl w
    | failed _ query error => exact .refl w
  | fetch isFetch reads stops rest =>
    refine ⟨?_, rest r⟩
    cases performed with
    | handled _ _ outside answers =>
      rw [World.handle, reads]
      exact .refl w
    | failed _ query error => exact .refl w
  | getBatchLru rest =>
    refine ⟨?_, rest r⟩
    cases performed
    exact ⟨rfl, rfl, rfl⟩
  | putBatchLru rest =>
    refine ⟨?_, rest r⟩
    cases performed
    exact ⟨rfl, rfl, rfl⟩

/-- The others leave a total where there is one. -/
def KeepsTotal (w v : World) : Prop := w.db.OneTotal → v.db.OneTotal

theorem KeepsTotal.refl (w : World) : KeepsTotal w w := id

theorem KeepsTotal.trans (u v w : World) (first : KeepsTotal u v) (second : KeepsTotal v w) :
    KeepsTotal u w := fun one => second (first one)

def missingTotal : Error := .sqlx .rowNotFound

/-- Beside such others the task does not fail for a missing row, as long as there is a total. -/
def Finds (p : Task α) : Prop :=
  ∀ w, w.db.OneTotal → Pulls KeepsTotal (fun out t => out ≠ .error missingTotal ∧ t.db.OneTotal) p w

theorem finds_ret (value : α) : Finds (.ret value) :=
  fun _ one _ step => ⟨(fun same => by cases same), step one⟩

theorem finds_fail {error : Error} (other : error ≠ missingTotal) : Finds (.fail error : Task α) :=
  fun _ one _ step => ⟨fun same => other (Except.error.inj same), step one⟩

theorem Finds.bind {p : Task α} {f : α → Task β} (first : Finds p) (rest : ∀ a, Finds (f a)) :
    Finds (p >>= f) := by
  intro w one
  apply Ensures.bind KeepsTotal.refl
  apply (first w one).mono
  intro out t ended
  cases out with
  | ok value => exact rest value t ended.2
  | error error =>
    intro u step
    exact ⟨fun same => ended.1 (congrArg _ (Except.error.inj same)), step ended.2⟩

theorem finds_sql {query : Query} {next : Except SqlxError query.Answer → Task α}
    (reads : ∀ w : World, (w.execute query).2 = w)
    (rest : ∀ w : World, w.db.OneTotal → Finds (next (w.execute query).1)) :
    Finds (.perform (.sql query) next) := by
  intro w one
  apply pulls_sql
  intro t step
  rw [reads]
  exact rest t (step one) t (step one)

theorem finds_found {query : Query} (reads : ∀ w : World, (w.execute query).2 = w) :
    Finds (found query) := by
  apply finds_sql reads
  intro w _
  cases (w.execute query).1 with
  | ok row => exact finds_ret _
  | error error => cases error <;> exact finds_ret _

theorem finds_fetch {query : Query} (reads : ∀ w : World, (w.execute query).2 = w)
    (answers : ∀ w : World, w.db.OneTotal → ∃ answer, (w.execute query).1 = .ok answer) :
    Finds (fetch query) := by
  apply finds_sql reads
  intro w one
  obtain ⟨answer, answered⟩ := answers w one
  rw [answered]
  exact finds_ret answer

theorem finds_total : Finds (fetch .total) := by
  apply finds_fetch fun _ => rfl
  rintro w ⟨row, stored⟩
  refine ⟨row.total, ?_⟩
  simp only [World.execute, Database.total, stored]
  rfl

theorem finds_handled {op : Op} (keeps : ∀ (w : World) outside, KeepsTotal w (w.handle outside op).2) :
    Finds (perform op) := by
  intro w one t step r u performed
  cases performed with
  | handled _ _ outside => exact ⟨trivial, finds_ret _ _ (keeps t outside (step one))⟩

theorem finds_parts : Parts Finds where
  ret := finds_ret
  codec := finds_fail fun same => by cases same
  wrongLength := finds_fail fun same => by cases same
  bind := Finds.bind
  found isLookup := finds_found fun w => (execute_lookup isLookup w).1
  shardsIn _ _ := finds_fetch (fun _ => rfl) fun _ _ => ⟨_, rfl⟩
  nullifiersIn _ := finds_fetch (fun _ => rfl) fun _ _ => ⟨_, rfl⟩
  total := finds_total
  getBatchLru _ := finds_handled fun _ _ => id
  putBatchLru _ := finds_handled fun _ _ => id

/-- The method of the server does not fail for a missing total. -/
theorem finds_pullLedgerDiff (ck : Checkpoint) (maxReceivers maxSenders : UInt64) :
    Finds (MantaPayIndexerServer.pullLedgerDiff ck maxReceivers maxSenders) :=
  (finds_parts.pullLedgerDiff _ _ _).bind fun _ => finds_ret _

end Pulls

end MantaIndexer
