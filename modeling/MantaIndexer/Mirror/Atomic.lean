import MantaIndexer.Indexer.System
import MantaIndexer.Mirror.SyncSpec

/-!
A batch of the full node is committed as a whole or not at all. Until the commit every write of an
iteration goes to its transaction, and the cache and the flag are only touched after it.
-/

namespace MantaIndexer
open Effects Encoding Collections

section Batches

variable [P : Pallet]

/-! ### What a batch means -/

/-- The tables after the whole response was added to them, at the positions of the checkpoint. -/
structure Applied (ck : Checkpoint) (response : PullResponse) (db db' : Database) : Prop where
  converted : ∀ receiver ∈ response.receivers, ∃ s, treeIndex receiver.1 = some s
  shards : ∀ s, db'.rowsOf s = db.rowsOf s ++ (Ledger.ofShard response.receivers s).mapIdx
    fun i receiver => ⟨s, asI64 (ck.receiverIndex s + UInt64.ofNat i), encode receiver.1,
      encode receiver.2⟩
  nullifiers : db'.nullifier = (response.senders.mapIdx fun i sender =>
      ⟨asI64 (UInt64.ofNat i + UInt64.ofNat db.countNullifier), encode sender.1,
        encode sender.2⟩).foldl
    (fun table (row : Nullifier) => table.filter (fun r => !decide (r.idx = row.idx)) ++ [row])
    db.nullifier
  total : db'.sendersReceiversTotal = db.sendersReceiversTotal.filter (fun r => !r.id) ++
    [⟨true, response.sendersReceiversTotal.val⟩]

def Checkpoint.past (ck : Checkpoint) (response : PullResponse) : Checkpoint where
  receiverIndex s := ck.receiverIndex s +
    UInt64.ofNat (Ledger.ofShard response.receivers s).length
  senderIndex := ck.senderIndex + UInt64.ofNat response.senders.length

/-- Answers of the full node added to the tables one after the other, each as a whole. -/
inductive Batches (serves : Serves) : Checkpoint → Database → List PullResponse → Database → Prop where
  | nil (ck : Checkpoint) (db : Database) : Batches serves ck db [] db
  | cons {ck : Checkpoint} {db db' last : Database} {response : PullResponse}
      {rest : List PullResponse} {node : Ledger} {second third : UInt64}
      (served : serves node ck second third response) (applied : Applied ck response db db')
      (others : Batches serves (ck.past response) db' rest last) :
      Batches serves ck db (response :: rest) last

/-! ### Between the operations -/

/-- What the others do beside the syncing task: they change the cache, in ways that `R` allows. -/
structure Beside (R : Lru Cache.LruKeyType Bytes → Lru Cache.LruKeyType Bytes → Prop)
    (w v : World) : Prop where
  db : v.db = w.db
  transaction : v.transaction = w.transaction
  flag : v.initSyncingFinished = w.initSyncingFinished
  lru : R w.lru v.lru

section Beside

variable {R : Lru Cache.LruKeyType Bytes → Lru Cache.LruKeyType Bytes → Prop}

theorem Beside.refl (same : ∀ a, R a a) (w : World) : Beside R w w := ⟨rfl, rfl, rfl, same _⟩

theorem Beside.trans (then' : ∀ a b c, R a b → R b c → R a c) (u v w : World)
    (first : Beside R u v) (second : Beside R v w) : Beside R u w :=
  ⟨second.db.trans first.db, second.transaction.trans first.transaction,
    second.flag.trans first.flag, then' _ _ _ first.lru second.lru⟩

end Beside

/-- The tables and the flag are those of `w`, and only the others have changed the cache. -/
structure Untouched (R : Lru Cache.LruKeyType Bytes → Lru Cache.LruKeyType Bytes → Prop)
    (w v : World) : Prop where
  db : v.db = w.db
  flag : v.initSyncingFinished = w.initSyncingFinished
  lru : R w.lru v.lru

/-- How an iteration ends. -/
def Ended (serves : Serves) (R : Lru Cache.LruKeyType Bytes → Lru Cache.LruKeyType Bytes → Prop)
    (w : World) (ck : Checkpoint) : Except Error (Option Checkpoint) → World → Prop
  | .error _, t => Untouched R w t
  | .ok next, t => ∃ node second third response, serves node ck second third response ∧
      Applied ck response w.db t.db ∧
      ((response.shouldContinue = false ∧ next = none ∧ t.initSyncingFinished = true) ∨
        (response.shouldContinue = true ∧ next = some (ck.past response) ∧
          t.initSyncingFinished = w.initSyncingFinished))

section Rules

variable {serves : Serves} {R : Lru Cache.LruKeyType Bytes → Lru Cache.LruKeyType Bytes → Prop}
  {α : Type} {post : Except Error α → World → Prop} {start w v : World}
  {transaction : Option Database}

/-- Every run of the task from here, with the others beside it, ends in `post`. -/
abbrev Runs (serves : Serves)
    (R : Lru Cache.LruKeyType Bytes → Lru Cache.LruKeyType Bytes → Prop)
    (post : Except Error α → World → Prop) (p : Task α) (w : World) : Prop :=
  Ensures (Performs serves) (Beside R) (fun _ _ _ => True) post p w

/-- Nothing is committed since `start`, and the open transaction is `transaction`. -/
structure Pending (R : Lru Cache.LruKeyType Bytes → Lru Cache.LruKeyType Bytes → Prop)
    (start : World) (transaction : Option Database) (w : World) : Prop
    extends Untouched R start w where
  transaction : w.transaction = transaction

theorem Pending.wrote (h : Pending R start transaction w) (db : Option Database) :
    Pending R start db { w with transaction := db } :=
  ⟨⟨h.db, h.flag, h.lru⟩, rfl⟩

theorem Pending.writes {db : Database} (h : Pending R start (some db) w)
    {statement : Database → Option Database} {answer : Unit} {rest : Task α}
    (executed : (w.write .transaction statement).1 = .ok answer)
    (ok : ∀ t db', Pending R start (some db') t → statement db = some db' →
      Runs serves R post rest t) :
    Runs serves R post rest (w.write .transaction statement).2 := by
  obtain ⟨db', written, same⟩ := write_transaction h.transaction executed
  rw [same]
  exact ok _ db' (h.wrote (some db')) written

variable (trans : ∀ a b c, R a b → R b c → R a c)

include trans

theorem Pending.beside (h : Pending R start transaction w) (step : Beside R w v) :
    Pending R start transaction v :=
  ⟨⟨step.db.trans h.db, step.flag.trans h.flag, trans _ _ _ h.lru step.lru⟩,
    step.transaction.trans h.transaction⟩

theorem runs_fail (at' : Pending R start transaction w) (error : Error)
    (failed : ∀ t, Pending R start transaction t → post (.error error) t) :
    Runs serves R post (.fail error) w :=
  fun t step => failed t (at'.beside trans step)

theorem runs_fetch (at' : Pending R start transaction w) {query : Query}
    {f : query.Answer → Task α}
    (failed : ∀ error t, Pending R start transaction t → post (.error error) t)
    (ok : ∀ t answer, Pending R start transaction t → (t.execute query).1 = .ok answer →
      Runs serves R post (f answer) (t.execute query).2) :
    Runs serves R post (fetch query >>= f) w := by
  intro t step r u performed
  have here := at'.beside trans step
  cases performed with
  | handled _ _ outside answers =>
    simp only [World.handle]
    cases result : (t.execute query).1 with
    | error error =>
      rw [execute_error result]
      exact ⟨trivial, runs_fail trans here _ (failed _)⟩
    | ok answer => exact ⟨trivial, ok t answer here result⟩
  | failed query error => exact ⟨trivial, runs_fail trans here _ (failed _)⟩

theorem runs_request (at' : Pending R start transaction w) {ck : Checkpoint} {second third : UInt64}
    {f : Except Error PullResponse → Task α}
    (h : ∀ t r, Pending R start transaction t →
      (∀ response, r = .ok response → ∃ node, serves node ck second third response) →
      Runs serves R post (f r) t) :
    Runs serves R post ((perform (.request ck second third) : Task _) >>= f) w := by
  intro t step r u performed
  have here := at'.beside trans step
  cases performed with
  | handled _ _ outside answers =>
    refine ⟨trivial, h _ _ ⟨⟨here.db, here.flag, here.lru⟩, here.transaction⟩ ?_⟩
    intro response answered
    exact ⟨t.node, answers _ _ _ _ answered⟩

theorem runs_iterate (at' : Pending R start transaction w) {keys : List ShardIndex}
    {f : List ShardIndex → Task α}
    (h : ∀ t order, Pending R start transaction t → order.Perm keys →
      Runs serves R post (f order) t) :
    Runs serves R post ((perform (.iterate keys) : Task _) >>= f) w := by
  intro t step r u performed
  cases performed with
  | handled _ _ outside answers =>
    exact ⟨trivial, h t _ (at'.beside trans step) (outside.perm keys)⟩

end Rules

/-! ### The updates of a batch -/

def itemRows (s : ShardIndex) (beginning : UInt64) (offset : Nat) (items : List Receiver) :
    List Shard :=
  items.mapIdx fun i receiver =>
    ⟨s, asI64 (beginning + UInt64.ofNat (offset + i)), encode receiver.1, encode receiver.2⟩

def senderRows (first : UInt64) (offset : Nat) (senders : List Sender) : List Nullifier :=
  senders.mapIdx fun i sender =>
    ⟨asI64 (UInt64.ofNat (offset + i) + first), encode sender.1, encode sender.2⟩

def replaceRow (table : List Nullifier) (row : Nullifier) : List Nullifier :=
  table.filter (fun r => !decide (r.idx = row.idx)) ++ [row]

section Updates

variable {serves : Serves} {R : Lru Cache.LruKeyType Bytes → Lru Cache.LruKeyType Bytes → Prop}
  {α : Type} {post : Except Error α → World → Prop} {start w : World} {db : Database}
  (trans : ∀ a b c, R a b → R b c → R a c) (at' : Pending R start (some db) w)
  (failed : ∀ error t transaction, Pending R start transaction t → post (.error error) t)

include trans at' failed

theorem runs_insertItems {s : ShardIndex} {beginning : UInt64} {offset : Nat}
    {items : List Receiver} {f : Unit → Task α}
    (ok : ∀ t, Pending R start
        (some { db with shards := db.shards ++ itemRows s beginning offset items }) t →
      Runs serves R post (f ()) t) :
    Runs serves R post (insertItems s beginning offset items >>= f) w := by
  induction items generalizing offset w db with
  | nil =>
    apply ok w
    simpa [itemRows] using at'
  | cons receiver rest ih =>
    unfold insertItems
    rw [Prog.bind_assoc]
    refine runs_fetch trans at' (fun error t => failed error t _) fun t answer here executed => ?_
    refine here.writes executed fun u db' there inserted => ?_
    unfold Database.insertShard Database.insertOrReplace at inserted
    split at inserted
    · cases inserted
      apply ih there
      intro v pending
      apply ok v
      simpa [itemRows, Nat.add_assoc, Nat.add_comm 1] using pending
    · cases inserted

theorem runs_insertShards {ck : Checkpoint} {groups : List (ShardIndex × List Receiver)}
    {f : Unit → Task α}
    (ok : ∀ t, Pending R start (some { db with
        shards := db.shards ++ groups.flatMap fun group =>
          itemRows group.1 (ck.receiverIndex group.1) 0 group.2 }) t → Runs serves R post (f ()) t) :
    Runs serves R post (insertShards ck groups >>= f) w := by
  induction groups generalizing w db with
  | nil =>
    apply ok w
    simpa using at'
  | cons group rest ih =>
    obtain ⟨s, items⟩ := group
    unfold insertShards
    rw [Prog.bind_assoc]
    apply runs_insertItems trans at' failed
    intro t here
    apply ih here
    intro u there
    apply ok u
    simpa using there

theorem runs_insertNullifiers {first : UInt64} {offset : Nat} {senders : List Sender}
    {f : Unit → Task α}
    (ok : ∀ t, Pending R start (some { db with
        nullifier := (senderRows first offset senders).foldl replaceRow db.nullifier }) t →
      Runs serves R post (f ()) t) :
    Runs serves R post (insertNullifiers first offset senders >>= f) w := by
  induction senders generalizing offset w db with
  | nil =>
    apply ok w
    simpa [senderRows] using at'
  | cons sender rest ih =>
    unfold insertNullifiers
    rw [Prog.bind_assoc]
    refine runs_fetch trans at' (fun error t => failed error t _) fun t answer here executed => ?_
    refine here.writes executed fun u db' there inserted => ?_
    unfold Database.insertNullifier Database.insertOrReplace at inserted
    split at inserted
    · cases inserted
      apply ih there
      intro v pending
      apply ok v
      simpa [senderRows, replaceRow, Nat.add_assoc, Nat.add_comm 1] using pending
    · cases inserted

/-- The tables inside the transaction when all updates of a batch are made. -/
def Database.updated (db : Database) (ck : Checkpoint) (groups : List (ShardIndex × List Receiver))
    (response : PullResponse) : Database where
  shards := db.shards ++ groups.flatMap fun group =>
    itemRows group.1 (ck.receiverIndex group.1) 0 group.2
  nullifier := (senderRows (UInt64.ofNat db.countNullifier) 0 response.senders).foldl replaceRow
    db.nullifier
  sendersReceiversTotal := db.sendersReceiversTotal.filter (fun r => !r.id) ++
    [⟨true, response.sendersReceiversTotal.val⟩]

theorem runs_updateTables {ck : Checkpoint} {groups : List (ShardIndex × List Receiver)}
    {response : PullResponse} {f : UInt64 → Task α}
    (ok : ∀ first t, Pending R start (some (db.updated ck groups response)) t →
      Runs serves R post (f first) t) :
    Runs serves R post (updateTables ck groups response >>= f) w := by
  unfold updateTables getLenOfNullifier
  simp only [Prog.bind_assoc]
  refine runs_insertShards trans at' failed fun t here => ?_
  refine runs_fetch trans here (fun error t => failed error t _) fun u answer there executed => ?_
  simp only [World.execute, World.visible, there.transaction, Except.ok.injEq] at executed ⊢
  subst executed
  split
  · refine runs_insertNullifiers trans there failed fun v pending => ?_
    refine runs_fetch trans pending (fun error t => failed error t _) fun v' answer last done => ?_
    refine last.writes done fun v'' db' there inserted => ?_
    unfold Database.insertTotal Database.insertOrReplace at inserted
    rw [if_pos rfl] at inserted
    split at inserted
    · cases inserted
      apply ok
      simpa [Database.updated, Database.countNullifier] using there
    · cases inserted
  · exact runs_fail trans there _ fun t there => failed _ t _ there

end Updates

theorem filter_itemRows (s t : ShardIndex) (beginning : UInt64) (items : List Receiver) :
    (itemRows t beginning 0 items).filter (fun row => row.shardIndex = s) =
      if t = s then itemRows t beginning 0 items else [] := by
  have shard : ∀ row ∈ itemRows t beginning 0 items, row.shardIndex = t := by
    intro row member
    obtain ⟨i, inside, rfl⟩ := List.mem_mapIdx.mp member
    rfl
  split
  · rename_i same
    exact List.filter_eq_self.mpr fun row member => decide_eq_true ((shard row member).trans same)
  · rename_i other
    rw [List.filter_eq_nil_iff]
    intro row member
    simpa [shard row member] using other

/-- In whatever order the shards are written, each gets its own rows. -/
theorem filter_rows {ck : Checkpoint} {shards : List (ShardIndex × List Receiver)}
    {order : List ShardIndex} (nodup : (shards.map Prod.fst).Nodup)
    (perm : order.Perm (shards.map Prod.fst)) (s : ShardIndex) :
    (order.flatMap fun t => itemRows t (ck.receiverIndex t) 0 (groupOf shards t)).filter
        (fun row => row.shardIndex = s) =
      itemRows s (ck.receiverIndex s) 0 (groupOf shards s) := by
  simp only [List.filter_flatMap, filter_itemRows]
  by_cases present : s ∈ order
  · exact flatMap_single present (perm.nodup_iff.mpr nodup) _
  · have nothing : groupOf shards s = [] :=
      groupOf_eq_nil fun member => present (perm.mem_iff.mpr member)
    rw [nothing, List.flatMap_eq_nil_iff.mpr]
    · rfl
    · intro t member
      rw [if_neg (ne_of_mem_of_not_mem member present)]

theorem updated_applied (ck : Checkpoint) {response : PullResponse}
    {shards : List (ShardIndex × List Receiver)} {order : List ShardIndex} (db : Database)
    (grouped : reconstructFrom [] response.receivers = .ok shards)
    (perm : order.Perm (shards.map Prod.fst)) :
    Applied ck response db
      (db.updated ck (order.map fun s => (s, groupOf shards s)) response) := by
  obtain ⟨nodup, converted, groups⟩ := reconstructFrom_groups grouped List.nodup_nil
  refine ⟨converted, fun s => ?_, ?_, rfl⟩
  · simp only [Database.rowsOf, Database.updated, List.filter_append, List.flatMap_map]
    rw [filter_rows nodup perm, groups s]
    simp [itemRows, groupOf]
  · simp only [Database.updated, senderRows, Nat.zero_add]
    rfl

theorem past_eq {ck : Checkpoint} {response : PullResponse}
    {shards : List (ShardIndex × List Receiver)} {order : List ShardIndex}
    (grouped : reconstructFrom [] response.receivers = .ok shards)
    (perm : order.Perm (shards.map Prod.fst)) :
    increasingCheckpoint ck response.senders.length (order.map fun s => (s, groupOf shards s)) =
      ck.past response := by
  apply Checkpoint.ext
  · funext s
    exact increasingCheckpoint_order grouped perm ck response.senders.length s
  · rfl

/-! ### One iteration -/

section Iteration

variable {serves : Serves} {R : Lru Cache.LruKeyType Bytes → Lru Cache.LruKeyType Bytes → Prop}
  (refl : ∀ a, R a a) (trans : ∀ a b c, R a b → R b c → R a c)

/-- How a transaction ends: with the new tables committed, or with everything as at the start. -/
def Settled (R : Lru Cache.LruKeyType Bytes → Lru Cache.LruKeyType Bytes → Prop) (start : World)
    (db : Database) : Except Error UInt64 → World → Prop
  | .ok _, t => t.db = db ∧ t.initSyncingFinished = start.initSyncingFinished
  | .error _, t => Untouched R start t

include refl trans in
theorem runs_inTransaction {start w : World} {transaction : Option Database}
    (at' : Pending R start transaction w) {ck : Checkpoint}
    {groups : List (ShardIndex × List Receiver)} {response : PullResponse} :
    Runs serves R (Settled R start (start.db.updated ck groups response))
      (inTransaction (updateTables ck groups response)) w := by
  unfold inTransaction
  refine runs_fetch trans at' (fun error t there => there.toUntouched) fun t answer here _ => ?_
  apply Ensures.onFail (Beside.refl refl)
  have begun : Pending R start (some start.db) { t with transaction := some t.db } := by
    rw [← here.db]
    exact here.wrote (some t.db)
  -- Whatever the transaction holds when an update fails, it is dropped.
  have dropped : ∀ error u transaction, Pending R start transaction u →
      Runs serves R (Settled R start (start.db.updated ck groups response))
        ((perform .rollback : Task _) >>= fun _ => .fail error) u := by
    intro error u tx there v step r v' performed
    have here := there.beside trans step
    cases performed with
    | handled _ _ outside answers =>
      exact ⟨trivial, runs_fail trans (here.wrote none) _ fun t there => there.toUntouched⟩
  refine runs_updateTables trans begun dropped fun first u there => ?_
  refine runs_fetch trans there (fun error t here => dropped _ t _ here) fun v answer here _ => ?_
  simp only [World.execute, here.transaction]
  intro v' step v'' step'
  exact ⟨(step'.db.trans step.db), (step'.flag.trans step.flag).trans here.flag⟩

variable {α : Type} {post : Except Error α → World → Prop} {db : Database} {flag : Bool} {w : World}

theorem runs_putBatchLru (committed : w.db = db ∧ w.initSyncingFinished = flag)
    {batch : List (Cache.LruKeyType × Bytes)} {f : Unit → Task α}
    (ok : ∀ t, t.db = db ∧ t.initSyncingFinished = flag → Runs serves R post (f ()) t) :
    Runs serves R post ((perform (.putBatchLru batch) : Task _) >>= f) w := by
  intro t step r u performed
  cases performed with
  | handled _ _ outside answers =>
    exact ⟨trivial, ok _ ⟨step.db.trans committed.1, step.flag.trans committed.2⟩⟩

theorem runs_refreshReceivers (committed : w.db = db ∧ w.initSyncingFinished = flag)
    {ck : Checkpoint} {groups : List (ShardIndex × List Receiver)} {f : Unit → Task α}
    (ok : ∀ t, t.db = db ∧ t.initSyncingFinished = flag → Runs serves R post (f ()) t) :
    Runs serves R post (refreshReceivers ck groups >>= f) w := by
  induction groups generalizing w with
  | nil => exact ok w committed
  | cons group rest ih =>
    unfold refreshReceivers putBatchReceiver
    rw [Prog.bind_assoc]
    exact runs_putBatchLru committed fun t there => ih there

/-- The end of an iteration whose batch is committed. -/
theorem runs_leave {start : World} {ck : Checkpoint} {node : Ledger} {second third : UInt64}
    {response : PullResponse} (served : serves node ck second third response)
    (applied : Applied ck response start.db db)
    (committed : w.db = db ∧ w.initSyncingFinished = start.initSyncingFinished) :
    Runs serves R (Ended serves R start ck) (if !response.shouldContinue then do
        perform .storeInitSyncingFinished
        return none
      else return some (ck.past response)) w := by
  cases more : response.shouldContinue with
  | false =>
    intro t step r u performed
    cases performed with
    | handled _ _ outside answers =>
      refine ⟨trivial, fun v step' => ⟨node, second, third, response, served, ?_, ?_⟩⟩
      · rw [step'.db.trans (step.db.trans committed.1)]
        exact applied
      · exact .inl ⟨more, rfl, step'.flag⟩
  | true =>
    intro t step
    refine ⟨node, second, third, response, served, ?_, ?_⟩
    · rw [step.db.trans committed.1]
      exact applied
    · exact .inr ⟨more, rfl, step.flag.trans committed.2⟩

include refl trans in
theorem syncIteration_ends (config : SyncConfig) (ck : Checkpoint) (w : World) :
    Runs serves R (Ended serves R w ck) (syncIteration config ck) w := by
  have start : Pending R w w.transaction w := ⟨⟨rfl, rfl, refl _⟩, rfl⟩
  unfold syncIteration synchronizeLedger reconstructShardsFromPullResponse
  simp only [Prog.bind_assoc]
  refine runs_request trans start fun t r here answered => ?_
  cases r with
  | error error => exact runs_fail trans here _ fun t there => there.toUntouched
  | ok response =>
    obtain ⟨node, served⟩ := answered response rfl
    rw [Prog.lift_ok, Prog.bind_ret]
    cases grouped : reconstructFrom [] response.receivers with
    | error error => exact runs_fail trans here _ fun t there => there.toUntouched
    | ok shards =>
      rw [Prog.lift_ok, Prog.bind_ret]
      refine runs_iterate trans here fun u order there perm => ?_
      have applied := updated_applied ck w.db grouped perm
      simp only [Prog.pure_eq, Prog.bind_ret, past_eq grouped perm]
      apply Ensures.bind (Beside.refl refl)
      apply (runs_inTransaction refl trans there).mono
      intro out v settled
      cases out with
      | error error =>
        intro v' step
        exact ⟨step.db.trans settled.db, step.flag.trans settled.flag,
          trans _ _ _ settled.lru step.lru⟩
      | ok first =>
        simp only [thenEnsures]
        split
        · refine runs_refreshReceivers settled fun v' there => ?_
          exact runs_putBatchLru there fun v'' last => runs_leave served applied last
        · exact runs_leave served applied settled

end Iteration

/-! ### A whole call -/

/-- The checkpoint that `get_latest_check_point` counts. -/
def Database.latest (db : Database) : Checkpoint :=
  ⟨fun s => UInt64.ofNat (db.countShards s), UInt64.ofNat db.countNullifier⟩

section Call

variable {serves : Serves} {R : Lru Cache.LruKeyType Bytes → Lru Cache.LruKeyType Bytes → Prop}
  (refl : ∀ a, R a a) (trans : ∀ a b c, R a b → R b c → R a c)

include trans in
theorem runs_countReceivers {α : Type} {post : Except Error α → World → Prop} {start w : World}
    {transaction : Option Database} (at' : Pending R start transaction w)
    (failed : ∀ error t, Pending R start transaction t → post (.error error) t)
    {shards : List ShardIndex} {ckp : Checkpoint} {f : Checkpoint → Task α}
    (ok : ∀ t, Pending R start transaction t → Runs serves R post (f { ckp with
      receiverIndex := fun s => if s ∈ shards then UInt64.ofNat (start.db.countShards s)
        else ckp.receiverIndex s }) t) :
    Runs serves R post (countReceivers shards ckp >>= f) w := by
  induction shards generalizing ckp w with
  | nil =>
    have same := ok w at'
    simp only [List.not_mem_nil, if_false] at same
    exact same
  | cons first rest ih =>
    unfold countReceivers
    rw [Prog.bind_assoc]
    refine runs_fetch trans at' failed fun t answer here executed => ?_
    cases executed
    apply ih here
    intro u there
    have last := ok u there
    have merged : (fun s => if s ∈ first :: rest then UInt64.ofNat (start.db.countShards s)
          else ckp.receiverIndex s) =
        fun s => if s ∈ rest then UInt64.ofNat (start.db.countShards s)
          else Function.update ckp.receiverIndex first (UInt64.ofNat (t.db.countShards first)) s := by
      funext s
      rw [here.db]
      by_cases same : s = first
      · subst same
        simp
      · simp [same]
    rw [merged] at last
    exact last

include refl trans in
theorem getLatestCheckPoint_ends (w : World) :
    Runs serves R (fun out t => Untouched R w t ∧ ∀ ck, out = .ok ck → ck = w.db.latest)
      getLatestCheckPoint w := by
  have start : Pending R w w.transaction w := ⟨⟨rfl, rfl, refl _⟩, rfl⟩
  have stopped : ∀ error ck, (.error error : Except Error Checkpoint) = .ok ck → ck = w.db.latest := by
    intro error ck same
    cases same
  unfold getLatestCheckPoint getLenOfNullifier
  simp only [Prog.bind_assoc]
  refine runs_countReceivers trans start (fun error t there => ⟨there.toUntouched, stopped _⟩)
    fun t here => ?_
  refine runs_fetch trans here (fun error t there => ⟨there.toUntouched, stopped _⟩)
    fun u answer there executed => ?_
  simp only [World.execute, World.visible, Except.ok.injEq] at executed ⊢
  subst executed
  split
  · intro v step
    refine ⟨(there.beside trans step).toUntouched, fun ck same => ?_⟩
    cases same
    simp [Database.latest, there.db]
  · exact runs_fail trans there _ fun t there => ⟨there.toUntouched, stopped _⟩

variable {env : World → World → Prop} (beside : ∀ w v, env w v → Beside R w v) {config : SyncConfig}

include refl trans beside

theorem iteration_ended {ck : Checkpoint} {w t : World} {history : List (Event World Op)}
    {out : Except Error (Option Checkpoint)}
    (run : Exec (Performs serves) env (syncIteration config ck) w history out t) :
    Ended serves R w ck out t :=
  (syncIteration_ends refl trans config ck w).exec (Beside.refl refl) (Beside.trans trans) beside run

theorem SyncLoop.batches {ck : Checkpoint} {w t : World} {out : Except Error Unit}
    (loop : SyncLoop serves env config ck w out t) :
    ∃ responses, Batches serves ck w.db responses t.db ∧
      (t.initSyncingFinished = w.initSyncingFinished ∨
        ∃ response ∈ responses, response.shouldContinue = false) := by
  induction loop with
  | failed iterated =>
    have untouched := iteration_ended refl trans beside iterated
    refine ⟨[], ?_, .inl untouched.flag⟩
    rw [untouched.db]
    exact .nil _ _
  | finished iterated =>
    obtain ⟨node, second, third, response, served, applied, leaves⟩ :=
      iteration_ended refl trans beside iterated
    rcases leaves with ⟨stops, -, -⟩ | ⟨-, next, -⟩
    · exact ⟨[response], .cons served applied (.nil _ _), .inr ⟨response, by simp, stops⟩⟩
    · cases next
  | continued iterated rest ih =>
    obtain ⟨node, second, third, response, served, applied, leaves⟩ :=
      iteration_ended refl trans beside iterated
    obtain ⟨responses, others, flag⟩ := ih
    rcases leaves with ⟨-, next, -⟩ | ⟨-, next, kept⟩
    · cases next
    · cases next
      refine ⟨response :: responses, .cons served applied others, ?_⟩
      rcases flag with same | ⟨last, member, stops⟩
      · exact .inl (same.trans kept)
      · exact .inr ⟨last, List.mem_cons_of_mem _ member, stops⟩

end Call

end Batches

/-- Whatever the full node answers and wherever an iteration of the synchronization fails, the tables
and the flag are then as they were, and the cache has only been changed by the others, as `R` says:
not at all when nobody is beside the syncing task. After a call that returned, the tables are those
before it with whole answers of the full node added, and the flag has only changed if one of these
was a last one. -/
theorem batch_all_or_nothing [Pallet] {serves : Serves} {env : World → World → Prop}
    {R : Lru Cache.LruKeyType Bytes → Lru Cache.LruKeyType Bytes → Prop} (refl : ∀ a, R a a)
    (trans : ∀ a b c, R a b → R b c → R a c) (beside : ∀ w v, env w v → Beside R w v)
    (config : SyncConfig) :
    (∀ ck w t history error,
      Exec (Performs serves) env (syncIteration config ck) w history (.error error) t →
        t.db = w.db ∧ t.initSyncingFinished = w.initSyncingFinished ∧ R w.lru t.lru) ∧
    ∀ w out t, SyncCall serves env config w out t →
      ∃ responses, Batches serves w.db.latest w.db responses t.db ∧
        (t.initSyncingFinished ≠ w.initSyncingFinished →
          ∃ response ∈ responses, response.shouldContinue = false) := by
  constructor
  · intro ck w t history error run
    have untouched := iteration_ended refl trans beside run
    exact ⟨untouched.db, untouched.flag, untouched.lru⟩
  · intro w out t call
    cases call with
    | notStarted counted =>
      obtain ⟨untouched, -⟩ := (getLatestCheckPoint_ends refl trans w).exec (Beside.refl refl)
        (Beside.trans trans) beside counted
      refine ⟨[], ?_, fun changed => absurd untouched.flag changed⟩
      rw [untouched.db]
      exact .nil _ _
    | started counted loop =>
      obtain ⟨untouched, latest⟩ := (getLatestCheckPoint_ends refl trans w).exec (Beside.refl refl)
        (Beside.trans trans) beside counted
      obtain ⟨responses, batches, flag⟩ := loop.batches refl trans beside
      rw [latest _ rfl, untouched.db] at batches
      refine ⟨responses, batches, fun changed => ?_⟩
      rcases flag with same | last
      · exact absurd (same.trans untouched.flag) changed
      · exact last

section Sample

attribute [local instance] samplePallet

/-- A full node whose answers are last ones with one receiver and one sender. -/
def sampleAnswering : Outside where
  pullLedgerDiff _ _ _ := .ok ⟨false, [sampleReceiver 0 7], [sampleSender 9], sampleTotal⟩
  hashOrder := id
  perm := List.Perm.refl

theorem sample_alone {α : Type} (outside : Outside) (p : Task α) (w : World) :
    ∃ history, Exec (Performs anyNode) (fun _ _ => False) p w history
      (p.run (World.handle outside) w).1 (p.run (World.handle outside) w).2 :=
  Prog.run_exec (fun s op => .handled s op outside fun _ _ _ _ _ => trivial) p w

/-- With nobody beside it: an iteration that gets no answer, and a call that commits one. -/
theorem batch_all_or_nothing_sample :
    (∃ history t, Exec (Performs anyNode) (fun _ _ => False)
        (syncIteration ⟨(1, 1), true⟩ Checkpoint.default) sampleFresh history
        (.error .jsonRpsee) t ∧
      t.db = sampleFresh.db ∧ t.initSyncingFinished = sampleFresh.initSyncingFinished ∧
      sampleFresh.lru = t.lru) ∧
    ∃ t, SyncCall anyNode (fun _ _ => False) ⟨(1, 1), true⟩ sampleFresh (.ok ()) t ∧
      t.db ≠ sampleFresh.db ∧ t.initSyncingFinished ≠ sampleFresh.initSyncingFinished ∧
      ∃ responses, Batches anyNode sampleFresh.db.latest sampleFresh.db responses t.db ∧
        (t.initSyncingFinished ≠ sampleFresh.initSyncingFinished →
          ∃ response ∈ responses, response.shouldContinue = false) := by
  have atomic := @batch_all_or_nothing _ anyNode (fun _ _ => False) Eq
    (fun _ => rfl) (fun _ _ _ => Eq.trans) (fun _ _ impossible => impossible.elim) ⟨(1, 1), true⟩
  constructor
  · obtain ⟨history, run⟩ := sample_alone Outside.offline
      (syncIteration ⟨(1, 1), true⟩ Checkpoint.default) sampleFresh
    exact ⟨_, _, run, atomic.1 _ _ _ _ _ run⟩
  · obtain ⟨history, counted⟩ := sample_alone sampleAnswering getLatestCheckPoint sampleFresh
    rw [getLatestCheckPoint_run (by decide)] at counted
    obtain ⟨history', iterated⟩ := sample_alone sampleAnswering
      (syncIteration ⟨(1, 1), true⟩ sampleFresh.db.latest) sampleFresh
    have call : SyncCall anyNode (fun _ _ => False) ⟨(1, 1), true⟩ sampleFresh _ _ :=
      .started counted (.finished iterated)
    exact ⟨_, call, by decide +kernel, by decide +kernel, atomic.2 _ _ _ call⟩

end Sample

end MantaIndexer
