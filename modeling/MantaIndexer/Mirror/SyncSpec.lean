import MantaIndexer.Mirror.Batch
import MantaIndexer.Mirror.Reads

/-!
What the syncing task does while pulls run beside it. Between two of its operations the others only
change the cache; its own operations leave the mirrored ledger alone until the commit, which extends
it by the response of the full node.
-/

namespace MantaIndexer
open Effects Encoding Collections

variable [P : Pallet]

/-- What is known about the full node, in terms of the mirrored ledger and the ledger of the node:
`keeps` holds before and after every batch, `complete` after a last one. -/
structure Contract (serves : Serves) where
  keeps : Ledger → Ledger → Prop
  complete : Ledger → Ledger → Prop
  starts : ∀ node, keeps Ledger.empty node
  later : ∀ {L node node'}, keeps L node → node ≤ node' → keeps L node'
  accepts : ∀ {L node second third response}, keeps L node → L.Below (2 ^ 63) →
    serves node L.checkpoint second third response →
    (∀ receiver ∈ response.receivers, ∃ s, treeIndex receiver.1 = some s) →
    keeps (L.append response) node
  completes : ∀ {L node second third response}, keeps L node → L.Below (2 ^ 63) →
    serves node L.checkpoint second third response →
    (∀ receiver ∈ response.receivers, ∃ s, treeIndex receiver.1 = some s) →
    response.shouldContinue = false → complete (L.append response) node

section Contract

variable {serves : Serves} (C : Contract serves)

structure Adds (w v : World) : Prop where
  node : v.node = w.node
  served : v.served = w.served ∨ v.served = w.node
  ledger : ∃ L M, Mirrors L w ∧ Mirrors M v ∧ L ≤ M ∧ C.keeps M v.node

/-- The nullifiers counted inside the transaction are as many as the checkpoint says. -/
def Counted (ck : Checkpoint) (w : World) (op : Op) : Prop :=
  op = .sql (.countNullifier .transaction) →
    ∃ db, w.transaction = some db ∧ UInt64.ofNat db.countNullifier = ck.senderIndex

/-- Every run of the task from here, with the others in between, adds to the ledger and ends in
`post`. -/
abbrev Syncs {α : Type} (ck : Checkpoint) (post : Except Error α → World → Prop) (p : Task α)
    (w : World) : Prop :=
  Ensures (Performs serves) Quiet (fun w op v => Adds C w v ∧ Counted ck w op) post p w

/-- The state of an iteration: the ledger `L` is mirrored, the full node answered when its ledger
was `node`, and the open transaction is `transaction`. -/
structure Syncing (L node : Ledger) (transaction : Option Database) (w : World) : Prop where
  mirrors : Mirrors L w
  keeps : C.keeps L w.node
  served : w.served = node
  node : node ≤ w.node
  transaction : w.transaction = transaction

variable {C} {L node : Ledger} {transaction : Option Database} {w v : World}

theorem Syncing.quiet (h : Syncing C L node transaction w) (step : Quiet w v) :
    Syncing C L node transaction v :=
  ⟨step.mirrors h.mirrors, C.later h.keeps step.node, step.served.trans h.served,
    Ledger.le_trans h.node step.node, step.transaction.trans h.transaction⟩

theorem Syncing.adds (h : Syncing C L node transaction w) (mirrors : Mirrors L v)
    (same : v.node = w.node) (served : v.served = w.served ∨ v.served = w.node) : Adds C w v :=
  ⟨same, served, L, L, h.mirrors, mirrors, L.le_refl, same ▸ h.keeps⟩

theorem execute_error {query : Query} {error : SqlxError} (h : (w.execute query).1 = .error error) :
    (w.execute query).2 = w := by
  cases query with
  | insertShard executor row | insertNullifier executor row | insertTotal executor row
  | appendNullifier executor first second =>
    simp only [World.execute, World.write] at h ⊢
    split at h
    · rfl
    · cases executor <;> cases h
  | countNullifier executor =>
    simp only [World.execute] at h ⊢
    split <;> rfl
  | commit =>
    simp only [World.execute] at h ⊢
    split at h
    · cases h
    · rfl
  | begin => cases h
  | _ => rfl

/-! ### Rules -/

section Rules

variable {α β : Type} {ck : Checkpoint} {post : Except Error α → World → Prop}
  (at' : Syncing C L node transaction w)

include at'

theorem syncs_fail (error : Error)
    (failed : ∀ t, Syncing C L node transaction t → post (.error error) t) :
    Syncs C ck post (.fail error) w :=
  fun t step => failed t (at'.quiet step)

theorem syncs_fetch {query : Query} {f : query.Answer → Task α}
    (counted : ∀ t, Syncing C L node transaction t → Counted ck t (.sql query))
    (failed : ∀ error t, Syncing C L node transaction t → post (.error error) t)
    (ok : ∀ t answer, Syncing C L node transaction t → (t.execute query).1 = .ok answer →
      Adds C t (t.execute query).2 ∧ Syncs C ck post (f answer) (t.execute query).2) :
    Syncs C ck post (fetch query >>= f) w := by
  intro t step r u performed
  have here := at'.quiet step
  have same := here.adds here.mirrors rfl (.inl rfl)
  cases performed with
  | handled _ _ outside answers =>
    simp only [World.handle]
    cases result : (t.execute query).1 with
    | error error =>
      rw [execute_error result]
      exact ⟨⟨same, counted t here⟩, syncs_fail here _ (failed _)⟩
    | ok answer =>
      obtain ⟨adds, rest⟩ := ok t answer here result
      exact ⟨⟨adds, counted t here⟩, rest⟩
  | failed query error => exact ⟨⟨same, counted t here⟩, syncs_fail here _ (failed _)⟩

theorem syncs_request {ck' : Checkpoint} {second third : UInt64}
    {f : Except Error PullResponse → Task α}
    (h : ∀ t r node, Syncing C L node transaction t → C.keeps L node →
      (∀ response, r = .ok response → serves node ck' second third response) →
      Syncs C ck post (f r) t) :
    Syncs C ck post ((perform (.request ck' second third) : Task _) >>= f) w := by
  intro t step r u performed
  have here := at'.quiet step
  cases performed with
  | handled _ _ outside answers =>
    have mirrors : Mirrors L { t with served := t.node } :=
      ⟨here.mirrors.represents, here.mirrors.coherent⟩
    refine ⟨⟨here.adds mirrors rfl (.inr rfl), nofun⟩,
      h _ _ t.node ?_ here.keeps fun response => answers _ _ _ response⟩
    exact ⟨mirrors, here.keeps, rfl, t.node.le_refl, here.transaction⟩

theorem syncs_iterate {keys : List ShardIndex} {f : List ShardIndex → Task α}
    (h : ∀ t order, Syncing C L node transaction t → order.Perm keys →
      Syncs C ck post (f order) t) :
    Syncs C ck post ((perform (.iterate keys) : Task _) >>= f) w := by
  intro t step r u performed
  have here := at'.quiet step
  cases performed with
  | handled _ _ outside answers =>
    exact ⟨⟨here.adds here.mirrors rfl (.inl rfl), nofun⟩, h t _ here (outside.perm keys)⟩

theorem syncs_putBatchLru {batch : List (Cache.LruKeyType × Bytes)}
    (cached : ∀ entry ∈ batch, Caches L entry) {f : Unit → Task α}
    (h : ∀ t, Syncing C L node transaction t → Syncs C ck post (f ()) t) :
    Syncs C ck post ((perform (.putBatchLru batch) : Task _) >>= f) w := by
  intro t step r u performed
  have here := at'.quiet step
  cases performed with
  | handled _ _ outside answers =>
    have mirrors := (quiet_putBatchLru here.mirrors cached).mirrors here.mirrors
    refine ⟨⟨here.adds mirrors rfl (.inl rfl), nofun⟩, h _ ?_⟩
    exact ⟨mirrors, here.keeps, here.served, here.node, here.transaction⟩

end Rules

/-! ### The transaction -/

omit P in
theorem write_transaction [Pallet] {w : World} {db : Database}
    {statement : Database → Option Database} {answer : Unit} (inside : w.transaction = some db)
    (h : (w.write .transaction statement).1 = .ok answer) :
    ∃ db', statement db = some db' ∧
      (w.write .transaction statement).2 = { w with transaction := some db' } := by
  simp only [World.write, World.visible, inside, Option.bind_some] at h ⊢
  cases written : statement db with
  | none =>
    rw [written] at h
    cases h
  | some db' => exact ⟨db', rfl, rfl⟩

theorem Syncing.wrote (h : Syncing C L node transaction w) (db : Option Database) :
    Syncing C L node db { w with transaction := db } :=
  ⟨⟨h.mirrors.represents, h.mirrors.coherent⟩, h.keeps, h.served, h.node, rfl⟩

theorem Syncing.writes {α : Type} {ck : Checkpoint} {post : Except Error α → World → Prop}
    {db : Database} (h : Syncing C L node (some db) w) {statement : Database → Option Database}
    {answer : Unit} {rest : Task α} (executed : (w.write .transaction statement).1 = .ok answer)
    (ok : ∀ t db', Syncing C L node (some db') t → statement db = some db' →
      Syncs C ck post rest t) :
    Adds C w (w.write .transaction statement).2 ∧
      Syncs C ck post rest (w.write .transaction statement).2 := by
  obtain ⟨db', written, same⟩ := write_transaction h.transaction executed
  have there := h.wrote (some db')
  rw [same]
  exact ⟨h.adds there.mirrors rfl (.inl rfl), ok _ db' there written⟩

section Transaction

variable {α : Type} {ck : Checkpoint} {post : Except Error α → World → Prop} {db : Database}
  {M : Ledger} (at' : Syncing C L node (some db) w) (holds : Represents db M)
  (failed : ∀ error t transaction, Syncing C L node transaction t → post (.error error) t)

include at' holds failed

theorem syncs_insertOneShard {s : ShardIndex} {x : UInt64} (next : x = UInt64.ofNat (M.count s))
    (receiver : Receiver) {f : Unit → Task α}
    (ok : ∀ t db', Syncing C L node (some db') t →
      Represents db' (M.extend (only s [receiver]) []) → Syncs C ck post (f ()) t) :
    Syncs C ck post (insertOneShard .transaction s x receiver.1 receiver.2 >>= f) w := by
  refine syncs_fetch at' (fun _ _ => nofun) (fun error t => failed error t _) ?_
  intro t answer here executed
  exact here.writes executed fun u db' there inserted =>
    ok u db' there (holds.insertShard next inserted)

theorem syncs_insertOneNullifier {x : UInt64} (next : x = UInt64.ofNat M.senders.length)
    (sender : Sender) {f : Unit → Task α}
    (ok : ∀ t db', Syncing C L node (some db') t →
      Represents db' (M.extend (fun _ => []) [sender]) → Syncs C ck post (f ()) t) :
    Syncs C ck post (insertOneNullifier .transaction x sender.1 sender.2 >>= f) w := by
  refine syncs_fetch at' (fun _ _ => nofun) (fun error t => failed error t _) ?_
  intro t answer here executed
  exact here.writes executed fun u db' there inserted =>
    ok u db' there (holds.insertNullifier next inserted)

theorem syncs_updateOrInsertTotal {total : TotalBytes} {f : Unit → Task α}
    (ok : ∀ t db', Syncing C L node (some db') t → Represents db' M → Syncs C ck post (f ()) t) :
    Syncs C ck post (updateOrInsertTotalSendersReceivers .transaction total >>= f) w := by
  refine syncs_fetch at' (fun _ _ => nofun) (fun error t => failed error t _) ?_
  intro t answer here executed
  exact here.writes executed fun u db' there inserted =>
    ok u db' there (holds.insertTotal inserted)

theorem syncs_getLenOfNullifier (sent : UInt64.ofNat M.senders.length = ck.senderIndex)
    {f : UInt64 → Task α}
    (ok : ∀ t, Syncing C L node (some db) t →
      Syncs C ck post (f (UInt64.ofNat M.senders.length)) t) :
    Syncs C ck post (getLenOfNullifier .transaction >>= f) w := by
  unfold getLenOfNullifier
  rw [Prog.bind_assoc]
  refine syncs_fetch at' ?_ (fun error t => failed error t _) ?_
  · intro t here _
    exact ⟨db, here.transaction, holds.countNullifier ▸ sent⟩
  · intro t answer here executed
    simp only [World.execute, World.visible, here.transaction, Except.ok.injEq] at executed ⊢
    subst executed
    refine ⟨here.adds here.mirrors rfl (.inl rfl), ?_⟩
    rw [holds.countNullifier]
    split
    · exact ok t here
    · exact syncs_fail here _ fun t there => failed _ t _ there

/-- The items of one shard, from the offset up to which the shard is filled already. -/
theorem syncs_insertItems {s : ShardIndex} {beginning : UInt64} {base offset : Nat}
    (begins : beginning = UInt64.ofNat base) (filled : M.count s = base + offset)
    {items : List Receiver} {f : Unit → Task α}
    (ok : ∀ t db', Syncing C L node (some db') t →
      Represents db' (M.extend (only s items) []) → Syncs C ck post (f ()) t) :
    Syncs C ck post (insertItems s beginning offset items >>= f) w := by
  induction items generalizing offset w db M with
  | nil =>
    apply ok w db at'
    have nothing : only s ([] : List Receiver) = fun _ => [] := by
      funext t
      simp [only]
    rw [nothing, Ledger.extend_nothing]
    exact holds
  | cons receiver rest ih =>
    unfold insertItems
    rw [Prog.bind_assoc]
    refine syncs_insertOneShard at' holds failed ?_ receiver fun t db' there holds' => ?_
    · rw [begins, filled, ← UInt64.ofNat_add]
    · refine ih there holds' ?_ fun u db'' there holds'' => ok u db'' there ?_
      · rw [Ledger.count_extend, filled, only, if_pos rfl]
        rfl
      · rw [Ledger.extend_extend] at holds''
        have joined : (fun t => only s [receiver] t ++ only s rest t) = only s (receiver :: rest) := by
          funext t
          by_cases same : t = s <;> simp [only, same]
        rwa [joined] at holds''

theorem syncs_insertShards {groups : List (ShardIndex × List Receiver)}
    (nodup : (groups.map Prod.fst).Nodup)
    (begins : ∀ s ∈ groups.map Prod.fst, ck.receiverIndex s = UInt64.ofNat (M.count s))
    {f : Unit → Task α}
    (ok : ∀ t db', Syncing C L node (some db') t →
      Represents db' (M.extend (groupOf groups) []) → Syncs C ck post (f ()) t) :
    Syncs C ck post (insertShards ck groups >>= f) w := by
  induction groups generalizing w db M with
  | nil =>
    apply ok w db at'
    have nothing : groupOf ([] : List (ShardIndex × List Receiver)) = fun _ => [] := rfl
    rw [nothing, Ledger.extend_nothing]
    exact holds
  | cons head rest ih =>
    obtain ⟨s, items⟩ := head
    obtain ⟨fresh, nodup⟩ := List.nodup_cons.mp nodup
    unfold insertShards
    rw [Prog.bind_assoc]
    refine syncs_insertItems at' holds failed (begins s List.mem_cons_self) (Nat.add_zero _).symm
      fun t db' there holds' => ?_
    refine ih there holds' nodup ?_ fun u db'' there holds'' => ok u db'' there ?_
    · intro t member
      have other := ne_of_mem_of_not_mem member fresh
      rw [begins t (List.mem_cons_of_mem _ member), Ledger.count_extend, only, if_neg other]
      rfl
    · rw [Ledger.extend_extend] at holds''
      have joined : (fun t => only s items t ++ groupOf rest t) = groupOf ((s, items) :: rest) := by
        funext t
        by_cases same : t = s
        · subst same
          simp [only, groupOf, groupOf_eq_nil fresh]
        · simp [only, groupOf, same, Ne.symm same]
      rwa [joined] at holds''

theorem syncs_insertNullifiers {first : UInt64} {base offset : Nat}
    (begins : first = UInt64.ofNat base) (filled : M.senders.length = base + offset)
    {senders : List Sender} {f : Unit → Task α}
    (ok : ∀ t db', Syncing C L node (some db') t →
      Represents db' (M.extend (fun _ => []) senders) → Syncs C ck post (f ()) t) :
    Syncs C ck post (insertNullifiers first offset senders >>= f) w := by
  induction senders generalizing offset w db M with
  | nil =>
    apply ok w db at'
    rw [Ledger.extend_nothing]
    exact holds
  | cons sender rest ih =>
    unfold insertNullifiers
    rw [Prog.bind_assoc]
    refine syncs_insertOneNullifier at' holds failed ?_ sender fun t db' there holds' => ?_
    · rw [begins, filled, ← UInt64.ofNat_add, Nat.add_comm]
    · refine ih there holds' ?_ fun u db'' there holds'' => ok u db'' there ?_
      · rw [Ledger.extend, List.length_append, filled]
        rfl
      · rw [Ledger.extend_extend] at holds''
        exact holds''

end Transaction

/-! ### One iteration -/

section Iteration

variable {groups : List (ShardIndex × List Receiver)} {response : PullResponse}

theorem syncs_updateTables {α : Type} {post : Except Error α → World → Prop} {db : Database}
    (at' : Syncing C L node (some db) w) (holds : Represents db L)
    (nodup : (groups.map Prod.fst).Nodup)
    (failed : ∀ error t transaction, Syncing C L node transaction t → post (.error error) t)
    {f : UInt64 → Task α}
    (ok : ∀ t db', Syncing C L node (some db') t →
      Represents db' (L.extend (groupOf groups) response.senders) →
      Syncs C L.checkpoint post (f (UInt64.ofNat L.senders.length)) t) :
    Syncs C L.checkpoint post (updateTables L.checkpoint groups response >>= f) w := by
  unfold updateTables
  simp only [Prog.bind_assoc]
  refine syncs_insertShards at' holds failed nodup (fun _ _ => rfl) fun t db' there holds' => ?_
  have counted : (L.extend (groupOf groups) []).senders.length = L.senders.length := by
    simp [Ledger.extend]
  refine syncs_getLenOfNullifier there holds' failed (by rw [counted]; rfl) fun u there => ?_
  rw [counted]
  refine syncs_insertNullifiers there holds' failed rfl counted fun v db'' there holds'' => ?_
  refine syncs_updateOrInsertTotal there holds'' failed fun v' db''' there holds''' => ?_
  rw [Ledger.extend_extend] at holds'''
  apply ok v' db''' there
  simpa using holds'''

/-- How a transaction ends: with the ledger `M` committed, or with the ledger `L` as before. -/
def Committed (C : Contract serves) (L M node : Ledger) : Except Error UInt64 → World → Prop
  | .ok first, w => first = UInt64.ofNat L.senders.length ∧ Syncing C M node none w
  | .error _, w => ∃ transaction, Syncing C L node transaction w

/-- The updates become visible together or not at all. -/
theorem syncs_inTransaction (at' : Syncing C L node transaction w)
    (nodup : (groups.map Prod.fst).Nodup)
    (accepted : ∀ n, node ≤ n → C.keeps (L.extend (groupOf groups) response.senders) n) :
    Syncs C L.checkpoint (Committed C L (L.extend (groupOf groups) response.senders) node)
      (inTransaction (updateTables L.checkpoint groups response)) w := by
  unfold inTransaction
  refine syncs_fetch at' (fun _ _ => nofun) (fun error t there => ⟨_, there⟩) ?_
  intro t answer here _
  have begun := here.wrote (some t.db)
  refine ⟨here.adds begun.mirrors rfl (.inl rfl), Ensures.onFail Quiet.refl ?_⟩
  -- A failure leaves the mirrored ledger, whatever the transaction holds, and is rolled back.
  have rolledBack : ∀ error u transaction, Syncing C L node transaction u →
      Syncs C L.checkpoint (Committed C L (L.extend (groupOf groups) response.senders) node)
        ((perform .rollback : Task _) >>= fun _ => .fail error) u := by
    intro error u tx there v step r v' performed
    have here := there.quiet step
    cases performed with
    | handled _ _ outside answers =>
      have dropped := here.wrote none
      exact ⟨⟨here.adds dropped.mirrors rfl (.inl rfl), nofun⟩,
        syncs_fail dropped _ fun t there => ⟨_, there⟩⟩
  refine syncs_updateTables begun here.mirrors.represents nodup rolledBack fun u db' there holds => ?_
  refine syncs_fetch there (fun _ _ => nofun) (fun error t here => rolledBack _ t _ here) ?_
  intro v answer here executed
  simp only [World.execute, here.transaction]
  have longer := L.le_extend (groupOf groups) response.senders
  have committed : Syncing C (L.extend (groupOf groups) response.senders) node none
      { v with db := db', transaction := none } :=
    ⟨⟨holds, here.mirrors.coherent.mono longer⟩, accepted _ here.node, here.served, here.node, rfl⟩
  refine ⟨⟨rfl, .inl rfl, L, _, here.mirrors, committed.mirrors, longer, committed.keeps⟩, ?_⟩
  intro v' step v'' step'
  exact ⟨rfl, (committed.quiet step).quiet step'⟩

theorem syncs_refreshReceivers {α : Type} {post : Except Error α → World → Prop}
    {gains : ShardIndex → List Receiver} {senders : List Sender}
    (at' : Syncing C (L.extend gains senders) node transaction w)
    (grouped : ∀ group ∈ groups, group.2 = gains group.1) {f : Unit → Task α}
    (ok : ∀ t, Syncing C (L.extend gains senders) node transaction t →
      Syncs C L.checkpoint post (f ()) t) :
    Syncs C L.checkpoint post (refreshReceivers L.checkpoint groups >>= f) w := by
  induction groups generalizing w with
  | nil => exact ok w at'
  | cons head rest ih =>
    obtain ⟨s, items⟩ := head
    unfold refreshReceivers putBatchReceiver
    rw [Prog.bind_assoc]
    refine syncs_putBatchLru at' ?_ fun t there => ?_
    · have same : items = gains s := grouped (s, items) List.mem_cons_self
      rw [same]
      exact caches_cacheBatch_receivers s
    · exact ih there fun group member => grouped group (List.mem_cons_of_mem _ member)

/-- How an iteration ends: some accepted ledger is mirrored; the checkpoint for the next iteration
is just past it, and when there is none the ledger is complete. -/
def Iterated (C : Contract serves) (out : Except Error (Option Checkpoint)) (w : World) : Prop :=
  ∃ M, Mirrors M w ∧ C.keeps M w.node ∧ (∀ ck, out = .ok (some ck) → ck = M.checkpoint) ∧
    (out = .ok none → C.complete M w.served)

theorem Syncing.iterated_error (h : Syncing C L node transaction w) (error : Error) :
    Iterated C (.error error) w :=
  ⟨L, h.mirrors, h.keeps, nofun, nofun⟩

theorem syncs_leave {M : Ledger} {ck next : Checkpoint} {more : Bool}
    (at' : Syncing C M node transaction w) (past : next = M.checkpoint)
    (complete : more = false → C.complete M node) :
    Syncs C ck (Iterated C) (if !more then do
        perform .storeInitSyncingFinished
        return none
      else return some next) w := by
  cases more with
  | false =>
    intro t step r u performed
    have here := at'.quiet step
    cases performed with
    | handled _ _ outside answers =>
      have mirrors : Mirrors M { t with initSyncingFinished := true } :=
        ⟨here.mirrors.represents, here.mirrors.coherent⟩
      refine ⟨⟨here.adds mirrors rfl (.inl rfl), nofun⟩, fun v step => ?_⟩
      have there : Syncing C M node transaction { t with initSyncingFinished := true } :=
        ⟨mirrors, here.keeps, here.served, here.node, here.transaction⟩
      have last := there.quiet step
      exact ⟨M, last.mirrors, last.keeps, nofun, fun _ => last.served ▸ complete rfl⟩
  | true =>
    intro t step
    have here := at'.quiet step
    refine ⟨M, here.mirrors, here.keeps, fun ck same => ?_, nofun⟩
    cases same
    exact past

theorem syncIteration_syncs (at' : Syncing C L node transaction w) (config : SyncConfig) :
    Syncs C L.checkpoint (Iterated C) (syncIteration config L.checkpoint) w := by
  unfold syncIteration synchronizeLedger reconstructShardsFromPullResponse
  simp only [Prog.bind_assoc]
  refine syncs_request at' fun t r node here keeps served => ?_
  cases r with
  | error error => exact syncs_fail here _ fun t there => there.iterated_error _
  | ok response =>
    have answer := served response rfl
    have below := here.mirrors.represents.below.weaken (by decide : _ ≤ 2 ^ 63)
    rw [Prog.lift_ok, Prog.bind_ret]
    cases grouped : reconstructFrom [] response.receivers with
    | error error => exact syncs_fail here _ fun t there => there.iterated_error _
    | ok shards =>
      obtain ⟨nodup, converted, groups⟩ := reconstructFrom_groups grouped List.nodup_nil
      rw [Prog.lift_ok, Prog.bind_ret]
      refine syncs_iterate here fun u order there perm => ?_
      rw [Prog.pure_eq, Prog.bind_ret]
      -- In whatever order the hash map is iterated, each shard gets its receivers in order.
      have sameGroups := fun s => (groupOf_order perm s).trans (groups s)
      have extended : L.extend (groupOf (order.map fun s => (s, groupOf shards s)))
          response.senders = L.append response := by
        rw [Ledger.append]
        congr 1
        exact funext sameGroups
      have keys := order_keys_nodup nodup perm
      have accepted : ∀ n, node ≤ n → C.keeps (L.append response) n :=
        fun n le => C.later (C.accepts keeps below answer converted) le
      refine Ensures.bind Quiet.refl ((syncs_inTransaction there keys ?_).mono ?_)
      · rw [extended]
        exact accepted
      rw [extended]
      intro out v committed
      cases out with
      | error error =>
        obtain ⟨tx, failed⟩ := committed
        exact fun v' step => (failed.quiet step).iterated_error _
      | ok first =>
        obtain ⟨rfl, after⟩ := committed
        have past : increasingCheckpoint L.checkpoint response.senders.length
            (order.map fun s => (s, groupOf shards s)) = (L.append response).checkpoint := by
          rw [increasingCheckpoint_extend keys, extended]
        have complete : response.shouldContinue = false → C.complete (L.append response) node :=
          C.completes keeps below answer converted
        simp only [thenEnsures]
        split
        · refine syncs_refreshReceivers after ?_ fun v' there => ?_
          · intro group member
            obtain ⟨s, -, rfl⟩ := List.mem_map.mp member
            exact groups s
          · exact syncs_putBatchLru there caches_cacheBatch_senders
              fun v' there => syncs_leave there past complete
        · exact syncs_leave after past complete

end Iteration

/-! ### The first checkpoint -/

section Checkpoint

variable {α : Type} {ck : Checkpoint} {post : Except Error α → World → Prop}
  (at' : Syncing C L node transaction w)
  (failed : ∀ error t, Syncing C L node transaction t → post (.error error) t)

include at' failed

theorem syncs_countReceivers {shards : List ShardIndex} {start : Checkpoint}
    {f : Checkpoint → Task α}
    (ok : ∀ t ckp, Syncing C L node transaction t → ckp.senderIndex = start.senderIndex →
      (∀ s, ckp.receiverIndex s =
        if s ∈ shards then UInt64.ofNat (L.count s) else start.receiverIndex s) →
      Syncs C ck post (f ckp) t) :
    Syncs C ck post (countReceivers shards start >>= f) w := by
  induction shards generalizing start w with
  | nil => exact ok w start at' rfl fun s => by simp
  | cons first rest ih =>
    unfold countReceivers
    rw [Prog.bind_assoc]
    refine syncs_fetch at' (fun _ _ same => by cases same) failed ?_
    intro t answer here executed
    cases executed
    refine ⟨here.adds here.mirrors rfl (.inl rfl), ih here fun u ckp there senders receivers => ?_⟩
    refine ok u ckp there senders fun s => ?_
    rw [receivers, here.mirrors.represents.count]
    by_cases same : s = first
    · subst same
      simp
    · simp [same]

theorem syncs_getLatestCheckPoint {f : Checkpoint → Task α}
    (ok : ∀ t, Syncing C L node transaction t → Syncs C ck post (f L.checkpoint) t) :
    Syncs C ck post (getLatestCheckPoint >>= f) w := by
  unfold getLatestCheckPoint getLenOfNullifier
  simp only [Prog.bind_assoc]
  refine syncs_countReceivers at' failed fun t ckp here _ receivers => ?_
  refine syncs_fetch here (fun _ _ => nofun) failed ?_
  intro u answer there executed
  simp only [World.execute, World.visible, Except.ok.injEq] at executed ⊢
  subst executed
  refine ⟨there.adds there.mirrors rfl (.inl rfl), ?_⟩
  rw [there.mirrors.represents.countNullifier]
  split
  · rw [Prog.pure_eq, Prog.bind_ret, Prog.pure_eq, Prog.bind_ret]
    have latest : ({ ckp with senderIndex := UInt64.ofNat L.senders.length } : Checkpoint) =
        L.checkpoint := by
      ext s
      · rw [receivers, if_pos (List.mem_finRange s)]
        rfl
      · rfl
    rw [latest]
    exact ok u there
  · exact syncs_fail there _ (failed _)

end Checkpoint

end Contract

end MantaIndexer
