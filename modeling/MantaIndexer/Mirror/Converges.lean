import MantaIndexer.Mirror.Atomic
import MantaIndexer.Mirror.Cursors
import MantaIndexer.Mirror.Totals
import Mathlib.Algebra.Order.BigOperators.Group.List

/-!
A call that meets no failure gets everything: when the full node answers honestly and its pages are
not empty while something is left, the loop is left after as many iterations as there are rows, and
the tables then hold the ledger of the last answer.
-/

namespace MantaIndexer
open Effects Encoding Collections

section Converges

variable [P : Pallet]

theorem Works.performs {serves : Serves} {w v : World} {op : Op} {r : op.Res}
    (h : Works serves w op r v) : Performs serves w op r v := by
  cases h with
  | handled _ _ outside answers =>
    refine .handled w op outside fun checkpoint second third response answered => ?_
    obtain ⟨other, same, served⟩ := answers checkpoint second third
    rw [answered] at same
    cases same
    exact served

/-! ### Room in the tables -/

/-- SQLite has room for so many more rows, and the nullifiers can be counted. -/
structure Database.Fits (db : Database) (receivers senders : Nat) : Prop where
  shards : db.shards.length + receivers ≤ maxRows
  nullifier : db.nullifier.length + senders < 2 ^ 32
  total : db.sendersReceiversTotal.length < maxRows

omit P in
theorem Database.Fits.insertTotal {db : Database} {receivers senders : Nat}
    (fits : db.Fits receivers senders) (total : Bytes) :
    ∃ db', db.insertTotal ⟨true, total⟩ = some db' := by
  simp [Database.insertTotal, Database.insertOrReplace, fits.total]

/-- Every run of the task from here, with the others in between, ends without an error and with a
value in `goal`. -/
abbrev Succeeds (serves : Serves) {α : Type} (goal : α → Prop) (p : Task α) (w : World) : Prop :=
  Ensures (Works serves) Quiet (fun _ _ _ => True)
    (fun out _ => ∃ value, out = .ok value ∧ goal value) p w

section Rules

variable {serves : Serves} {α : Type} {goal : α → Prop} {w : World}

theorem succeeds_ret {value : α} (reached : goal value) : Succeeds serves goal (.ret value) w :=
  fun _ _ => ⟨value, rfl, reached⟩

theorem succeeds_fetch {query : Query} {f : query.Answer → Task α}
    (h : ∀ t, Quiet w t → ∃ answer, (t.execute query).1 = .ok answer ∧
      Succeeds serves goal (f answer) (t.execute query).2) :
    Succeeds serves goal (fetch query >>= f) w := by
  intro t step r u performed
  obtain ⟨answer, executed, rest⟩ := h t step
  cases performed with
  | handled _ _ outside answers =>
    simp only [World.handle, executed]
    exact ⟨trivial, rest⟩

theorem succeeds_request {ck : Checkpoint} {second third : UInt64}
    {f : Except Error PullResponse → Task α}
    (h : ∀ t response, Quiet w t → serves t.node ck second third response →
      Succeeds serves goal (f (.ok response)) { t with served := t.node }) :
    Succeeds serves goal ((perform (.request ck second third) : Task _) >>= f) w := by
  intro t step r u performed
  cases performed with
  | handled _ _ outside answers =>
    obtain ⟨response, answered, served⟩ := answers ck second third
    simp only [World.handle, answered]
    exact ⟨trivial, h t response step served⟩

theorem succeeds_iterate {keys : List ShardIndex} {f : List ShardIndex → Task α}
    (h : ∀ t order, Quiet w t → order.Perm keys → Succeeds serves goal (f order) t) :
    Succeeds serves goal ((perform (.iterate keys) : Task _) >>= f) w := by
  intro t step r u performed
  cases performed with
  | handled _ _ outside answers => exact ⟨trivial, h t _ step (outside.perm keys)⟩

theorem succeeds_putBatchLru {batch : List (Cache.LruKeyType × Bytes)} {f : Unit → Task α}
    (h : ∀ t, Succeeds serves goal (f ()) t) :
    Succeeds serves goal ((perform (.putBatchLru batch) : Task _) >>= f) w :=
  fun _ _ _ _ _ => ⟨trivial, h _⟩

omit P in
theorem write_inside [Pallet] {w : World} {db db' : Database}
    {statement : Database → Option Database} (here : w.transaction = some db)
    (writes : statement db = some db') :
    w.write .transaction statement = (.ok (), { w with transaction := some db' }) := by
  simp only [World.write, World.visible, here, Option.bind_some, writes]

end Rules

section Transaction

variable {serves : Serves} {α : Type} {goal : α → Prop} {w : World} {db : Database} {receivers senders : Nat}
  (here : w.transaction = some db)

include here

theorem succeeds_insertItems {s : ShardIndex} {beginning : UInt64} {offset : Nat}
    {items : List Receiver} (fits : db.Fits (items.length + receivers) senders)
    {f : Unit → Task α}
    (ok : ∀ t db', t.transaction = some db' → db'.Fits receivers senders → Succeeds serves goal (f ()) t) :
    Succeeds serves goal (insertItems s beginning offset items >>= f) w := by
  induction items generalizing offset w db with
  | nil =>
    rw [List.length_nil, Nat.zero_add] at fits
    exact ok w db here fits
  | cons receiver rest ih =>
    unfold insertItems
    rw [Prog.bind_assoc]
    refine succeeds_fetch fun t step => ?_
    have inside := step.transaction.trans here
    have room := fits.shards
    rw [List.length_cons] at room
    have small : db.shards.length < Database.maxRows := by omega
    have ran : ∀ row, t.execute (.insertShard .transaction row) =
        (.ok (), { t with transaction := some { db with shards := db.shards ++ [row] } }) := by
      intro row
      apply write_inside inside
      simp [Database.insertShard, Database.insertOrReplace, small]
    rw [ran]
    refine ⟨(), rfl, ih rfl ?_⟩
    refine ⟨?_, fits.nullifier, fits.total⟩
    rw [List.length_append, List.length_singleton]
    omega

theorem succeeds_insertShards {ck : Checkpoint} {groups : List (ShardIndex × List Receiver)}
    (fits : db.Fits ((groups.map fun group => group.2.length).sum + receivers) senders)
    {f : Unit → Task α}
    (ok : ∀ t db', t.transaction = some db' → db'.Fits receivers senders → Succeeds serves goal (f ()) t) :
    Succeeds serves goal (insertShards ck groups >>= f) w := by
  induction groups generalizing w db with
  | nil =>
    rw [List.map_nil, List.sum_nil, Nat.zero_add] at fits
    exact ok w db here fits
  | cons group rest ih =>
    obtain ⟨s, items⟩ := group
    rw [List.map_cons, List.sum_cons, Nat.add_assoc] at fits
    unfold insertShards
    rw [Prog.bind_assoc]
    exact succeeds_insertItems here fits fun t db' inside fits' => ih inside fits'

theorem succeeds_insertNullifiers {first : UInt64} {offset : Nat} {items : List Sender}
    (fits : db.Fits receivers items.length) {f : Unit → Task α}
    (ok : ∀ t db', t.transaction = some db' → db'.Fits receivers 0 → Succeeds serves goal (f ()) t) :
    Succeeds serves goal (insertNullifiers first offset items >>= f) w := by
  induction items generalizing offset w db with
  | nil => exact ok w db here fits
  | cons sender rest ih =>
    unfold insertNullifiers
    rw [Prog.bind_assoc]
    refine succeeds_fetch fun t step => ?_
    have inside := step.transaction.trans here
    have room := fits.nullifier
    rw [List.length_cons] at room
    have larger : 2 ^ 32 ≤ Database.maxRows := by decide
    have small : db.nullifier.length < Database.maxRows := by omega
    have ran : ∀ row, t.execute (.insertNullifier .transaction row) = (.ok (),
        { t with transaction := some { db with nullifier := replaceRow db.nullifier row } }) := by
      intro row
      apply write_inside inside
      simp [Database.insertNullifier, Database.insertOrReplace, small, replaceRow]
    rw [ran]
    refine ⟨(), rfl, ih rfl ?_⟩
    refine ⟨fits.shards, ?_, fits.total⟩
    have fewer : ∀ p : Nullifier → Bool, (db.nullifier.filter p).length ≤ db.nullifier.length :=
      fun p => List.length_filter_le p _
    have fewer := fewer fun r => !decide (r.idx = asI64 (UInt64.ofNat offset + first))
    simp only [replaceRow, List.length_append, List.length_singleton]
    omega

theorem succeeds_updateTables {ck : Checkpoint} {groups : List (ShardIndex × List Receiver)}
    {response : PullResponse}
    (fits : db.Fits (groups.map fun group => group.2.length).sum response.senders.length)
    {f : UInt64 → Task α}
    (ok : ∀ first t db', t.transaction = some db' → Succeeds serves goal (f first) t) :
    Succeeds serves goal (updateTables ck groups response >>= f) w := by
  unfold updateTables getLenOfNullifier
  simp only [Prog.bind_assoc]
  rw [← Nat.add_zero (List.sum _)] at fits
  refine succeeds_insertShards here fits fun t db' inside fits => ?_
  refine succeeds_fetch fun u step => ?_
  have inside := step.transaction.trans inside
  have counted : db'.countNullifier < 2 ^ 32 := by
    have room := fits.nullifier
    unfold Database.countNullifier
    omega
  simp only [World.execute, World.visible, inside]
  refine ⟨_, rfl, ?_⟩
  rw [if_pos counted]
  refine succeeds_insertNullifiers inside fits fun v db' inside fits => ?_
  refine succeeds_fetch fun v' step => ?_
  have inside := step.transaction.trans inside
  obtain ⟨db'', inserted⟩ := fits.insertTotal response.sendersReceiversTotal.val
  have ran : v'.execute (.insertTotal .transaction ⟨true, response.sendersReceiversTotal.val⟩) =
      (.ok (), { v' with transaction := some db'' }) := write_inside inside inserted
  rw [ran]
  exact ⟨(), rfl, ok _ _ db'' rfl⟩

end Transaction

section Iteration

variable {serves : Serves} {α : Type} {goal : α → Prop} {w : World}
  {groups : List (ShardIndex × List Receiver)}

theorem succeeds_inTransaction {ck : Checkpoint} {response : PullResponse}
    (fits : w.db.Fits (groups.map fun group => group.2.length).sum response.senders.length) :
    Succeeds serves (fun _ => True) (inTransaction (updateTables ck groups response)) w := by
  unfold inTransaction
  refine succeeds_fetch fun t step => ⟨(), rfl, ?_⟩
  apply Ensures.onFail Quiet.refl
  have ends : Succeeds serves (fun _ => True) (do
      let value ← updateTables ck groups response
      fetch .commit
      return value) { t with transaction := some t.db } := by
    rw [← step.db] at fits
    refine succeeds_updateTables rfl fits fun first u db' inside => ?_
    refine succeeds_fetch fun v step => ?_
    have inside := step.transaction.trans inside
    have ran : v.execute .commit = (.ok (), { v with db := db', transaction := none }) := by
      simp only [World.execute, inside]
    rw [ran]
    exact ⟨(), rfl, succeeds_ret trivial⟩
  apply ends.mono
  rintro out u ⟨value, rfl, -⟩
  exact succeeds_ret trivial

theorem succeeds_refreshReceivers {ck : Checkpoint} {f : Unit → Task α}
    (ok : ∀ t, Succeeds serves goal (f ()) t) :
    Succeeds serves goal (refreshReceivers ck groups >>= f) w := by
  induction groups generalizing w with
  | nil => exact ok w
  | cons group rest ih =>
    unfold refreshReceivers putBatchReceiver
    rw [Prog.bind_assoc]
    exact succeeds_putBatchLru fun t => ih

theorem succeeds_leave {goal : Option Checkpoint → Prop} {more : Bool} {next : Checkpoint}
    (last : goal none) (progress : more = true → goal (some next)) :
    Succeeds serves goal (if !more then do
        perform .storeInitSyncingFinished
        return none
      else return some next) w := by
  cases more with
  | false => exact fun _ _ _ _ _ => ⟨trivial, succeeds_ret last⟩
  | true => exact succeeds_ret (progress rfl)

end Iteration

/-! ### A full node that keeps to its ledger -/

/-- An honest full node whose ledger grows from `first` to `N` at most, and whose pages are not empty
while something is left and something is asked for. -/
def pacedNode (first N : Ledger) : Serves := fun node checkpoint second third response =>
  (first ≤ node ∧ node ≤ N) ∧ honestNode node checkpoint second third response ∧
    (1 ≤ second.toNat → 1 ≤ third.toNat → response.shouldContinue = true →
      response.receivers ≠ [] ∨ response.senders ≠ [])

def pacedContract (first N : Ledger) : Contract (pacedNode first N) where
  keeps L node := L ≤ node ∧ L ≤ N
  complete L served := L = served ∧ first ≤ L
  starts node := ⟨Ledger.empty_le node, Ledger.empty_le N⟩
  later := fun ⟨le, within⟩ longer => ⟨Ledger.le_trans le longer, within⟩
  accepts := fun ⟨le, _⟩ below ⟨⟨_, inside⟩, ⟨_, honest⟩, _⟩ converted =>
    have longer := honest.append_le le below converted
    ⟨longer, Ledger.le_trans longer inside⟩
  completes := fun ⟨le, _⟩ below ⟨⟨since, _⟩, ⟨_, honest⟩, _⟩ converted last =>
    have all := honest.append_eq le below converted last
    ⟨all, all ▸ since⟩

def Ledger.receiverCount (L : Ledger) : Nat := (allShards.map L.count).sum

/-- All rows of a ledger. -/
def Ledger.size (L : Ledger) : Nat := L.receiverCount + L.senders.length

theorem Ledger.receiverCount_le {L M : Ledger} (le : L ≤ M) : L.receiverCount ≤ M.receiverCount :=
  (sum_map_sub fun s => Ledger.count_le le s).1

theorem Ledger.size_le {L M : Ledger} (le : L ≤ M) : L.size ≤ M.size :=
  Nat.add_le_add (Ledger.receiverCount_le le) (Ledger.senders_le le)

theorem Ledger.receiverCount_append {L : Ledger} {response : PullResponse}
    (converted : ∀ receiver ∈ response.receivers, ∃ s, treeIndex receiver.1 = some s) :
    (L.append response).receiverCount = L.receiverCount + response.receivers.length := by
  have grouped := sum_length_filter (List.nodup_finRange forestWidth)
    (fun receiver : Receiver => treeIndex receiver.1) response.receivers ?_
  · have counts : ∀ s, (L.append response).count s =
        L.count s + (Ledger.ofShard response.receivers s).length :=
      fun s => L.count_extend _ _ s
    unfold Ledger.receiverCount
    rw [List.map_congr_left fun s _ => counts s, List.sum_map_add]
    exact congrArg _ grouped
  · intro receiver member
    obtain ⟨s, own⟩ := converted receiver member
    exact ⟨s, List.mem_finRange s, own⟩

theorem Represents.length_shards {db : Database} {L : Ledger} (holds : Represents db L) :
    db.shards.length = L.receiverCount := by
  have grouped := sum_length_filter (List.nodup_finRange forestWidth)
    (fun row : Shard => some row.shardIndex) db.shards
    fun row _ => ⟨row.shardIndex, List.mem_finRange _, rfl⟩
  rw [← grouped]
  refine congrArg List.sum (List.map_congr_left fun s _ => ?_)
  rw [← holds.count s, Database.countShards, List.countP_eq_length_filter]
  simp

theorem Honest.converted {node : Ledger} {checkpoint : Checkpoint} {response : PullResponse}
    {tagged : List (ShardIndex × Receiver)} (h : Honest node checkpoint response tagged)
    (sharded : node.Sharded) :
    ∀ receiver ∈ response.receivers, ∃ s, treeIndex receiver.1 = some s := by
  intro receiver member
  rw [← h.receivers] at member
  obtain ⟨⟨tag, receiver⟩, there, rfl⟩ := List.mem_map.mp member
  have inSegment : receiver ∈ segment tagged tag :=
    List.mem_map.mpr ⟨(tag, receiver), List.mem_filter.mpr ⟨there, by simp⟩, rfl⟩
  exact ⟨tag, sharded tag receiver (List.mem_of_mem_drop ((h.segments tag).subset inSegment))⟩

theorem Ledger.Sharded.shorter {L N : Ledger} (sharded : N.Sharded) (le : L ≤ N) : L.Sharded :=
  fun s receiver member => sharded s receiver ((le.1 s).subset member)

theorem sum_groups {receivers : List Receiver} {shards : List (ShardIndex × List Receiver)}
    {order : List ShardIndex} (grouped : reconstructFrom [] receivers = .ok shards)
    (perm : order.Perm (shards.map Prod.fst)) :
    ((order.map fun s => (s, groupOf shards s)).map fun group => group.2.length).sum =
      receivers.length := by
  obtain ⟨nodup, converted, groups⟩ := reconstructFrom_groups grouped List.nodup_nil
  have counted := sum_length_filter (perm.nodup_iff.mpr nodup)
    (fun receiver : Receiver => treeIndex receiver.1) receivers ?_
  · rw [List.map_map, ← counted]
    refine congrArg List.sum (List.map_congr_left fun s _ => ?_)
    exact congrArg List.length (groups s)
  · intro receiver member
    obtain ⟨s, own⟩ := converted receiver member
    refine ⟨s, perm.mem_iff.mpr ?_, own⟩
    by_contra absent
    have empty : Ledger.ofShard receivers s = [] := (groups s).symm.trans (groupOf_eq_nil absent)
    have there : receiver ∈ Ledger.ofShard receivers s :=
      List.mem_filter.mpr ⟨member, decide_eq_true own⟩
    rw [empty] at there
    cases there

/-- A ledger that SQLite has room for, with receivers that all have a shard. -/
structure Ledger.Storable (N : Ledger) : Prop where
  sharded : N.Sharded
  receivers : N.receiverCount ≤ Database.maxRows
  senders : N.senders.length < 2 ^ 32

theorem Ledger.count_le_receiverCount (L : Ledger) (s : ShardIndex) : L.count s ≤ L.receiverCount :=
  List.single_le_sum (fun _ _ => Nat.zero_le _) _ (List.mem_map_of_mem (List.mem_finRange s))

theorem Ledger.Storable.below {N : Ledger} (storable : N.Storable) : N.Below (2 ^ 63) := by
  refine ⟨fun s => ?_, storable.senders.trans (by decide)⟩
  have one := N.count_le_receiverCount s
  have room := storable.receivers
  unfold Database.maxRows at room
  omega

theorem Ledger.size_of_checkpoint {L M : Ledger} (small : L.Below (2 ^ 63)) (small' : M.Below (2 ^ 63))
    (same : L.checkpoint = M.checkpoint) : L.size = M.size := by
  have counts : L.count = M.count := by
    funext s
    have word := small.1 s
    have word' := small'.1 s
    have equal := congrArg (fun ck => (Checkpoint.receiverIndex ck s).toNat) same
    simp only [Ledger.checkpoint] at equal
    rwa [toNat_ofNat (by omega), toNat_ofNat (by omega)] at equal
  have senders : L.senders.length = M.senders.length := by
    have word := small.2
    have word' := small'.2
    have equal := congrArg (fun ck => (Checkpoint.senderIndex ck).toNat) same
    simp only [Ledger.checkpoint] at equal
    rwa [toNat_ofNat (by omega), toNat_ofNat (by omega)] at equal
  rw [Ledger.size, Ledger.size, Ledger.receiverCount, Ledger.receiverCount, counts, senders]

theorem Ledger.Below.shorter {L M : Ledger} {bound : Nat} (below : M.Below bound) (le : L ≤ M) :
    L.Below bound :=
  ⟨fun s => (Ledger.count_le le s).trans_lt (below.1 s), (Ledger.senders_le le).trans_lt below.2⟩

theorem Ledger.checkpoint_append (L : Ledger) (response : PullResponse) :
    (L.append response).checkpoint = L.checkpoint.past response := by
  apply Checkpoint.ext
  · funext s
    simp only [Ledger.checkpoint, Checkpoint.past, ← UInt64.ofNat_add]
    exact congrArg UInt64.ofNat (L.count_extend _ _ s)
  · simp only [Ledger.checkpoint, Checkpoint.past, ← UInt64.ofNat_add, Ledger.append, Ledger.extend,
      List.length_append]

/-- The next iteration starts past a longer ledger. -/
def Progress (L : Ledger) : Option Checkpoint → Prop
  | none => True
  | some next => ∃ M : Ledger, M.Below (2 ^ 63) ∧ next = M.checkpoint ∧ L.size < M.size

theorem syncIteration_succeeds {first N L : Ledger} {w : World} (storable : N.Storable)
    (mirrors : Mirrors L w) (le : L ≤ w.node)
    (totals : w.db.sendersReceiversTotal.length < Database.maxRows) {config : SyncConfig}
    (asksSenders : 1 ≤ config.maxCount.1.toNat) (asksReceivers : 1 ≤ config.maxCount.2.toNat) :
    Succeeds (pacedNode first N) (Progress L) (syncIteration config L.checkpoint) w := by
  unfold syncIteration synchronizeLedger reconstructShardsFromPullResponse
  simp only [Prog.bind_assoc]
  refine succeeds_request fun t response step served => ?_
  obtain ⟨⟨-, inside⟩, ⟨tagged, honest⟩, paced⟩ := served
  have below := mirrors.represents.below.weaken (by decide : _ ≤ 2 ^ 63)
  have converted := honest.converted (storable.sharded.shorter inside)
  have within := honest.append_le (Ledger.le_trans le step.node) below converted
  have longer := Ledger.le_trans within inside
  obtain ⟨shards, grouped⟩ := reconstructFrom_ok [] converted
  rw [Prog.lift_ok, Prog.bind_ret, grouped, Prog.lift_ok, Prog.bind_ret]
  refine succeeds_iterate fun t' order step' perm => ?_
  rw [Prog.pure_eq, Prog.bind_ret]
  have fits : t'.db.Fits ((order.map fun s => (s, groupOf shards s)).map
      fun group => group.2.length).sum response.senders.length := by
    have receivers := Ledger.receiverCount_le longer
    have senders := Ledger.senders_le longer
    rw [Ledger.receiverCount_append converted] at receivers
    rw [Ledger.append, Ledger.extend, List.length_append] at senders
    rw [step'.db.trans step.db, sum_groups grouped perm]
    refine ⟨?_, ?_, totals⟩
    · rw [mirrors.represents.length_shards]
      exact receivers.trans storable.receivers
    · have counted := mirrors.represents.countNullifier
      rw [Database.countNullifier] at counted
      rw [counted]
      exact senders.trans_lt storable.senders
  refine Ensures.bind Quiet.refl ((succeeds_inTransaction fits).mono ?_)
  rintro out u ⟨first, rfl, -⟩
  have progress : response.shouldContinue = true → Progress L (some (increasingCheckpoint
      L.checkpoint response.senders.length (order.map fun s => (s, groupOf shards s)))) := by
    intro more
    refine ⟨L.append response, storable.below.shorter longer, ?_, ?_⟩
    · rw [past_eq grouped perm, Ledger.checkpoint_append]
    · have limit := toNat_min_maxSenders config.maxCount.1
      have limit' := toNat_min_maxReceivers config.maxCount.2
      have full := paced (by omega) (by omega) more
      rw [← List.length_pos_iff, ← List.length_pos_iff] at full
      have senders : (L.append response).senders.length =
          L.senders.length + response.senders.length := List.length_append
      rw [Ledger.size, Ledger.size, Ledger.receiverCount_append converted, senders]
      omega
  simp only [thenEnsures]
  split
  · exact succeeds_refreshReceivers fun v => succeeds_putBatchLru fun v' =>
      succeeds_leave trivial progress
  · exact succeeds_leave trivial progress

/-! ### The loop -/

/-- What the others do beside a call: pulls and evictions, and the full node moves on. -/
structure Calm (w v : World) : Prop extends Quiet w v where
  flag : v.initSyncingFinished = w.initSyncingFinished

theorem Calm.refl (w : World) : Calm w w := ⟨.refl w, rfl⟩

theorem Calm.trans (u v w : World) (first : Calm u v) (second : Calm v w) : Calm u w :=
  ⟨.trans _ _ _ first.toQuiet second.toQuiet, second.flag.trans first.flag⟩

theorem Calm.beside {w v : World} (calm : Calm w v) : Beside (fun _ _ => True) w v :=
  ⟨calm.db, calm.transaction, calm.flag, trivial⟩

omit P in
theorem handle_served [Pallet] (outside : Outside) (w : World) (op : Op) :
    (w.handle outside op).2.served = w.served ∨ (w.handle outside op).2.served = w.node := by
  cases op with
  | sql query =>
    left
    cases query with
    | insertShard executor row | insertNullifier executor row | insertTotal executor row
    | appendNullifier executor first second =>
      simp only [World.handle, World.execute, World.write]
      split
      · rfl
      · cases executor <;> rfl
    | countNullifier executor | commit =>
      simp only [World.handle, World.execute]
      split <;> rfl
    | _ => rfl
  | request checkpoint second third => exact .inr rfl
  | _ => exact .inl rfl

/-- At most one row of totals. -/
def Database.Totalled (db : Database) : Prop := db.Checked ∧ db.sendersReceiversTotal.length ≤ 1

omit P in
theorem Database.Totalled.insertTotal {db db' : Database} (totalled : db.Totalled)
    {row : SendersReceiversTotal} (inserted : db.insertTotal row = some db') : db'.Totalled := by
  obtain ⟨⟨only, one⟩, checked⟩ := insertTotal_replaces totalled.1 inserted
  exact ⟨checked, by rw [one, List.length_singleton]⟩

/-- What every operation keeps, whoever performs it. -/
structure World.Standing (w : World) : Prop where
  behind : w.served ≤ w.node
  totals : w.db.Totalled
  inside : ∀ db, w.transaction = some db → db.Totalled

theorem Quiet.standing {w v : World} (quiet : Quiet w v) (standing : w.Standing) : v.Standing := by
  refine ⟨?_, ?_, ?_⟩
  · rw [quiet.served]
    exact Ledger.le_trans standing.behind quiet.node
  · rw [quiet.db]
    exact standing.totals
  · rw [quiet.transaction]
    exact standing.inside

theorem SameTotals.standing {w v : World} (same : SameTotals w v) (behind : v.served ≤ v.node)
    (standing : w.Standing) : v.Standing := by
  refine ⟨behind, ?_, fun db here => ?_⟩
  · unfold Database.Totalled Database.Checked
    rw [same.db]
    exact standing.totals
  · have tables := same.transaction
    rw [here, Option.map_some] at tables
    obtain ⟨before, there, equal⟩ := Option.map_eq_some_iff.mp tables.symm
    unfold Database.Totalled Database.Checked
    rw [← equal]
    exact standing.inside before there

theorem World.Standing.handled {w : World} (standing : w.Standing) (outside : Outside) (op : Op) :
    (w.handle outside op).2.Standing := by
  have behind : (w.handle outside op).2.served ≤ (w.handle outside op).2.node := by
    rw [System.handle_node]
    rcases handle_served outside w op with same | now
    · rw [same]
      exact standing.behind
    · rw [now]
      exact w.node.le_refl
  cases op with
  | sql query =>
    by_cases silent : query.silent = true
    · exact (execute_sameTotals silent w).standing behind standing
    · cases query with
      | insertTotal executor row =>
        revert behind
        simp only [World.handle, World.execute, World.write]
        split
        · exact fun _ => standing
        · rename_i db' written
          obtain ⟨db, visible, inserted⟩ := Option.bind_eq_some_iff.mp written
          cases executor with
          | pool =>
            obtain rfl : w.db = db := Option.some.inj visible
            exact fun behind => ⟨behind, standing.totals.insertTotal inserted, standing.inside⟩
          | transaction =>
            refine fun behind => ⟨behind, standing.totals, ?_⟩
            rintro _ ⟨⟩
            exact (standing.inside db visible).insertTotal inserted
      | begin =>
        refine ⟨behind, standing.totals, ?_⟩
        rintro _ ⟨⟩
        exact standing.totals
      | commit =>
        revert behind
        simp only [World.handle, World.execute]
        split
        · rename_i db opened
          exact fun behind => ⟨behind, standing.inside db opened, fun _ same => by cases same⟩
        · exact fun _ => standing
      | _ => exact absurd rfl silent
  | rollback => exact ⟨behind, standing.totals, fun _ same => by cases same⟩
  | _ => exact ⟨behind, standing.totals, standing.inside⟩

theorem Performs.standing {serves : Serves} {w v : World} {op : Op} {r : op.Res}
    (performed : Performs serves w op r v) (standing : w.Standing) : v.Standing := by
  cases performed with
  | handled _ _ outside answers => exact standing.handled outside op
  | failed query error => exact standing

theorem System.Reachable.standing {serves : Serves} {s : System} (reachable : s.Reachable serves) :
    s.world.Standing := by
  induction reachable with
  | initial capacity node =>
    exact ⟨Ledger.empty_le node, ⟨nofun, Nat.zero_le _⟩, nofun⟩
  | step _ step before =>
    cases step with
    | counting _ performed | syncing _ performed | pulling _ performed =>
      exact performed.standing before
    | grown longer => exact (quiet_grown longer).standing before
    | evicted fewer => exact (quiet_evicted fewer).standing before
    | restarted => exact ⟨before.behind, before.totals, nofun⟩
    | _ => exact before

section Loop

variable {first N L : Ledger} {w : World} {config : SyncConfig}

/-- How an iteration of a call that meets no failure ends. -/
def Advanced (first N L : Ledger) (out : Except Error (Option Checkpoint)) (t : World) : Prop :=
  ∃ M, Mirrors M t ∧ M ≤ t.node ∧ M ≤ N ∧ t.Standing ∧
    ((out = .ok none ∧ (M = t.served ∧ first ≤ M) ∧ t.initSyncingFinished = true) ∨
      (out = .ok (some M.checkpoint) ∧ L.size < M.size))

abbrev Catches {α : Type} (first N : Ledger) (post : Except Error α → World → Prop) (p : Task α)
    (w : World) : Prop :=
  Ensures (Works (pacedNode first N)) Calm (fun _ _ _ => True) post p w

theorem syncIteration_advances (storable : N.Storable) (mirrors : Mirrors L w) (le : L ≤ w.node)
    (within : L ≤ N) (standing : w.Standing) (asksSenders : 1 ≤ config.maxCount.1.toNat)
    (asksReceivers : 1 ≤ config.maxCount.2.toNat) :
    Catches first N (Advanced first N L) (syncIteration config L.checkpoint) w := by
  have works : ∀ w op r v, Works (pacedNode first N) w op r v → Performs (pacedNode first N) w op r v :=
    fun _ _ _ _ => Works.performs
  have here : Syncing (pacedContract first N) L w.served w.transaction w :=
    ⟨mirrors, ⟨le, within⟩, rfl, standing.behind, rfl⟩
  have room : w.db.sendersReceiversTotal.length < Database.maxRows :=
    standing.totals.2.trans_lt (by decide)
  have syncs : Catches first N _ _ w := (syncIteration_syncs here config).weaken works
    (fun _ _ => Calm.toQuiet) fun _ _ _ _ => trivial
  have ends : Catches first N _ _ w := (syncIteration_ends (R := fun _ _ => True) (fun _ => trivial)
    (fun _ _ _ _ _ => trivial) config L.checkpoint w).weaken works (fun _ _ => Calm.beside)
    fun _ _ _ _ => trivial
  have succeeds : Catches first N _ _ w := (syncIteration_succeeds storable mirrors le room asksSenders
    asksReceivers).weaken (fun _ _ _ _ => id) (fun _ _ => Calm.toQuiet) fun _ _ _ => id
  have stands : Catches first N (fun _ t => t.Standing) (syncIteration config L.checkpoint) w :=
    Ensures.always (fun _ _ calm => calm.toQuiet.standing)
      (fun _ _ _ _ performed => performed.performs.standing) _ standing
  refine (((syncs.and ends).and (succeeds.and stands)).weaken (fun _ _ _ _ => id) (fun _ _ => id)
    fun _ _ _ _ => trivial).mono ?_
  rintro out t ⟨⟨⟨M, mirrors, ⟨le, within⟩, next, complete⟩, ended⟩, ⟨value, rfl, progress⟩,
    standing⟩
  refine ⟨M, mirrors, le, within, standing, ?_⟩
  obtain ⟨node, second, third, response, -, -, ⟨-, rfl, flag⟩ | ⟨-, rfl, -⟩⟩ := ended
  · exact .inl ⟨rfl, complete rfl, flag⟩
  · obtain ⟨M', below, same, larger⟩ := progress
    have own := next _ rfl
    refine .inr ⟨by rw [own], ?_⟩
    have small := mirrors.represents.below.weaken (by decide : _ ≤ 2 ^ 63)
    rwa [Ledger.size_of_checkpoint below small (same.symm.trans own)] at larger

/-- The call has returned, and the tables hold all that the full node had when it last answered. -/
def CaughtUp (first N : Ledger) (out : Except Error Bool) (t : World) : Prop :=
  out = .ok true ∧ t.initSyncingFinished = true ∧ Mirrors t.served t ∧ first ≤ t.served ∧ t.served ≤ N

theorem CaughtUp.calm {t v : World} {out : Except Error Bool} (h : CaughtUp first N out t)
    (calm : Calm t v) : CaughtUp first N out v := by
  obtain ⟨returned, flag, mirrors, within⟩ := h
  refine ⟨returned, calm.flag.trans flag, ?_⟩
  rw [calm.served]
  exact ⟨calm.toQuiet.mirrors mirrors, within⟩

theorem syncLoop_catches_up (storable : N.Storable) (asksSenders : 1 ≤ config.maxCount.1.toNat)
    (asksReceivers : 1 ≤ config.maxCount.2.toNat) {fuel : Nat} (mirrors : Mirrors L w)
    (le : L ≤ w.node) (within : L ≤ N) (standing : w.Standing) (enough : N.size < L.size + fuel) :
    Catches first N (CaughtUp first N) (syncLoop config fuel L.checkpoint) w := by
  -- On the iterations left: each one that does not end the loop mirrors a longer ledger.
  induction fuel generalizing L w with
  | zero => exact absurd (Ledger.size_le within) (by omega)
  | succ fuel ih =>
    unfold syncLoop
    apply Ensures.bind Calm.refl
    apply (syncIteration_advances storable mirrors le within standing asksSenders asksReceivers).mono
    rintro out t ⟨M, mirrors, le, within, standing, ⟨rfl, ⟨rfl, since⟩, flag⟩ | ⟨rfl, larger⟩⟩
    · intro v calm
      exact CaughtUp.calm ⟨rfl, flag, mirrors, since, within⟩ calm
    · exact ih mirrors le within standing (by omega)

theorem succeeds_countReceivers {α : Type} {serves : Serves} {goal : α → Prop}
    {shards : List ShardIndex} {start : Checkpoint} {f : Checkpoint → Task α}
    (ok : ∀ t ckp, Quiet w t → Succeeds serves goal (f ckp) t) :
    Succeeds serves goal (countReceivers shards start >>= f) w := by
  induction shards generalizing start w with
  | nil => exact ok w start (.refl w)
  | cons first rest ih =>
    unfold countReceivers
    rw [Prog.bind_assoc]
    refine succeeds_fetch fun t step => ⟨_, rfl, ih fun u ckp later => ?_⟩
    exact ok u ckp (.trans _ _ _ step later)

theorem getLatestCheckPoint_succeeds {serves : Serves} (few : w.db.countNullifier < 2 ^ 32) :
    Succeeds serves (fun _ => True) getLatestCheckPoint w := by
  unfold getLatestCheckPoint getLenOfNullifier
  refine succeeds_countReceivers fun t ckp step => ?_
  rw [Prog.bind_assoc]
  refine succeeds_fetch fun u step' => ?_
  refine ⟨u.db.countNullifier, rfl, ?_⟩
  rw [step'.db.trans step.db, if_pos few]
  exact succeeds_ret trivial

theorem Represents.rows {db : Database} (holds : Represents db L) :
    L.size = db.shards.length + db.nullifier.length := by
  have senders := holds.countNullifier
  rw [Database.countNullifier] at senders
  rw [Ledger.size, holds.length_shards, senders]

theorem syncShards_catches_up (storable : N.Storable) (asksSenders : 1 ≤ config.maxCount.1.toNat)
    (asksReceivers : 1 ≤ config.maxCount.2.toNat) {fuel : Nat} (mirrors : Mirrors L w)
    (le : L ≤ w.node) (within : L ≤ N) (standing : w.Standing) (enough : N.size < L.size + fuel) :
    Catches first N (CaughtUp first N) (syncShardsFromFullNode config fuel) w := by
  have here : Syncing (pacedContract first N) L w.served w.transaction w :=
    ⟨mirrors, ⟨le, within⟩, rfl, standing.behind, rfl⟩
  have few : w.db.countNullifier < 2 ^ 32 := by
    rw [mirrors.represents.countNullifier]
    exact (Ledger.senders_le within).trans_lt storable.senders
  have counts : Syncs (pacedContract first N) L.checkpoint (fun out t => ∀ ck, out = .ok ck →
      ck = L.checkpoint ∧ Mirrors L t ∧ L ≤ t.node) getLatestCheckPoint w := by
    rw [← Prog.bind_pure getLatestCheckPoint]
    refine syncs_getLatestCheckPoint here (fun error t _ ck same => by cases same) ?_
    rintro t there v step _ ⟨⟩
    have last := there.quiet step
    exact ⟨rfl, last.mirrors, last.keeps.1⟩
  have latest : Catches first N _ _ w := counts.weaken (fun _ _ _ _ => Works.performs)
    (fun _ _ => Calm.toQuiet) fun _ _ _ _ => trivial
  have succeeds : Catches first N _ _ w := (getLatestCheckPoint_succeeds few).weaken
    (fun _ _ _ _ => id) (fun _ _ => Calm.toQuiet) fun _ _ _ => id
  have stands : Catches first N (fun _ t => t.Standing) getLatestCheckPoint w :=
    Ensures.always (fun _ _ calm => calm.toQuiet.standing)
      (fun _ _ _ _ performed => performed.performs.standing) _ standing
  apply Ensures.bind Calm.refl
  refine (((latest.and succeeds).and stands).weaken (fun _ _ _ _ => id) (fun _ _ => id)
    fun _ _ _ _ => trivial).mono ?_
  rintro out t ⟨⟨latest, value, rfl, -⟩, standing⟩
  obtain ⟨rfl, mirrors, le⟩ := latest value rfl
  exact syncLoop_catches_up storable asksSenders asksReceivers mirrors le within standing enough

end Loop

end Converges

/-- A call of the synchronization that meets no failure, from any reachable state and whatever pulls
run beside it, returns after at most as many iterations as the full node has rows that are not in the
tables, and one more. The tables then hold exactly the ledger of its last answer. -/
theorem sync_catches_up [Pallet] {s : System} (reachable : s.Reachable honestNode) {N : Ledger}
    (storable : N.Storable) (ahead : s.world.node ≤ N) {config : SyncConfig}
    (asksSenders : 1 ≤ config.maxCount.1.toNat) (asksReceivers : 1 ≤ config.maxCount.2.toNat)
    {fuel : Nat}
    (enough : N.size < s.world.db.shards.length + s.world.db.nullifier.length + fuel)
    {history : List (Event World Op)} {out : Except Error Bool} {t : World}
    (run : Exec (Works (pacedNode s.world.node N)) Calm (syncShardsFromFullNode config fuel) s.world
      history out t) :
    out = .ok true ∧ t.initSyncingFinished = true ∧ Represents t.db t.served ∧
      s.world.node ≤ t.served ∧ t.served ≤ N := by
  obtain ⟨L, mirrors, le, -⟩ := (Invariant.reachable (C := honestContract) reachable).ledger
  rw [← mirrors.represents.rows] at enough
  have catches : Catches s.world.node N _ _ s.world := syncShards_catches_up storable asksSenders
    asksReceivers mirrors le (Ledger.le_trans le ahead) reachable.standing enough
  obtain ⟨returned, flag, last, since, within⟩ := catches.exec Calm.refl Calm.trans
    (fun _ _ => id) run
  exact ⟨returned, flag, last.represents, since, within⟩

/-! ### A full node that serves all it has -/

section Rest

variable [P : Pallet]

def allTagged (node : Ledger) (checkpoint : Checkpoint) : List (ShardIndex × Receiver) :=
  allShards.flatMap fun s =>
    ((node.receivers s).drop (checkpoint.receiverIndex s).toNat).map fun receiver => (s, receiver)

/-- One page with everything past the checkpoint. -/
def restOf (node : Ledger) (total : TotalBytes) (checkpoint : Checkpoint) : PullResponse where
  shouldContinue := false
  receivers := (allTagged node checkpoint).map Prod.snd
  senders := node.senders.drop checkpoint.senderIndex.toNat
  sendersReceiversTotal := total

theorem segment_allTagged (node : Ledger) (checkpoint : Checkpoint) (s : ShardIndex) :
    segment (allTagged node checkpoint) s =
      (node.receivers s).drop (checkpoint.receiverIndex s).toNat := by
  have own : ∀ t, (((node.receivers t).drop (checkpoint.receiverIndex t).toNat).map
      fun receiver => (t, receiver)).filter (fun item => item.1 = s) =
      if t = s then ((node.receivers t).drop (checkpoint.receiverIndex t).toNat).map
        fun receiver => (t, receiver) else [] := by
    intro t
    by_cases same : t = s
    · subst same
      rw [if_pos rfl, List.filter_eq_self]
      intro item member
      obtain ⟨receiver, -, rfl⟩ := List.mem_map.mp member
      exact decide_eq_true rfl
    · rw [if_neg same, List.filter_eq_nil_iff]
      intro item member
      obtain ⟨receiver, -, rfl⟩ := List.mem_map.mp member
      exact fun hit => same (of_decide_eq_true hit)
  rw [segment, allTagged, List.filter_flatMap, List.flatMap_congr fun t _ => own t,
    flatMap_single (List.mem_finRange s) (List.nodup_finRange _), List.map_map]
  exact List.map_id _

theorem rest_paced {node : Ledger} (sharded : node.Sharded) (total : TotalBytes)
    (checkpoint : Checkpoint) (second third : UInt64) :
    pacedNode node node node checkpoint second third (restOf node total checkpoint) := by
  refine ⟨⟨node.le_refl, node.le_refl⟩, ⟨allTagged node checkpoint, ?_⟩, fun _ _ more => by cases more⟩
  refine ⟨fun s receiver member t own => ?_, rfl, fun s => ?_, List.prefix_rfl, ?_⟩
  · rw [sharded s receiver member] at own
    exact (Option.some.inj own).symm
  · rw [segment_allTagged]
  · constructor
    · intro more
      cases more
    rintro (⟨s, more⟩ | more)
    · rw [segment_allTagged, List.length_drop, Ledger.count] at more
      omega
    · simp only [restOf, List.length_drop] at more
      omega

end Rest

section Sample

attribute [local instance] samplePallet

theorem sampleNode_storable : sampleNode.Storable := by
  refine ⟨fun s receiver member => ?_, by decide +kernel, by decide⟩
  by_cases first : s = 0
  · subst first
    obtain rfl := List.mem_singleton.mp member
    rfl
  · simp [sampleNode, first] at member

/-- Any task runs beside a full node that nothing changes and that serves all it has. -/
theorem sampleNode_exec {α : Type} (env : World → World → Prop) (p : Task α) : ∃ history out t,
    Exec (Works (pacedNode sampleNode sampleNode)) env p (System.initial 4 sampleNode).world
      history out t := by
  let outside : Outside := ⟨fun checkpoint _ _ => .ok (restOf sampleNode sampleTotal checkpoint), id,
    List.Perm.refl⟩
  refine (Prog.run_exec_within (fun w => w.node = sampleNode)
    (fun w op same => (System.handle_node outside w op).trans same) (fun w op same => ?_) p rfl).imp
    fun history ran => ⟨_, _, ran⟩
  refine .handled w op outside fun checkpoint second third => ⟨_, rfl, ?_⟩
  rw [same]
  exact rest_paced sampleNode_storable.sharded sampleTotal checkpoint second third

/-- A first start beside a full node with two rows. -/
theorem sync_catches_up_fresh : ∃ history out t,
    Exec (Works (pacedNode sampleNode sampleNode)) Calm (syncShardsFromFullNode sampleConfig 3)
        (System.initial 4 sampleNode).world history out t ∧
      out = .ok true ∧ Represents t.db sampleNode := by
  obtain ⟨history, out, t, ran⟩ := sampleNode_exec Calm (syncShardsFromFullNode sampleConfig 3)
  obtain ⟨returned, -, holds, since, within⟩ := sync_catches_up
    (System.Reachable.initial 4 sampleNode) sampleNode_storable sampleNode.le_refl (by decide)
    (by decide) (by decide +kernel) ran
  refine ⟨history, out, t, ran, returned, ?_⟩
  rwa [Ledger.le_antisymm within since] at holds

end Sample

end MantaIndexer
