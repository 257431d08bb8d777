import MantaIndexer.Indexer.System
import MantaIndexer.Mirror.Batch

/-!
The tables after any sequence of inserts. The table of the shards has no uniqueness constraint, so
nothing is ever replaced in it; the nullifiers have a primary key, which is chosen in two ways.
-/

namespace MantaIndexer
open Effects Encoding Collections

section Writes

variable [P : Pallet] {outside : Outside} {w v : World}

theorem fetch_ok {query : Query} {answer : query.Answer} (h : w.execute query = (.ok answer, v)) :
    (fetch query).run (World.handle outside) w = (.ok answer, v) := by
  simp only [fetch, perform, Prog.bind_ask, Prog.run_perform, World.handle, h]
  rfl

theorem fetch_error {query : Query} {error : SqlxError} (h : w.execute query = (.error error, v)) :
    (fetch query).run (World.handle outside) w = (.error (.sqlx error), v) := by
  simp only [fetch, perform, Prog.bind_ask, Prog.run_perform, World.handle, h]
  rfl

theorem write_some {statement : Database → Option Database} {db : Database}
    (h : statement w.db = some db) : w.write .pool statement = (.ok (), { w with db }) := by
  simp [World.write, World.visible, h]

theorem write_none {statement : Database → Option Database} (h : statement w.db = none) :
    w.write .pool statement = (.error .database, w) := by
  simp [World.write, World.visible, h]

end Writes

section Shards

variable [P : Pallet]

/-- The arguments of one call of `insert_one_shard`. -/
structure ShardCall where
  shardIndex : ShardIndex
  utxoIndex : UInt64
  receiver : Receiver

def ShardCall.key (call : ShardCall) : ShardIndex × UInt64 := (call.shardIndex, call.utxoIndex)

def ShardCall.row (call : ShardCall) : Shard :=
  ⟨call.shardIndex, asI64 call.utxoIndex, encode call.receiver.1, encode call.receiver.2⟩

def insertAll : List ShardCall → Task Unit
  | [] => return ()
  | call :: rest => do
    insertOneShard .pool call.shardIndex call.utxoIndex call.receiver.1 call.receiver.2
    insertAll rest

/-- No later call has the key of this one. -/
def LastCall (calls : List ShardCall) (call : ShardCall) : Prop :=
  ∃ before after, calls = before ++ call :: after ∧ ∀ later ∈ after, later.key ≠ call.key

/-- What a sequence of calls leaves in the tables of `v` when they are upserts. -/
structure Upserted (outside : Outside) (w : World) (calls : List ShardCall) (v : World) : Prop where
  unique : (v.db.shards.map fun row => (row.shardIndex, row.utxoIndex)).Nodup
  last : ∀ row, row ∈ v.db.shards ↔ ∃ call, LastCall calls call ∧ row = call.row
  counted : ∃ ck, (getLatestCheckPoint.run (World.handle outside) v).1 = .ok ck ∧
    ∀ s, ck.receiverIndex s = UInt64.ofNat
      ((calls.filter fun call => call.shardIndex = s).map ShardCall.utxoIndex).dedup.length
  read : ∀ call, LastCall calls call →
    ((getOneShard call.shardIndex call.utxoIndex).run (World.handle outside) v).1 = .ok call.row
  again : ∀ first batch u, calls = first ++ batch →
    (insertAll first).run (World.handle outside) w = (.ok (), u) →
    (∀ call ∈ batch, call.row ∈ u.db.shards) → v.db.shards.Perm u.db.shards

variable {outside : Outside} {w v : World} {calls : List ShardCall}

theorem insertOneShard_run (outside : Outside) (w : World) (call : ShardCall) :
    (insertOneShard .pool call.shardIndex call.utxoIndex call.receiver.1 call.receiver.2).run
        (World.handle outside) w =
      if w.db.shards.length < Database.maxRows then
        (.ok (), { w with db := { w.db with shards := w.db.shards ++ [call.row] } })
      else (.error (.sqlx .database), w) := by
  split
  · rename_i room
    apply fetch_ok
    apply write_some
    simp [Database.insertShard, Database.insertOrReplace, room, ShardCall.row]
  · rename_i full
    apply fetch_error
    apply write_none
    simp [Database.insertShard, Database.insertOrReplace, full]

theorem insertAll_room (room : w.db.shards.length + calls.length ≤ Database.maxRows) :
    ∃ v, (insertAll calls).run (World.handle outside) w = (.ok (), v) := by
  induction calls generalizing w with
  | nil => exact ⟨w, rfl⟩
  | cons call rest ih =>
    rw [List.length_cons] at room
    have first := insertOneShard_run outside w call
    rw [if_pos (by omega)] at first
    unfold insertAll
    rw [Prog.run_bind_ok first]
    apply ih
    simp only [List.length_append, List.length_singleton]
    omega

/-- The rows are added one after the other, whatever their keys are. -/
theorem insertAll_rows (ran : (insertAll calls).run (World.handle outside) w = (.ok (), v)) :
    v = { w with db := { w.db with shards := w.db.shards ++ calls.map ShardCall.row } } := by
  induction calls generalizing w with
  | nil =>
    cases ran
    simp
  | cons call rest ih =>
    have first := insertOneShard_run outside w call
    unfold insertAll at ran
    rw [Prog.run_bind] at ran
    split at first
    · rw [first] at ran
      rw [ih ran]
      simp
    · rw [first] at ran
      cases ran

/-! ### Calls with different keys -/

theorem ShardCall.key_of_row {call other : ShardCall}
    (same : (call.row.shardIndex, call.row.utxoIndex) = (other.row.shardIndex, other.row.utxoIndex)) :
    call.key = other.key := by
  obtain ⟨shard, index⟩ := Prod.mk.inj same
  exact Prod.ext shard (asI64_injective index)

/-- A call whose row is stored already repeats a key. -/
theorem batch_nil_of_stored {first batch : List ShardCall}
    (nodup : ((first ++ batch).map ShardCall.key).Nodup)
    (stored : ∀ call ∈ batch, call.row ∈ first.map ShardCall.row) : batch = [] := by
  cases batch with
  | nil => rfl
  | cons call rest =>
    obtain ⟨other, member, same⟩ := List.mem_map.mp (stored call List.mem_cons_self)
    rw [List.map_append, List.map_cons] at nodup
    have apart := List.disjoint_of_nodup_append nodup
    have key : other.key = call.key := ShardCall.key_of_row (by rw [same])
    exact absurd List.mem_cons_self (apart (key ▸ List.mem_map_of_mem member))

theorem keys_nodup_iff :
    ((calls.map ShardCall.row).map fun row => (row.shardIndex, row.utxoIndex)).Nodup ↔
      (calls.map ShardCall.key).Nodup := by
  rw [List.map_map, List.Nodup, List.Nodup, List.pairwise_map, List.pairwise_map]
  refine ⟨fun h => h.imp ?_, fun h => h.imp ?_⟩
  · intro call other different same
    exact different (congrArg (fun key => (key.1, asI64 key.2)) same)
  · intro call other different same
    exact different (ShardCall.key_of_row same)

variable (nodup : (calls.map ShardCall.key).Nodup)

include nodup

theorem lastCall_iff (call : ShardCall) : LastCall calls call ↔ call ∈ calls := by
  constructor
  · rintro ⟨before, after, rfl, -⟩
    exact List.mem_append_cons_self
  · intro member
    obtain ⟨before, after, rfl⟩ := List.append_of_mem member
    refine ⟨before, after, rfl, fun later there same => ?_⟩
    rw [List.map_append, List.map_cons] at nodup
    have fresh := (List.nodup_cons.mp nodup.of_append_right).1
    exact fresh (same ▸ List.mem_map_of_mem there)

theorem countShards_calls {db : Database} (rows : db.shards = calls.map ShardCall.row)
    (s : ShardIndex) :
    db.countShards s =
      ((calls.filter fun call => call.shardIndex = s).map ShardCall.utxoIndex).dedup.length := by
  have indices : ((calls.filter fun call => call.shardIndex = s).map ShardCall.utxoIndex).Nodup := by
    have keys := nodup.sublist (List.filter_sublist.map ShardCall.key :
      ((calls.filter fun call => call.shardIndex = s).map ShardCall.key).Sublist _)
    have tagged : (calls.filter fun call => call.shardIndex = s).map ShardCall.key =
        ((calls.filter fun call => call.shardIndex = s).map ShardCall.utxoIndex).map (s, ·) := by
      rw [List.map_map]
      apply List.map_congr_left
      intro call member
      exact Prod.ext (of_decide_eq_true (List.mem_filter.mp member).2) rfl
    rw [tagged] at keys
    exact keys.of_map
  rw [indices.dedup, List.length_map, Database.countShards, rows, List.countP_map,
    List.countP_eq_length_filter]
  rfl

theorem shardAt_calls {db : Database} (rows : db.shards = calls.map ShardCall.row)
    {call : ShardCall} (member : call ∈ calls) :
    db.shardAt call.shardIndex (asI64 call.utxoIndex) = some call.row := by
  unfold Database.shardAt
  rw [rows]
  cases found : (calls.map ShardCall.row).find? fun row =>
      row.shardIndex = call.shardIndex ∧ row.utxoIndex = asI64 call.utxoIndex with
  | none =>
    have absent := List.find?_eq_none.mp found call.row (List.mem_map_of_mem member)
    exact absurd (decide_eq_true ⟨rfl, rfl⟩) absent
  | some row =>
    obtain ⟨other, there, rfl⟩ := List.mem_map.mp (List.mem_of_find?_eq_some found)
    have matched := List.find?_some found
    rw [decide_eq_true_iff] at matched
    have same : other = call := by
      apply List.inj_on_of_nodup_map nodup there member
      exact ShardCall.key_of_row (Prod.ext matched.1 matched.2)
    rw [same]

end Shards

/-- The calls of `insert_one_shard` on a migrated database return as long as the table has room, and
they are upserts exactly when no key occurs in them twice. -/
theorem shard_inserts_upsert [Pallet] {w : World} (fresh : w.db = Database.migrated)
    (outside : Outside) (calls : List ShardCall) :
    (calls.length ≤ Database.maxRows →
      ∃ v, (insertAll calls).run (World.handle outside) w = (.ok (), v)) ∧
    ∀ v, (insertAll calls).run (World.handle outside) w = (.ok (), v) →
      (Upserted outside w calls v ↔ (calls.map ShardCall.key).Nodup) := by
  have empty : w.db.shards = [] := by rw [fresh]; rfl
  refine ⟨fun room => insertAll_room ?_, fun v ran => ?_⟩
  · rw [empty, List.length_nil, Nat.zero_add]
    exact room
  have rows : v.db.shards = calls.map ShardCall.row := by
    rw [insertAll_rows ran, empty]
    rfl
  have nullifiers : v.db.countNullifier = 0 := by
    rw [insertAll_rows ran, fresh]
    rfl
  constructor
  · intro upserted
    have unique := upserted.unique
    rw [rows] at unique
    exact keys_nodup_iff.mp unique
  · intro nodup
    refine ⟨?_, fun row => ?_, ?_, fun call last => ?_, fun first batch u split ran' stored => ?_⟩
    · rw [rows]
      exact keys_nodup_iff.mpr nodup
    · simp only [rows, List.mem_map, lastCall_iff nodup, eq_comm]
    · refine ⟨_, congrArg Prod.fst (getLatestCheckPoint_run (by omega)), fun s => ?_⟩
      exact congrArg UInt64.ofNat (countShards_calls nodup rows s)
    · have member := (lastCall_iff nodup call).mp last
      have found := shardAt_calls nodup rows member
      have answer : v.execute (.shardAt call.shardIndex (asI64 call.utxoIndex)) =
          (.ok call.row, v) := by simp only [World.execute, found, World.fetchOne]
      exact congrArg Prod.fst (fetch_ok answer)
    · have before : u.db.shards = first.map ShardCall.row := by
        rw [insertAll_rows ran', empty]
        rfl
      rw [before] at stored
      obtain rfl := batch_nil_of_stored (split ▸ nodup) stored
      rw [rows, before, split, List.append_nil]

section Sample

attribute [local instance] samplePallet

def sampleCall (index : UInt64) (number : UInt8) : ShardCall := ⟨0, index, sampleReceiver 0 number⟩

theorem shard_inserts_upsert_two :
    sampleFresh.db = Database.migrated ∧
    ([sampleCall 0 7, sampleCall 1 8].length ≤ Database.maxRows →
      ∃ v, (insertAll [sampleCall 0 7, sampleCall 1 8]).run (World.handle Outside.offline)
        sampleFresh = (.ok (), v)) ∧
    ∀ v, (insertAll [sampleCall 0 7, sampleCall 1 8]).run (World.handle Outside.offline)
        sampleFresh = (.ok (), v) →
      (Upserted Outside.offline sampleFresh [sampleCall 0 7, sampleCall 1 8] v ↔
        ([sampleCall 0 7, sampleCall 1 8].map ShardCall.key).Nodup) :=
  ⟨rfl, shard_inserts_upsert rfl Outside.offline [sampleCall 0 7, sampleCall 1 8]⟩

/-- The second call has the key of the first one. Both rows are stored, the shard counts two items,
and a reader gets the older one. -/
theorem shard_stored_twice :
    sampleFresh.db = Database.migrated ∧
    ∃ v, (insertAll [sampleCall 0 7, sampleCall 0 8]).run (World.handle Outside.offline)
        sampleFresh = (.ok (), v) ∧
      v.db.shards = [(sampleCall 0 7).row, (sampleCall 0 8).row] ∧ v.db.countShards 0 = 2 ∧
      ((getOneShard 0 0).run (World.handle Outside.offline) v).1 = .ok (sampleCall 0 7).row ∧
      ¬ Upserted Outside.offline sampleFresh [sampleCall 0 7, sampleCall 0 8] v := by
  refine ⟨rfl, ?_⟩
  obtain ⟨v, ran⟩ : ∃ v, (insertAll [sampleCall 0 7, sampleCall 0 8]).run
      (World.handle Outside.offline) sampleFresh = (.ok (), v) := insertAll_room (by decide)
  obtain rfl := insertAll_rows ran
  refine ⟨_, ran, rfl, by decide +kernel, by decide +kernel, fun upserted => ?_⟩
  exact absurd (keys_nodup_iff.mp upserted.unique) (by decide)

end Sample

/-! ### Nullifiers -/

section Nullifiers

variable [P : Pallet]

/-- The two ways of adding a nullifier. -/
inductive Addition where
  /-- `append_nullifier(nc, on)` -/
  | append (sender : Sender)
  /-- `insert_one_nullifier(get_len_of_nullifier(), nc, on)` -/
  | insert (sender : Sender)

def Addition.sender : Addition → Sender
  | .append sender => sender
  | .insert sender => sender

def addNullifier : Addition → Task Unit
  | .append sender => appendNullifier .pool sender.1 sender.2
  | .insert sender => do
    insertOneNullifier .pool (← getLenOfNullifier .pool) sender.1 sender.2

def addNullifiers : List Addition → Task Unit
  | [] => return ()
  | addition :: rest => do
    addNullifier addition
    addNullifiers rest

/-- The table holds the values under the indices from zero on, in their order, so that its length
is the next free index. -/
structure Numbered (table : List Nullifier) (senders : List Sender) : Prop where
  rows : table.Perm (senders.mapIdx nullifierRow)
  length : table.length = senders.length
  free : ∀ row ∈ table, row.idx ≠ table.length

variable {outside : Outside} {w v : World} {sender : Sender}

/-- The rows of the table after one addition. -/
def Database.added (db : Database) : Addition → List Nullifier
  | .append sender => db.nullifier ++ [⟨db.nextIdx, encode sender.1, encode sender.2⟩]
  | .insert sender =>
    db.nullifier.filter (fun row : Nullifier => !decide (row.idx = (db.countNullifier : Int))) ++
      [nullifierRow db.countNullifier sender]

theorem append_run (sender : Sender) (room : w.db.nullifier.length < Database.maxRows) :
    (addNullifier (.append sender)).run (World.handle outside) w =
      (.ok (), { w with db := { w.db with nullifier := w.db.added (.append sender) } }) := by
  apply fetch_ok
  apply write_some
  simp [Database.appendNullifier, Database.added, room]

theorem insert_run (sender : Sender) (small : w.db.countNullifier < 2 ^ 32) :
    (addNullifier (.insert sender)).run (World.handle outside) w =
      (.ok (), { w with db := { w.db with nullifier := w.db.added (.insert sender) } }) := by
  have room : w.db.nullifier.length < Database.maxRows := small.trans (by decide)
  have word := toNat_ofNat (n := w.db.countNullifier) (by omega)
  have index : asI64 (UInt64.ofNat w.db.countNullifier) = w.db.countNullifier := by
    rw [asI64_of_lt (by omega), word]
  unfold addNullifier
  rw [Prog.run_bind_ok (getLenOfNullifier_run small)]
  apply fetch_ok
  apply write_some
  simp [Database.insertNullifier, Database.insertOrReplace, Database.added, nullifierRow, room, index]

theorem addNullifier_rows {addition : Addition}
    (ran : (addNullifier addition).run (World.handle outside) w = (.ok (), v)) :
    v = { w with db := { w.db with nullifier := w.db.added addition } } := by
  cases addition with
  | append sender =>
    by_cases room : w.db.nullifier.length < Database.maxRows
    · rw [append_run sender room] at ran
      exact (Prod.mk.inj ran).2.symm
    · have failed : w.execute (.appendNullifier .pool (encode sender.1) (encode sender.2)) =
          (.error .database, w) := write_none (by simp [Database.appendNullifier, room])
      exact nomatch (fetch_error failed).symm.trans ran
  | insert sender =>
    by_cases small : w.db.countNullifier < 2 ^ 32
    · rw [insert_run sender small] at ran
      exact (Prod.mk.inj ran).2.symm
    · have counted : (fetch (.countNullifier .pool)).run (World.handle outside) w =
          (.ok w.db.countNullifier, w) := rfl
      have panics : (getLenOfNullifier .pool).run (World.handle outside) w =
          (.error .panicked, w) := by
        unfold getLenOfNullifier
        rw [Prog.run_bind_ok counted, if_neg small]
        rfl
      unfold addNullifier at ran
      rw [Prog.run_bind, panics] at ran
      cases ran

/-! ### Numbered tables -/

theorem Numbered.of_rows {table : List Nullifier} {senders : List Sender}
    (rows : table.Perm (senders.mapIdx nullifierRow)) : Numbered table senders := by
  have length : table.length = senders.length := by
    rw [rows.length_eq, List.length_mapIdx]
  refine ⟨rows, length, fun row member => ?_⟩
  obtain ⟨i, sender, stored, rfl⟩ := mem_rows.mp (rows.mem_iff.mp member)
  have inside := (List.getElem?_eq_some_iff.mp stored).1
  show (i : Int) ≠ _
  omega

theorem Numbered.nextIdx {db : Database} {senders : List Sender}
    (numbered : Numbered db.nullifier senders) (nonempty : senders ≠ []) :
    db.nextIdx = senders.length := by
  have pos := List.length_pos_iff.mpr nonempty
  have largest : (db.nullifier.map Nullifier.idx).max? = some ((senders.length - 1 : Nat) : Int) := by
    rw [List.max?_eq_some_iff]
    constructor
    · have stored : senders[senders.length - 1]? = senders.getLast? := List.getLast?_eq_getElem?.symm
      rw [List.getLast?_eq_some_getLast nonempty] at stored
      have member := numbered.rows.mem_iff.mpr (mem_rows.mpr ⟨_, _, stored, rfl⟩)
      exact List.mem_map_of_mem member
    · intro idx member
      obtain ⟨row, there, rfl⟩ := List.mem_map.mp member
      obtain ⟨i, sender, stored, rfl⟩ := mem_rows.mp (numbered.rows.mem_iff.mp there)
      have inside := (List.getElem?_eq_some_iff.mp stored).1
      show (i : Int) ≤ _
      omega
  unfold Database.nextIdx
  rw [largest]
  show ((senders.length - 1 : Nat) : Int) + 1 = _
  omega

/-- Both ways add the next row to a numbered table, when the table is not empty or the length is
asked for. -/
theorem Numbered.added {db : Database} {senders : List Sender} {addition : Addition}
    (numbered : Numbered db.nullifier senders)
    (aligned : senders ≠ [] ∨ ∃ sender, addition = .insert sender) :
    Numbered (db.added addition) (senders ++ [addition.sender]) := by
  apply Numbered.of_rows
  have next : [nullifierRow senders.length addition.sender] =
      [addition.sender].mapIdx fun i => nullifierRow (i + senders.length) := by simp
  rw [List.mapIdx_append, ← next]
  cases addition with
  | append sender =>
    have nonempty : senders ≠ [] := by
      rcases aligned with nonempty | ⟨other, same⟩
      · exact nonempty
      · cases same
    unfold Database.added
    rw [numbered.nextIdx nonempty]
    exact numbered.rows.append_right _
  | insert sender =>
    have length : db.countNullifier = senders.length := numbered.length
    have kept : db.nullifier.filter
        (fun row : Nullifier => !decide (row.idx = (db.countNullifier : Int))) = db.nullifier := by
      rw [List.filter_eq_self]
      intro row member
      rw [Bool.not_eq_true', decide_eq_false_iff_not]
      exact numbered.free row member
    unfold Database.added
    rw [kept, length]
    exact numbered.rows.append_right _

/-- A table that is not empty and does not use the index zero stays so. -/
theorem added_without_zero {db : Database} (addition : Addition) (some : db.nullifier ≠ [])
    (without : ∀ row ∈ db.nullifier, 1 ≤ row.idx) :
    db.added addition ≠ [] ∧ ∀ row ∈ db.added addition, 1 ≤ row.idx := by
  cases addition with
  | append sender =>
    refine ⟨by simp [Database.added], fun row member => ?_⟩
    rcases List.mem_append.mp member with old | new
    · exact without row old
    · obtain rfl := List.mem_singleton.mp new
      show 1 ≤ db.nextIdx
      unfold Database.nextIdx
      split
      · rename_i largest found
        obtain ⟨row, there, rfl⟩ := List.mem_map.mp (List.max?_mem found)
        have bound := without row there
        omega
      · exact le_rfl
  | insert sender =>
    refine ⟨by simp [Database.added], fun row member => ?_⟩
    rcases List.mem_append.mp member with old | new
    · exact without row (List.mem_filter.mp old).1
    · obtain rfl := List.mem_singleton.mp new
      have pos := List.length_pos_iff.mpr some
      show 1 ≤ ((db.nullifier.length : Nat) : Int)
      omega

/-! ### Whole runs -/

variable {additions : List Addition}

theorem addNullifiers_room (room : w.db.nullifier.length + additions.length ≤ 2 ^ 32) :
    ∃ v, (addNullifiers additions).run (World.handle outside) w = (.ok (), v) := by
  induction additions generalizing w with
  | nil => exact ⟨w, rfl⟩
  | cons addition rest ih =>
    rw [List.length_cons] at room
    have shorter : (w.db.added addition).length ≤ w.db.nullifier.length + 1 := by
      cases addition with
      | append sender => simp [Database.added]
      | insert sender => simpa [Database.added] using List.length_filter_le _ _
    have first : (addNullifier addition).run (World.handle outside) w =
        (.ok (), { w with db := { w.db with nullifier := w.db.added addition } }) := by
      cases addition with
      | append sender => exact append_run sender (lt_trans (by omega) (by decide : 2 ^ 32 < _))
      | insert sender => exact insert_run sender (by unfold Database.countNullifier; omega)
    unfold addNullifiers
    rw [Prog.run_bind_ok first]
    apply ih
    show (w.db.added addition).length + rest.length ≤ 2 ^ 32
    omega

theorem addNullifiers_cons {addition : Addition} {rest : List Addition}
    (ran : (addNullifiers (addition :: rest)).run (World.handle outside) w = (.ok (), v)) :
    ∃ u, u.db.nullifier = w.db.added addition ∧
      (addNullifiers rest).run (World.handle outside) u = (.ok (), v) := by
  unfold addNullifiers at ran
  rw [Prog.run_bind] at ran
  generalize first : (addNullifier addition).run (World.handle outside) w = result at ran
  obtain ⟨out, u⟩ := result
  cases out with
  | error error => cases ran
  | ok value => exact ⟨u, by rw [addNullifier_rows first], ran⟩

theorem addNullifiers_numbered {senders : List Sender} (numbered : Numbered w.db.nullifier senders)
    (aligned : senders ≠ [])
    (ran : (addNullifiers additions).run (World.handle outside) w = (.ok (), v)) :
    Numbered v.db.nullifier (senders ++ additions.map Addition.sender) := by
  induction additions generalizing w senders with
  | nil =>
    cases ran
    simpa using numbered
  | cons addition rest ih =>
    obtain ⟨u, table, ran⟩ := addNullifiers_cons ran
    have next : Numbered (w.db.added addition) _ := numbered.added (.inl aligned)
    rw [← table] at next
    simpa using ih next (by simp) ran

theorem addNullifiers_without_zero (nonempty : w.db.nullifier ≠ [])
    (without : ∀ row ∈ w.db.nullifier, 1 ≤ row.idx)
    (ran : (addNullifiers additions).run (World.handle outside) w = (.ok (), v)) :
    ∀ row ∈ v.db.nullifier, 1 ≤ row.idx := by
  induction additions generalizing w with
  | nil =>
    cases ran
    exact without
  | cons addition rest ih =>
    obtain ⟨u, table, ran⟩ := addNullifiers_cons ran
    have kept := added_without_zero addition nonempty without
    rw [← table] at kept
    exact ih kept.1 kept.2 ran

end Nullifiers

/-- From a migrated database, both ways of adding nullifiers return for the first 2^32 of them, and
the table is then numbered from zero in the order of insertion exactly when the first nullifier is
not appended: SQLite numbers an empty table from one. -/
theorem nullifiers_numbered [Pallet] {w : World} (fresh : w.db = Database.migrated)
    (outside : Outside) (additions : List Addition) :
    (additions.length ≤ 2 ^ 32 →
      ∃ v, (addNullifiers additions).run (World.handle outside) w = (.ok (), v)) ∧
    ∀ v, (addNullifiers additions).run (World.handle outside) w = (.ok (), v) →
      (Numbered v.db.nullifier (additions.map Addition.sender) ↔
        ∀ sender, additions.head? ≠ some (.append sender)) := by
  have empty : w.db.nullifier = [] := by rw [fresh]; rfl
  refine ⟨fun short => addNullifiers_room ?_, fun v ran => ?_⟩
  · rw [empty, List.length_nil, Nat.zero_add]
    exact short
  have start : Numbered w.db.nullifier [] := Numbered.of_rows (by rw [empty]; exact .rfl)
  cases additions with
  | nil =>
    cases ran
    simpa using start
  | cons addition rest =>
    obtain ⟨u, table, later⟩ := addNullifiers_cons ran
    cases addition with
    | append sender =>
      -- The first row gets the index one, and no later one gets zero.
      have first : u.db.nullifier = [⟨1, encode sender.1, encode sender.2⟩] := by
        rw [table, Database.added, Database.nextIdx, empty]
        rfl
      have without := addNullifiers_without_zero (by simp [first]) (by simp [first]) later
      constructor
      · intro numbered
        have zero := numbered.rows.mem_iff.mpr (mem_rows.mpr ⟨0, sender, rfl, rfl⟩)
        exact absurd (without _ zero) (by simp [nullifierRow])
      · intro none
        exact absurd rfl (none sender)
    | insert sender =>
      have first : Numbered u.db.nullifier ([] ++ [sender]) := by
        rw [table]
        exact start.added (.inr ⟨sender, rfl⟩)
      exact iff_of_true (addNullifiers_numbered first (by simp) later) (by simp)

section Sample

attribute [local instance] samplePallet

theorem nullifiers_numbered_two :
    sampleFresh.db = Database.migrated ∧
    ([Addition.insert (sampleSender 8), .append (sampleSender 9)].length ≤ 2 ^ 32 →
      ∃ v, (addNullifiers [.insert (sampleSender 8), .append (sampleSender 9)]).run
        (World.handle Outside.offline) sampleFresh = (.ok (), v)) ∧
    ∀ v, (addNullifiers [.insert (sampleSender 8), .append (sampleSender 9)]).run
        (World.handle Outside.offline) sampleFresh = (.ok (), v) →
      (Numbered v.db.nullifier
          ([Addition.insert (sampleSender 8), .append (sampleSender 9)].map Addition.sender) ↔
        ∀ sender, [Addition.insert (sampleSender 8), .append (sampleSender 9)].head? ≠
          some (.append sender)) :=
  ⟨rfl, nullifiers_numbered rfl Outside.offline _⟩

/-- The appended row gets the index 1, which the insert after it takes for the next free one. -/
theorem nullifier_overwritten :
    sampleFresh.db = Database.migrated ∧
    ∃ v, (addNullifiers [.append (sampleSender 8), .insert (sampleSender 9)]).run
        (World.handle Outside.offline) sampleFresh = (.ok (), v) ∧
      v.db.nullifier = [nullifierRow 1 (sampleSender 9)] ∧
      ¬ Numbered v.db.nullifier [sampleSender 8, sampleSender 9] := by
  have rows : ((addNullifiers [.append (sampleSender 8), .insert (sampleSender 9)]).run
      (World.handle Outside.offline) sampleFresh).2.db.nullifier =
        [nullifierRow 1 (sampleSender 9)] := by decide +kernel
  obtain ⟨v, ran⟩ : ∃ v, (addNullifiers [.append (sampleSender 8), .insert (sampleSender 9)]).run
      (World.handle Outside.offline) sampleFresh = (.ok (), v) := addNullifiers_room (by decide)
  rw [ran] at rows
  refine ⟨rfl, v, ran, rows, fun numbered => ?_⟩
  have length := numbered.length
  rw [rows] at length
  cases length

end Sample

end MantaIndexer
