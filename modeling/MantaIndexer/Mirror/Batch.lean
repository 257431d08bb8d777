import MantaIndexer.Mirror.Growth
import MantaIndexer.Indexer.Sync

/-!
What one batch of the full node does to the tables, the checkpoint and the cache: the ledger they
hold is extended by the response.
-/

namespace MantaIndexer
open Effects Encoding Collections

variable [P : Pallet]

/-! ### One row -/

/-- The receivers added when one shard gets `items`. -/
def only (s : ShardIndex) (items : List Receiver) : ShardIndex → List Receiver :=
  fun t => if t = s then items else []

theorem Represents.insertShard {db db' : Database} {L : Ledger} (h : Represents db L)
    {s : ShardIndex} {x : UInt64} (next : x = UInt64.ofNat (L.count s)) {receiver : Receiver}
    (inserted : db.insertShard ⟨s, asI64 x, encode receiver.1, encode receiver.2⟩ = some db') :
    Represents db' (L.extend (only s [receiver]) []) := by
  unfold Database.insertShard Database.insertOrReplace at inserted
  split at inserted
  case isFalse => cases inserted
  case isTrue room =>
    cases inserted
    have counted := (h.count_le_length s).trans_lt room
    unfold Database.maxRows at counted
    have index : asI64 x = (L.count s : Int) := by
      have word := toNat_ofNat (n := L.count s) (by omega)
      rw [next, asI64_of_lt (by omega), word]
    refine ⟨fun t => ?_, ?_, fun t => ?_, ?_⟩
    · by_cases same : t = s
      · subst same
        have rows := h.shards t
        simp only [Database.rowsOf, Bool.not_false, List.filter_true, List.filter_append] at rows ⊢
        simp only [Ledger.extend, only, if_true, List.mapIdx_append, List.filter_cons, index]
        exact rows.append (by simp [shardRow, Ledger.count])
      · have rows := h.shards t
        simp only [Database.rowsOf, Bool.not_false, List.filter_true, List.filter_append] at rows ⊢
        simpa [Ledger.extend, only, same, Ne.symm same] using rows
    · simpa [Ledger.extend] using h.nullifiers
    · have others := h.below.1 t
      rw [Ledger.count_extend, only]
      split
      · rename_i same
        subst same
        simp only [List.length_singleton]
        omega
      · exact others
    · simpa [Ledger.extend] using h.below.2

/-- A sender inserted under the count of the table extends it; no row is replaced. -/
theorem Represents.insertNullifier {db db' : Database} {L : Ledger} (h : Represents db L)
    {x : UInt64} (next : x = UInt64.ofNat L.senders.length) {sender : Sender}
    (inserted : db.insertNullifier ⟨asI64 x, encode sender.1, encode sender.2⟩ = some db') :
    Represents db' (L.extend (fun _ => []) [sender]) := by
  unfold Database.insertNullifier Database.insertOrReplace at inserted
  split at inserted
  case isFalse => cases inserted
  case isTrue room =>
    cases inserted
    have counted := h.countNullifier
    rw [Database.countNullifier] at counted
    unfold Database.maxRows at room
    have index : asI64 x = (L.senders.length : Int) := by
      have word := toNat_ofNat (n := L.senders.length) (by omega)
      rw [next, asI64_of_lt (by omega), word]
    have kept : db.nullifier.filter (fun r => !decide (r.idx = asI64 x)) = db.nullifier := by
      rw [List.filter_eq_self]
      intro row member
      obtain ⟨i, old, stored, rfl⟩ := mem_rows.mp (h.nullifiers.mem_iff.mp member)
      have inside := (List.getElem?_eq_some_iff.mp stored).1
      simp only [nullifierRow, index, Bool.not_eq_true', decide_eq_false_iff_not]
      omega
    refine ⟨fun t => ?_, ?_, fun t => ?_, ?_⟩
    · show (db.rowsOf t).Perm _
      simpa [Ledger.extend] using h.shards t
    · simp only [kept, Ledger.extend, List.mapIdx_append]
      exact h.nullifiers.append (by simp [nullifierRow, index])
    · simpa [Ledger.count_extend] using h.below.1 t
    · simp only [Ledger.extend, List.length_append, List.length_singleton]
      omega

theorem Represents.insertTotal {db db' : Database} {L : Ledger} (h : Represents db L)
    {row : SendersReceiversTotal} (inserted : db.insertTotal row = some db') :
    Represents db' L := by
  unfold Database.insertTotal Database.insertOrReplace at inserted
  split at inserted
  · split at inserted
    · cases inserted
      exact ⟨h.shards, h.nullifiers, h.below⟩
    · cases inserted
  · cases inserted

/-! ### The receivers of a response by shard -/

theorem reconstructFrom_groups {groups shards : List (ShardIndex × List Receiver)}
    {receivers : List Receiver} (h : reconstructFrom groups receivers = .ok shards)
    (nodup : (groups.map Prod.fst).Nodup) :
    (shards.map Prod.fst).Nodup ∧
      (∀ receiver ∈ receivers, ∃ s, treeIndex receiver.1 = some s) ∧
      ∀ s, groupOf shards s = groupOf groups s ++ Ledger.ofShard receivers s := by
  induction receivers generalizing groups with
  | nil =>
    cases h
    exact ⟨nodup, by simp, fun s => by simp [Ledger.ofShard]⟩
  | cons receiver rest ih =>
    unfold reconstructFrom at h
    split at h
    case h_1 => cases h
    case h_2 s tree =>
      obtain ⟨unique, converted, grouped⟩ := ih h (keys_pushGroup_nodup nodup)
      refine ⟨unique, List.forall_mem_cons.mpr ⟨⟨s, tree⟩, converted⟩, fun t => ?_⟩
      rw [grouped, groupOf_pushGroup]
      by_cases same : t = s
      · simp [Ledger.ofShard, tree, same]
      · simp [Ledger.ofShard, tree, same, Ne.symm same]

theorem groupOf_order {shards : List (ShardIndex × List Receiver)} {order : List ShardIndex}
    (perm : order.Perm (shards.map Prod.fst)) (s : ShardIndex) :
    groupOf (order.map fun t => (t, groupOf shards t)) s = groupOf shards s := by
  rw [groupOf_map]
  split
  · rfl
  · rename_i absent
    exact (groupOf_eq_nil fun member => absent (perm.mem_iff.mpr member)).symm

theorem order_keys_nodup {shards : List (ShardIndex × List Receiver)} {order : List ShardIndex}
    (nodup : (shards.map Prod.fst).Nodup) (perm : order.Perm (shards.map Prod.fst)) :
    ((order.map fun s => (s, groupOf shards s)).map Prod.fst).Nodup := by
  rw [List.map_map]
  simpa [Function.comp_def] using perm.nodup_iff.mpr nodup

/-! ### The next checkpoint -/

theorem foldl_increase {groups : List (ShardIndex × List Receiver)}
    (nodup : (groups.map Prod.fst).Nodup) (indices : ShardIndex → UInt64) (s : ShardIndex) :
    groups.foldl (fun receiverIndex group => Function.update receiverIndex group.1
        (receiverIndex group.1 + UInt64.ofNat group.2.length)) indices s =
      indices s + UInt64.ofNat (groupOf groups s).length := by
  induction groups generalizing indices with
  | nil => exact (UInt64.add_zero _).symm
  | cons head rest ih =>
    obtain ⟨first, group⟩ := head
    obtain ⟨fresh, nodup⟩ := List.nodup_cons.mp nodup
    rw [List.foldl_cons, ih nodup, groupOf]
    by_cases same : first = s
    · subst same
      rw [groupOf_eq_nil fresh, if_pos rfl, Function.update_self]
      exact UInt64.add_zero _
    · rw [if_neg same, Function.update_of_ne (Ne.symm same)]

theorem increasingCheckpoint_extend {L : Ledger} {groups : List (ShardIndex × List Receiver)}
    (nodup : (groups.map Prod.fst).Nodup) (senders : List Sender) :
    increasingCheckpoint L.checkpoint senders.length groups =
      (L.extend (groupOf groups) senders).checkpoint := by
  ext s
  · simp only [increasingCheckpoint, Ledger.checkpoint]
    rw [foldl_increase nodup, Ledger.count_extend, ← UInt64.ofNat_add]
  · simp only [increasingCheckpoint, Ledger.checkpoint, Ledger.extend, List.length_append,
      ← UInt64.ofNat_add]

/-- In whatever order the hash map is iterated, each cursor moves by the receivers of its shard. -/
theorem increasingCheckpoint_order {shards : List (ShardIndex × List Receiver)}
    {order : List ShardIndex} {receivers : List Receiver}
    (grouped : reconstructFrom [] receivers = .ok shards)
    (perm : order.Perm (shards.map Prod.fst)) (ck : Checkpoint) (senders : Nat) (s : ShardIndex) :
    (increasingCheckpoint ck senders
        (order.map fun s => (s, groupOf shards s))).receiverIndex s =
      ck.receiverIndex s + UInt64.ofNat (Ledger.ofShard receivers s).length := by
  obtain ⟨nodup, -, groups⟩ := reconstructFrom_groups grouped List.nodup_nil
  simp only [increasingCheckpoint]
  rw [foldl_increase (order_keys_nodup nodup perm), groupOf_order perm, groups s]
  rfl

/-! ### The refreshed cache -/

omit P in
theorem mem_cacheBatch {α : Type} [Codec α] {values items : List α} {item : UInt64 × Bytes}
    (member : item ∈ cacheBatch (UInt64.ofNat values.length) items) :
    ∃ i value, (values ++ items)[i]? = some value ∧ item = (UInt64.ofNat i, encode value) := by
  obtain ⟨offset, inside, rfl⟩ := List.mem_mapIdx.mp member
  refine ⟨values.length + offset, items[offset], ?_, by rw [← UInt64.ofNat_add]⟩
  rw [List.getElem?_append_right (Nat.le_add_right _ _), Nat.add_sub_cancel_left,
    List.getElem?_eq_getElem inside]

theorem caches_cacheBatch_receivers {L : Ledger} {receivers : ShardIndex → List Receiver}
    {senders : List Sender} (s : ShardIndex) :
    ∀ entry ∈ (cacheBatch (UInt64.ofNat (L.count s)) (receivers s)).map
      (fun item => (Cache.receiverKey (Cache.shardWord s) item.1, item.2)),
      Caches (L.extend receivers senders) entry := by
  intro entry member
  obtain ⟨item, batched, rfl⟩ := List.mem_map.mp member
  obtain ⟨i, receiver, stored, rfl⟩ := mem_cacheBatch batched
  exact .receiver stored

theorem caches_cacheBatch_senders {L : Ledger} {receivers : ShardIndex → List Receiver}
    {senders : List Sender} :
    ∀ entry ∈ (cacheBatch (UInt64.ofNat L.senders.length) senders).map
      (fun item => (Cache.senderKey item.1, item.2)), Caches (L.extend receivers senders) entry := by
  intro entry member
  obtain ⟨item, batched, rfl⟩ := List.mem_map.mp member
  obtain ⟨i, sender, stored, rfl⟩ := mem_cacheBatch batched
  exact .sender stored

/-! ### The latest checkpoint -/

section Latest

variable {w : World} {outside : Outside}

theorem countReceivers_run (w : World) (shards : List ShardIndex) (start : Checkpoint) :
    (countReceivers shards start).run (World.handle outside) w =
      (.ok { start with receiverIndex := fun s =>
        if s ∈ shards then UInt64.ofNat (w.db.countShards s) else start.receiverIndex s }, w) := by
  induction shards generalizing start with
  | nil => simp [countReceivers]
  | cons first rest ih =>
    have answer : (fetch (.countShards first)).run (World.handle outside) w =
        (.ok (w.db.countShards first), w) := rfl
    unfold countReceivers
    rw [Prog.run_bind_ok answer, ih]
    congr 3
    funext s
    by_cases same : s = first
    · subst same
      simp
    · simp [same]

theorem getLenOfNullifier_run (small : w.db.countNullifier < 2 ^ 32) :
    (getLenOfNullifier .pool).run (World.handle outside) w =
      (.ok (UInt64.ofNat w.db.countNullifier), w) := by
  have answer : (fetch (.countNullifier .pool)).run (World.handle outside) w =
      (.ok w.db.countNullifier, w) := rfl
  unfold getLenOfNullifier
  rw [Prog.run_bind_ok answer, if_pos small]
  rfl

theorem getLatestCheckPoint_run (small : w.db.countNullifier < 2 ^ 32) :
    getLatestCheckPoint.run (World.handle outside) w =
      (.ok ⟨fun s => UInt64.ofNat (w.db.countShards s), UInt64.ofNat w.db.countNullifier⟩, w) := by
  unfold getLatestCheckPoint
  rw [Prog.run_bind_ok (countReceivers_run w _ _), Prog.run_bind_ok (getLenOfNullifier_run small)]
  simp

theorem Represents.latest {L : Ledger} (holds : Represents w.db L)
    (small : L.senders.length < 2 ^ 32) :
    getLatestCheckPoint.run (World.handle outside) w = (.ok L.checkpoint, w) := by
  rw [← holds.countNullifier] at small
  rw [getLatestCheckPoint_run small, holds.countNullifier]
  simp only [holds.count]
  rfl

end Latest

end MantaIndexer
