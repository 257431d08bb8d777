import MantaIndexer.Mirror.Represents
import MantaIndexer.Indexer.Pull

/-!
When the cache agrees with the ledger, and what the two halves of a pull then compute: the decoded
cache hits of a range, and the decoded rows of its misses.
-/

namespace MantaIndexer
open Encoding Collections

variable [P : Pallet]

/-- The entries a cache may hold for a ledger: an item under its own key. -/
inductive Caches (L : Ledger) : Cache.LruKeyType × Bytes → Prop where
  | receiver {s : ShardIndex} {i : Nat} {receiver : Receiver}
      (stored : (L.receivers s)[i]? = some receiver) :
      Caches L (Cache.receiverKey (Cache.shardWord s) (UInt64.ofNat i), encode receiver)
  | sender {i : Nat} {sender : Sender} (stored : L.senders[i]? = some sender) :
      Caches L (Cache.senderKey (UInt64.ofNat i), encode sender)

def Coherent (L : Ledger) (lru : Lru Cache.LruKeyType Bytes) : Prop :=
  ∀ entry ∈ lru.entries, Caches L entry

theorem Caches.mono {L M : Ledger} (h : L ≤ M) {entry : Cache.LruKeyType × Bytes}
    (cached : Caches L entry) : Caches M entry := by
  cases cached with
  | receiver stored => exact .receiver (stored_longer (h.1 _) stored)
  | sender stored => exact .sender (stored_longer h.2 stored)

namespace Coherent

variable {L : Ledger} {lru : Lru Cache.LruKeyType Bytes}

theorem empty (L : Ledger) (capacity : Nat) : Coherent L (Lru.empty capacity) := by
  intro entry member
  cases member

theorem mono {M : Ledger} (coherent : Coherent L lru) (h : L ≤ M) : Coherent M lru :=
  fun entry member => (coherent entry member).mono h

theorem getBatch (coherent : Coherent L lru) (keys : List Cache.LruKeyType) :
    Coherent L (lru.getBatch keys).2 :=
  fun entry member => coherent entry (Lru.mem_getBatch.mp member)

theorem putBatch (coherent : Coherent L lru) {batch : List (Cache.LruKeyType × Bytes)}
    (cached : ∀ entry ∈ batch, Caches L entry) : Coherent L (lru.putBatch batch) := by
  intro entry member
  rcases Lru.mem_putBatch member with new | old
  · exact cached entry new
  · exact coherent entry old

theorem evicted {rest : Lru Cache.LruKeyType Bytes} (coherent : Coherent L lru)
    (h : lru.Evicted rest) : Coherent L rest :=
  fun entry member => coherent entry (h entry member)

/-- Below 2^48 a key belongs to one item only, so a hit is the encoding of the item asked for. -/
theorem lookup_receiver (coherent : Coherent L lru) (below : L.Below (2 ^ 48)) {s : ShardIndex}
    {x : UInt64} (small : x.toNat < 2 ^ 48) {bytes : Bytes}
    (hit : lru.lookup (Cache.receiverKey (Cache.shardWord s) x) = some bytes) :
    ∃ receiver, (L.receivers s)[x.toNat]? = some receiver ∧ bytes = encode receiver := by
  have member := Lru.lookup_eq_some.mp hit
  generalize entry_eq : (Cache.receiverKey (Cache.shardWord s) x, bytes) = entry at member
  cases coherent entry member with
  | @receiver t i receiver stored =>
    obtain ⟨same, rfl⟩ := Prod.mk.inj entry_eq
    have inside : i < L.count t := (List.getElem?_eq_some_iff.mp stored).1
    have bound := below.1 t
    have word := toNat_ofNat (n := i) (by omega)
    obtain ⟨rfl, rfl⟩ := Cache.receiverKey_inj small (by omega) same
    exact ⟨receiver, by rw [word]; exact stored, rfl⟩
  | sender stored =>
    exact absurd (Prod.mk.inj entry_eq).1 (Cache.receiverKey_ne_senderKey _ _ _)

/-- The key of a sender holds the lower 48 bits of its index only. -/
theorem lookup_senderKey (coherent : Coherent L lru) (few : L.senders.length < 2 ^ 48) {x : UInt64}
    {bytes : Bytes} (hit : lru.lookup (Cache.senderKey x) = some bytes) :
    ∃ sender, L.senders[x.toNat % 2 ^ 48]? = some sender ∧ bytes = encode sender := by
  have member := Lru.lookup_eq_some.mp hit
  generalize entry_eq : (Cache.senderKey x, bytes) = entry at member
  cases coherent entry member with
  | receiver stored =>
    exact absurd (Prod.mk.inj entry_eq).1.symm (Cache.receiverKey_ne_senderKey _ _ _)
  | @sender i sender stored =>
    obtain ⟨same, rfl⟩ := Prod.mk.inj entry_eq
    have inside : i < L.senders.length := (List.getElem?_eq_some_iff.mp stored).1
    have word := toNat_ofNat (n := i) (by omega)
    have values := congrArg UInt64.toNat same
    rw [Cache.senderKey_toNat, Cache.senderKey_toNat, word] at values
    have index : x.toNat % 2 ^ 48 = i := by omega
    rw [index]
    exact ⟨sender, stored, rfl⟩

theorem lookup_sender (coherent : Coherent L lru) (few : L.senders.length < 2 ^ 48) {x : UInt64}
    (small : x.toNat < 2 ^ 48) {bytes : Bytes} (hit : lru.lookup (Cache.senderKey x) = some bytes) :
    ∃ sender, L.senders[x.toNat]? = some sender ∧ bytes = encode sender := by
  have found := coherent.lookup_senderKey few hit
  rwa [Nat.mod_eq_of_lt small] at found

end Coherent

/-! ### The pure halves of a pull -/

omit P in
theorem decodeOrFail_encode {α : Type} [Codec α] (value : α) :
    decodeOrFail α (encode value) = .ok value := by
  simp [decodeOrFail]

omit P in
/-- The hits are the values at the places their keys stand for, in the order of the range. -/
theorem splitCached_place {α : Type} [Codec α] {values : List α} {cell : Nat → Option Bytes}
    {positions : List Nat} (place : Nat → Nat)
    (hits : ∀ i ∈ positions, ∀ bytes, cell i = some bytes →
      ∃ value, values[place i]? = some value ∧ bytes = encode value) :
    splitCached α (positions.map UInt64.ofNat) (positions.map cell) =
      .ok (pick values ((positions.filter fun i => (cell i).isSome).map place),
        (positions.filter fun i => !(cell i).isSome).map fun i => asI64 (UInt64.ofNat i)) := by
  induction positions with
  | nil => rfl
  | cons i positions ih =>
    have rest := ih fun j member => hits j (List.mem_cons_of_mem _ member)
    cases content : cell i with
    | none =>
      simp only [List.map_cons, content, splitCached, rest]
      simp [content, pure, Except.pure, bind, Except.bind]
    | some bytes =>
      obtain ⟨value, stored, rfl⟩ := hits i List.mem_cons_self bytes content
      simp only [List.map_cons, content, splitCached, rest, decodeOrFail_encode]
      simp [content, pure, Except.pure, bind, Except.bind, pick, stored]

omit P in
theorem splitCached_pick {α : Type} [Codec α] {values : List α} {cell : Nat → Option Bytes}
    {positions : List Nat} (small : ∀ i ∈ positions, i < 2 ^ 63)
    (hits : ∀ i ∈ positions, ∀ bytes, cell i = some bytes →
      ∃ value, values[i]? = some value ∧ bytes = encode value) :
    splitCached α (positions.map UInt64.ofNat) (positions.map cell) =
      .ok (pick values (positions.filter fun i => (cell i).isSome),
        (positions.filter fun i => !(cell i).isSome).map Int.ofNat) := by
  have words : (positions.filter fun i => !(cell i).isSome).map (fun i => asI64 (UInt64.ofNat i)) =
      (positions.filter fun i => !(cell i).isSome).map Int.ofNat := by
    apply List.map_congr_left
    intro i member
    have bound := small i (List.mem_filter.mp member).1
    have toNat := toNat_ofNat (n := i) (by omega)
    rw [asI64_of_lt (by omega), toNat]
    rfl
  have split := splitCached_place id hits
  rwa [words, List.map_id] at split

/-! ### Reading a range -/

section Range

variable {α : Type} [Codec α] {lru : Lru Cache.LruKeyType Bytes}
  {key : UInt64 → Cache.LruKeyType} {values : List α}

/-- What the cache holds under the keys of a list is that list, as far as it goes. -/
def Agrees (lru : Lru Cache.LruKeyType Bytes) (key : UInt64 → Cache.LruKeyType)
    (values : List α) : Prop :=
  ∀ i < 2 ^ 48, ∀ bytes, lru.lookup (key (UInt64.ofNat i)) = some bytes →
    ∃ value, values[i]? = some value ∧ bytes = encode value

def hits (lru : Lru Cache.LruKeyType Bytes) (key : UInt64 → Cache.LruKeyType)
    (first amount : Nat) : List Nat :=
  (List.range' first amount).filter fun i => (lru.lookup (key (UInt64.ofNat i))).isSome

def misses (lru : Lru Cache.LruKeyType Bytes) (key : UInt64 → Cache.LruKeyType)
    (first amount : Nat) : List Nat :=
  (List.range' first amount).filter fun i => !(lru.lookup (key (UInt64.ofNat i))).isSome

omit P in
theorem misses_sorted (first amount : Nat) :
    (misses lru key first amount).Pairwise (· < ·) :=
  (List.pairwise_lt_range' ..).filter _

omit P in
theorem Agrees.split (agrees : Agrees lru key values) {x amount : UInt64}
    (fits : x.toNat + amount.toNat ≤ 2 ^ 48) :
    splitCached α (span x (x + amount)) (((span x (x + amount)).map key).map lru.lookup) =
      .ok (pick values (hits lru key x.toNat amount.toNat),
        (misses lru key x.toNat amount.toNat).map Int.ofNat) := by
  have inRange : ∀ i ∈ List.range' x.toNat amount.toNat, i < 2 ^ 48 := by
    intro i member
    have bounds := List.mem_range'_1.mp member
    omega
  rw [span_add (by omega), List.map_map, List.map_map]
  exact splitCached_pick (fun i member => (inRange i member).trans (by decide))
    (fun i member => agrees i (inRange i member))

omit P in
/-- Hits read from the cache and misses read later from a longer list make up its page. -/
theorem Agrees.page_perm (agrees : Agrees lru key values) {longer : List α}
    (h : values <+: longer) {first amount : Nat} (fits : first + amount ≤ 2 ^ 48) :
    (pick values (hits lru key first amount) ++ pick longer (misses lru key first amount)).Perm
      (page longer first amount) := by
  have inside : ∀ i ∈ hits lru key first amount, i < values.length := by
    intro i member
    obtain ⟨range, hit⟩ := List.mem_filter.mp member
    have bounds := List.mem_range'_1.mp range
    obtain ⟨bytes, content⟩ := Option.isSome_iff_exists.mp hit
    obtain ⟨value, stored, -⟩ := agrees i (by omega) bytes content
    exact (List.getElem?_eq_some_iff.mp stored).1
  rw [← pick_longer h inside, ← pick_range']
  exact pick_split_perm longer (List.range' first amount) _

end Range

theorem Coherent.agrees_receivers {L : Ledger} {lru : Lru Cache.LruKeyType Bytes}
    (coherent : Coherent L lru) (below : L.Below (2 ^ 48)) (s : ShardIndex) :
    Agrees lru (Cache.receiverKey (Cache.shardWord s)) (L.receivers s) := by
  intro i small bytes hit
  have word := toNat_ofNat (n := i) (by omega)
  obtain ⟨receiver, stored, same⟩ := coherent.lookup_receiver below (by omega) hit
  exact ⟨receiver, by rwa [word] at stored, same⟩

theorem Coherent.agrees_senders {L : Ledger} {lru : Lru Cache.LruKeyType Bytes}
    (coherent : Coherent L lru) (below : L.Below (2 ^ 48)) :
    Agrees lru Cache.senderKey L.senders := by
  intro i small bytes hit
  have word := toNat_ofNat (n := i) (by omega)
  obtain ⟨sender, stored, same⟩ := coherent.lookup_sender below.2 (by omega) hit
  exact ⟨sender, by rwa [word] at stored, same⟩

omit P in
theorem decodeRows_pick {ρ α β : Type} [Codec α] [Codec β] {index : ρ → Int}
    {first second : ρ → Bytes} {row : Nat → α × β → ρ} {values : List (α × β)}
    (numbered : ∀ i value, index (row i value) = i)
    (columns : ∀ i value, first (row i value) = encode value.1 ∧ second (row i value) = encode value.2)
    (positions : List Nat) :
    decodeRows α β index first second (positions.filterMap fun i => values[i]?.map (row i)) =
      .ok (pick values positions,
        positions.filterMap fun i => values[i]?.map fun value => (UInt64.ofNat i, encode value)) := by
  induction positions with
  | nil => rfl
  | cons i positions ih =>
    cases stored : values[i]? with
    | none => simpa [pick, stored] using ih
    | some value =>
      simp only [pick, List.filterMap_cons, stored, Option.map_some, decodeRows, numbered,
        (columns i value).1, (columns i value).2, decodeOrFail_encode, ofInt_natCast]
      rw [ih]
      rfl

def writeBack {α : Type} [Codec α] (values : List α) (positions : List Nat) :
    List (UInt64 × Bytes) :=
  positions.filterMap fun i => values[i]?.map fun value => (UInt64.ofNat i, encode value)

theorem decodeShards_pick (s : ShardIndex) (values : List Receiver) (positions : List Nat) :
    decodeShards (positions.filterMap fun i => values[i]?.map (shardRow s i)) =
      .ok (pick values positions, writeBack values positions) :=
  decodeRows_pick (shardRow_numbered s) (fun _ _ => ⟨rfl, rfl⟩) positions

theorem decodeNullifiers_pick (values : List Sender) (positions : List Nat) :
    decodeNullifiers (positions.filterMap fun i => values[i]?.map (nullifierRow i)) =
      .ok (pick values positions, writeBack values positions) :=
  decodeRows_pick nullifierRow_numbered (fun _ _ => ⟨rfl, rfl⟩) positions

omit P in
theorem mem_writeBack {α : Type} [Codec α] {values : List α} {positions : List Nat}
    {item : UInt64 × Bytes} (member : item ∈ writeBack values positions) :
    ∃ i value, values[i]? = some value ∧ item = (UInt64.ofNat i, encode value) := by
  obtain ⟨i, -, mapped⟩ := List.mem_filterMap.mp member
  obtain ⟨value, stored, rfl⟩ := Option.map_eq_some_iff.mp mapped
  exact ⟨i, value, stored, rfl⟩

theorem caches_writeBack_receivers {L : Ledger} (s : ShardIndex) (positions : List Nat) :
    ∀ entry ∈ (writeBack (L.receivers s) positions).map
      (fun item => (Cache.receiverKey (Cache.shardWord s) item.1, item.2)), Caches L entry := by
  intro entry member
  obtain ⟨item, written, rfl⟩ := List.mem_map.mp member
  obtain ⟨i, receiver, stored, rfl⟩ := mem_writeBack written
  exact .receiver stored

theorem caches_writeBack_senders {L : Ledger} (positions : List Nat) :
    ∀ entry ∈ (writeBack L.senders positions).map (fun item => (Cache.senderKey item.1, item.2)),
      Caches L entry := by
  intro entry member
  obtain ⟨item, written, rfl⟩ := List.mem_map.mp member
  obtain ⟨i, sender, stored, rfl⟩ := mem_writeBack written
  exact .sender stored

end MantaIndexer
