import MantaIndexer.Collections.Lru
import Mathlib.Data.List.Dedup
import Mathlib.Data.List.Perm.Subperm

/-!
What a cache remembers of the pairs stored in it: never anything but the last value stored under a
key, and all of them as long as no more keys were stored than it has room for.
-/

namespace Collections

variable {κ ν : Type} [DecidableEq κ]

/-- The value of the last pair stored under a key. -/
def lastPut (puts : List (κ × ν)) (key : κ) : Option ν :=
  (puts.reverse.find? fun put => put.1 = key).map Prod.snd

theorem lastPut_concat (puts : List (κ × ν)) (put : κ × ν) (key : κ) :
    lastPut (puts ++ [put]) key = if put.1 = key then some put.2 else lastPut puts key := by
  by_cases same : put.1 = key
  · simp [lastPut, same]
  · simp [lastPut, same]

theorem lastPut_filter (keep : κ → Bool) {key : κ} (kept : keep key) (puts : List (κ × ν)) :
    lastPut (puts.filter fun put => keep put.1) key = lastPut puts key := by
  have tests : (fun put : κ × ν => decide (keep put.1 ∧ decide (put.1 = key))) =
      fun put => decide (put.1 = key) := by
    funext put
    by_cases same : put.1 = key
    · simp [same, kept]
    · simp [same]
  rw [lastPut, lastPut, ← List.filter_reverse, List.find?_filter, tests]

theorem mem_keys_of_lastPut {puts : List (κ × ν)} {key : κ} {value : ν}
    (last : lastPut puts key = some value) : key ∈ puts.map Prod.fst := by
  obtain ⟨put, found, -⟩ := Option.map_eq_some_iff.mp last
  have same : put.1 = key := by simpa using List.find?_some found
  exact List.mem_map.mpr ⟨put, List.mem_reverse.mp (List.mem_of_find?_eq_some found), same⟩

/-- How many keys were stored under. -/
def distinctKeys (puts : List (κ × ν)) : Nat := (puts.map Prod.fst).dedup.length

theorem distinctKeys_le_append (puts more : List (κ × ν)) :
    distinctKeys puts ≤ distinctKeys (puts ++ more) := by
  apply (List.subperm_of_subset (List.nodup_dedup _) _).length_le
  intro key member
  simp only [List.mem_dedup, List.map_append, List.mem_append] at member ⊢
  exact .inl member

namespace Lru

/-- Every entry is the last value stored under its key, and nothing was dropped as long as all the
keys stored under fit. -/
structure Records (puts : List (κ × ν)) (cache : Lru κ ν) : Prop where
  latest : ∀ entry ∈ cache.entries, lastPut puts entry.1 = some entry.2
  complete : distinctKeys puts ≤ cache.capacity →
    ∀ key value, lastPut puts key = some value → (key, value) ∈ cache.entries

theorem records_empty (capacity : Nat) : (empty capacity : Lru κ ν).Records [] where
  latest := by simp [empty]
  complete := by simp [lastPut]

variable {puts : List (κ × ν)} {cache : Lru κ ν}

/-- A cache with the same entries, in whatever order, remembers the same. -/
theorem Records.same_entries {other : Lru κ ν} (records : cache.Records puts)
    (entries : ∀ entry, entry ∈ other.entries ↔ entry ∈ cache.entries)
    (capacity : other.capacity = cache.capacity) : other.Records puts where
  latest := fun entry member => records.latest entry ((entries entry).mp member)
  complete := by
    intro room key value last
    rw [capacity] at room
    exact (entries _).mpr (records.complete room key value last)

/-- The entries of a cache that had room for all of them are not cut. -/
theorem Records.take_all (records : cache.Records puts) {key : κ} {value : ν}
    (room : distinctKeys (puts ++ [(key, value)]) ≤ cache.capacity) :
    (cache.put key value).entries = (key, value) :: others key cache.entries := by
  have unique : (((key, value) :: others key cache.entries).map Prod.fst).Nodup :=
    List.nodup_cons.mpr ⟨key_notMem_others _ _, others_unique cache.unique _⟩
  have among : ((key, value) :: others key cache.entries).map Prod.fst ⊆
      ((puts ++ [(key, value)]).map Prod.fst).dedup := by
    intro k member
    simp only [List.mem_dedup, List.map_append, List.mem_append, List.map_cons, List.map_nil,
      List.mem_singleton]
    rcases List.mem_cons.mp member with rfl | member
    · exact .inr rfl
    · obtain ⟨entry, kept, rfl⟩ := List.mem_map.mp member
      exact .inl (mem_keys_of_lastPut (records.latest entry (List.mem_filter.mp kept).1))
  have fits := (List.subperm_of_subset unique among).length_le
  rw [List.length_map] at fits
  exact List.take_of_length_le (Nat.le_trans fits room)

theorem Records.put (records : cache.Records puts) (key : κ) (value : ν) :
    (cache.put key value).Records (puts ++ [(key, value)]) where
  latest := by
    intro entry member
    rw [lastPut_concat]
    rcases List.mem_cons.mp (List.mem_of_mem_take member) with rfl | member
    · simp
    · obtain ⟨member, other⟩ := List.mem_filter.mp member
      have different : key ≠ entry.1 := Ne.symm (by simpa using other)
      rw [if_neg different]
      exact records.latest entry member
  complete := by
    intro room k v last
    rw [records.take_all room]
    rw [lastPut_concat] at last
    split at last
    · rename_i same
      obtain rfl : key = k := same
      cases last
      exact List.mem_cons_self
    · rename_i different
      have before := Nat.le_trans (distinctKeys_le_append puts [(key, value)]) room
      have kept := records.complete before k v last
      exact List.mem_cons_of_mem _ (List.mem_filter.mpr ⟨kept, by simpa using Ne.symm different⟩)

theorem Records.putBatch (records : cache.Records puts) (batch : List (κ × ν)) :
    (cache.putBatch batch).Records (puts ++ batch) := by
  induction batch generalizing cache puts with
  | nil => simpa [Lru.putBatch] using records
  | cons entry rest ih =>
    have stored := ih (records.put entry.1 entry.2)
    rwa [List.append_assoc] at stored

theorem touch_capacity (cache : Lru κ ν) (key : κ) :
    (cache.touch key).capacity = cache.capacity := by
  unfold touch
  split <;> rfl

theorem getBatch_capacity (cache : Lru κ ν) (keys : List κ) :
    (cache.getBatch keys).2.capacity = cache.capacity := by
  induction keys generalizing cache with
  | nil => rfl
  | cons key keys ih => rw [getBatch, get, ih, touch_capacity]

theorem putBatch_capacity (cache : Lru κ ν) (batch : List (κ × ν)) :
    (cache.putBatch batch).capacity = cache.capacity := by
  induction batch generalizing cache with
  | nil => rfl
  | cons entry rest ih => exact ih _

theorem Records.getBatch (records : cache.Records puts) (keys : List κ) :
    (cache.getBatch keys).2.Records puts :=
  records.same_entries (fun _ => mem_getBatch) (getBatch_capacity cache keys)

theorem Records.lookup_latest (records : cache.Records puts) {key : κ} {value : ν}
    (found : cache.lookup key = some value) : lastPut puts key = some value :=
  records.latest (key, value) (lookup_eq_some.mp found)

theorem Records.lookup_eq (records : cache.Records puts)
    (room : distinctKeys puts ≤ cache.capacity) (key : κ) :
    cache.lookup key = lastPut puts key := by
  apply Option.ext
  intro value
  constructor
  · exact records.lookup_latest
  · intro last
    exact lookup_eq_some.mpr (records.complete room key value last)

end Lru

end Collections
