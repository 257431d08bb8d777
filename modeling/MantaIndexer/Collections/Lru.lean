import Mathlib.Data.List.Nodup
import Mathlib.Data.List.Basic

/-!
A least-recently-used cache. The entries are kept most recent first, so reading a key moves its
entry to the front and storing into a full cache drops the last entry.
-/

namespace Collections

variable {κ ν : Type}

/-- A cache of at most `capacity` entries, one for each key. -/
structure Lru (κ ν : Type) where
  capacity : Nat
  entries : List (κ × ν)
  unique : (entries.map Prod.fst).Nodup
  bounded : entries.length ≤ capacity

namespace Lru

def empty (capacity : Nat) : Lru κ ν := ⟨capacity, [], by simp, by simp⟩

variable [DecidableEq κ]

def others (key : κ) (entries : List (κ × ν)) : List (κ × ν) :=
  entries.filter fun entry => entry.1 ≠ key

theorem key_notMem_others (key : κ) (entries : List (κ × ν)) :
    key ∉ (others key entries).map Prod.fst := by
  simp [others]

theorem others_unique {entries : List (κ × ν)} (unique : (entries.map Prod.fst).Nodup) (key : κ) :
    ((others key entries).map Prod.fst).Nodup :=
  unique.sublist (List.filter_sublist.map _)

theorem length_others_lt {entries : List (κ × ν)} {entry : κ × ν} (present : entry ∈ entries) :
    (others entry.1 entries).length < entries.length :=
  List.length_filter_lt_length_iff_exists.mpr ⟨entry, present, by simp⟩

def lookup (cache : Lru κ ν) (key : κ) : Option ν :=
  (cache.entries.find? fun entry => entry.1 = key).map Prod.snd

def touch (cache : Lru κ ν) (key : κ) : Lru κ ν :=
  match h : cache.entries.find? fun entry => entry.1 = key with
  | none => cache
  | some entry =>
    { cache with
      entries := entry :: others entry.1 cache.entries
      unique := List.nodup_cons.mpr ⟨key_notMem_others _ _, others_unique cache.unique _⟩
      bounded := by
        have shorter := length_others_lt (List.mem_of_find?_eq_some h)
        have bound := cache.bounded
        simp only [List.length_cons]
        omega }

def get (cache : Lru κ ν) (key : κ) : Option ν × Lru κ ν := (cache.lookup key, cache.touch key)

/-- Store a value under a key, dropping the least recently used entry of a full cache. -/
def put (cache : Lru κ ν) (key : κ) (value : ν) : Lru κ ν where
  capacity := cache.capacity
  entries := ((key, value) :: others key cache.entries).take cache.capacity
  unique := by
    have whole : (((key, value) :: others key cache.entries).map Prod.fst).Nodup :=
      List.nodup_cons.mpr ⟨key_notMem_others _ _, others_unique cache.unique _⟩
    exact whole.sublist ((List.take_sublist _ _).map _)
  bounded := List.length_take_le _ _

def getBatch (cache : Lru κ ν) : List κ → List (Option ν) × Lru κ ν
  | [] => ([], cache)
  | key :: keys =>
    let (value, touched) := cache.get key
    let (values, last) := touched.getBatch keys
    (value :: values, last)

def putBatch (cache : Lru κ ν) : List (κ × ν) → Lru κ ν
  | [] => cache
  | (key, value) :: rest => (cache.put key value).putBatch rest

/-! ### Reading -/

theorem lookup_eq_some {cache : Lru κ ν} {key : κ} {value : ν} :
    cache.lookup key = some value ↔ (key, value) ∈ cache.entries := by
  simp only [lookup, Option.map_eq_some_iff]
  constructor
  · rintro ⟨entry, found, rfl⟩
    have same := List.find?_some found
    simp only [decide_eq_true_eq] at same
    subst same
    exact List.mem_of_find?_eq_some found
  · intro present
    cases found : cache.entries.find? fun entry => entry.1 = key with
    | none => exact absurd (List.find?_eq_none.mp found _ present) (by simp)
    | some entry =>
      have same := List.find?_some found
      simp only [decide_eq_true_eq] at same
      have equal := List.inj_on_of_nodup_map cache.unique (List.mem_of_find?_eq_some found) present same
      exact ⟨entry, rfl, by rw [equal]⟩

theorem mem_touch {cache : Lru κ ν} {key : κ} {entry : κ × ν} :
    entry ∈ (cache.touch key).entries ↔ entry ∈ cache.entries := by
  unfold touch
  split
  · rfl
  · rename_i found stored
    have present := List.mem_of_find?_eq_some stored
    simp only [List.mem_cons, others, List.mem_filter, decide_eq_true_eq, ne_eq]
    constructor
    · rintro (rfl | ⟨member, -⟩)
      · exact present
      · exact member
    · intro member
      by_cases same : entry.1 = found.1
      · exact .inl (List.inj_on_of_nodup_map cache.unique member present same)
      · exact .inr ⟨member, same⟩

@[simp] theorem lookup_touch (cache : Lru κ ν) (key other : κ) :
    (cache.touch key).lookup other = cache.lookup other := by
  apply Option.ext
  intro value
  rw [lookup_eq_some, lookup_eq_some, mem_touch]

@[simp] theorem getBatch_fst (cache : Lru κ ν) (keys : List κ) :
    (cache.getBatch keys).1 = keys.map cache.lookup := by
  induction keys generalizing cache with
  | nil => rfl
  | cons key keys ih => simp [getBatch, get, ih]

@[simp] theorem mem_getBatch {cache : Lru κ ν} {keys : List κ} {entry : κ × ν} :
    entry ∈ (cache.getBatch keys).2.entries ↔ entry ∈ cache.entries := by
  induction keys generalizing cache with
  | nil => rfl
  | cons key keys ih => simp only [getBatch, get, ih, mem_touch]

/-! ### Storing -/

theorem mem_put {cache : Lru κ ν} {key : κ} {value : ν} {entry : κ × ν}
    (member : entry ∈ (cache.put key value).entries) :
    entry = (key, value) ∨ entry ∈ cache.entries := by
  rcases List.mem_cons.mp (List.mem_of_mem_take member) with rfl | member
  · exact .inl rfl
  · exact .inr (List.mem_filter.mp member).1

theorem mem_putBatch {cache : Lru κ ν} {batch : List (κ × ν)} {entry : κ × ν}
    (member : entry ∈ (cache.putBatch batch).entries) :
    entry ∈ batch ∨ entry ∈ cache.entries := by
  induction batch generalizing cache with
  | nil => exact .inr member
  | cons head rest ih =>
    rcases ih member with member | member
    · exact .inl (List.mem_cons_of_mem _ member)
    · rcases mem_put member with rfl | member
      · exact .inl List.mem_cons_self
      · exact .inr member

def Evicted (cache rest : Lru κ ν) : Prop := ∀ entry ∈ rest.entries, entry ∈ cache.entries

end Lru

end Collections
