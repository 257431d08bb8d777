import MantaIndexer.Collections.History
import Mathlib.Logic.Relation

/-!
What a least-recently-used cache still holds: before an entry stand only keys that were used after it,
so it stays as long as no more keys are used than there is room for.
-/

namespace Collections.Lru

variable {κ ν : Type} {used keys : List κ} {cache : Lru κ ν} {key : κ}

/-- The key is there, and only entries of used keys stand before its own. -/
def Recent (used : List κ) (cache : Lru κ ν) (key : κ) : Prop :=
  ∃ front value back, cache.entries = front ++ (key, value) :: back ∧ ∀ other ∈ front, other.1 ∈ used

/-- Entries with distinct keys, all used, are at most as many as the used keys. -/
theorem length_le_used {front : List (κ × ν)} (unique : (front.map Prod.fst).Nodup)
    (inside : ∀ other ∈ front, other.1 ∈ used) : front.length ≤ used.length := by
  rw [← List.length_map Prod.fst]
  apply (List.subperm_of_subset unique ?_).length_le
  intro key member
  obtain ⟨other, there, rfl⟩ := List.mem_map.mp member
  exact inside other there

variable [DecidableEq κ]

theorem Recent.lookup (recent : cache.Recent used key) : ∃ value, cache.lookup key = some value := by
  obtain ⟨front, value, back, entries, -⟩ := recent
  refine ⟨value, lookup_eq_some.mpr ?_⟩
  rw [entries]
  exact List.mem_append_right _ List.mem_cons_self

theorem others_split {front back : List (κ × ν)} {entry : κ × ν} (other : entry.1 ≠ key) :
    others key (front ++ entry :: back) = others key front ++ entry :: others key back := by
  simp [others, other]

/-! ### One operation -/

theorem recent_put (key : κ) (value : ν) (room : 0 < cache.capacity) :
    (cache.put key value).Recent used key := by
  obtain ⟨n, capacity⟩ := Nat.exists_eq_succ_of_ne_zero (Nat.pos_iff_ne_zero.mp room)
  refine ⟨[], value, (others key cache.entries).take n, ?_, by simp⟩
  simp [put, capacity]

theorem Recent.put {next : κ} (recent : cache.Recent used key) (value : ν) (mem : next ∈ used)
    (own : key ∈ used) (room : used.length ≤ cache.capacity) :
    (cache.put next value).Recent used key := by
  by_cases same : key = next
  · subst same
    exact recent_put key value (Nat.lt_of_lt_of_le (List.length_pos_of_mem own) room)
  obtain ⟨front, stored, back, entries, before⟩ := recent
  have whole : (next, value) :: others next cache.entries =
      ((next, value) :: others next front) ++ (key, stored) :: others next back := by
    rw [entries, others_split same]
    rfl
  have unique : ((((next, value) :: others next front) ++ [(key, stored)]).map Prod.fst).Nodup := by
    have all : (((next, value) :: others next cache.entries).map Prod.fst).Nodup :=
      List.nodup_cons.mpr ⟨key_notMem_others _ _, others_unique cache.unique _⟩
    rw [whole] at all
    refine all.sublist (List.Sublist.map _ ?_)
    exact List.Sublist.append_left (List.Sublist.cons_cons _ (List.nil_sublist _)) _
  have inside : ∀ other ∈ (next, value) :: others next front, other.1 ∈ used := by
    intro other member
    rcases List.mem_cons.mp member with rfl | member
    · exact mem
    · exact before other (List.mem_filter.mp member).1
  -- The key and all before it are distinct and used, so the cut falls behind it.
  have short : ((next, value) :: others next front).length + 1 ≤ cache.capacity := by
    have counted := length_le_used unique fun other member => by
      rcases List.mem_append.mp member with front | last
      · exact inside other front
      · rw [List.mem_singleton.mp last]
        exact own
    rw [List.length_append, List.length_singleton] at counted
    omega
  refine ⟨(next, value) :: others next front, stored, (others next back).take
    (cache.capacity - ((next, value) :: others next front).length - 1), ?_, inside⟩
  show ((next, value) :: others next cache.entries).take cache.capacity = _
  rw [whole, List.take_append, List.take_of_length_le (by omega)]
  congr 1
  obtain ⟨n, left⟩ := Nat.exists_eq_add_of_le' (Nat.sub_pos_of_lt short)
  rw [left]
  simp

theorem recent_touch {value : ν} (present : cache.lookup key = some value) :
    (cache.touch key).Recent used key := by
  obtain ⟨entry, found, -⟩ := Option.map_eq_some_iff.mp present
  have own : entry.1 = key := by simpa using List.find?_some found
  unfold touch
  split
  · rename_i missing
    rw [found] at missing
    cases missing
  · rename_i other there
    rw [found] at there
    obtain rfl := Option.some.inj there
    refine ⟨[], entry.2, others entry.1 cache.entries, ?_, by simp⟩
    exact congrArg (· :: _) (Prod.ext own rfl)

theorem Recent.touch {next : κ} (recent : cache.Recent used key) (mem : next ∈ used) :
    (cache.touch next).Recent used key := by
  by_cases same : key = next
  · subst same
    obtain ⟨value, present⟩ := recent.lookup
    exact recent_touch present
  unfold Lru.touch
  split
  · exact recent
  · rename_i found stored
    have own : found.1 = next := by simpa using List.find?_some stored
    obtain ⟨front, value, back, entries, before⟩ := recent
    have other : (key, value).1 ≠ found.1 := by rwa [own]
    refine ⟨found :: others found.1 front, value, others found.1 back, ?_, ?_⟩
    · show found :: others found.1 cache.entries = _
      rw [entries, others_split other]
      rfl
    · intro other member
      rcases List.mem_cons.mp member with rfl | member
      · rwa [own]
      · exact before other (List.mem_filter.mp member).1

theorem touch_absent (absent : cache.lookup key = none) : cache.touch key = cache := by
  unfold Lru.touch
  split
  · rfl
  · rename_i found stored
    rw [Lru.lookup, stored] at absent
    cases absent

/-! ### Batches -/

/-- The used keys fit, and the keys among them are recent. -/
structure Warm (used keys : List κ) (cache : Lru κ ν) : Prop where
  room : used.length ≤ cache.capacity
  recent : ∀ key ∈ keys, key ∈ used ∧ cache.Recent used key

omit [DecidableEq κ] in
theorem warm_nil (room : used.length ≤ cache.capacity) : cache.Warm used [] :=
  ⟨room, by simp⟩

omit [DecidableEq κ] in
theorem Warm.fewer {fewer : List κ} (warm : cache.Warm used keys) (inside : ∀ key ∈ fewer, key ∈ keys) :
    cache.Warm used fewer :=
  ⟨warm.room, fun key member => warm.recent key (inside key member)⟩

theorem Warm.lookup (warm : cache.Warm used keys) (mem : key ∈ keys) :
    ∃ value, cache.lookup key = some value :=
  (warm.recent key mem).2.lookup

theorem Warm.put (warm : cache.Warm used keys) (mem : key ∈ used) (value : ν) :
    (cache.put key value).Warm used (key :: keys) := by
  refine ⟨warm.room, List.forall_mem_cons.mpr ⟨⟨mem, ?_⟩, fun other member => ?_⟩⟩
  · exact recent_put key value (Nat.lt_of_lt_of_le (List.length_pos_of_mem mem) warm.room)
  · obtain ⟨own, recent⟩ := warm.recent other member
    exact ⟨own, recent.put value mem own warm.room⟩

theorem Warm.putBatch {batch : List (κ × ν)} (warm : cache.Warm used keys)
    (mem : ∀ entry ∈ batch, entry.1 ∈ used) :
    (cache.putBatch batch).Warm used (batch.map Prod.fst ++ keys) := by
  induction batch generalizing cache keys with
  | nil => exact warm
  | cons entry batch ih =>
    obtain ⟨first, rest⟩ := List.forall_mem_cons.mp mem
    apply (ih (warm.put first entry.2) rest).fewer
    intro key member
    simp only [List.map_cons, List.cons_append, List.mem_cons, List.mem_append] at member ⊢
    tauto

theorem Warm.getBatch {asked : List κ} (warm : cache.Warm used keys)
    (mem : ∀ key ∈ asked, (cache.lookup key).isSome = true → key ∈ used) :
    (cache.getBatch asked).2.Warm used
      (asked.filter (fun key => (cache.lookup key).isSome) ++ keys) := by
  induction asked generalizing cache keys with
  | nil => exact warm
  | cons first asked ih =>
    obtain ⟨own, rest⟩ := List.forall_mem_cons.mp mem
    have touched : (cache.touch first).Warm used
        ([first].filter (fun key => (cache.lookup key).isSome) ++ keys) := by
      cases present : cache.lookup first with
      | none =>
        rw [touch_absent present, List.filter_singleton, present]
        exact warm
      | some value =>
        rw [present] at own
        refine ⟨by rw [touch_capacity]; exact warm.room, fun key member => ?_⟩
        rcases List.mem_append.mp member with hit | member
        · obtain rfl := List.mem_singleton.mp (List.mem_filter.mp hit).1
          exact ⟨own rfl, recent_touch present⟩
        · obtain ⟨inside, recent⟩ := warm.recent key member
          exact ⟨inside, recent.touch (own rfl)⟩
    have later := ih touched (by simpa only [lookup_touch] using rest)
    simp only [lookup_touch] at later
    apply later.fewer
    intro key member
    rw [← List.singleton_append, List.filter_append] at member
    simp only [List.mem_append] at member ⊢
    tauto

/-! ### Others that use the cache -/

/-- One batch of reads or writes under the given keys. -/
inductive Uses (used : List κ) : Lru κ ν → Lru κ ν → Prop where
  | get {cache : Lru κ ν} {asked : List κ} (mem : ∀ key ∈ asked, key ∈ used) :
      Uses used cache (cache.getBatch asked).2
  | put {cache : Lru κ ν} {batch : List (κ × ν)} (mem : ∀ entry ∈ batch, entry.1 ∈ used) :
      Uses used cache (cache.putBatch batch)

abbrev Used (used : List κ) : Lru κ ν → Lru κ ν → Prop := Relation.ReflTransGen (Uses used)

theorem Warm.uses {others : List κ} {later : Lru κ ν} (warm : cache.Warm used keys)
    (inside : ∀ key ∈ others, key ∈ used) (uses : Used others cache later) :
    later.Warm used keys := by
  induction uses with
  | refl => exact warm
  | tail _ step before =>
    cases step with
    | get mem =>
      have read := before.getBatch fun key member _ => inside key (mem key member)
      exact read.fewer fun key => List.mem_append_right _
    | put mem =>
      have written := before.putBatch fun entry member => inside entry.1 (mem entry member)
      exact written.fewer fun key => List.mem_append_right _

theorem Used.capacity {others : List κ} {later : Lru κ ν} (uses : Used others cache later) :
    later.capacity = cache.capacity := by
  induction uses with
  | refl => rfl
  | tail _ step before =>
    cases step with
    | get => rw [getBatch_capacity, before]
    | put => rw [putBatch_capacity, before]

end Collections.Lru
