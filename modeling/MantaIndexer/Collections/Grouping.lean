import Mathlib.Algebra.BigOperators.Group.List.Basic
import Mathlib.Algebra.Order.Ring.Nat
import Mathlib.Data.List.Nodup
import Mathlib.Data.List.Basic

/-!
Grouping a list by a key, as `entry(key).or_default().push(value)` does into a map: one group for
each key that occurs, each group in the order of the list.
-/

namespace Collections

variable {κ α : Type} [DecidableEq κ]

/-- Append a value to the group of a key, opening the group if there is none. -/
def pushGroup (key : κ) (value : α) : List (κ × List α) → List (κ × List α)
  | [] => [(key, [value])]
  | (other, group) :: rest =>
    if other = key then (other, group ++ [value]) :: rest
    else (other, group) :: pushGroup key value rest

def groupOf (groups : List (κ × List α)) (key : κ) : List α :=
  match groups with
  | [] => []
  | (other, group) :: rest => if other = key then group else groupOf rest key

theorem groupOf_pushGroup (key other : κ) (value : α) (groups : List (κ × List α)) :
    groupOf (pushGroup key value groups) other =
      if other = key then groupOf groups other ++ [value] else groupOf groups other := by
  induction groups with
  | nil =>
    by_cases same : other = key
    · simp [pushGroup, groupOf, same]
    · simp [pushGroup, groupOf, same, Ne.symm same]
  | cons head rest ih =>
    obtain ⟨first, group⟩ := head
    by_cases hit : first = key
    · subst hit
      by_cases same : other = first
      · simp [pushGroup, groupOf, same]
      · simp [pushGroup, groupOf, same, Ne.symm same]
    · by_cases front : first = other
      · subst front
        simp [pushGroup, groupOf, hit]
      · simp [pushGroup, groupOf, hit, front, ih]

theorem mem_keys_pushGroup {key other : κ} {value : α} {groups : List (κ × List α)} :
    other ∈ (pushGroup key value groups).map Prod.fst ↔ other = key ∨ other ∈ groups.map Prod.fst := by
  induction groups with
  | nil => simp [pushGroup]
  | cons head rest ih =>
    obtain ⟨first, group⟩ := head
    by_cases hit : first = key
    · subst hit
      simp [pushGroup]
    · simp only [pushGroup, hit, if_false, List.map_cons, List.mem_cons, ih]
      tauto

theorem keys_pushGroup_nodup {key : κ} {value : α} {groups : List (κ × List α)}
    (nodup : (groups.map Prod.fst).Nodup) : ((pushGroup key value groups).map Prod.fst).Nodup := by
  induction groups with
  | nil => simp [pushGroup]
  | cons head rest ih =>
    obtain ⟨first, group⟩ := head
    obtain ⟨fresh, nodup⟩ := List.nodup_cons.mp nodup
    by_cases hit : first = key
    · simpa only [pushGroup, hit, if_true, List.map_cons, List.nodup_cons] using ⟨hit ▸ fresh, nodup⟩
    · simp only [pushGroup, hit, if_false, List.map_cons, List.nodup_cons]
      refine ⟨?_, ih nodup⟩
      rw [mem_keys_pushGroup]
      rintro (same | member)
      · exact hit same
      · exact fresh member

theorem groupOf_eq_nil {groups : List (κ × List α)} {key : κ}
    (absent : key ∉ groups.map Prod.fst) : groupOf groups key = [] := by
  induction groups with
  | nil => rfl
  | cons head rest ih =>
    obtain ⟨first, group⟩ := head
    simp only [List.map_cons, List.mem_cons, not_or] at absent
    simp only [groupOf, Ne.symm absent.1, if_false]
    exact ih absent.2

theorem groupOf_map (keys : List κ) (group : κ → List α) (key : κ) :
    groupOf (keys.map fun k => (k, group k)) key = if key ∈ keys then group key else [] := by
  induction keys with
  | nil => rfl
  | cons first keys ih =>
    by_cases same : first = key
    · simp [groupOf, same]
    · simp [groupOf, same, Ne.symm same, ih]

theorem flatMap_single {keys : List κ} {key : κ} (member : key ∈ keys)
    (nodup : keys.Nodup) (items : κ → List α) :
    (keys.flatMap fun other => if other = key then items other else []) = items key := by
  induction keys with
  | nil => cases member
  | cons first keys ih =>
    obtain ⟨fresh, nodup⟩ := List.nodup_cons.mp nodup
    rw [List.flatMap_cons]
    rcases List.mem_cons.mp member with rfl | member
    · have nothing : (keys.flatMap fun other => if other = key then items other else []) = [] := by
        rw [List.flatMap_eq_nil_iff]
        intro other there
        rw [if_neg (ne_of_mem_of_not_mem there fresh)]
      rw [if_pos rfl, nothing, List.append_nil]
    · rw [if_neg (ne_of_mem_of_not_mem member fresh).symm, ih member nodup, List.nil_append]

theorem sum_one_of_nodup {keys : List κ} (nodup : keys.Nodup) (key : κ) :
    (keys.map fun other => if other = key then 1 else 0).sum = if key ∈ keys then 1 else 0 := by
  induction keys with
  | nil => rfl
  | cons first keys ih =>
    obtain ⟨fresh, nodup⟩ := List.nodup_cons.mp nodup
    rw [List.map_cons, List.sum_cons, ih nodup]
    by_cases same : first = key
    · subst same
      simp [fresh]
    · simp [same, Ne.symm same]

/-- Every item is counted in the group of its key. -/
theorem sum_length_filter {keys : List κ} (nodup : keys.Nodup) (key : α → Option κ) (items : List α)
    (keyed : ∀ item ∈ items, ∃ k ∈ keys, key item = some k) :
    (keys.map fun k => (items.filter fun item => key item = some k).length).sum = items.length := by
  induction items with
  | nil => simp
  | cons item items ih =>
    obtain ⟨k, member, own⟩ := keyed item List.mem_cons_self
    have one := sum_one_of_nodup nodup k
    have rest := ih fun other there => keyed other (List.mem_cons_of_mem _ there)
    have split : ∀ other, ((item :: items).filter fun item => key item = some other).length =
        (if other = k then 1 else 0) + (items.filter fun item => key item = some other).length := by
      intro other
      rw [List.filter_cons, own]
      by_cases same : other = k
      · simp [same, Nat.add_comm]
      · simp [same, Ne.symm same]
    simp only [split]
    rw [List.sum_map_add, one, if_pos member, rest, List.length_cons, Nat.add_comm]

/-! ### Grouping a whole list -/

/-- The items grouped by a key of each. -/
def groupBy (key : α → κ) (items : List α) : List (κ × List α) :=
  items.foldl (fun groups item => pushGroup (key item) item groups) []

theorem groupOf_foldl (key : α → κ) (items : List α) (groups : List (κ × List α)) (k : κ) :
    groupOf (items.foldl (fun groups item => pushGroup (key item) item groups) groups) k =
      groupOf groups k ++ items.filter fun item => key item = k := by
  induction items generalizing groups with
  | nil => simp
  | cons item items ih =>
    rw [List.foldl_cons, ih, groupOf_pushGroup]
    by_cases same : k = key item
    · simp [same]
    · simp [same, Ne.symm same]

theorem groupOf_groupBy (key : α → κ) (items : List α) (k : κ) :
    groupOf (groupBy key items) k = items.filter fun item => key item = k := by
  rw [groupBy, groupOf_foldl, groupOf, List.nil_append]

theorem keys_groupBy_nodup (key : α → κ) (items : List α) :
    ((groupBy key items).map Prod.fst).Nodup := by
  suffices ∀ groups : List (κ × List α), (groups.map Prod.fst).Nodup →
      ((items.foldl (fun groups item => pushGroup (key item) item groups) groups).map
        Prod.fst).Nodup from this [] List.nodup_nil
  induction items with
  | nil => exact fun _ nodup => nodup
  | cons item items ih => exact fun groups nodup => ih _ (keys_pushGroup_nodup nodup)

theorem mem_keys_groupBy {key : α → κ} {items : List α} {k : κ}
    (filled : groupOf (groupBy key items) k ≠ []) : k ∈ (groupBy key items).map Prod.fst := by
  by_contra absent
  exact filled (groupOf_eq_nil absent)

/-- The order in which the keys of a hash map come out: some order of them. -/
structure HashOrder (κ : Type) where
  order : List κ → List κ
  perm : ∀ keys, (order keys).Perm keys

end Collections
