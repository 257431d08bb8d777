import Mathlib.Data.List.Sort
import Mathlib.Data.List.Nodup
import Mathlib.Data.List.Range

/-!
Tables whose rows are numbered `0, 1, 2, …`. `values.mapIdx row` are the rows of a list of values;
a table that holds these rows in any order answers every query by number from the list alone.
-/

namespace Collections

variable {α β ρ : Type}

/-- The values at the positions `positions`, skipping those past the end. -/
def pick (values : List α) (positions : List Nat) : List α := positions.filterMap (values[·]?)

theorem pick_append (values : List α) (first second : List Nat) :
    pick values (first ++ second) = pick values first ++ pick values second :=
  List.filterMap_append

/-- The values from position `first` on, at most `amount` of them. -/
def page (values : List α) (first amount : Nat) : List α := (values.drop first).take amount

theorem length_page (values : List α) (first amount : Nat) :
    (page values first amount).length = min amount (values.length - first) := by
  rw [page, List.length_take, List.length_drop]

theorem page_min (values : List α) (first amount : Nat) :
    page values first (min amount (values.length - first)) = page values first amount := by
  rw [page, page, ← List.length_drop, ← List.take_eq_take_min]

theorem page_longer {values longer : List α} (h : values <+: longer) {first amount : Nat}
    (inside : first + amount ≤ values.length) : page longer first amount = page values first amount := by
  obtain ⟨rest, rfl⟩ := h
  rw [page, page, List.drop_append_of_le_length (by omega),
    List.take_append_of_le_length (by rw [List.length_drop]; omega)]

theorem page_append (values : List α) {first middle last : Nat} (h : first ≤ middle)
    (h' : middle ≤ last) :
    page values first (middle - first) ++ page values middle (last - middle) =
      page values first (last - first) := by
  have split : values.drop middle = (values.drop first).drop (middle - first) := by
    rw [List.drop_drop, Nat.add_sub_cancel' h]
  rw [page, page, page, split, show last - first = (middle - first) + (last - middle) by omega,
    List.take_add]

theorem pick_range' (values : List α) (first amount : Nat) :
    pick values (List.range' first amount) = page values first amount := by
  unfold page
  induction amount generalizing first with
  | zero => simp [pick]
  | succ amount ih =>
    have rest := ih (first + 1)
    by_cases inside : first < values.length
    · have head : values[first]? = some values[first] := List.getElem?_eq_getElem inside
      rw [List.drop_eq_getElem_cons inside, List.take_succ_cons, ← rest]
      simp [pick, List.range'_succ, head]
    · have head : values[first]? = none := List.getElem?_eq_none (by omega)
      rw [List.drop_eq_nil_of_le (by omega : values.length ≤ first + 1), List.take_nil] at rest
      rw [List.drop_eq_nil_of_le (by omega), List.take_nil, ← rest]
      simp [pick, List.range'_succ, head]

theorem pick_split_perm (values : List α) (positions : List Nat) (test : Nat → Bool) :
    (pick values (positions.filter test) ++ pick values (positions.filter (fun i => !test i))).Perm
      (pick values positions) := by
  rw [← pick_append]
  exact (List.filter_append_perm test positions).filterMap _

theorem pick_longer {values longer : List α} (h : values <+: longer) {positions : List Nat}
    (inside : ∀ i ∈ positions, i < values.length) : pick longer positions = pick values positions := by
  obtain ⟨rest, rfl⟩ := h
  apply List.filterMap_congr
  intro i member
  exact List.getElem?_append_left (inside i member)

theorem stored_longer {values longer : List α} (h : values <+: longer) {i : Nat} {value : α}
    (stored : values[i]? = some value) : longer[i]? = some value := by
  obtain ⟨rest, rfl⟩ := h
  rw [List.getElem?_append_left (List.getElem?_eq_some_iff.mp stored).1, stored]

theorem countP_lt {l : List α} {p q : α → Bool} (mono : ∀ a ∈ l, p a → q a) {a : α}
    (member : a ∈ l) (gained : q a = true) (lost : p a = false) : l.countP p < l.countP q := by
  obtain ⟨before, after, rfl⟩ := List.append_of_mem member
  have first := List.countP_mono_left fun b there => mono b (List.mem_append_left _ there)
  have second := List.countP_mono_left fun b there =>
    mono b (List.mem_append_right _ (List.mem_cons_of_mem _ there))
  rw [List.countP_append, List.countP_append, List.countP_cons, List.countP_cons, gained, lost]
  simp only [if_true, Bool.false_eq_true, if_false]
  omega

theorem length_filterMap_rows (values : List α) (row : Nat → α → ρ) (positions : List Nat) :
    (positions.filterMap fun i => values[i]?.map (row i)).length = (pick values positions).length := by
  induction positions with
  | nil => rfl
  | cons i positions ih =>
    cases stored : values[i]? with
    | none => simpa [pick, stored] using ih
    | some value => simpa [pick, stored] using ih

/-- Sorting a list by keys that are all different gives the only sorted list of its members. -/
theorem insertionSort_eq {key : ρ → Int} {table sorted : List ρ} (perm : table.Perm sorted)
    (ascending : sorted.Pairwise fun a b => key a < key b) :
    table.insertionSort (fun a b => key a ≤ key b) = sorted := by
  have total : Std.Total fun a b : ρ => key a ≤ key b := ⟨fun a b => le_total _ _⟩
  have trans : IsTrans ρ fun a b => key a ≤ key b := ⟨fun a b c => le_trans⟩
  have distinct : (sorted.map key).Nodup := List.pairwise_map.mpr (ascending.imp ne_of_lt)
  refine List.Perm.eq_of_pairwise ?_ (List.pairwise_insertionSort _ _) (ascending.imp le_of_lt)
    ((List.perm_insertionSort _ _).trans perm)
  intro a b ha hb ab ba
  have member : a ∈ sorted := perm.mem_iff.mp ((List.mem_insertionSort _).mp ha)
  exact List.inj_on_of_nodup_map distinct member hb (le_antisymm ab ba)

section Rows

variable {key : ρ → Int} {row : Nat → α → ρ}

theorem mem_rows {values : List α} {r : ρ} :
    r ∈ values.mapIdx row ↔ ∃ i value, values[i]? = some value ∧ r = row i value := by
  rw [List.mem_mapIdx]
  constructor
  · rintro ⟨i, inside, rfl⟩
    exact ⟨i, values[i], List.getElem?_eq_getElem inside, rfl⟩
  · rintro ⟨i, value, found, rfl⟩
    obtain ⟨inside, rfl⟩ := List.getElem?_eq_some_iff.mp found
    exact ⟨i, inside, rfl⟩

variable (numbered : ∀ i value, key (row i value) = i)

include numbered

theorem rows_keys (values : List α) :
    (values.mapIdx row).map key = (List.range values.length).map Int.ofNat := by
  apply List.ext_getElem
  · simp
  · intro i _ _
    simp [numbered]

theorem rows_sorted (values : List α) :
    (values.mapIdx row).Pairwise fun a b => key a < key b := by
  have keys : ((values.mapIdx row).map key).Pairwise (· < ·) := by
    rw [rows_keys numbered, List.pairwise_map]
    apply List.pairwise_lt_range.imp
    intro a b less
    simpa using less
  exact List.pairwise_map.mp keys

theorem rows_filter (values : List α) {positions : List Nat} (sorted : positions.Pairwise (· < ·)) :
    (values.mapIdx row).filter (fun r => decide (key r ∈ positions.map Int.ofNat)) =
      positions.filterMap fun i => values[i]?.map (row i) := by
  have left : ((values.mapIdx row).filter
      (fun r => decide (key r ∈ positions.map Int.ofNat))).Pairwise fun a b => key a < key b :=
    (rows_sorted numbered values).filter _
  have right : (positions.filterMap fun i => values[i]?.map (row i)).Pairwise
      fun a b => key a < key b := by
    rw [List.pairwise_filterMap]
    apply sorted.imp
    intro i j less a ha b hb
    obtain ⟨x, -, rfl⟩ := Option.map_eq_some_iff.mp ha
    obtain ⟨y, -, rfl⟩ := Option.map_eq_some_iff.mp hb
    rw [numbered, numbered]
    omega
  -- Both sides are strictly sorted by number, so it is enough that they have the same members.
  refine List.Perm.eq_of_pairwise ?_ left right ?_
  · intro a b _ _ ab ba
    exact absurd (lt_trans ab ba) (lt_irrefl _)
  · refine (List.perm_ext_iff_of_nodup (left.imp ?_) (right.imp ?_)).mpr ?_
    · rintro a b less rfl
      exact lt_irrefl _ less
    · rintro a b less rfl
      exact lt_irrefl _ less
    · intro r
      simp only [List.mem_filter, mem_rows, List.mem_map, decide_eq_true_eq, List.mem_filterMap,
        Option.map_eq_some_iff]
      constructor
      · rintro ⟨⟨i, value, found, rfl⟩, j, member, same⟩
        rw [numbered] at same
        have equal : j = i := Int.ofNat.inj same
        subst equal
        exact ⟨j, member, value, found, rfl⟩
      · rintro ⟨i, member, value, found, rfl⟩
        exact ⟨⟨i, value, found, rfl⟩, i, member, (numbered i value).symm⟩

theorem rows_between {γ : Type} (values : List α) (column : ρ → γ) (content : α → γ)
    (columns : ∀ i value, column (row i value) = content value) (first last : Nat) :
    ((values.mapIdx row).filter fun r => decide (first ≤ key r ∧ key r < last)).map column =
      (page values first (last - first)).map content := by
  have interval : ∀ r, decide (first ≤ key r ∧ key r < last) =
      decide (key r ∈ (List.range' first (last - first)).map Int.ofNat) := by
    intro r
    apply decide_eq_decide.mpr
    simp only [List.mem_map, List.mem_range'_1]
    constructor
    · rintro ⟨low, high⟩
      exact ⟨(key r).toNat, by omega, by simp only [Int.ofNat_eq_natCast]; omega⟩
    · rintro ⟨i, bounds, same⟩
      rw [← same]
      simp only [Int.ofNat_eq_natCast]
      omega
  simp only [interval]
  rw [rows_filter numbered values List.pairwise_lt_range', List.map_filterMap, ← pick_range', pick,
    List.map_filterMap]
  apply List.filterMap_congr
  intro i _
  cases values[i]? with
  | none => rfl
  | some value => exact congrArg some (columns i value)

/-- The rows that were there before more values were added are those with the lower numbers. -/
theorem rows_below (values more : List α) :
    ((values ++ more).mapIdx row).filter (fun r => decide (key r < values.length)) =
      values.mapIdx row := by
  rw [List.mapIdx_append, List.filter_append]
  have before : (values.mapIdx row).filter (fun r => decide (key r < values.length)) =
      values.mapIdx row := by
    rw [List.filter_eq_self]
    intro r member
    obtain ⟨i, value, stored, rfl⟩ := mem_rows.mp member
    have inside := (List.getElem?_eq_some_iff.mp stored).1
    rw [numbered]
    exact decide_eq_true (by omega)
  have after : (more.mapIdx fun i => row (i + values.length)).filter
      (fun r => decide (key r < values.length)) = [] := by
    rw [List.filter_eq_nil_iff]
    intro r member
    obtain ⟨i, value, -, rfl⟩ := mem_rows.mp member
    rw [numbered, decide_eq_true_eq]
    omega
  rw [before, after, List.append_nil]

theorem sorted_table {table : List ρ} {values : List α} (holds : table.Perm (values.mapIdx row)) :
    table.insertionSort (fun a b => key a ≤ key b) = values.mapIdx row :=
  insertionSort_eq holds (rows_sorted numbered values)

/-- The order in which a table holds its rows does not matter to a query that sorts them. -/
theorem sorted_query {table : List ρ} {values : List α} (holds : table.Perm (values.mapIdx row))
    {positions : List Nat} (sorted : positions.Pairwise (· < ·)) :
    (table.filter (fun r => decide (key r ∈ positions.map Int.ofNat))).insertionSort
        (fun a b => key a ≤ key b) =
      positions.filterMap fun i => values[i]?.map (row i) := by
  rw [← rows_filter numbered values sorted]
  exact insertionSort_eq (holds.filter _) ((rows_sorted numbered values).filter _)

theorem find_number {table : List ρ} {values : List α} (holds : table.Perm (values.mapIdx row))
    (i : Nat) :
    table.find? (fun r => decide (key r = i)) = values[i]?.map (row i) := by
  cases found : table.find? (fun r => decide (key r = i)) with
  | none =>
    cases there : values[i]? with
    | none => rfl
    | some value =>
      have member : row i value ∈ table := holds.mem_iff.mpr (mem_rows.mpr ⟨i, value, there, rfl⟩)
      have absent := List.find?_eq_none.mp found _ member
      simp [numbered] at absent
  | some r =>
    have same := List.find?_some found
    simp only [decide_eq_true_eq] at same
    obtain ⟨j, value, there, rfl⟩ := mem_rows.mp (holds.mem_iff.mp (List.mem_of_find?_eq_some found))
    rw [numbered] at same
    have equal : j = i := Int.ofNat.inj same
    subst equal
    rw [there]
    rfl

theorem find_negative {table : List ρ} {values : List α} (holds : table.Perm (values.mapIdx row))
    {n : Int} (negative : n < 0) : table.find? (fun r => decide (key r = n)) = none := by
  rw [List.find?_eq_none]
  intro r member same
  obtain ⟨j, value, -, rfl⟩ := mem_rows.mp (holds.mem_iff.mp member)
  simp only [numbered, decide_eq_true_eq] at same
  omega

end Rows

end Collections
