import Mathlib.Algebra.BigOperators.Group.List.Basic
import Mathlib.Algebra.Order.Ring.Nat
import Mathlib.Data.List.Nodup

/-!
Filling a budget from bins taken in order: each bin gives what it has, until the budget is used up
and the rest of the bins give nothing.
-/

namespace Collections

variable {κ : Type} [DecidableEq κ]

/-- What is taken from each bin when the bins hold `avail`. -/
def taken (avail : κ → Nat) : List κ → Nat → κ → Nat
  | [], _, _ => 0
  | bin :: bins, budget, other =>
    if other = bin then min budget (avail bin) else taken avail bins (budget - avail bin) other

/-- Whether the budget is used up inside a bin, with something left there. -/
def cut (avail : κ → Nat) : List κ → Nat → Bool
  | [], _ => false
  | bin :: bins, budget =>
    if avail bin = 0 ∨ avail bin < budget then cut avail bins (budget - avail bin)
    else decide (budget < avail bin)

theorem taken_le (avail : κ → Nat) (bins : List κ) (budget : Nat) (bin : κ) :
    taken avail bins budget bin ≤ avail bin := by
  induction bins generalizing budget with
  | nil => exact Nat.zero_le _
  | cons first bins ih =>
    unfold taken
    split
    · rename_i same
      exact same ▸ Nat.min_le_right _ _
    · exact ih _

theorem taken_zero (avail : κ → Nat) (bins : List κ) (bin : κ) : taken avail bins 0 bin = 0 := by
  induction bins with
  | nil => rfl
  | cons first bins ih =>
    unfold taken
    split
    · exact Nat.zero_min _
    · rw [Nat.zero_sub]
      exact ih

theorem taken_congr {avail other : κ → Nat} {bins : List κ}
    (same : ∀ bin ∈ bins, avail bin = other bin) (budget : Nat) (bin : κ) :
    taken avail bins budget bin = taken other bins budget bin := by
  induction bins generalizing budget with
  | nil => rfl
  | cons first bins ih =>
    rw [taken, taken, same first List.mem_cons_self,
      ih (fun bin member => same bin (List.mem_cons_of_mem _ member))]

omit [DecidableEq κ] in
theorem cut_congr {avail other : κ → Nat} {bins : List κ}
    (same : ∀ bin ∈ bins, avail bin = other bin) (budget : Nat) :
    cut avail bins budget = cut other bins budget := by
  induction bins generalizing budget with
  | nil => rfl
  | cons first bins ih =>
    rw [cut, cut, same first List.mem_cons_self,
      ih (fun bin member => same bin (List.mem_cons_of_mem _ member))]

omit [DecidableEq κ] in
/-- The budget is used up inside a bin when the bins hold more, unless it ends exactly where some
bin does. -/
theorem cut_eq_true_iff {avail : κ → Nat} {bins : List κ} {budget : Nat} (pos : 0 < budget) :
    cut avail bins budget = true ↔
      budget < (bins.map avail).sum ∧ ∀ n, ((bins.take n).map avail).sum ≠ budget := by
  induction bins generalizing budget with
  | nil => simp [cut]
  | cons bin bins ih =>
    unfold cut
    split
    · rename_i inside
      have rest : 0 < budget - avail bin := by omega
      rw [ih rest, List.map_cons, List.sum_cons]
      refine and_congr (by omega) ⟨fun none n => ?_, fun none n => ?_⟩
      · cases n with
        | zero => simpa using pos.ne
        | succ n =>
          have other := none n
          rw [List.take_succ_cons, List.map_cons, List.sum_cons]
          omega
      · have other := none (n + 1)
        rw [List.take_succ_cons, List.map_cons, List.sum_cons] at other
        omega
    · rename_i ends
      rw [decide_eq_true_iff, List.map_cons, List.sum_cons]
      constructor
      · intro less
        refine ⟨by omega, fun n => ?_⟩
        cases n with
        | zero => simpa using pos.ne
        | succ n =>
          rw [List.take_succ_cons, List.map_cons, List.sum_cons]
          omega
      · rintro ⟨-, none⟩
        have other := none 1
        simp only [List.take_succ_cons, List.take_zero, List.map_cons, List.map_nil, List.sum_cons,
          List.sum_nil] at other
        omega

theorem sum_taken_append {bins : List κ} (nodup : bins.Nodup) (avail : κ → Nat) (rest : List κ)
    (budget : Nat) :
    (bins.map (taken avail (bins ++ rest) budget)).sum = min budget (bins.map avail).sum := by
  induction bins generalizing budget with
  | nil => simp
  | cons first bins ih =>
    obtain ⟨fresh, nodup⟩ := List.nodup_cons.mp nodup
    have tail : bins.map (taken avail (first :: bins ++ rest) budget) =
        bins.map (taken avail (bins ++ rest) (budget - avail first)) := by
      apply List.map_congr_left
      intro bin member
      have other : bin ≠ first := fun same => fresh (same ▸ member)
      rw [List.cons_append, taken, if_neg other]
    rw [List.map_cons, List.map_cons, List.sum_cons, List.sum_cons, tail, ih nodup,
      List.cons_append, taken, if_pos rfl]
    omega

theorem sum_taken {bins : List κ} (nodup : bins.Nodup) (avail : κ → Nat) (budget : Nat) :
    (bins.map (taken avail bins budget)).sum = min budget (bins.map avail).sum := by
  have whole := sum_taken_append nodup avail [] budget
  rwa [List.append_nil] at whole

theorem taken_cons_self {bin : κ} {before : List κ} (fresh : bin ∉ before) (avail : κ → Nat)
    (after : List κ) (budget : Nat) :
    taken avail (before ++ bin :: after) budget bin =
      min (budget - (before.map avail).sum) (avail bin) := by
  induction before generalizing budget with
  | nil => simp [taken]
  | cons first before ih =>
    simp only [List.mem_cons, not_or] at fresh
    rw [List.cons_append, taken, if_neg fresh.1, ih fresh.2, List.map_cons, List.sum_cons,
      Nat.sub_sub]

/-- A bin gives all it has or all that the bins before it left of the budget. -/
theorem taken_greedy {bin : κ} {before after : List κ} (nodup : (before ++ bin :: after).Nodup)
    (avail : κ → Nat) (budget : Nat) :
    taken avail (before ++ bin :: after) budget bin = min (avail bin)
      (budget - (before.map (taken avail (before ++ bin :: after) budget)).sum) := by
  obtain ⟨first, -, apart⟩ := List.nodup_append.mp nodup
  have fresh : bin ∉ before := fun member => apart bin member bin List.mem_cons_self rfl
  rw [sum_taken_append first, taken_cons_self fresh]
  omega

omit [DecidableEq κ] in
theorem sum_map_sub {bins : List κ} {avail part : κ → Nat} (le : ∀ bin, part bin ≤ avail bin) :
    (bins.map part).sum ≤ (bins.map avail).sum ∧
      (bins.map fun bin => avail bin - part bin).sum = (bins.map avail).sum - (bins.map part).sum := by
  induction bins with
  | nil => exact ⟨Nat.le_refl _, rfl⟩
  | cons first bins ih =>
    have here := le first
    obtain ⟨less, difference⟩ := ih
    simp only [List.map_cons, List.sum_cons, difference]
    omega

theorem sum_left {bins : List κ} (nodup : bins.Nodup) (avail : κ → Nat) (budget : Nat) :
    (bins.map fun bin => avail bin - taken avail bins budget bin).sum =
      (bins.map avail).sum - min budget (bins.map avail).sum := by
  rw [(sum_map_sub (taken_le avail bins budget)).2, sum_taken nodup]

theorem taken_mono (avail : κ → Nat) (bins : List κ) {less more : Nat} (le : less ≤ more) (bin : κ) :
    taken avail bins less bin ≤ taken avail bins more bin := by
  induction bins generalizing less more with
  | nil => exact Nat.le_refl _
  | cons head bins ih =>
    unfold taken
    split
    · omega
    · exact ih (by omega)

/-- The budget reaches for all there is exactly when it covers the sum. -/
theorem taken_all {bins : List κ} (nodup : bins.Nodup) (avail : κ → Nat) (budget : Nat) :
    (∀ bin ∈ bins, taken avail bins budget bin = avail bin) ↔ (bins.map avail).sum ≤ budget := by
  constructor
  · intro all
    have sum := sum_taken nodup avail budget
    rw [List.map_congr_left all] at sum
    omega
  · intro enough bin member
    have none := sum_left nodup avail budget
    rw [Nat.min_eq_right enough, Nat.sub_self, List.sum_eq_zero_iff_forall_eq_nat] at none
    have here := none _ (List.mem_map_of_mem member)
    have less := taken_le avail bins budget bin
    omega

/-! ### Filling again from what is left -/

/-- What a second budget takes is what both budgets together take and the first one does not. -/
theorem taken_rest {bins : List κ} (nodup : bins.Nodup) (avail : κ → Nat) (first second : Nat)
    (bin : κ) :
    taken (fun other => avail other - taken avail bins first other) bins second bin =
      taken avail bins (first + second) bin - taken avail bins first bin := by
  induction bins generalizing first second with
  | nil => rfl
  | cons head bins ih =>
    obtain ⟨fresh, nodup⟩ := List.nodup_cons.mp nodup
    by_cases here : bin = head
    · subst here
      simp only [taken, if_true]
      omega
    · have rest : ∀ other ∈ bins, avail other - taken avail (head :: bins) first other =
          avail other - taken avail bins (first - avail head) other := by
        intro other member
        have apart : other ≠ head := fun same => fresh (same ▸ member)
        rw [taken, if_neg apart]
      have budget : first - avail head + (second - (avail head - min first (avail head))) =
          first + second - avail head := by omega
      have tail := ih nodup (first - avail head) (second - (avail head - min first (avail head)))
      rw [budget] at tail
      rw [taken, if_neg here, taken_congr rest, taken, if_pos rfl, tail, taken, if_neg here, taken,
        if_neg here]

/-- A second budget is used up inside a bin when both together are. -/
theorem cut_rest {bins : List κ} (nodup : bins.Nodup) (avail : κ → Nat) (first : Nat) {second : Nat}
    (pos : 0 < second) :
    cut (fun bin => avail bin - taken avail bins first bin) bins second =
      cut avail bins (first + second) := by
  have prefixes : ∀ n, ((bins.take n).map fun bin => avail bin - taken avail bins first bin).sum =
      ((bins.take n).map avail).sum - min first ((bins.take n).map avail).sum := by
    intro n
    have part := sum_taken_append (nodup.sublist (List.take_sublist n bins)) avail (bins.drop n) first
    rw [List.take_append_drop] at part
    rw [(sum_map_sub (taken_le avail bins first)).2, part]
  rw [Bool.eq_iff_iff, cut_eq_true_iff pos, cut_eq_true_iff (by omega), sum_left nodup]
  refine and_congr (by omega) (forall_congr' fun n => ?_)
  rw [prefixes n]
  omega

end Collections
