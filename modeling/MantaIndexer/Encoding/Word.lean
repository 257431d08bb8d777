import Mathlib.Data.List.Range
import Mathlib.Algebra.Order.Ring.Int

/-!
Sixty-four bit words as a 64-bit target uses them: the cast to a signed word and half-open ranges.
Sums and differences of `UInt64` wrap around, as the release profile does.
-/

namespace Encoding

/-- The cast `x as i64`. -/
def asI64 (x : UInt64) : Int := x.toBitVec.toInt

theorem asI64_eq (x : UInt64) :
    asI64 x = if x.toNat < 2 ^ 63 then (x.toNat : Int) else x.toNat - 2 ^ 64 := by
  have bound := x.toNat_lt
  rw [asI64, BitVec.toInt_eq_toNat_cond, UInt64.toNat_toBitVec]
  split <;> split <;> omega

theorem asI64_of_lt {x : UInt64} (h : x.toNat < 2 ^ 63) : asI64 x = x.toNat := by
  rw [asI64_eq, if_pos h]

theorem asI64_injective : Function.Injective asI64 := by
  intro x y same
  rw [asI64_eq, asI64_eq] at same
  have boundX := x.toNat_lt
  have boundY := y.toNat_lt
  apply UInt64.toNat.inj
  split at same <;> split at same <;> omega

theorem toNat_ofNat {n : Nat} (h : n < 2 ^ 64) : (UInt64.ofNat n).toNat = n :=
  UInt64.toNat_ofNat_of_lt' h

/-- The cast `n as usize` of a signed word that is not negative. -/
theorem ofInt_natCast (n : Nat) : UInt64.ofInt (n : Int) = UInt64.ofNat n := by
  apply UInt64.toNat.inj
  have cast : ((n : Int) % 2 ^ 64).toNat = n % 2 ^ 64 := by omega
  rw [UInt64.ofInt, cast, UInt64.toNat_ofNat', UInt64.toNat_ofNat', Nat.mod_mod]

theorem toNat_add {a b : UInt64} (h : a.toNat + b.toNat < 2 ^ 64) :
    (a + b).toNat = a.toNat + b.toNat := by
  rw [UInt64.toNat_add, Nat.mod_eq_of_lt h]

theorem toNat_min (a b : UInt64) : (min a b).toNat = min a.toNat b.toNat := by
  show (if a ≤ b then a else b).toNat = _
  split
  · rename_i less
    exact (Nat.min_eq_left (UInt64.le_iff_toNat_le.mp less)).symm
  · rename_i more
    rw [UInt64.le_iff_toNat_le] at more
    omega

theorem add_ofNat_sub (x : UInt64) (before added : Nat) :
    x + UInt64.ofNat (before + added) - UInt64.ofNat before = x + UInt64.ofNat added := by
  rw [UInt64.ofNat_add, UInt64.add_comm (UInt64.ofNat before), ← UInt64.add_assoc, UInt64.add_sub_cancel]

theorem toNat_sub_ofNat {a : UInt64} {n : Nat} (h : n ≤ a.toNat) :
    (a - UInt64.ofNat n).toNat = a.toNat - n := by
  have bound := a.toNat_lt
  have word := toNat_ofNat (n := n) (by omega)
  rw [UInt64.toNat_sub_of_le _ _ (UInt64.le_iff_toNat_le.mpr (by omega)), word]

/-- Masking with `width` ones above `low` keeps that field of a number in its place. -/
theorem and_field (x width low : Nat) :
    x &&& ((2 ^ width - 1) <<< low) = (x >>> low % 2 ^ width) <<< low := by
  apply Nat.eq_of_testBit_eq
  intro bit
  rw [Nat.testBit_and, Nat.testBit_shiftLeft, Nat.testBit_shiftLeft, Nat.testBit_two_pow_sub_one,
    Nat.testBit_mod_two_pow, Nat.testBit_shiftRight]
  by_cases above : low ≤ bit
  · simp [above, Bool.and_comm]
  · simp [above]

/-- The words from `first` on, up to but not including `last`. -/
def span (first last : UInt64) : List UInt64 :=
  (List.range' first.toNat (last.toNat - first.toNat)).map UInt64.ofNat

theorem span_add {first amount : UInt64} (h : first.toNat + amount.toNat < 2 ^ 64) :
    span first (first + amount) = (List.range' first.toNat amount.toNat).map UInt64.ofNat := by
  rw [span, toNat_add h, Nat.add_sub_cancel_left]

end Encoding
