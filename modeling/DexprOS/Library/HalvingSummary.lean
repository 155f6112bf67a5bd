import Mathlib.Data.Nat.Count
import Mathlib.Tactic.Linarith
import Mathlib.Tactic.Ring

/-!
# Summaries of a bitmap by halving

A binary tree over the places of a bitmap.  A full place counts `128`; a node's
value is the sum of its children's halves, where the lowest bit of the result is
set whenever a child has it set, so that a nonempty node never becomes zero.
Node `b` of height `h` stands for the places `b * 2 ^ h` to `(b + 1) * 2 ^ h`.

Main facts:
* `summary_le`, `summary_eq_zero_iff`, `summary_eq_full_iff`: the extreme values;
* `summary_exact`: up to height 7 nothing is lost;
* `summary_error`: above that, at most one unit is lost or added for each level;
* `summary_even_part_le`: all bits but the lowest never overstate.
-/

namespace DexprOS
namespace HalvingSummary

section Combine

/-- A node's value from those of its children. -/
def combine (a b : Nat) : Nat :=
  if a % 2 = 1 ∨ b % 2 = 1 then
    (a / 2 + b / 2) / 2 * 2 + 1
  else
    a / 2 + b / 2

variable {a b : Nat}

theorem combine_le (ha : a ≤ 128) (hb : b ≤ 128) : combine a b ≤ 128 := by
  unfold combine
  split_ifs <;> omega

theorem combine_eq_zero_iff : combine a b = 0 ↔ a = 0 ∧ b = 0 := by
  unfold combine
  split_ifs with hodd
  · constructor
    · intro h
      simp at h
    · rintro ⟨rfl, rfl⟩
      simp at hodd
  · constructor <;> intro h <;> omega

theorem combine_eq_full_iff (ha : a ≤ 128) (hb : b ≤ 128) :
    combine a b = 128 ↔ a = 128 ∧ b = 128 := by
  unfold combine
  split_ifs <;> omega

/-- Nothing is lost when both values are even. -/
theorem combine_double (a b : Nat) : combine (a * 2) (b * 2) = a + b := by
  unfold combine
  split_ifs <;> omega

/-- The result is off the mean by at most one. -/
theorem combine_error : combine a b * 2 ≤ a + b + 2 ∧ a + b ≤ combine a b * 2 + 2 := by
  unfold combine
  split_ifs <;> omega

/-- Without their lowest bits, the result is at most the mean. -/
theorem combine_even_part_le :
    combine a b / 2 * 2 * 2 ≤ a / 2 * 2 + b / 2 * 2 := by
  unfold combine
  split_ifs <;> omega

end Combine

section Summary

variable (leaf : Nat → Bool)

/-- Value of node `b` at height `h`. -/
def summary : Nat → Nat → Nat
  | 0, b => if leaf b then 128 else 0
  | h + 1, b => combine (summary h (2 * b)) (summary h (2 * b + 1))

/-- Number of full places under node `b` at height `h`. -/
def fullPlaces (h b : Nat) : Nat :=
  Nat.count (fun j => leaf (b * 2 ^ h + j)) (2 ^ h)

theorem fullPlaces_zero (b : Nat) :
    fullPlaces leaf 0 b = if leaf b then 1 else 0 := by
  rw [fullPlaces, Nat.pow_zero, Nat.count_succ, Nat.count_zero, Nat.zero_add,
    Nat.mul_one, Nat.add_zero]

theorem fullPlaces_succ (h b : Nat) :
    fullPlaces leaf (h + 1) b =
      fullPlaces leaf h (2 * b) + fullPlaces leaf h (2 * b + 1) := by
  have hleft : b * 2 ^ (h + 1) = 2 * b * 2 ^ h := by ring
  have hright : ∀ j, b * 2 ^ (h + 1) + (2 ^ h + j) = (2 * b + 1) * 2 ^ h + j := by
    intro j
    ring
  rw [fullPlaces, show 2 ^ (h + 1) = 2 ^ h + 2 ^ h by ring, Nat.count_add]
  simp only [← show 2 ^ (h + 1) = 2 ^ h + 2 ^ h by ring, hright]
  simp only [hleft, fullPlaces]

theorem fullPlaces_le (h b : Nat) : fullPlaces leaf h b ≤ 2 ^ h :=
  Nat.count_le _

theorem summary_le (h b : Nat) : summary leaf h b ≤ 128 := by
  induction h generalizing b with
  | zero =>
      rw [summary]
      split_ifs <;> omega
  | succ h ih =>
      exact combine_le (ih _) (ih _)

/-- A value is zero exactly when no place is full. -/
theorem summary_eq_zero_iff (h b : Nat) :
    summary leaf h b = 0 ↔ fullPlaces leaf h b = 0 := by
  induction h generalizing b with
  | zero =>
      rw [summary, fullPlaces_zero]
      split_ifs <;> simp
  | succ h ih =>
      rw [summary, combine_eq_zero_iff, ih, ih, fullPlaces_succ]
      omega

/-- A value is `128` exactly when all places are full. -/
theorem summary_eq_full_iff (h b : Nat) :
    summary leaf h b = 128 ↔ fullPlaces leaf h b = 2 ^ h := by
  induction h generalizing b with
  | zero =>
      rw [summary, fullPlaces_zero]
      split_ifs <;> simp
  | succ h ih =>
      have hleft := fullPlaces_le leaf h (2 * b)
      have hright := fullPlaces_le leaf h (2 * b + 1)
      rw [summary, combine_eq_full_iff (summary_le leaf h _) (summary_le leaf h _),
        ih, ih, fullPlaces_succ, show 2 ^ (h + 1) = 2 ^ h + 2 ^ h by ring]
      omega

/-- Up to height 7 the value is the exact number of full places, scaled. -/
theorem summary_exact {h : Nat} (hh : h ≤ 7) (b : Nat) :
    summary leaf h b = fullPlaces leaf h b * 2 ^ (7 - h) := by
  induction h generalizing b with
  | zero =>
      rw [summary, fullPlaces_zero]
      split_ifs <;> rfl
  | succ h ih =>
      have hpow : 2 ^ (7 - h) = 2 ^ (7 - (h + 1)) * 2 := by
        rw [← Nat.pow_succ]
        congr 1
        omega
      rw [summary, ih (by omega), ih (by omega), hpow, ← Nat.mul_assoc,
        ← Nat.mul_assoc, combine_double, fullPlaces_succ, Nat.add_mul]

/-- Above height 7 every level adds at most one unit of error. -/
theorem summary_error (k b : Nat) :
    summary leaf (7 + k) b * 2 ^ (7 + k) ≤
        128 * fullPlaces leaf (7 + k) b + k * 2 ^ (7 + k) ∧
    128 * fullPlaces leaf (7 + k) b ≤
        summary leaf (7 + k) b * 2 ^ (7 + k) + k * 2 ^ (7 + k) := by
  induction k generalizing b with
  | zero =>
      rw [Nat.add_zero, summary_exact leaf (Nat.le_refl 7)]
      constructor <;> omega
  | succ k ih =>
      obtain ⟨hleft, hleft'⟩ := ih (2 * b)
      obtain ⟨hright, hright'⟩ := ih (2 * b + 1)
      obtain ⟨hover, hunder⟩ := @combine_error
        (summary leaf (7 + k) (2 * b)) (summary leaf (7 + k) (2 * b + 1))
      rw [show 7 + (k + 1) = 7 + k + 1 from rfl, summary, fullPlaces_succ,
        Nat.pow_succ]
      generalize 2 ^ (7 + k) = p at *
      generalize summary leaf (7 + k) (2 * b) = x at *
      generalize summary leaf (7 + k) (2 * b + 1) = y at *
      have hover' := Nat.mul_le_mul_right p hover
      have hunder' := Nat.mul_le_mul_right p hunder
      constructor <;> nlinarith

/-- Without its lowest bit a value never overstates the full places. -/
theorem summary_even_part_le (h b : Nat) :
    summary leaf h b / 2 * 2 * 2 ^ h ≤ 128 * fullPlaces leaf h b := by
  induction h generalizing b with
  | zero =>
      rw [summary, fullPlaces_zero]
      split_ifs <;> simp
  | succ h ih =>
      have hleft := ih (2 * b)
      have hright := ih (2 * b + 1)
      have hmean := @combine_even_part_le
        (summary leaf h (2 * b)) (summary leaf h (2 * b + 1))
      rw [summary, fullPlaces_succ, Nat.pow_succ]
      generalize 2 ^ h = p at *
      have hmean' := Nat.mul_le_mul_right p hmean
      nlinarith

end Summary

end HalvingSummary
end DexprOS
