import Mathlib.Algebra.Order.Floor.Div
import Mathlib.GroupTheory.GroupAction.Ring
import Mathlib.Tactic.Ring

/-!
# Rounding up in modular arithmetic

Division that rounds up, `x ⌈/⌉ d`, over numbers that are kept modulo `m`, for
divisors `d` of `m`.

Main facts:
* `ceilDiv_mul_mod`: the usual code for rounding up is exact modulo `m`;
* `ceilDiv_mod`: rounding up commutes with reducing modulo `m`;
* `ceilDiv_ceilDiv`: rounding up to `d` first does not change rounding to `2 * d`.
-/

namespace DexprOS
namespace RoundUp

section RoundUp

/-- `x ⌈/⌉ d` is at most `n` exactly when `n` times `d` reaches `x`. -/
theorem ceilDiv_le_iff {x d n : Nat} (hd : 0 < d) :
    x ⌈/⌉ d ≤ n ↔ x ≤ d * n :=
  ceilDiv_le_iff_le_mul hd

theorem le_ceilDiv_mul (x : Nat) {d : Nat} (hd : 0 < d) :
    x ≤ d * (x ⌈/⌉ d) :=
  (ceilDiv_le_iff hd).mp (Nat.le_refl _)

variable {x d m : Nat} (hd : 0 < d) (hdm : d ∣ m)
include hd hdm

/-- Adding `d - 1` and dividing, all modulo `m`, rounds up modulo `m`. -/
theorem ceilDiv_mul_mod (hx : x < m) :
    (x + d - 1) % m / d * d = (x ⌈/⌉ d) * d % m := by
  obtain ⟨t, rfl⟩ := hdm
  have hle : d ≤ d * t := Nat.le_of_dvd (by omega) (Nat.dvd_mul_right d t)
  rw [Nat.ceilDiv_eq_add_pred_div]
  rcases Nat.lt_or_ge (x + d - 1) (d * t) with hlt | hge
  · have hdown : (x + d - 1) / d * d ≤ x + d - 1 := Nat.div_mul_le_self _ _
    rw [Nat.mod_eq_of_lt hlt, Nat.mod_eq_of_lt (by omega)]
  · -- the sum passes the modulus: the rounded value is the modulus itself
    have hup : (x + d - 1) / d = t := by
      rw [Nat.div_eq_iff hd, Nat.mul_comm t d]
      omega
    have hzero : (x + d - 1) % (d * t) / d = 0 := by
      rw [Nat.mod_eq_sub_mod hge, Nat.mod_eq_of_lt (by omega)]
      exact Nat.div_eq_of_lt (by omega)
    rw [hzero, hup, Nat.mul_comm t d, Nat.mod_self, Nat.zero_mul]

/-- Rounding up commutes with reducing modulo `m`. -/
theorem ceilDiv_mod :
    ((x % m) ⌈/⌉ d) * d % m = (x ⌈/⌉ d) * d % m := by
  obtain ⟨t, rfl⟩ := hdm
  have hsplit : x ⌈/⌉ d = (x % (d * t)) ⌈/⌉ d + t * (x / (d * t)) := by
    rw [Nat.ceilDiv_eq_add_pred_div, Nat.ceilDiv_eq_add_pred_div]
    have hx : x + d - 1 =
        (x % (d * t) + d - 1) + d * (t * (x / (d * t))) := by
      rw [← Nat.mul_assoc]
      have := Nat.mod_add_div x (d * t)
      omega
    rw [hx, Nat.add_mul_div_left _ _ hd]
  have hmul : t * (x / (d * t)) * d = d * t * (x / (d * t)) := by ring
  rw [hsplit, Nat.add_mul, hmul, Nat.add_mul_mod_self_left]

omit hdm in
/-- Rounding up in two steps, the second one twice as coarse. -/
theorem ceilDiv_ceilDiv (x : Nat) :
    ((x ⌈/⌉ d) * d) ⌈/⌉ (d * 2) = x ⌈/⌉ (d * 2) := by
  refine eq_of_forall_ge_iff (fun n => ?_)
  have hd₂ : 0 < d * 2 := by omega
  have hn : d * 2 * n = d * (2 * n) := by ring
  rw [ceilDiv_le_iff hd₂, ceilDiv_le_iff hd₂, hn, Nat.mul_comm (x ⌈/⌉ d) d,
    Nat.mul_le_mul_left_iff hd, ceilDiv_le_iff hd]

omit hdm in
/-- Rounding up in two steps, the second one any number of times as coarse. -/
theorem ceilDiv_ceilDiv_eq (x : Nat) {c : Nat} (hc : 0 < c) :
    (x ⌈/⌉ d) ⌈/⌉ c = x ⌈/⌉ (d * c) := by
  refine eq_of_forall_ge_iff (fun n => ?_)
  rw [ceilDiv_le_iff hc, ceilDiv_le_iff hd, ceilDiv_le_iff (Nat.mul_pos hd hc), Nat.mul_assoc]

omit hdm in
/-- A common factor cancels. -/
theorem mul_ceilDiv_mul (x : Nat) {c : Nat} (hc : 0 < c) :
    (c * x) ⌈/⌉ (c * d) = x ⌈/⌉ d := by
  refine eq_of_forall_ge_iff (fun n => ?_)
  rw [ceilDiv_le_iff (Nat.mul_pos hc hd), ceilDiv_le_iff hd, Nat.mul_assoc,
    Nat.mul_le_mul_left_iff hc]

end RoundUp

end RoundUp
end DexprOS
