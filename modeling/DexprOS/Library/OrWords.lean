import Mathlib.Data.Finset.Insert
import Mathlib.Data.Nat.Bitwise
import Mathlib.Tactic.Common

/-!
# Words that collect bits

Items are or-ed into the word of their key.  A word holds the bits of all its items, so
that it can be the value of an item only as long as no other one brings more bits.

Main facts:
* `Collects.insert`: or-ing one more item into its word;
* `Collects.eq_zero`, `Collects.mod_eq_zero`, `Collects.lt`: what all items have in common;
* `Collects.eq_of_subsingleton`, `Collects.le`: words of one item and of several.
-/

namespace DexprOS
namespace OrWords

universe u v

section OrWords

variable {α : Type u} {κ : Type v} {key : α → κ} {value : α → ℕ}
variable {items : Finset α} {word : κ → ℕ} {k : κ} {x : α} {n : ℕ}

/-- Each word holds the bits of all the items with its key. -/
def Collects (key : α → κ) (value : α → ℕ) (items : Finset α) (word : κ → ℕ) : Prop :=
  ∀ k i, (word k).testBit i = true ↔ ∃ x ∈ items, key x = k ∧ (value x).testBit i = true

theorem collects_empty :
    Collects key value ∅ fun _ => 0 := by
  intro k i
  simp

/-- One more item. -/
theorem Collects.insert [DecidableEq α] [DecidableEq κ]
    (h : Collects key value items word) :
    Collects key value (insert x items)
      (Function.update word (key x) (word (key x) ||| value x)) := by
  intro k i
  simp only [Finset.exists_mem_insert]
  by_cases hk : k = key x
  · subst hk
    rw [Function.update_self, Nat.testBit_or, Bool.or_eq_true, h (key x) i, or_comm]
    simp
  · rw [Function.update_of_ne hk, h k i]
    simp [Ne.symm hk]

/-- The word of a key without items. -/
theorem Collects.eq_zero
    (h : Collects key value items word) (hk : ∀ x ∈ items, key x ≠ k) :
    word k = 0 := by
  refine Nat.eq_of_testBit_eq fun i => ?_
  rw [Nat.zero_testBit, Bool.eq_false_iff]
  intro hbit
  obtain ⟨x, hx, hkey, -⟩ := (h k i).mp hbit
  exact hk x hx hkey

/-- Low bits that no item has. -/
theorem Collects.mod_eq_zero
    (h : Collects key value items word) (hvalue : ∀ x ∈ items, value x % 2 ^ n = 0) (k : κ) :
    word k % 2 ^ n = 0 := by
  refine Nat.eq_of_testBit_eq fun i => ?_
  rw [Nat.zero_testBit, Nat.testBit_mod_two_pow, Bool.eq_false_iff]
  intro hbit
  rw [Bool.and_eq_true] at hbit
  obtain ⟨x, hx, -, hbit'⟩ := (h k i).mp hbit.2
  have hmod := Nat.testBit_mod_two_pow (value x) n i
  rw [hvalue x hx, hbit.1, hbit', Nat.zero_testBit] at hmod
  exact absurd hmod (by decide)

/-- High bits that no item has. -/
theorem Collects.lt
    (h : Collects key value items word) (hvalue : ∀ x ∈ items, value x < 2 ^ n) (k : κ) :
    word k < 2 ^ n := by
  refine Nat.lt_pow_two_of_testBit _ fun i hi => ?_
  rw [Bool.eq_false_iff]
  intro hbit
  obtain ⟨x, hx, -, hbit'⟩ := (h k i).mp hbit
  have hlt : value x < 2 ^ i := (hvalue x hx).trans_le (Nat.pow_le_pow_right (by decide) hi)
  rw [Nat.testBit_lt_two_pow hlt] at hbit'
  exact absurd hbit' (by decide)

/-- A word that only one item goes into is its value. -/
theorem Collects.eq_of_subsingleton
    (h : Collects key value items word) (hx : x ∈ items)
    (honly : ∀ y ∈ items, key y = key x → y = x) :
    word (key x) = value x := by
  refine Nat.eq_of_testBit_eq fun i => ?_
  rw [Bool.eq_iff_iff, h (key x) i]
  constructor
  · rintro ⟨y, hy, hkey, hbit⟩
    rwa [honly y hy hkey] at hbit
  · intro hbit
    exact ⟨x, hx, rfl, hbit⟩

/-- A word is at least as high as each of its items. -/
theorem Collects.le
    (h : Collects key value items word) (hx : x ∈ items) :
    value x ≤ word (key x) := by
  have hor : value x ||| word (key x) = word (key x) := by
    refine Nat.eq_of_testBit_eq fun i => ?_
    rw [Nat.testBit_or, Bool.eq_iff_iff, Bool.or_eq_true, h (key x) i]
    exact or_iff_right_of_imp fun hbit => ⟨x, hx, rfl, hbit⟩
  exact hor ▸ Nat.left_le_or

end OrWords

end OrWords
end DexprOS
