import Mathlib.Logic.Basic
import Mathlib.Tactic.Common
import Mathlib.Algebra.Ring.Nat

/-!
# Copying between overlapping byte ranges

A memory is a function from addresses to bytes.  `copyUnit w d s` loads the `w`
bytes at `s` and then stores them at `d`; `copyUp` and `copyDown` repeat it over
consecutive units, upwards and downwards, each unit reading what the earlier
ones have left behind.  Both are written for every kind of memory that can copy a
unit, in particular for one that also records what is loaded from it.

Main facts:
* `moved_copyUp`: copying upwards is a faithful move when the destination does
  not start inside the source;
* `echo_copyUp`: otherwise the destination repeats the source periodically;
* `movedTail_copyDown`: copying bytes downwards is a faithful move when the
  destination does not start below the source;
* `copyUp_mem`, `loads_copyUp`: recording changes no byte, and what is recorded lies
  inside of the source.
-/

namespace DexprOS
namespace ByteCopy

universe u

section ByteCopy

/-- Byte contents by address. -/
abbrev Memory := Nat → UInt8

/-- Load `w` bytes at `src`, then store them at `dst`. -/
def copyUnit (w dst src : Nat) (mem : Memory) : Memory :=
  fun a => if dst ≤ a ∧ a < dst + w then mem (src + (a - dst)) else mem a

/-- A kind of memory in which units can be copied. -/
class UnitMemory (M : Type u) where
  copyUnit (w dst src : Nat) (mem : M) : M

instance : UnitMemory Memory where
  copyUnit := copyUnit

/-- `n` units in ascending order. -/
def copyUp {M : Type u} [UnitMemory M] (w : Nat) : Nat → Nat → Nat → M → M
  | 0, _, _, mem => mem
  | n + 1, dst, src, mem =>
      copyUp w n (dst + w) (src + w) (UnitMemory.copyUnit w dst src mem)

/-- `n` units in descending order, the first one at `dst` and `src`. -/
def copyDown {M : Type u} [UnitMemory M] (w : Nat) : Nat → Nat → Nat → M → M
  | 0, _, _, mem => mem
  | n + 1, dst, src, mem =>
      copyDown w n (dst - w) (src - w) (UnitMemory.copyUnit w dst src mem)

/-- A byte outside the stored unit is untouched. -/
theorem copyUnit_outside
    {w dst src a : Nat} (mem : Memory)
    (h : a < dst ∨ dst + w ≤ a) :
    copyUnit w dst src mem a = mem a := by
  unfold copyUnit
  rw [if_neg (by omega)]

/-- A byte inside the stored unit is the loaded one. -/
theorem copyUnit_inside
    {w i : Nat} (dst src : Nat) (mem : Memory)
    (h : i < w) :
    copyUnit w dst src mem (dst + i) = mem (src + i) := by
  unfold copyUnit
  rw [if_pos (by omega)]
  congr 1
  omega

/-- The first `k` bytes of the destination hold the original source bytes and
nothing else has changed. -/
structure Moved (mem₀ : Memory) (dst src k : Nat) (mem : Memory) : Prop where
  copied : ∀ i, i < k → mem (dst + i) = mem₀ (src + i)
  frame : ∀ a, a < dst ∨ dst + k ≤ a → mem a = mem₀ a

theorem moved_zero (mem : Memory) (dst src : Nat) :
    Moved mem dst src 0 mem where
  copied := fun i hi => absurd hi (Nat.not_lt_zero i)
  frame := fun _ _ => rfl

/-- The next unit extends a move when it still reads original source bytes. -/
theorem moved_copyUnit
    {mem₀ mem : Memory} {dst src k w : Nat}
    (h : Moved mem₀ dst src k mem)
    (hsafe : dst ≤ src ∨ src + k + w ≤ dst) :
    Moved mem₀ dst src (k + w) (copyUnit w (dst + k) (src + k) mem) where
  copied := by
    intro i hi
    by_cases hik : i < k
    · rw [copyUnit_outside mem (by omega)]
      exact h.copied i hik
    · obtain ⟨j, rfl⟩ := Nat.exists_eq_add_of_le (Nat.le_of_not_lt hik)
      rw [← Nat.add_assoc, copyUnit_inside _ _ mem (by omega), Nat.add_assoc]
      exact h.frame _ (by omega)
  frame := by
    intro a ha
    rw [copyUnit_outside mem (by omega)]
    exact h.frame a (by omega)

theorem moved_copyUp
    {mem₀ : Memory} {dst src w : Nat} (n : Nat) :
    ∀ {mem : Memory} {k : Nat},
      Moved mem₀ dst src k mem →
      dst ≤ src ∨ src + k + w * n ≤ dst →
      Moved mem₀ dst src (k + w * n)
        (copyUp w n (dst + k) (src + k) mem) := by
  induction n with
  | zero =>
      intro mem k h _
      exact h
  | succ n ih =>
      intro mem k h hsafe
      rw [Nat.mul_succ] at hsafe ⊢
      have hunit := moved_copyUnit (w := w) h (by omega)
      have hrest := ih hunit (by omega)
      have hk : k + (w * n + w) = k + w + w * n := by omega
      rw [hk, copyUp, Nat.add_assoc dst, Nat.add_assoc src]
      exact hrest

/-- The first `k` bytes of the destination equal what the source holds now and
nothing else has changed. -/
structure Echo (mem₀ : Memory) (dst src k : Nat) (mem : Memory) : Prop where
  copied : ∀ i, i < k → mem (dst + i) = mem (src + i)
  frame : ∀ a, a < dst ∨ dst + k ≤ a → mem a = mem₀ a

theorem echo_zero (mem : Memory) (dst src : Nat) :
    Echo mem dst src 0 mem where
  copied := fun i hi => absurd hi (Nat.not_lt_zero i)
  frame := fun _ _ => rfl

/-- A unit no wider than the distance of the ranges keeps the echo. -/
theorem echo_copyUnit
    {mem₀ mem : Memory} {dst src k w : Nat}
    (h : Echo mem₀ dst src k mem)
    (hw : src + w ≤ dst) :
    Echo mem₀ dst src (k + w) (copyUnit w (dst + k) (src + k) mem) where
  copied := by
    intro i hi
    rw [copyUnit_outside (a := src + i) mem (by omega)]
    by_cases hik : i < k
    · rw [copyUnit_outside mem (by omega)]
      exact h.copied i hik
    · obtain ⟨j, rfl⟩ := Nat.exists_eq_add_of_le (Nat.le_of_not_lt hik)
      rw [← Nat.add_assoc, copyUnit_inside _ _ mem (by omega), Nat.add_assoc]
  frame := by
    intro a ha
    rw [copyUnit_outside mem (by omega)]
    exact h.frame a (by omega)

theorem echo_copyUp
    {mem₀ : Memory} {dst src w : Nat}
    (hw : src + w ≤ dst) (n : Nat) :
    ∀ {mem : Memory} {k : Nat},
      Echo mem₀ dst src k mem →
      Echo mem₀ dst src (k + w * n)
        (copyUp w n (dst + k) (src + k) mem) := by
  induction n with
  | zero =>
      intro mem k h
      exact h
  | succ n ih =>
      intro mem k h
      have hrest := ih (echo_copyUnit h hw)
      have hk : k + w * (n + 1) = k + w + w * n := by
        rw [Nat.mul_succ]
        omega
      rw [hk, copyUp, Nat.add_assoc dst, Nat.add_assoc src]
      exact hrest

/-- An echo over an overlap that starts below the destination is no move: the
byte at the overlap distance repeats the first source byte. -/
theorem Echo.at_distance
    {mem₀ mem : Memory} {src dst k : Nat}
    (h : Echo mem₀ dst src k mem)
    (hlt : src < dst) (hover : dst < src + k) :
    mem (dst + (dst - src)) = mem₀ src := by
  have hcopy := h.copied (dst - src) (by omega)
  have hback : src + (dst - src) = dst + 0 := by omega
  rw [hcopy, hback, h.copied 0 (by omega)]
  exact h.frame src (Or.inl hlt)

/-- The bytes from `lo` up to `count` of the destination hold the original
source bytes and nothing else has changed. -/
structure MovedTail (mem₀ : Memory) (dst src lo count : Nat)
    (mem : Memory) : Prop where
  copied : ∀ i, lo ≤ i → i < count → mem (dst + i) = mem₀ (src + i)
  frame : ∀ a, a < dst + lo ∨ dst + count ≤ a → mem a = mem₀ a

theorem movedTail_self (mem : Memory) (dst src count : Nat) :
    MovedTail mem dst src count count mem where
  copied := fun _ hlo hi => absurd hi (Nat.not_lt_of_le hlo)
  frame := fun _ _ => rfl

theorem movedTail_copyUnit
    {mem₀ mem : Memory} {dst src lo count : Nat}
    (h : MovedTail mem₀ dst src (lo + 1) count mem)
    (hsafe : src ≤ dst) (hlo : lo < count) :
    MovedTail mem₀ dst src lo count
      (copyUnit 1 (dst + lo) (src + lo) mem) where
  copied := by
    intro i hi hcount
    by_cases heq : i = lo
    · subst i
      have hfirst :=
        copyUnit_inside (dst + lo) (src + lo) mem Nat.zero_lt_one
      simp only [Nat.add_zero] at hfirst
      rw [hfirst]
      exact h.frame _ (by omega)
    · rw [copyUnit_outside mem (by omega)]
      exact h.copied i (by omega) hcount
  frame := by
    intro a ha
    rw [copyUnit_outside mem (by omega)]
    exact h.frame a (by omega)

theorem movedTail_copyDown
    {mem₀ : Memory} (dst src count : Nat)
    (hsafe : src ≤ dst) (n : Nat) :
    ∀ {mem : Memory},
      n ≤ count →
      MovedTail mem₀ dst src n count mem →
      MovedTail mem₀ dst src 0 count
        (copyDown 1 n (dst + n - 1) (src + n - 1) mem) := by
  induction n with
  | zero =>
      intro mem _ h
      exact h
  | succ n ih =>
      intro mem hn h
      have hunit := movedTail_copyUnit h hsafe (by omega)
      have hd : dst + (n + 1) - 1 = dst + n := by omega
      have hs : src + (n + 1) - 1 = src + n := by omega
      rw [hd, hs, copyDown]
      exact ih (by omega) hunit

/-- Copying downwards leaves everything above the first unit alone. -/
theorem copyDown_above
    {w a : Nat} (n : Nat) :
    ∀ {dst src : Nat} {mem : Memory},
      dst + w ≤ a →
      copyDown w n dst src mem a = mem a := by
  induction n with
  | zero =>
      intro dst src mem _
      rfl
  | succ n ih =>
      intro dst src mem ha
      rw [copyDown, ih (by omega)]
      exact copyUnit_outside mem (Or.inr ha)

/-- The first unit of a downward copy is final. -/
theorem copyDown_first
    {w i : Nat} (dst src n : Nat) (mem : Memory)
    (hi : i < w) (hw : w ≤ dst) :
    copyDown w (n + 1) dst src mem (dst + i) = mem (src + i) := by
  rw [copyDown, copyDown_above n (by omega)]
  exact copyUnit_inside dst src mem hi

end ByteCopy

section Loads

/-- A memory that records the addresses of the bytes that are loaded from it. -/
structure LoggedMemory where
  mem : Memory
  loads : List Nat

instance : UnitMemory LoggedMemory where
  copyUnit w dst src m :=
    { mem := copyUnit w dst src m.mem
      loads := m.loads ++ (List.range w).map (fun i => src + i) }

/-- The record does not change what is copied. -/
theorem copyUp_mem
    {w : Nat} (n : Nat) :
    ∀ (dst src : Nat) (m : LoggedMemory),
      (copyUp w n dst src m).mem = copyUp w n dst src m.mem := by
  induction n with
  | zero =>
      intro dst src m
      rfl
  | succ n ih =>
      intro dst src m
      rw [copyUp, copyUp, ih]
      rfl

/-- Copying upwards loads bytes of the source only. -/
theorem loads_copyUp
    {w a : Nat} (n : Nat) :
    ∀ {dst src : Nat} {m : LoggedMemory},
      a ∈ (copyUp w n dst src m).loads →
      a ∈ m.loads ∨ (src ≤ a ∧ a < src + w * n) := by
  induction n with
  | zero =>
      intro dst src m ha
      exact .inl ha
  | succ n ih =>
      intro dst src m ha
      rw [copyUp] at ha
      rw [Nat.mul_succ]
      rcases ih ha with hearlier | hrest
      · rcases List.mem_append.mp hearlier with hbefore | hunit
        · exact .inl hbefore
        · obtain ⟨i, hi, rfl⟩ := List.mem_map.mp hunit
          have hlt := List.mem_range.mp hi
          exact .inr ⟨by omega, by omega⟩
      · exact .inr ⟨by omega, by omega⟩

end Loads

end ByteCopy
end DexprOS
