import DexprOS.Library.ByteCopy

/-!
# Words in a byte memory

Little-endian words of any width, filling a range of bytes unit by unit, and the first
difference of two byte sequences.  Loads and stores are operations of a kind of memory, so
that a program can also be run on one that records its accesses.

Main facts:
* `wordAt_eq_iff`: words are equal exactly when their bytes are;
* `filled_fillUp`: filling unit by unit fills the whole range;
* `byteDifference_add`: differences are found piece by piece.
-/

namespace DexprOS
namespace ByteWords

open ByteCopy

universe u

section Words

/-- Value of the `w` bytes at `a`, the lowest one first. -/
def wordAt (mem : Memory) : Nat → Nat → Nat
  | 0, _ => 0
  | w + 1, a => (mem a).toNat + 256 * wordAt mem w (a + 1)

/-- Byte `i` of a value. -/
def byteOf (value i : Nat) : UInt8 :=
  UInt8.ofNat (value / 256 ^ i)

/-- Store the `w` low bytes of a value at `a`. -/
def storeBytes (w a value : Nat) (mem : Memory) : Memory :=
  fun x => if a ≤ x ∧ x < a + w then byteOf value (x - a) else mem x

/-- A kind of memory with loads and stores of words. -/
class WordMemory (M : Type u) where
  load (w a : Nat) (mem : M) : Nat × M
  store (w a value : Nat) (mem : M) : M

instance : WordMemory Memory where
  load w a mem := (wordAt mem w a, mem)
  store := storeBytes

@[simp] theorem load_memory (w a : Nat) (mem : Memory) :
    WordMemory.load w a mem = (wordAt mem w a, mem) := by
  rfl

@[simp] theorem wordAt_one (mem : Memory) (a : Nat) :
    wordAt mem 1 a = (mem a).toNat := by
  simp [wordAt]

/-- The bytes of a word are the bytes it was made of. -/
theorem byteOf_wordAt
    (mem : Memory) (w : Nat) :
    ∀ a i : Nat, i < w → byteOf (wordAt mem w a) i = mem (a + i) := by
  induction w with
  | zero =>
      intro a i hi
      exact absurd hi (Nat.not_lt_zero i)
  | succ w ih =>
      intro a i hi
      have ha := (mem a).toNat_lt
      cases i with
      | zero =>
          simp only [byteOf, wordAt, Nat.pow_zero, Nat.div_one, Nat.add_zero]
          rw [← UInt8.toNat_inj, UInt8.toNat_ofNat']
          omega
      | succ i =>
          have hshift : wordAt mem (w + 1) a / 256 = wordAt mem w (a + 1) := by
            rw [wordAt]
            omega
          have hrest := ih (a + 1) i (by omega)
          rw [byteOf] at hrest
          rw [byteOf, Nat.pow_succ', ← Nat.div_div_eq_div_mul, hshift, hrest]
          congr 1
          omega

/-- Words are equal exactly when their bytes are. -/
theorem wordAt_eq_iff
    (mem : Memory) (w : Nat) :
    ∀ a b : Nat,
      wordAt mem w a = wordAt mem w b ↔ ∀ i, i < w → mem (a + i) = mem (b + i) := by
  induction w with
  | zero =>
      intro a b
      simp [wordAt]
  | succ w ih =>
      intro a b
      have ha := (mem a).toNat_lt
      have hb := (mem b).toNat_lt
      have hsplit : wordAt mem (w + 1) a = wordAt mem (w + 1) b ↔
          (mem a).toNat = (mem b).toNat ∧ wordAt mem w (a + 1) = wordAt mem w (b + 1) := by
        simp only [wordAt]
        omega
      rw [hsplit, ih, UInt8.toNat_inj]
      constructor
      · rintro ⟨hfirst, hrest⟩ i hi
        cases i with
        | zero =>
            simpa using hfirst
        | succ i =>
            have hnext := hrest i (by omega)
            rwa [Nat.add_assoc, Nat.add_assoc, Nat.add_comm 1 i] at hnext
      · intro hall
        refine ⟨by simpa using hall 0 (Nat.succ_pos w), fun i hi => ?_⟩
        have hnext := hall (i + 1) (by omega)
        rwa [Nat.add_assoc, Nat.add_assoc, Nat.add_comm 1 i]

end Words

section Filling

/-- `n` units in ascending order, each of them with the same value. -/
def fillUp {M : Type u} [WordMemory M] (w value : Nat) : Nat → Nat → M → M
  | 0, _, mem => mem
  | n + 1, a, mem => fillUp w value n (a + w) (WordMemory.store w a value mem)

/-- The `k` bytes from `a` on are `b` and nothing else has changed. -/
structure Filled (mem₀ : Memory) (a k : Nat) (b : UInt8) (mem : Memory) : Prop where
  filled : ∀ i, i < k → mem (a + i) = b
  frame : ∀ x, x < a ∨ a + k ≤ x → mem x = mem₀ x

theorem filled_zero (mem : Memory) (a : Nat) (b : UInt8) :
    Filled mem a 0 b mem where
  filled := fun i hi => absurd hi (Nat.not_lt_zero i)
  frame := fun _ _ => rfl

/-- A unit whose bytes are all `b` extends the range. -/
theorem Filled.store
    {mem₀ mem : Memory} {a k w value : Nat} {b : UInt8}
    (h : Filled mem₀ a k b mem)
    (hvalue : ∀ i, i < w → byteOf value i = b) :
    Filled mem₀ a (k + w) b (storeBytes w (a + k) value mem) where
  filled := by
    intro i hi
    by_cases hik : i < k
    · rw [storeBytes, if_neg (by omega)]
      exact h.filled i hik
    · rw [storeBytes, if_pos (by omega)]
      exact hvalue _ (by omega)
  frame := by
    intro x hx
    rw [storeBytes, if_neg (by omega)]
    exact h.frame x (by omega)

theorem filled_fillUp
    {mem₀ : Memory} {a w value : Nat} {b : UInt8}
    (hvalue : ∀ i, i < w → byteOf value i = b) (n : Nat) :
    ∀ {mem : Memory} {k : Nat},
      Filled mem₀ a k b mem →
      Filled mem₀ a (k + w * n) b (fillUp w value n (a + k) mem) := by
  induction n with
  | zero =>
      intro mem k h
      exact h
  | succ n ih =>
      intro mem k h
      have hrest := ih (h.store hvalue)
      have hk : k + w * (n + 1) = k + w + w * n := by
        rw [Nat.mul_succ]
        omega
      rw [hk, fillUp, Nat.add_assoc a]
      exact hrest

end Filling

section Comparing

/-- Difference of the first bytes that differ among the first `n`, 0 without one. -/
def byteDifference (f g : Nat → UInt8) : Nat → Int
  | 0 => 0
  | n + 1 =>
      if f 0 = g 0 then byteDifference (fun i => f (i + 1)) (fun i => g (i + 1)) n
      else ((f 0).toNat : Int) - (g 0).toNat

theorem byteDifference_of_ne
    {b c : UInt8} (h : b ≠ c) :
    ((b.toNat : Int) - c.toNat) ≠ 0 := by
  intro hzero
  exact h (UInt8.toNat_inj.mp (by omega))

theorem byteDifference_eq_zero_iff
    (n : Nat) :
    ∀ f g : Nat → UInt8, byteDifference f g n = 0 ↔ ∀ i, i < n → f i = g i := by
  induction n with
  | zero =>
      intro f g
      simp [byteDifference]
  | succ n ih =>
      intro f g
      rw [byteDifference]
      by_cases hfirst : f 0 = g 0
      · rw [if_pos hfirst, ih]
        constructor
        · intro hrest i hi
          cases i with
          | zero => exact hfirst
          | succ i => exact hrest i (by omega)
        · intro hall i hi
          exact hall (i + 1) (by omega)
      · rw [if_neg hfirst]
        constructor
        · intro hzero
          exact absurd hzero (byteDifference_of_ne hfirst)
        · intro hall
          exact absurd (hall 0 (Nat.succ_pos n)) hfirst

/-- The first difference decides. -/
theorem byteDifference_of_first
    {n i : Nat} (hi : i < n) :
    ∀ {f g : Nat → UInt8},
      (∀ j, j < i → f j = g j) → f i ≠ g i →
      byteDifference f g n = ((f i).toNat : Int) - (g i).toNat := by
  induction n generalizing i with
  | zero =>
      exact absurd hi (Nat.not_lt_zero i)
  | succ n ih =>
      intro f g hbefore hne
      rw [byteDifference]
      cases i with
      | zero =>
          rw [if_neg hne]
      | succ i =>
          rw [if_pos (hbefore 0 (Nat.succ_pos i))]
          exact ih (by omega) (fun j hj => hbefore (j + 1) (by omega)) hne

/-- The second piece counts only if the first ones are equal. -/
theorem byteDifference_add
    (m n : Nat) :
    ∀ f g : Nat → UInt8,
      byteDifference f g (m + n) =
        if byteDifference f g m = 0 then
          byteDifference (fun i => f (m + i)) (fun i => g (m + i)) n
        else byteDifference f g m := by
  induction m with
  | zero =>
      intro f g
      simp [byteDifference]
  | succ m ih =>
      intro f g
      rw [Nat.add_right_comm, byteDifference, byteDifference]
      by_cases hfirst : f 0 = g 0
      · rw [if_pos hfirst, if_pos hfirst, ih]
        simp only [Nat.add_right_comm]
      · rw [if_neg hfirst, if_neg hfirst, if_neg (byteDifference_of_ne hfirst)]

theorem byteDifference_congr
    {n : Nat} :
    ∀ {f g f' g' : Nat → UInt8},
      (∀ i, i < n → f i = f' i) → (∀ i, i < n → g i = g' i) →
      byteDifference f g n = byteDifference f' g' n := by
  induction n with
  | zero =>
      intro f g f' g' _ _
      rfl
  | succ n ih =>
      intro f g f' g' hf hg
      rw [byteDifference, byteDifference, hf 0 (Nat.succ_pos n), hg 0 (Nat.succ_pos n),
        ih (fun i hi => hf (i + 1) (by omega)) fun i hi => hg (i + 1) (by omega)]

end Comparing

end ByteWords
end DexprOS
