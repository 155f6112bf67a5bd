import Mathlib.Tactic.Common

/-!
# Little-endian memory

The bytes of an array of 32-bit words, and the values that are read from bytes with the
lowest one first.

Main facts:
* `getLsbD_readBytes`: the bits of a value that is read;
* `readBytes_doubleword`, `readBytes_upperHalf`: reads from the bytes of words.
-/

namespace DexprOS
namespace LittleEndian

section Bytes

/-- The value of the `n` bytes from `offset` on. -/
def readBytes (bytes : Nat → BitVec 8) (offset : Nat) : (n : Nat) → BitVec (8 * n)
  | 0 => 0
  | n + 1 => readBytes bytes (offset + 1) n ++ bytes offset

/-- Byte `k` of an array of words. -/
def byteOfWords (words : Nat → BitVec 32) (k : Nat) : BitVec 8 :=
  (words (k / 4)).extractLsb' (8 * (k % 4)) 8

variable (bytes : Nat → BitVec 8) (words : Nat → BitVec 32) (offset : Nat)

theorem getLsbD_readBytes
    {n i : Nat}
    (hi : i < 8 * n) :
    (readBytes bytes offset n).getLsbD i = (bytes (offset + i / 8)).getLsbD (i % 8) := by
  induction n generalizing offset i with
  | zero => omega
  | succ n ih =>
      rw [readBytes, BitVec.getLsbD_append]
      by_cases hfirst : i < 8
      · have hdiv : i / 8 = 0 := by omega
        have hmod : i % 8 = i := by omega
        simp [hfirst, hdiv, hmod]
      · have hdiv : offset + 1 + (i - 8) / 8 = offset + i / 8 := by omega
        have hmod : (i - 8) % 8 = i % 8 := by omega
        rw [if_neg hfirst, ih (offset + 1) (by omega), hdiv, hmod]

theorem getLsbD_byteOfWords
    {k i : Nat}
    (hi : i < 8) :
    (byteOfWords words k).getLsbD i = (words (k / 4)).getLsbD (8 * (k % 4) + i) := by
  rw [byteOfWords, BitVec.getLsbD_extractLsb']
  simp [hi]

/-- A bit that is read from the bytes of words is one of the word it lies in. -/
theorem getLsbD_readBytes_byteOfWords
    {n i : Nat}
    (hi : i < 8 * n) :
    (readBytes (byteOfWords words) offset n).getLsbD i =
      (words ((8 * offset + i) / 32)).getLsbD ((8 * offset + i) % 32) := by
  have hword : (offset + i / 8) / 4 = (8 * offset + i) / 32 := by omega
  have hbit : 8 * ((offset + i / 8) % 4) + i % 8 = (8 * offset + i) % 32 := by omega
  rw [getLsbD_readBytes _ _ hi, getLsbD_byteOfWords _ (by omega), hword, hbit]

/-- Eight bytes from the start of a word are this word below the next one. -/
theorem readBytes_doubleword
    (j : Nat) :
    readBytes (byteOfWords words) (4 * j) 8 = words (j + 1) ++ words j := by
  refine BitVec.eq_of_getLsbD_eq fun i hi => ?_
  rw [getLsbD_readBytes_byteOfWords _ _ hi, BitVec.getLsbD_append]
  by_cases hlow : i < 32
  · have hword : (8 * (4 * j) + i) / 32 = j := by omega
    have hbit : (8 * (4 * j) + i) % 32 = i := by omega
    rw [if_pos hlow, hword, hbit]
  · have hword : (8 * (4 * j) + i) / 32 = j + 1 := by omega
    have hbit : (8 * (4 * j) + i) % 32 = i - 32 := by omega
    rw [if_neg hlow, hword, hbit]

/-- Two bytes from the middle of a word are its upper half. -/
theorem readBytes_upperHalf
    (j : Nat) :
    readBytes (byteOfWords words) (4 * j + 2) 2 = (words j).extractLsb' 16 16 := by
  refine BitVec.eq_of_getLsbD_eq fun i hi => ?_
  have hword : (8 * (4 * j + 2) + i) / 32 = j := by omega
  have hbit : (8 * (4 * j + 2) + i) % 32 = 16 + i := by omega
  rw [getLsbD_readBytes_byteOfWords _ _ hi, hword, hbit, BitVec.getLsbD_extractLsb']
  simp only [hi, decide_true, Bool.true_and]

end Bytes

end LittleEndian
end DexprOS
