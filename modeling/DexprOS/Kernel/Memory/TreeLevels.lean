import DexprOS.Kernel.Memory.MemoryDef
import DexprOS.Library.FuelLoop
import Mathlib.Data.Nat.Find

/-!
# Levels of the physical memory tree

The levels over one address range, from the last level (single pages) upwards:
every level doubles the block size, rounds the range outwards to whole blocks,
and the first level with at most one block is the top of the tree.

Main facts:
* `levelAt_blockSize`: the block size at height `h`;
* `exists_top`: there is a top, at most 51 doublings up;
* `forLevels_eq`: the loop over the levels visits `levelAt 0` up to the top.
-/

namespace DexprOS
namespace Kernel

open Fuel

universe u

section LevelCursor

/-- Locals of the loops over the levels: block size and rounded range. -/
structure LevelCursor where
  blockSize : UInt64
  minMappedAddress : UInt64
  maxMappedAddress : UInt64
deriving DecidableEq, Repr

namespace LevelCursor

/-- Round the range outwards to whole blocks. -/
def round (c : LevelCursor) : LevelCursor :=
  { c with
    minMappedAddress := c.minMappedAddress / c.blockSize * c.blockSize
    maxMappedAddress :=
      (c.maxMappedAddress + c.blockSize - 1) / c.blockSize * c.blockSize }

/-- Number of blocks of the rounded range. -/
def numBlocks (c : LevelCursor) : UInt64 :=
  (c.maxMappedAddress - c.minMappedAddress) / c.blockSize

/-- Go on to the next level up. -/
def double (c : LevelCursor) : LevelCursor :=
  { c with blockSize := c.blockSize * 2 }

end LevelCursor

/-- The cursor before the first pass. -/
def firstCursor (startAddress endAddress : UInt64) : LevelCursor where
  blockSize := physicalPageSize
  minMappedAddress := startAddress
  maxMappedAddress := endAddress

variable {σ : Type u}

/-- One pass of the `for (;;)` loops over the levels. -/
def levelBody (visit : LevelCursor → σ → σ) (s : LevelCursor × σ) :
    Pass (LevelCursor × σ) σ :=
  let level := s.1.round
  let user := visit level s.2
  if level.numBlocks ≤ 1 then
    .leave user
  else
    .again (level.double, user)

/-- The `for (;;)` loops of `CalcTreeEntryElements` and `CreateTreeLevels`. -/
def forLevels (visit : LevelCursor → σ → σ) (startAddress endAddress : UInt64)
    (fuel : Nat) (user : σ) : Option σ :=
  forever (levelBody visit) fuel (firstCursor startAddress endAddress, user)

end LevelCursor

section Heights

variable (startAddress endAddress : UInt64)

/-- The cursor before the pass for height `h`. -/
def cursorAt : Nat → LevelCursor
  | 0 => firstCursor startAddress endAddress
  | h + 1 => (cursorAt h).round.double

/-- The level at height `h` above the single pages. -/
def levelAt (h : Nat) : LevelCursor :=
  (cursorAt startAddress endAddress h).round

theorem levelAt_blockSize
    {h : Nat} (hh : h ≤ 51) :
    (levelAt startAddress endAddress h).blockSize.toNat = 2 ^ (12 + h) := by
  induction h with
  | zero =>
      rfl
  | succ h ih =>
      have hpow : 2 ^ (12 + (h + 1)) = 2 ^ (12 + h) * 2 := by
        rw [← Nat.add_assoc, Nat.pow_succ]
      have hlt : 2 ^ (12 + (h + 1)) < 2 ^ 64 :=
        Nat.pow_lt_pow_right (by decide) (by omega)
      show ((levelAt startAddress endAddress h).blockSize * 2).toNat = _
      rw [UInt64.toNat_mul, ih (by omega), show (2 : UInt64).toNat = 2 from rfl,
        ← hpow, Nat.mod_eq_of_lt hlt]

/-- With the largest block size there is at most one block. -/
theorem numBlocks_levelAt_last :
    (levelAt startAddress endAddress 51).numBlocks ≤ 1 := by
  rw [UInt64.le_iff_toNat_le, LevelCursor.numBlocks, UInt64.toNat_div,
    levelAt_blockSize startAddress endAddress (Nat.le_refl 51)]
  have hlt := ((levelAt startAddress endAddress 51).maxMappedAddress -
    (levelAt startAddress endAddress 51).minMappedAddress).toNat_lt
  exact Nat.le_of_lt_succ ((Nat.div_lt_iff_lt_mul (by decide)).mpr hlt)

/-- The loop over the levels comes to a top. -/
theorem exists_top :
    ∃ h, (levelAt startAddress endAddress h).numBlocks ≤ 1 :=
  ⟨51, numBlocks_levelAt_last startAddress endAddress⟩

/-- Height of the top level. -/
def topHeight : Nat :=
  Nat.find (exists_top startAddress endAddress)

theorem levelAt_topHeight :
    (levelAt startAddress endAddress
      (topHeight startAddress endAddress)).numBlocks ≤ 1 :=
  Nat.find_spec (exists_top startAddress endAddress)

theorem lt_numBlocks_of_lt_topHeight
    {h : Nat} (hh : h < topHeight startAddress endAddress) :
    ¬ (levelAt startAddress endAddress h).numBlocks ≤ 1 :=
  Nat.find_min (exists_top startAddress endAddress) hh

theorem topHeight_le : topHeight startAddress endAddress ≤ 51 :=
  Nat.find_min' (exists_top startAddress endAddress)
    (numBlocks_levelAt_last startAddress endAddress)

variable {σ : Type u}

/-- The loop visits the levels from height 0 up to the top, one in each pass. -/
theorem forLevels_eq
    (visit : LevelCursor → σ → σ) (user : σ) {fuel : Nat}
    (hfuel : topHeight startAddress endAddress < fuel) :
    forLevels visit startAddress endAddress fuel user =
      some ((List.range (topHeight startAddress endAddress + 1)).foldl
        (fun s h => visit (levelAt startAddress endAddress h) s) user) := by
  let after : Nat → σ := fun n => (List.range n).foldl
    (fun s h => visit (levelAt startAddress endAddress h) s) user
  have hafter : ∀ n, after (n + 1) =
      visit (levelAt startAddress endAddress n) (after n) := by
    intro n
    simp only [after, List.range_succ, List.foldl_append, List.foldl_cons,
      List.foldl_nil]
  have hagain : ∀ h, h < topHeight startAddress endAddress →
      levelBody visit (cursorAt startAddress endAddress h, after h) =
        .again (cursorAt startAddress endAddress (h + 1), after (h + 1)) := by
    intro h hh
    have hnot := lt_numBlocks_of_lt_topHeight startAddress endAddress hh
    rw [levelAt] at hnot
    simp only [levelBody, if_neg hnot, hafter h]
    rfl
  have hleave : levelBody visit
      (cursorAt startAddress endAddress (topHeight startAddress endAddress),
        after (topHeight startAddress endAddress)) =
        .leave (after (topHeight startAddress endAddress + 1)) := by
    have htop := levelAt_topHeight startAddress endAddress
    rw [levelAt] at htop
    simp only [levelBody, if_pos htop]
    exact congrArg Pass.leave (hafter _).symm
  have hrun := forever_trace (fun h => (cursorAt startAddress endAddress h, after h)) _
    (topHeight startAddress endAddress) hagain hleave
  obtain ⟨extra, rfl⟩ := Nat.exists_eq_add_of_le (Nat.succ_le_of_lt hfuel)
  exact forever_add hrun extra

theorem forLevels_returns
    (visit : LevelCursor → σ → σ) (user : σ) :
    Returns (fun fuel => forLevels visit startAddress endAddress fuel user)
      ((List.range (topHeight startAddress endAddress + 1)).foldl
        (fun s h => visit (levelAt startAddress endAddress h) s) user) :=
  ⟨topHeight startAddress endAddress + 1, fun _ hle =>
    forLevels_eq startAddress endAddress visit user hle⟩

end Heights

end Kernel
end DexprOS
