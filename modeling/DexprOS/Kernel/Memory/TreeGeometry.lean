import DexprOS.Kernel.Memory.TreeLevels
import DexprOS.Library.RoundUp

/-!
# Geometry of the tree levels

The rounded ranges of the levels in exact numbers.  Blocks of height `h` are
numbered through the whole address space, so block `b` covers the pages
`b * 2 ^ h` to `(b + 1) * 2 ^ h`.  A range that goes past the end of the address
space is counted on beyond `2 ^ 52` pages.

Main facts:
* `levelAt_minMappedAddress`, `levelAt_maxMappedAddress`: the rounded range;
* `levelAt_numBlocks`: the number of blocks, up to the 64-bit wrap;
* `levelAt_numBlocks_exact`: it does not wrap on a level that has blocks.
-/

namespace DexprOS
namespace Kernel

open RoundUp

section Rounding

variable {c : LevelCursor} {k : Nat}

theorem round_minMappedAddress (hsize : c.blockSize.toNat = 2 ^ k) :
    c.round.minMappedAddress.toNat = c.minMappedAddress.toNat / 2 ^ k * 2 ^ k := by
  have hlt : c.minMappedAddress.toNat / 2 ^ k * 2 ^ k < 2 ^ 64 :=
    Nat.lt_of_le_of_lt (Nat.div_mul_le_self _ _) c.minMappedAddress.toNat_lt
  rw [LevelCursor.round]
  simp only [UInt64.toNat_mul, UInt64.toNat_div, hsize]
  exact Nat.mod_eq_of_lt hlt

theorem round_maxMappedAddress (hk : k ≤ 63) (hsize : c.blockSize.toNat = 2 ^ k) :
    c.round.maxMappedAddress.toNat =
      (c.maxMappedAddress.toNat ⌈/⌉ 2 ^ k) * 2 ^ k % 2 ^ 64 := by
  have hpos : 0 < 2 ^ k := Nat.two_pow_pos k
  have hsum : (c.maxMappedAddress + c.blockSize - 1).toNat =
      (c.maxMappedAddress.toNat + 2 ^ k - 1) % 2 ^ 64 := by
    rw [UInt64.toNat_sub, UInt64.toNat_add, hsize, show (1 : UInt64).toNat = 1 from rfl]
    omega
  rw [← ceilDiv_mul_mod hpos (Nat.pow_dvd_pow 2 (by omega)) c.maxMappedAddress.toNat_lt,
    LevelCursor.round]
  simp only [UInt64.toNat_mul, UInt64.toNat_div, hsum, hsize]
  refine Nat.mod_eq_of_lt (Nat.lt_of_le_of_lt (Nat.div_mul_le_self _ _) ?_)
  exact Nat.mod_lt _ (Nat.two_pow_pos 64)

end Rounding

section Geometry

variable (startAddress endAddress : UInt64)

/-- Number of the first page of a range. -/
def firstPage : Nat :=
  startAddress.toNat / 4096

/-- Number of pages of a range, that is of blocks on the last level. -/
def pageCount : Nat :=
  (levelAt startAddress endAddress 0).numBlocks.toNat

/-- Number of the first block at height `h`. -/
def firstBlock (h : Nat) : Nat :=
  firstPage startAddress / 2 ^ h

/-- One past the number of the last block at height `h`. -/
def endBlock (h : Nat) : Nat :=
  (firstPage startAddress + pageCount startAddress endAddress) ⌈/⌉ 2 ^ h

variable {startAddress endAddress}

theorem firstBlock_succ (h : Nat) :
    firstBlock startAddress (h + 1) = firstBlock startAddress h / 2 := by
  rw [firstBlock, firstBlock, Nat.pow_succ, Nat.div_div_eq_div_mul]

theorem endBlock_succ (h : Nat) :
    endBlock startAddress endAddress (h + 1) =
      (endBlock startAddress endAddress h + 1) / 2 := by
  have htwo : (endBlock startAddress endAddress h + 1) / 2 =
      endBlock startAddress endAddress h ⌈/⌉ 2 := by
    rw [Nat.ceilDiv_eq_add_pred_div]
    rfl
  have hcancel := mul_ceilDiv_mul (d := 2) Nat.two_pos
    (endBlock startAddress endAddress h) (Nat.two_pow_pos h)
  rw [htwo, ← hcancel, Nat.mul_comm (2 ^ h) (endBlock startAddress endAddress h),
    endBlock, endBlock, ceilDiv_ceilDiv (Nat.two_pow_pos h), Nat.pow_succ]

theorem levelAt_minMappedAddress {h : Nat} (hh : h ≤ 51) :
    (levelAt startAddress endAddress h).minMappedAddress.toNat =
      firstBlock startAddress h * 2 ^ (12 + h) := by
  induction h with
  | zero =>
      have hsize : (firstCursor startAddress endAddress).blockSize.toNat = 2 ^ 12 := rfl
      rw [levelAt, cursorAt, round_minMappedAddress hsize, firstBlock, firstPage,
        Nat.pow_zero, Nat.div_one]
      rfl
  | succ h ih =>
      have hsize : (cursorAt startAddress endAddress (h + 1)).blockSize.toNat =
          2 ^ (12 + (h + 1)) := levelAt_blockSize startAddress endAddress hh
      have hprev : (cursorAt startAddress endAddress (h + 1)).minMappedAddress.toNat =
          firstBlock startAddress h * 2 ^ (12 + h) := ih (by omega)
      have hpow : 2 ^ (12 + (h + 1)) = 2 ^ (12 + h) * 2 := by
        rw [← Nat.add_assoc, Nat.pow_succ]
      rw [levelAt, round_minMappedAddress hsize, hprev, firstBlock_succ, hpow,
        ← Nat.div_div_eq_div_mul, Nat.mul_div_cancel _ (Nat.two_pow_pos _)]

/-- The pages make up the range on the last level. -/
theorem levelAt_zero_maxMappedAddress :
    (levelAt startAddress endAddress 0).maxMappedAddress.toNat =
      (firstPage startAddress + pageCount startAddress endAddress) * 4096 % 2 ^ 64 := by
  have hsize : (firstCursor startAddress endAddress).blockSize.toNat = 2 ^ 12 := rfl
  have hmin : (levelAt startAddress endAddress 0).minMappedAddress.toNat =
      firstBlock startAddress 0 * 2 ^ (12 + 0) :=
    levelAt_minMappedAddress (Nat.zero_le 51)
  rw [firstBlock, Nat.pow_zero, Nat.div_one] at hmin
  have hmax := round_maxMappedAddress (by decide : 12 ≤ 63) hsize
  rw [← cursorAt, ← levelAt] at hmax
  generalize (firstCursor startAddress endAddress).maxMappedAddress.toNat ⌈/⌉ 2 ^ 12 = t
    at hmax
  have hcount : pageCount startAddress endAddress =
      (2 ^ 64 - (levelAt startAddress endAddress 0).minMappedAddress.toNat +
        (levelAt startAddress endAddress 0).maxMappedAddress.toNat) % 2 ^ 64 / 4096 := by
    rw [pageCount, LevelCursor.numBlocks, UInt64.toNat_div, UInt64.toNat_sub]
    rfl
  rw [hmin, hmax] at hcount
  rw [hmax, hcount]
  have hlt : firstPage startAddress < 2 ^ 52 := by
    have := startAddress.toNat_lt
    rw [firstPage]
    omega
  omega

theorem levelAt_maxMappedAddress {h : Nat} (hh : h ≤ 51) :
    (levelAt startAddress endAddress h).maxMappedAddress.toNat =
      endBlock startAddress endAddress h * 2 ^ (12 + h) % 2 ^ 64 := by
  induction h with
  | zero =>
      rw [levelAt_zero_maxMappedAddress, endBlock, Nat.pow_zero, ceilDiv_one,
        show 2 ^ (12 + 0) = 4096 from rfl]
  | succ h ih =>
      have hsize : (cursorAt startAddress endAddress (h + 1)).blockSize.toNat =
          2 ^ (12 + (h + 1)) := levelAt_blockSize startAddress endAddress hh
      have hprev : (cursorAt startAddress endAddress (h + 1)).maxMappedAddress.toNat =
          endBlock startAddress endAddress h * 2 ^ (12 + h) % 2 ^ 64 := ih (by omega)
      have hpow : 2 ^ (12 + (h + 1)) = 2 ^ 12 * (2 ^ h * 2) := by
        rw [← Nat.pow_succ, ← Nat.pow_add]
      have hrange : endBlock startAddress endAddress h * 2 ^ (12 + h) =
          2 ^ 12 * (endBlock startAddress endAddress h * 2 ^ h) := by
        rw [Nat.pow_add]
        ring
      have hround : (2 ^ 12 * (endBlock startAddress endAddress h * 2 ^ h)) ⌈/⌉
          (2 ^ 12 * (2 ^ h * 2)) = endBlock startAddress endAddress (h + 1) := by
        rw [mul_ceilDiv_mul (Nat.mul_pos (Nat.two_pow_pos h) Nat.two_pos) _
            (Nat.two_pow_pos 12), endBlock, ceilDiv_ceilDiv (Nat.two_pow_pos h),
          endBlock, Nat.pow_succ]
      rw [levelAt, round_maxMappedAddress (by omega) hsize, hprev,
        ceilDiv_mod (Nat.two_pow_pos _) (Nat.pow_dvd_pow 2 (by omega)), hpow, hrange,
        hround]

/-- The number of blocks of a level, up to the 64-bit wrap. -/
theorem levelAt_numBlocks {h : Nat} (hh : h ≤ 51) :
    (levelAt startAddress endAddress h).numBlocks.toNat =
      (endBlock startAddress endAddress h - firstBlock startAddress h) %
        2 ^ (52 - h) := by
  have hpow : 2 ^ 64 = 2 ^ (12 + h) * 2 ^ (52 - h) := by
    rw [← Nat.pow_add]
    congr 1
    omega
  have hpos : 0 < 2 ^ (12 + h) := Nat.two_pow_pos _
  have hle : firstBlock startAddress h ≤ endBlock startAddress endAddress h := by
    have hdown := Nat.div_mul_le_self (firstPage startAddress) (2 ^ h)
    have hup := le_ceilDiv_mul
      (firstPage startAddress + pageCount startAddress endAddress) (Nat.two_pow_pos h)
    rw [firstBlock, endBlock]
    refine Nat.le_of_mul_le_mul_left ?_ (Nat.two_pow_pos h)
    rw [Nat.mul_comm]
    omega
  have hmin : (levelAt startAddress endAddress h).minMappedAddress.toNat =
      firstBlock startAddress h * 2 ^ (12 + h) := levelAt_minMappedAddress hh
  have hlt : firstBlock startAddress h * 2 ^ (12 + h) < 2 ^ 64 :=
    hmin ▸ UInt64.toNat_lt _
  obtain ⟨n, hn⟩ := Nat.exists_eq_add_of_le hle
  rw [LevelCursor.numBlocks, UInt64.toNat_div,
    levelAt_blockSize startAddress endAddress hh, UInt64.toNat_sub, hmin,
    levelAt_maxMappedAddress hh, hn, Nat.add_sub_cancel_left]
  have hdiff : (2 ^ 64 - firstBlock startAddress h * 2 ^ (12 + h) +
      (firstBlock startAddress h + n) * 2 ^ (12 + h) % 2 ^ 64) % 2 ^ 64 =
      2 ^ (12 + h) * (n % 2 ^ (52 - h)) := by
    rw [← Nat.mul_mod_mul_left, ← hpow, Nat.add_mod_mod, Nat.add_mul,
      ← Nat.add_assoc, Nat.sub_add_cancel (Nat.le_of_lt hlt), Nat.add_mod_left,
      Nat.mul_comm]
  rw [hdiff, Nat.mul_div_cancel_left _ hpos]

theorem pageCount_lt : pageCount startAddress endAddress < 2 ^ 52 := by
  rw [pageCount, LevelCursor.numBlocks, UInt64.toNat_div,
    levelAt_blockSize startAddress endAddress (Nat.zero_le 51)]
  have hlt := ((levelAt startAddress endAddress 0).maxMappedAddress -
    (levelAt startAddress endAddress 0).minMappedAddress).toNat_lt
  exact (Nat.div_lt_iff_lt_mul (Nat.two_pow_pos _)).mpr hlt

/-- The pages of a range that ends well below the end of the address space. -/
theorem pageCount_eq
    (hle : startAddress.toNat ≤ endAddress.toNat) (hend : endAddress.toNat ≤ 2 ^ 63) :
    pageCount startAddress endAddress =
      endAddress.toNat ⌈/⌉ 4096 - firstPage startAddress := by
  have hmin : (levelAt startAddress endAddress 0).minMappedAddress.toNat =
      firstBlock startAddress 0 * 2 ^ (12 + 0) :=
    levelAt_minMappedAddress (Nat.zero_le 51)
  have hmax : (levelAt startAddress endAddress 0).maxMappedAddress.toNat =
      (endAddress.toNat ⌈/⌉ 4096) * 4096 % 2 ^ 64 :=
    round_maxMappedAddress (c := firstCursor startAddress endAddress)
      (k := 12) (by decide) rfl
  rw [firstBlock, Nat.pow_zero, Nat.div_one] at hmin
  rw [pageCount, LevelCursor.numBlocks, UInt64.toNat_div,
    levelAt_blockSize startAddress endAddress (Nat.zero_le 51), UInt64.toNat_sub, hmin,
    hmax, firstPage, Nat.ceilDiv_eq_add_pred_div]
  omega

/-- Rounding outwards makes at most two pages more than the bytes fill. -/
theorem pageCount_mul_le
    (hle : startAddress.toNat ≤ endAddress.toNat) (hend : endAddress.toNat ≤ 2 ^ 63) :
    4096 * pageCount startAddress endAddress ≤
      endAddress.toNat - startAddress.toNat + 8192 := by
  rw [pageCount_eq hle hend, firstPage, Nat.ceilDiv_eq_add_pred_div]
  omega

/-- A level has at most one block more than there are pages. -/
theorem levelAt_numBlocks_le {h : Nat} (hh : h ≤ 51) :
    (levelAt startAddress endAddress h).numBlocks.toNat ≤
      pageCount startAddress endAddress + 1 := by
  have hpos : 0 < 2 ^ h := Nat.two_pow_pos h
  rw [levelAt_numBlocks hh]
  refine Nat.le_trans (Nat.mod_le _ _) (Nat.sub_le_of_le_add ?_)
  rw [endBlock, firstBlock, ceilDiv_le_iff hpos]
  have hdiv := Nat.div_add_mod (firstPage startAddress) (2 ^ h)
  have hmod := Nat.mod_lt (firstPage startAddress) hpos
  have hmul := Nat.le_mul_of_pos_left (pageCount startAddress endAddress) hpos
  rw [Nat.mul_add, Nat.mul_add, Nat.mul_one]
  omega

/-- Up to the top a level spans at most the whole address space. -/
theorem endBlock_sub_firstBlock_le
    {h : Nat} (hh : h ≤ topHeight startAddress endAddress) :
    endBlock startAddress endAddress h - firstBlock startAddress h ≤ 2 ^ (52 - h) := by
  have htop := topHeight_le startAddress endAddress
  induction h with
  | zero =>
      have hlt : pageCount startAddress endAddress < 2 ^ 52 := pageCount_lt
      rw [endBlock, firstBlock, Nat.pow_zero, ceilDiv_one, Nat.div_one]
      omega
  | succ h ih =>
      have hle := ih (by omega)
      have hmany := lt_numBlocks_of_lt_topHeight startAddress endAddress
        (Nat.lt_of_succ_le hh)
      rw [UInt64.le_iff_toNat_le, levelAt_numBlocks (by omega)] at hmany
      have hpow : 2 ^ (52 - h) = 2 * 2 ^ (52 - (h + 1)) := by
        rw [← Nat.pow_succ']
        congr 1
        omega
      have hne : endBlock startAddress endAddress h - firstBlock startAddress h ≠
          2 ^ (52 - h) := by
        intro heq
        rw [heq, Nat.mod_self] at hmany
        exact hmany (Nat.zero_le _)
      rw [endBlock_succ, firstBlock_succ]
      omega

/-- A level that has blocks has exactly as many as its rounded range. -/
theorem levelAt_numBlocks_exact
    {h : Nat} (hh : h ≤ topHeight startAddress endAddress)
    (hblocks : (levelAt startAddress endAddress h).numBlocks.toNat ≠ 0) :
    (levelAt startAddress endAddress h).numBlocks.toNat =
      endBlock startAddress endAddress h - firstBlock startAddress h := by
  have htop := topHeight_le startAddress endAddress
  have hle := endBlock_sub_firstBlock_le hh
  rw [levelAt_numBlocks (by omega)] at hblocks ⊢
  refine Nat.mod_eq_of_lt (Nat.lt_of_le_of_ne hle (fun heq => hblocks ?_))
  rw [heq, Nat.mod_self]

/-- Blocks by which a level starts behind the first block of the level above. -/
theorem levelAt_offset {h : Nat} (hh : h + 1 ≤ 51) :
    (((levelAt startAddress endAddress h).minMappedAddress -
        (levelAt startAddress endAddress (h + 1)).minMappedAddress) /
      (levelAt startAddress endAddress h).blockSize).toNat =
      firstBlock startAddress h - 2 * firstBlock startAddress (h + 1) := by
  have hlower : (levelAt startAddress endAddress h).minMappedAddress.toNat =
      firstBlock startAddress h * 2 ^ (12 + h) := levelAt_minMappedAddress (by omega)
  have hupper : (levelAt startAddress endAddress (h + 1)).minMappedAddress.toNat =
      2 * firstBlock startAddress (h + 1) * 2 ^ (12 + h) := by
    rw [levelAt_minMappedAddress hh, ← Nat.add_assoc, Nat.pow_succ']
    ring
  have hle : 2 * firstBlock startAddress (h + 1) ≤ firstBlock startAddress h := by
    rw [firstBlock_succ]
    omega
  rw [UInt64.toNat_div, UInt64.toNat_sub_of_le, hlower, hupper,
    levelAt_blockSize startAddress endAddress (by omega), ← Nat.sub_mul,
    Nat.mul_div_cancel _ (Nat.two_pow_pos _)]
  rw [UInt64.le_iff_toNat_le, hlower, hupper]
  exact Nat.mul_le_mul_right _ hle

/-- The pages from which a level starts. -/
theorem levelAt_minMappedAddress_div {h : Nat} (hh : h ≤ 51) :
    (levelAt startAddress endAddress h).minMappedAddress.toNat / 4096 =
      firstBlock startAddress h * 2 ^ h := by
  rw [levelAt_minMappedAddress hh, Nat.pow_add, show 2 ^ 12 = 4096 from rfl,
    Nat.mul_left_comm, Nat.mul_div_cancel_left _ (by decide)]

/-- A block outside of a level has no children inside the level below. -/
theorem child_not_mem_of_not_mem
    {h b c : Nat} (hh : h < topHeight startAddress endAddress)
    (hblocks : (levelAt startAddress endAddress (h + 1)).numBlocks.toNat ≠ 0)
    (hb : ¬ (firstBlock startAddress (h + 1) ≤ b ∧
      b < firstBlock startAddress (h + 1) +
        (levelAt startAddress endAddress (h + 1)).numBlocks.toNat))
    (hc : c = 2 * b ∨ c = 2 * b + 1) :
    ¬ (firstBlock startAddress h ≤ c ∧
      c < firstBlock startAddress h +
        (levelAt startAddress endAddress h).numBlocks.toNat) := by
  have hmany := lt_numBlocks_of_lt_topHeight startAddress endAddress hh
  rw [UInt64.le_iff_toNat_le, show (1 : UInt64).toNat = 1 from rfl] at hmany
  have hbelow : (levelAt startAddress endAddress h).numBlocks.toNat ≠ 0 := by omega
  rw [levelAt_numBlocks_exact hh hblocks] at hb
  rw [levelAt_numBlocks_exact (Nat.le_of_lt hh) hbelow]
  rw [endBlock_succ, firstBlock_succ] at hb
  omega

end Geometry

end Kernel
end DexprOS
