import DexprOS.Kernel.Memory.PhysicalMemTreeBounds
import DexprOS.Kernel.Memory.PhysicalMemTreePages
import Mathlib.Order.Bounds.Basic

/-!
# Geometry of a tree entry

The levels of a created tree entry in direct formulas: how many there are, and which blocks
each of them has.  The code gets there by rounding bounds that are already rounded.

Main facts:
* `topHeight_isLeast`: the depth is that of the smallest aligned block around the range;
* `levelAt_numBlocks_eq`: the number of blocks of a level;
* `EntryGeometry.of_headers`: the blocks of the levels cover each other;
* `createTreeForMemoryRange_geometry`: all of it for the entries that are built.
-/

namespace DexprOS
namespace Kernel

open Fuel RoundUp

section AlignedBlocks

/-- The range from `start` to `stop` lies in one block of the given size, aligned to that
size. -/
def FitsBlock (start stop size : Nat) : Prop :=
  ∃ b, b * size ≤ start ∧ stop ≤ (b + 1) * size

variable {start stop size : Nat}

/-- If there is such a block, it is the one that the range starts in. -/
theorem fitsBlock_iff (hsize : 0 < size) :
    FitsBlock start stop size ↔ stop ⌈/⌉ size ≤ start / size + 1 := by
  rw [ceilDiv_le_iff hsize, Nat.mul_comm]
  constructor
  · rintro ⟨b, hstart, hstop⟩
    have hle : b ≤ start / size := (Nat.le_div_iff_mul_le hsize).mpr hstart
    exact Nat.le_trans hstop (Nat.mul_le_mul_right size (Nat.succ_le_succ hle))
  · intro hstop
    exact ⟨start / size, Nat.div_mul_le_self start size, hstop⟩

/-- A range that is not empty has a block of every size. -/
theorem div_lt_ceilDiv (hsize : 0 < size) (hlt : start < stop) :
    start / size < stop ⌈/⌉ size := by
  by_contra hle
  have hstop := (ceilDiv_le_iff hsize).mp (Nat.le_of_not_lt hle)
  have hdown := Nat.div_mul_le_self start size
  rw [Nat.mul_comm] at hstop
  omega

/-- Of the blocks of twice the size exactly one contains a given block. -/
theorem existsUnique_cover
    {b : Nat} (hsize : 0 < size) (hb : b < stop ⌈/⌉ size - start / size) :
    ∃! p, p < stop ⌈/⌉ (size * 2) - start / (size * 2) ∧
      start / (size * 2) * (size * 2) + p * (size * 2) ≤
        start / size * size + b * size ∧
      start / size * size + (b + 1) * size ≤
        start / (size * 2) * (size * 2) + (p + 1) * (size * 2) := by
  have hup : stop ⌈/⌉ (size * 2) = (stop ⌈/⌉ size) ⌈/⌉ 2 :=
    (ceilDiv_ceilDiv_eq hsize stop (by decide)).symm
  rw [hup, Nat.ceilDiv_eq_add_pred_div, ← Nat.div_div_eq_div_mul]
  generalize stop ⌈/⌉ size = n at hb ⊢
  generalize start / size = first at hb ⊢
  have hcover : ∀ p,
      (first / 2 * (size * 2) + p * (size * 2) ≤ first * size + b * size ∧
        first * size + (b + 1) * size ≤ first / 2 * (size * 2) + (p + 1) * (size * 2)) ↔
      p = (first + b) / 2 - first / 2 := by
    intro p
    have hlower : first / 2 * (size * 2) + p * (size * 2) =
        size * (2 * (first / 2 + p)) := by ring
    have hlower' : first * size + b * size = size * (first + b) := by ring
    have hupper : first * size + (b + 1) * size = size * (first + b + 1) := by ring
    have hupper' : first / 2 * (size * 2) + (p + 1) * (size * 2) =
        size * (2 * (first / 2 + p + 1)) := by ring
    rw [hlower, hlower', hupper, hupper', Nat.mul_le_mul_left_iff hsize,
      Nat.mul_le_mul_left_iff hsize]
    omega
  refine ⟨(first + b) / 2 - first / 2, ⟨?_, (hcover _).mpr rfl⟩, ?_⟩
  · omega
  · rintro p ⟨-, hp⟩
    exact (hcover p).mp hp

end AlignedBlocks

section LevelFormulas

variable {startAddress endAddress : UInt64} {h : Nat}

theorem blockSize_eq (h : Nat) : 2 ^ (12 + h) = 4096 * 2 ^ h :=
  Nat.pow_add 2 12 h

theorem firstBlock_eq (startAddress : UInt64) (h : Nat) :
    firstBlock startAddress h = startAddress.toNat / (4096 * 2 ^ h) := by
  rw [firstBlock, firstPage, Nat.div_div_eq_div_mul]

variable (hle : startAddress.toNat ≤ endAddress.toNat) (hend : endAddress.toNat < 2 ^ 63)
include hle hend

theorem endBlock_eq (h : Nat) :
    endBlock startAddress endAddress h = endAddress.toNat ⌈/⌉ (4096 * 2 ^ h) := by
  have hfirst : firstPage startAddress ≤ endAddress.toNat ⌈/⌉ 4096 := by
    have hup := le_ceilDiv_mul endAddress.toNat (d := 4096) (by decide)
    rw [firstPage]
    omega
  rw [endBlock, pageCount_eq hle (Nat.le_of_lt hend), Nat.add_sub_cancel' hfirst,
    ceilDiv_ceilDiv_eq (by decide) _ (Nat.two_pow_pos h)]

/-- The number of blocks of a level does not wrap. -/
theorem levelAt_numBlocks_eq (hh : h ≤ 51) :
    (levelAt startAddress endAddress h).numBlocks.toNat =
      endAddress.toNat ⌈/⌉ (4096 * 2 ^ h) - startAddress.toNat / (4096 * 2 ^ h) := by
  have hlast : endAddress.toNat ⌈/⌉ (4096 * 2 ^ h) ≤ 2 ^ (51 - h) := by
    have hpow : 4096 * 2 ^ h * 2 ^ (51 - h) = 2 ^ 63 := by
      rw [← blockSize_eq, ← Nat.pow_add]
      congr 1
      omega
    rw [ceilDiv_le_iff (Nat.mul_pos (by decide) (Nat.two_pow_pos h)), hpow]
    exact Nat.le_of_lt hend
  have hlt : 2 ^ (51 - h) < 2 ^ (52 - h) := Nat.pow_lt_pow_right (by decide) (by omega)
  rw [levelAt_numBlocks hh, endBlock_eq hle hend, firstBlock_eq]
  exact Nat.mod_eq_of_lt
    (Nat.lt_of_le_of_lt (Nat.sub_le _ _) (Nat.lt_of_le_of_lt hlast hlt))

theorem levelAt_numBlocks_le_one_iff (hh : h ≤ 51) :
    (levelAt startAddress endAddress h).numBlocks ≤ 1 ↔
      FitsBlock startAddress.toNat endAddress.toNat (4096 * 2 ^ h) := by
  rw [fitsBlock_iff (Nat.mul_pos (by decide) (Nat.two_pow_pos h)), UInt64.le_iff_toNat_le,
    levelAt_numBlocks_eq hle hend hh, show (1 : UInt64).toNat = 1 from rfl]
  omega

/-- The top level is the first one that has the range in one block. -/
theorem topHeight_isLeast :
    IsLeast {h | FitsBlock startAddress.toNat endAddress.toNat (4096 * 2 ^ h)}
      (topHeight startAddress endAddress) := by
  have htop := topHeight_le startAddress endAddress
  constructor
  · exact (levelAt_numBlocks_le_one_iff hle hend htop).mp (levelAt_topHeight _ _)
  · intro h hfits
    by_contra hlt
    have hlow : h < topHeight startAddress endAddress := Nat.lt_of_not_le hlt
    exact lt_numBlocks_of_lt_topHeight _ _ hlow
      ((levelAt_numBlocks_le_one_iff hle hend (by omega)).mpr hfits)

end LevelFormulas

section EntryGeometry

/-- The level at height `h` of an entry; the top level is stored first. -/
def entryLevel (m : TreeMemory) (k h : Nat) : PhysicalMemTreeLevel :=
  m.levels ((m.entries k).pTreeLevels + ((m.entries k).numTreeLevels.toNat - 1 - h))

/-- Block `p` of the upper level contains block `b` of the lower one. -/
def Covers (upper : PhysicalMemTreeLevel) (p : Nat) (lower : PhysicalMemTreeLevel)
    (b : Nat) : Prop :=
  p < upper.numBlocks.toNat ∧
  upper.startMappedAddress.toNat + p * upper.blockSize.toNat ≤
    lower.startMappedAddress.toNat + b * lower.blockSize.toNat ∧
  lower.startMappedAddress.toNat + (b + 1) * lower.blockSize.toNat ≤
    upper.startMappedAddress.toNat + (p + 1) * upper.blockSize.toNat

/-- The entry has the levels of the range from `start` to `stop`. -/
structure EntryGeometry (start stop : Nat) (m : TreeMemory) (k : Nat) : Prop where
  startAddress : (m.entries k).startAddress.toNat = start
  endAddress : (m.entries k).endAddress.toNat = stop
  depth : IsLeast {n | 1 ≤ n ∧ FitsBlock start stop (4096 * 2 ^ (n - 1))}
    (m.entries k).numTreeLevels.toNat
  blockSize : ∀ h, h < (m.entries k).numTreeLevels.toNat →
    (entryLevel m k h).blockSize.toNat = 4096 * 2 ^ h
  startMappedAddress : ∀ h, h < (m.entries k).numTreeLevels.toNat →
    (entryLevel m k h).startMappedAddress.toNat =
      start / (4096 * 2 ^ h) * (4096 * 2 ^ h)
  numBlocks : ∀ h, h < (m.entries k).numTreeLevels.toNat →
    (entryLevel m k h).numBlocks.toNat =
      stop ⌈/⌉ (4096 * 2 ^ h) - start / (4096 * 2 ^ h)
  top : start < stop → (m.levels (m.entries k).pTreeLevels).numBlocks = 1
  covered : ∀ h, h + 1 < (m.entries k).numTreeLevels.toNat →
    ∀ b, b < (entryLevel m k h).numBlocks.toNat →
      ∃! p, Covers (entryLevel m k (h + 1)) p (entryLevel m k h) b

variable {m : TreeMemory} {k : Nat} {r : PhysRange}

/-- What the creation leaves of an entry and its levels. -/
structure EntryHeaders (r : PhysRange) (m : TreeMemory) (k : Nat) : Prop where
  startAddress : (m.entries k).startAddress = r.physicalAddress
  endAddress : (m.entries k).endAddress = r.physicalAddress + r.rangeSize
  numTreeLevels : (m.entries k).numTreeLevels = UInt64.ofNat (treeTop r + 1)
  level : ∀ i l, (treeLevels r)[i]? = some l →
    (m.levels ((m.entries k).pTreeLevels + i)).startMappedAddress = l.minMappedAddress ∧
    (m.levels ((m.entries k).pTreeLevels + i)).blockSize = l.blockSize ∧
    (m.levels ((m.entries k).pTreeLevels + i)).numBlocks = l.numBlocks

theorem EntryHeaders.depth (h : EntryHeaders r m k) :
    (m.entries k).numTreeLevels.toNat = treeTop r + 1 := by
  rw [h.numTreeLevels, treeTop_succ_toNat]

theorem EntryHeaders.entryLevel
    (hm : EntryHeaders r m k) {h : Nat} (hh : h ≤ treeTop r) :
    (entryLevel m k h).startMappedAddress = (treeLevel r h).minMappedAddress ∧
    (entryLevel m k h).blockSize = (treeLevel r h).blockSize ∧
    (entryLevel m k h).numBlocks = (treeLevel r h).numBlocks := by
  have hheader := hm.level (treeTop r - h) _ (treeLevels_getElem? r (Nat.sub_le _ _))
  rw [show treeTop r - (treeTop r - h) = h by omega] at hheader
  rw [Kernel.entryLevel, hm.depth, Nat.add_sub_cancel]
  exact hheader

/-- Such an entry has the levels of its range. -/
theorem EntryGeometry.of_headers
    (hm : EntryHeaders r m k) (hstop : r.stop < 2 ^ 63) :
    EntryGeometry r.start r.stop m k := by
  have hend : (r.physicalAddress + r.rangeSize).toNat = r.stop := by
    rw [UInt64.toNat_add]
    exact Nat.mod_eq_of_lt (Nat.lt_trans hstop (by decide))
  have hle : r.physicalAddress.toNat ≤ (r.physicalAddress + r.rangeSize).toNat := by
    rw [hend]
    exact Nat.le_add_right _ _
  have hlt : (r.physicalAddress + r.rangeSize).toNat < 2 ^ 63 := hend ▸ hstop
  have htop : treeTop r ≤ 51 := topHeight_le _ _
  have hsize : ∀ h, h ≤ treeTop r →
      (entryLevel m k h).blockSize.toNat = 4096 * 2 ^ h := by
    intro h hh
    rw [(hm.entryLevel hh).2.1, treeLevel, levelAt_blockSize _ _ (by omega), blockSize_eq]
  have hstart : ∀ h, h ≤ treeTop r →
      (entryLevel m k h).startMappedAddress.toNat =
        r.start / (4096 * 2 ^ h) * (4096 * 2 ^ h) := by
    intro h hh
    rw [(hm.entryLevel hh).1, treeLevel, levelAt_minMappedAddress (by omega), blockSize_eq,
      firstBlock_eq]
    rfl
  have hnum : ∀ h, h ≤ treeTop r →
      (entryLevel m k h).numBlocks.toNat =
        r.stop ⌈/⌉ (4096 * 2 ^ h) - r.start / (4096 * 2 ^ h) := by
    intro h hh
    rw [(hm.entryLevel hh).2.2, treeLevel, levelAt_numBlocks_eq hle hlt (by omega), hend]
    rfl
  have hleast := topHeight_isLeast hle hlt
  rw [hend] at hleast
  constructor
  · rw [hm.startAddress]
    rfl
  · rw [hm.endAddress, hend]
  · rw [hm.depth]
    constructor
    · exact ⟨Nat.le_add_left 1 _, hleast.1⟩
    · rintro n ⟨hn, hfits⟩
      have hmin : treeTop r ≤ n - 1 := hleast.2 hfits
      omega
  · exact fun h hh => hsize h (by rw [hm.depth] at hh; omega)
  · exact fun h hh => hstart h (by rw [hm.depth] at hh; omega)
  · exact fun h hh => hnum h (by rw [hm.depth] at hh; omega)
  · intro hne
    -- At the top there is at most one block, and a range that is not empty has some.
    have hpos : 0 < 4096 * 2 ^ treeTop r := Nat.mul_pos (by decide) (Nat.two_pow_pos _)
    have hsome := div_lt_ceilDiv hpos hne
    have hone := (fitsBlock_iff hpos).mp hleast.1
    have htopNum := hnum (treeTop r) (Nat.le_refl _)
    rw [entryLevel, hm.depth, Nat.add_sub_cancel, Nat.sub_self, Nat.add_zero] at htopNum
    rw [← UInt64.toNat_inj, htopNum, show (1 : UInt64).toNat = 1 from rfl]
    have hone' : r.stop ⌈/⌉ (4096 * 2 ^ treeTop r) ≤ r.start / (4096 * 2 ^ treeTop r) + 1 :=
      hone
    omega
  · intro h hh b hb
    rw [hm.depth] at hh
    have hdouble : 4096 * 2 ^ (h + 1) = 4096 * 2 ^ h * 2 := by
      rw [Nat.pow_succ, Nat.mul_assoc]
    rw [hnum h (by omega)] at hb
    unfold Covers
    rw [hsize h (by omega), hsize (h + 1) (by omega), hstart h (by omega),
      hstart (h + 1) (by omega), hnum (h + 1) (by omega), hdouble]
    exact existsUnique_cover (Nat.mul_pos (by decide) (Nat.two_pow_pos h)) hb

end EntryGeometry

section Built

variable {r : PhysRange} {c c' : PhysMemTreeCreateData}

/-- The entry that is built for a range has its levels, in any state of the creation. -/
theorem createTreeForMemoryRange_headers
    (hr : shouldCreateTreeForType r.memType = true) (c : PhysMemTreeCreateData)
    (hfits : c.treeEntryIndex + 1 ≤ c.sizeData.numTreeEntries) :
    ∃ c', Returns (createTreeForMemoryRange r c) c' ∧
      EntryHeaders r c'.memory c.treeEntryIndex.toNat := by
  obtain ⟨c', hrun, -, -, -, -, hentries, hlevels, -⟩ :=
    createTreeForMemoryRange_built hr c hfits
  have hentry := countedState_entries_apply r c c.treeEntryIndex.toNat
  rw [if_pos rfl, ← hentries] at hentry
  refine ⟨c', hrun, ?_⟩
  constructor
  · rw [hentry]
  · rw [hentry]
  · rw [hentry]
  · rw [hentry]
    exact hlevels

/-- The entries of a tree that there was room for have the levels of their ranges. -/
theorem Created.entryHeaders
    {base : TreeMemory} {sizeData : PhysMemTreeSizeData} {pEntries : UInt64}
    {ranges : List PhysRange} (hc : Created base sizeData pEntries ranges c)
    {k : Nat} (hk : ranges[k]? = some r) :
    EntryHeaders r c.memory k := by
  have hentry := hc.entries.placed k r hk
  constructor
  · rw [hentry]
    rfl
  · rw [hentry]
    rfl
  · rw [hentry]
    rfl
  · rw [hentry]
    intro i l hi
    have hlt : i < treeTop r + 1 := by
      rw [← length_treeLevels]
      exact (List.getElem?_eq_some_iff.mp hi).1
    have hindex := levelList_levelIndex hk (Nat.sub_le (treeTop r) i)
    rw [Kernel.levelIndex, show treeTop r - (treeTop r - i) = i by omega] at hindex
    rw [treeLevels_getElem? r (by omega)] at hi
    obtain rfl := Option.some.inj hi
    have hlevel := hc.levels.placed _ _ hindex
    exact ⟨hlevel.startMappedAddress, hlevel.blockSize, hlevel.numBlocks⟩

/-- The block sizes that the loop over the levels divides by, one for each pass. -/
def levelBlockSizes (startAddress endAddress : UInt64) (fuel : Nat) : Option (List UInt64) :=
  forLevels (fun level sizes => sizes ++ [level.blockSize]) startAddress endAddress fuel []

/-- The loop makes at most 52 passes, and none of them divides by zero. -/
theorem levelBlockSizes_some (startAddress endAddress : UInt64) :
    ∃ sizes, levelBlockSizes startAddress endAddress 52 = some sizes ∧
      sizes.length ≤ 52 ∧ ∀ size, size ∈ sizes → size ≠ 0 := by
  have htop := topHeight_le startAddress endAddress
  have hrun := forLevels_eq startAddress endAddress
    (fun level sizes => sizes ++ [level.blockSize]) [] (Nat.lt_succ_of_le htop)
  refine ⟨(List.range (topHeight startAddress endAddress + 1)).map
    (fun h => (levelAt startAddress endAddress h).blockSize), ?_, ?_, ?_⟩
  · refine hrun.trans (congrArg some ?_)
    generalize List.range (topHeight startAddress endAddress + 1) = heights
    induction heights using List.reverseRecOn with
    | nil =>
        rfl
    | append_singleton heights h ih =>
        rw [List.foldl_append, ih, List.map_append]
        rfl
  · rw [List.length_map, List.length_range]
    omega
  · intro size hsize hzero
    obtain ⟨h, hh, rfl⟩ := List.mem_map.mp hsize
    have hlt := List.mem_range.mp hh
    have hpow := levelAt_blockSize startAddress endAddress (h := h) (by omega)
    have hpos := Nat.two_pow_pos (12 + h)
    rw [hzero] at hpow
    exact absurd hpow.symm (Nat.ne_of_gt hpos)

/-- The loop of `CalcTreeEntryElements` ends in these passes. -/
theorem calcTreeEntryElements_isSome (r : PhysRange) (sizeData : PhysMemTreeSizeData) :
    (calcTreeEntryElements r sizeData 52).isSome = true := by
  have htop := topHeight_le r.physicalAddress (r.physicalAddress + r.rangeSize)
  rw [calcTreeEntryElements]
  split_ifs
  · rfl
  · rw [forLevels_eq _ _ _ _ (Nat.lt_succ_of_le htop)]
    rfl

/-- So does that of `CreateTreeLevels`. -/
theorem createTreeLevels_isSome (c : PhysMemTreeCreateData) (iEntry : Nat) :
    (createTreeLevels c iEntry 52).isSome = true := by
  have htop := topHeight_le (c.memory.entries iEntry).startAddress
    (c.memory.entries iEntry).endAddress
  rw [createTreeLevels, forLevels_eq _ _ _ _ (Nat.lt_succ_of_le htop)]
  rfl

/-- The geometry of the entries that are built, one by one and for a whole tree; and the
loops over the levels of any range come to an end. -/
theorem createPhysicalMemTree_geometry :
    (∀ (r : PhysRange) (c : PhysMemTreeCreateData),
      shouldCreateTreeForType r.memType = true → r.stop < 2 ^ 63 →
      c.treeEntryIndex + 1 ≤ c.sizeData.numTreeEntries →
      ∃ c', Returns (createTreeForMemoryRange r c) c' ∧
        EntryGeometry r.start r.stop c'.memory c.treeEntryIndex.toNat) ∧
    (∀ (pInitialMap : List InitialMemMapEntry) (pBuffer : UInt64)
      (sizeData : PhysMemTreeSizeData) (base : TreeMemory),
      HasRoom sizeData (treeRanges pInitialMap) →
      ∃ tree m,
        Returns (createPhysicalMemTree pInitialMap pBuffer sizeData base) (true, tree, m) ∧
        ∀ k r, (treeRanges pInitialMap)[k]? = some r → r.stop < 2 ^ 63 →
          EntryGeometry r.start r.stop m k) ∧
    (∀ (r : PhysRange) (sizeData : PhysMemTreeSizeData) (c : PhysMemTreeCreateData)
      (iEntry : Nat),
      (calcTreeEntryElements r sizeData 52).isSome = true ∧
      (createTreeLevels c iEntry 52).isSome = true) ∧
    ∀ startAddress endAddress : UInt64,
      ∃ sizes, levelBlockSizes startAddress endAddress 52 = some sizes ∧
        sizes.length ≤ 52 ∧ ∀ size, size ∈ sizes → size ≠ 0 := by
  refine ⟨?_, ?_, ?_, levelBlockSizes_some⟩
  · intro r c hr hstop hfits
    obtain ⟨c', hrun, hheaders⟩ := createTreeForMemoryRange_headers hr c hfits
    exact ⟨c', hrun, .of_headers hheaders hstop⟩
  · intro pInitialMap pBuffer sizeData base hroom
    obtain ⟨c, hc, hrun⟩ := createTreesForMemoryRanges_returns pInitialMap pBuffer base hroom
    exact ⟨_, _, createPhysicalMemTree_returns hc hrun,
      fun k r hk hstop => .of_headers (hc.entryHeaders hk) hstop⟩
  · exact fun r sizeData c iEntry =>
      ⟨calcTreeEntryElements_isSome r sizeData, createTreeLevels_isSome c iEntry⟩

/-- Two usable pages, one on each side of address `2 ^ 40`. -/
def straddlingMap : List InitialMemMapEntry :=
  [⟨.usable, .mapped, 0, 0xFFFFFFF000, 0, 2⟩]

/-- Their entry has a level for every block size up to `2 ^ 41`. -/
theorem createPhysicalMemTree_geometry_straddling :
    ∃ tree m,
      Returns (createPhysicalMemTree straddlingMap 0x1000
        (layoutTreeBuffer (countedSizeData (treeRanges straddlingMap))) zeroTreeMemory)
        (true, tree, m) ∧
      EntryGeometry 0xFFFFFFF000 0x10000001000 m 0 := by
  have hroom : HasRoom (layoutTreeBuffer (countedSizeData (treeRanges straddlingMap)))
      (treeRanges straddlingMap) :=
    ⟨by decide +kernel, by decide +kernel, by decide +kernel⟩
  obtain ⟨tree, m, hrun, hgeometry⟩ :=
    createPhysicalMemTree_geometry.2.1 straddlingMap 0x1000 _ zeroTreeMemory hroom
  exact ⟨tree, m, hrun, hgeometry 0 ⟨0xFFFFFFF000, 0x2000, .usable, 0⟩ rfl (by decide)⟩

end Built

end Kernel
end DexprOS
