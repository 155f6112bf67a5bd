import DexprOS.Kernel.Memory.PhysicalMemTreeLayout

/-!
# Marking the pages of a tree

After the creation all pages of the tree are set available, the pages in use are
marked unavailable, and the levels above the last one are computed from the
levels below them.

The definitions stand here; what they do to a created tree is proved in the
modules that import this one.
-/

namespace DexprOS
namespace Kernel

open Fuel

section Walk

/-- One pass of `while (pEntry != NULL)`: visit the entry, go on to the next. -/
def walkBody (visit : Nat → TreeMemory → TreeMemory)
    (s : Option Nat × TreeMemory) : Pass (Option Nat × TreeMemory) TreeMemory :=
  match s.1 with
  | none => .leave s.2
  | some iEntry =>
      let m := visit iEntry s.2
      .again ((m.entries iEntry).pNextEntry, m)

/-- The `while` loops over the entries of a tree. -/
def walkEntries (visit : Nat → TreeMemory → TreeMemory) (tree : PhysicalMemTree)
    (m : TreeMemory) (fuel : Nat) : Option TreeMemory :=
  forever (walkBody visit) fuel (tree.pFirstEntry, m)

end Walk

section Marking

/-- `&pEntry->pTreeLevels[pEntry->numTreeLevels - 1]`. -/
def lastLevel (entry : PhysicalMemTreeEntry) : Nat :=
  entry.pTreeLevels + (entry.numTreeLevels - 1).toNat

/-- The loop body of `SetAllTreePagesAvailable`. -/
def setEntryPagesAvailable (iEntry : Nat) (m : TreeMemory) : TreeMemory :=
  let iLevel := lastLevel (m.entries iEntry)
  m.memset (m.levelBlocks iLevel) 0 physMemPageAvailableBit
    (m.levels iLevel).numBlocks.toNat

/-- `SetAllTreePagesAvailable`. -/
def setAllTreePagesAvailable (tree : PhysicalMemTree) (m : TreeMemory)
    (fuel : Nat) : Option TreeMemory :=
  walkEntries setEntryPagesAvailable tree m fuel

/-- The loop body of `MarkUsedTreePages`. -/
def markUsedEntryPages (startAddress endAddress : UInt64) (iEntry : Nat)
    (m : TreeMemory) : TreeMemory :=
  let entry := m.entries iEntry
  if startAddress < entry.endAddress ∧ entry.startAddress < endAddress then
    let iLevel := lastLevel entry
    let level := m.levels iLevel
    let minMapAddress := level.startMappedAddress
    let maxMapAddress := level.startMappedAddress + level.numBlocks * level.blockSize
    let minMapAddress :=
      if minMapAddress < startAddress then startAddress else minMapAddress
    let maxMapAddress :=
      if endAddress < maxMapAddress then endAddress else maxMapAddress
    let iFirstBlock := (minMapAddress - level.startMappedAddress) / level.blockSize
    let numMarkBlocks := (maxMapAddress - minMapAddress) / level.blockSize
    m.memset (m.levelBlocks iLevel) iFirstBlock.toNat physMemPageUnavailable
      numMarkBlocks.toNat
  else
    m

/-- `MarkUsedTreePages`. -/
def markUsedTreePages (tree : PhysicalMemTree)
    (regionStartAddress regionSize : UInt64) (m : TreeMemory) (fuel : Nat) :
    Option TreeMemory :=
  let startAddress := regionStartAddress / physicalPageSize * physicalPageSize
  let endAddress := align (regionStartAddress + regionSize) physicalPageSize
  walkEntries (markUsedEntryPages startAddress endAddress) tree m fuel

/-- The state of a child block, `0` when the next level has no such block. -/
def childState (m : TreeMemory) (pNextBlocks : BlockPtr)
    (minNextOffset maxNextOffset iNext : Nat) : UInt8 :=
  if minNextOffset ≤ iNext ∧ iNext < maxNextOffset then
    m.load pNextBlocks (iNext - minNextOffset)
  else
    0

/-- The state of a block from those of its children. -/
def combineStates (state0 state1 : UInt8) : UInt8 :=
  let result := (state0 >>> 1) + (state1 >>> 1)
  if (state0 &&& physMemBlock_1_128_OrLessAvailableBit) ≠ 0 ∨
      (state1 &&& physMemBlock_1_128_OrLessAvailableBit) ≠ 0 then
    result ||| physMemBlock_1_128_OrLessAvailableBit
  else
    result

/-- `FillTreeLevelAccelBlocks`.  Block numbers stay far below `2 ^ 64`. -/
def fillTreeLevelAccelBlocks (iEntry iLevel : Nat) (m : TreeMemory) : TreeMemory :=
  let entry := m.entries iEntry
  let level := m.levels (entry.pTreeLevels + iLevel)
  let nextLevel := m.levels (entry.pTreeLevels + iLevel + 1)
  let pBlocks := m.levelBlocks (entry.pTreeLevels + iLevel)
  let pNextBlocks := m.levelBlocks (entry.pTreeLevels + iLevel + 1)
  let minNextOffset := ((nextLevel.startMappedAddress - level.startMappedAddress) /
    nextLevel.blockSize).toNat
  let maxNextOffset := minNextOffset + nextLevel.numBlocks.toNat
  (List.range level.numBlocks.toNat).foldl
    (fun m i =>
      m.store pBlocks i (combineStates
        (childState m pNextBlocks minNextOffset maxNextOffset (i * 2))
        (childState m pNextBlocks minNextOffset maxNextOffset (i * 2 + 1))))
    m

/-- The loop body of `FillTreeAccelBlocks`; its inner loop counts `i` from 1. -/
def fillEntryAccelBlocks (iEntry : Nat) (m : TreeMemory) : TreeMemory :=
  let numTreeLevels := (m.entries iEntry).numTreeLevels.toNat
  (List.range (numTreeLevels - 1)).foldl
    (fun m i => fillTreeLevelAccelBlocks iEntry (numTreeLevels - (i + 1) - 1) m) m

/-- `FillTreeAccelBlocks`. -/
def fillTreeAccelBlocks (tree : PhysicalMemTree) (m : TreeMemory) (fuel : Nat) :
    Option TreeMemory :=
  walkEntries fillEntryAccelBlocks tree m fuel

/-- The usages of which `DexprOS_MarkPhysicalMemTreeRegions` marks the pages. -/
def isUsageInUse : InitialMemMapMappedUsage → Bool
  | .kernelCode
  | .kernelData
  | .bootCode
  | .bootData
  | .initialMemMap => true
  | .none
  | .mapped => false

/-- The loop body of `DexprOS_MarkPhysicalMemTreeRegions` over the initial map. -/
def markInitialMapEntry (tree : PhysicalMemTree) (entry : InitialMemMapEntry)
    (m : TreeMemory) (fuel : Nat) : Option TreeMemory :=
  if shouldCreateTreeForType entry.memoryType && isUsageInUse entry.usage then
    markUsedTreePages tree entry.physicalAddress
      (entry.numPhysicalPages * physicalPageSize) m fuel
  else
    some m

/-- `DexprOS_MarkPhysicalMemTreeRegions`; the other regions are pairs of address
and size. -/
def markPhysicalMemTreeRegions (tree : PhysicalMemTree)
    (pInitialMap : List InitialMemMapEntry)
    (otherRegionsInUse : List (UInt64 × UInt64)) (m : TreeMemory) (fuel : Nat) :
    Option TreeMemory :=
  (setAllTreePagesAvailable tree m fuel).bind fun m =>
  (pInitialMap.foldl
    (fun m entry => m.bind (fun m => markInitialMapEntry tree entry m fuel))
    (some m)).bind fun m =>
  (otherRegionsInUse.foldl
    (fun m region => m.bind (fun m =>
      markUsedTreePages tree region.1 region.2 m fuel))
    (some m)).bind fun m =>
  fillTreeAccelBlocks tree m fuel

end Marking

end Kernel
end DexprOS
