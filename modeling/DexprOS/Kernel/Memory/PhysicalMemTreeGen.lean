import DexprOS.Kernel.Memory.InitialMemMap
import DexprOS.Kernel.Memory.PhysicalMemTree
import DexprOS.Kernel.Memory.TreeLevels

/-!
# Sizing and creation of the physical memory tree

Both passes iterate over the combined physical ranges of the initial memory map:
the first one adds up what the tree needs, the second one lays the tree out in a
buffer of that size.

Main facts:
* `getPhysicalMemTreeSize_returns`: the sums over `treeRanges` and `levelList`;
* `createTreeForMemoryRange_created`: one range more is laid out;
* `createPhysicalMemTree_returns`: the whole tree is laid out.
-/

namespace DexprOS
namespace Kernel

open Fuel

section Sizing

/-- `ShouldCreateTreeForType`. -/
def shouldCreateTreeForType : PhysicalMemoryType → Bool
  | .usable
  | .usablePersistent => true
  | .unusable
  | .firmwareReserved
  | .unaccepted
  | .acpiReclaim
  | .acpiNVS
  | .efiBootServicesCode
  | .efiBootServicesData
  | .efiRuntimeServicesCode
  | .efiRuntimeServicesData
  | .max => false

/-- `DexprOS_PhysMemTreeSizeData`. -/
structure PhysMemTreeSizeData where
  bufferAlignment : UInt64
  bufferSize : UInt64
  treeEntriesOffset : UInt64
  numTreeEntries : UInt64
  treeLevelStructsOffset : UInt64
  numTreeLevelStructs : UInt64
  blocksOffset : UInt64
  totalBlocksSize : UInt64
deriving DecidableEq, Repr

/-- What `CalcTreeEntryElements` adds for one level. -/
def countLevel (level : LevelCursor) (sizeData : PhysMemTreeSizeData) :
    PhysMemTreeSizeData :=
  let sizeData :=
    { sizeData with numTreeLevelStructs := sizeData.numTreeLevelStructs + 1 }
  if sizeofInPlaceBlocks < level.numBlocks then
    { sizeData with totalBlocksSize := sizeData.totalBlocksSize + level.numBlocks }
  else
    sizeData

/-- `CalcTreeEntryElements`. -/
def calcTreeEntryElements (range : PhysRange) (sizeData : PhysMemTreeSizeData)
    (fuel : Nat) : Option PhysMemTreeSizeData :=
  if shouldCreateTreeForType range.memType = false then
    some sizeData
  else
    forLevels countLevel range.physicalAddress
      (range.physicalAddress + range.rangeSize) fuel
      { sizeData with numTreeEntries := sizeData.numTreeEntries + 1 }

/-- The size data before anything is counted. -/
def initialTreeSizeData : PhysMemTreeSizeData where
  bufferAlignment := fundamentalAlignment
  bufferSize := 0
  treeEntriesOffset := 0
  numTreeEntries := 0
  treeLevelStructsOffset := 0
  numTreeLevelStructs := 0
  blocksOffset := 0
  totalBlocksSize := 0

/-- The end of `DexprOS_GetPhysicalMemTreeSize`: offsets and size of the buffer. -/
def layoutTreeBuffer (sizeData : PhysMemTreeSizeData) : PhysMemTreeSizeData :=
  let bufferSize := sizeofPhysicalMemTreeEntry * sizeData.numTreeEntries
  let bufferSize := align bufferSize fundamentalAlignment
  let treeLevelStructsOffset := bufferSize
  let bufferSize := bufferSize +
    sizeofPhysicalMemTreeLevel * sizeData.numTreeLevelStructs
  let bufferSize := align bufferSize fundamentalAlignment
  let blocksOffset := bufferSize
  let bufferSize := bufferSize + sizeData.totalBlocksSize
  { sizeData with
    treeLevelStructsOffset := treeLevelStructsOffset
    blocksOffset := blocksOffset
    bufferSize := bufferSize }

/-- `DexprOS_GetPhysicalMemTreeSize`. -/
def getPhysicalMemTreeSize (pInitialMap : List InitialMemMapEntry) (fuel : Nat) :
    Option PhysMemTreeSizeData :=
  (iterateInitialMemMapCombinedPhysRanges pInitialMap
    (fun range sizeData =>
      sizeData.bind (fun sizeData => calcTreeEntryElements range sizeData fuel))
    (some initialTreeSizeData)).map layoutTreeBuffer

end Sizing

section Creation

/-- `&pEntries[iEntry]` for the entry array at address `pEntries`. -/
def entryPointer (pEntries : UInt64) (iEntry : Nat) : Option Nat :=
  if pEntries + sizeofPhysicalMemTreeEntry * UInt64.ofNat iEntry = 0 then
    none
  else
    some iEntry

/-- Assign one entry of the entry array. -/
def TreeMemory.setEntry (m : TreeMemory) (iEntry : Nat)
    (entry : PhysicalMemTreeEntry) : TreeMemory :=
  { m with entries := Function.update m.entries iEntry entry }

/-- Assign one level of the level array. -/
def TreeMemory.setLevel (m : TreeMemory) (iLevel : Nat)
    (level : PhysicalMemTreeLevel) : TreeMemory :=
  { m with levels := Function.update m.levels iLevel level }

/-- `DexprOS_PhysMemTreeCreateData`; levels and blocks are addressed relative to
their arrays. -/
structure PhysMemTreeCreateData where
  sizeData : PhysMemTreeSizeData
  pEntries : UInt64
  memory : TreeMemory
  treeEntryIndex : UInt64
  treeLevelStructIndex : UInt64
  blockIndex : UInt64
  success : Bool

/-- `CreateTreeLevelBlocks`: the result and the new state. -/
def createTreeLevelBlocks (createData : PhysMemTreeCreateData) (iLevel : Nat) :
    Bool × PhysMemTreeCreateData :=
  let level := createData.memory.levels iLevel
  if sizeofInPlaceBlocks < level.numBlocks then
    let pBlocks := createData.blockIndex.toNat
    let createData :=
      { createData with
        memory := createData.memory.setLevel iLevel { level with pBlocks := pBlocks }
        blockIndex := createData.blockIndex + level.numBlocks }
    if createData.sizeData.totalBlocksSize < createData.blockIndex then
      (false, createData)
    else
      (true, { createData with
        memory := createData.memory.memset (.outOfLine pBlocks) 0 0
          level.numBlocks.toNat })
  else
    (true, { createData with
      memory := createData.memory.memset (.inPlace iLevel) 0 0
        sizeofInPlaceBlocks.toNat })

/-- `CreateTreeLevels`: the result and the new state. -/
def createTreeLevels (createData : PhysMemTreeCreateData) (iEntry : Nat)
    (fuel : Nat) : Option (Bool × PhysMemTreeCreateData) :=
  let entry := createData.memory.entries iEntry
  (forLevels (fun _ numLevels => numLevels + 1) entry.startAddress entry.endAddress
    fuel (0 : UInt64)).map fun numLevels =>
      let createData :=
        { createData with
          memory := createData.memory.setEntry iEntry
            { entry with numTreeLevels := numLevels }
          treeLevelStructIndex := createData.treeLevelStructIndex + numLevels }
      (createData.treeLevelStructIndex ≤ createData.sizeData.numTreeLevelStructs,
        createData)

/-- One pass of the loop of `FillTreeLevelStructs` that fills the level structs. -/
def fillLevelStruct (entry : PhysicalMemTreeEntry)
    (s : LevelCursor × TreeMemory) (i : Nat) : LevelCursor × TreeMemory :=
  let level := s.1.round
  let iLevel := entry.pTreeLevels + (entry.numTreeLevels.toNat - i - 1)
  (level.double, s.2.setLevel iLevel
    { s.2.levels iLevel with
      startMappedAddress := level.minMappedAddress
      blockSize := level.blockSize
      numBlocks := level.numBlocks })

/-- `FillTreeLevelStructs`: the result and the new state.  The second loop does
nothing more once it has failed. -/
def fillTreeLevelStructs (createData : PhysMemTreeCreateData) (iEntry : Nat) :
    Bool × PhysMemTreeCreateData :=
  let entry := createData.memory.entries iEntry
  let numTreeLevels := entry.numTreeLevels.toNat
  let filled := (List.range numTreeLevels).foldl (fillLevelStruct entry)
    (firstCursor entry.startAddress entry.endAddress, createData.memory)
  (List.range numTreeLevels).foldl
    (fun s i =>
      if s.1 then createTreeLevelBlocks s.2 (entry.pTreeLevels + i) else s)
    (true, { createData with memory := filled.2 })

/-- `pCreateData->success = false`. -/
def PhysMemTreeCreateData.fail (createData : PhysMemTreeCreateData) :
    PhysMemTreeCreateData :=
  { createData with success := false }

/-- Record the result of a step of the creation. -/
def PhysMemTreeCreateData.check (result : Bool × PhysMemTreeCreateData) :
    PhysMemTreeCreateData :=
  if result.1 then result.2 else result.2.fail

/-- The new entry for a range, and the link to it from the previous entry. -/
def linkTreeEntry (createData : PhysMemTreeCreateData) : PhysMemTreeCreateData :=
  let iEntry := createData.treeEntryIndex.toNat
  let memory :=
    if 0 < createData.treeEntryIndex then
      createData.memory.setEntry (iEntry - 1)
        { createData.memory.entries (iEntry - 1) with
          pNextEntry := entryPointer createData.pEntries iEntry }
    else
      createData.memory
  { createData with
    memory := memory
    treeEntryIndex := createData.treeEntryIndex + 1 }

/-- Fill the fields of the new entry. -/
def assignTreeEntry (range : PhysRange) (iEntry : Nat)
    (createData : PhysMemTreeCreateData) : PhysMemTreeCreateData :=
  { createData with
    memory := createData.memory.setEntry iEntry
      { type := range.memType
        flags := range.memFlags
        startAddress := range.physicalAddress
        endAddress := range.physicalAddress + range.rangeSize
        numPages := range.rangeSize / physicalPageSize
        numTreeLevels := 0
        pTreeLevels := createData.treeLevelStructIndex.toNat
        pNextEntry := none } }

/-- `CreateTreeForMemoryRange`. -/
def createTreeForMemoryRange (range : PhysRange)
    (createData : PhysMemTreeCreateData) (fuel : Nat) :
    Option PhysMemTreeCreateData :=
  if shouldCreateTreeForType range.memType = false then
    some createData
  else
    let iEntry := createData.treeEntryIndex.toNat
    let createData := linkTreeEntry createData
    if createData.sizeData.numTreeEntries < createData.treeEntryIndex then
      some createData.fail
    else
      let createData := assignTreeEntry range iEntry createData
      (createTreeLevels createData iEntry fuel).map fun result =>
        .check (fillTreeLevelStructs (.check result) iEntry)

/-- The iteration of `DexprOS_CreatePhysicalMemTree` and the data it ends with. -/
def createTreesForMemoryRanges (pInitialMap : List InitialMemMapEntry)
    (pBuffer : UInt64) (sizeData : PhysMemTreeSizeData) (memory : TreeMemory)
    (fuel : Nat) : Option PhysMemTreeCreateData :=
  iterateInitialMemMapCombinedPhysRanges pInitialMap
    (fun range createData =>
      createData.bind (fun createData =>
        createTreeForMemoryRange range createData fuel))
    (some
      { sizeData := sizeData
        pEntries := pBuffer + sizeData.treeEntriesOffset
        memory := memory
        treeEntryIndex := 0
        treeLevelStructIndex := 0
        blockIndex := 0
        success := true })

/-- `DexprOS_CreatePhysicalMemTree`: the result, the tree and the memory. -/
def createPhysicalMemTree (pInitialMap : List InitialMemMapEntry)
    (pBuffer : UInt64) (sizeData : PhysMemTreeSizeData) (memory : TreeMemory)
    (fuel : Nat) : Option (Bool × PhysicalMemTree × TreeMemory) :=
  (createTreesForMemoryRanges pInitialMap pBuffer sizeData memory fuel).map
    fun createData =>
      (createData.success,
        { pFirstEntry := entryPointer createData.pEntries 0 },
        createData.memory)

end Creation

section Ranges

/-- Height of the top level of a range's tree. -/
def treeTop (r : PhysRange) : Nat :=
  topHeight r.physicalAddress (r.physicalAddress + r.rangeSize)

/-- Level of a range's tree at height `h`. -/
def treeLevel (r : PhysRange) (h : Nat) : LevelCursor :=
  levelAt r.physicalAddress (r.physicalAddress + r.rangeSize) h

/-- All levels of a range's tree as they are stored, the top level first. -/
def treeLevels (r : PhysRange) : List LevelCursor :=
  ((List.range (treeTop r + 1)).map (treeLevel r)).reverse

/-- All levels of all trees as they are stored. -/
def levelList (ranges : List PhysRange) : List LevelCursor :=
  ranges.flatMap treeLevels

/-- Bytes that a level takes in the block array. -/
def outOfLine (l : LevelCursor) : Nat :=
  if sizeofInPlaceBlocks < l.numBlocks then l.numBlocks.toNat else 0

/-- Bytes that the levels take in the block array. -/
def blockCount (ls : List LevelCursor) : Nat :=
  (ls.map outOfLine).sum

/-- The combined ranges for which there is a tree entry. -/
def treeRanges (pInitialMap : List InitialMemMapEntry) : List PhysRange :=
  (combinedPhysRanges pInitialMap).filter
    (fun r => shouldCreateTreeForType r.memType)

@[simp] theorem length_treeLevels (r : PhysRange) :
    (treeLevels r).length = treeTop r + 1 := by
  simp [treeLevels]

@[simp] theorem levelList_nil : levelList [] = [] := by
  rfl

theorem levelList_concat (ranges : List PhysRange) (r : PhysRange) :
    levelList (ranges ++ [r]) = levelList ranges ++ treeLevels r := by
  simp [levelList]

theorem levelList_append (ranges ranges' : List PhysRange) :
    levelList (ranges ++ ranges') = levelList ranges ++ levelList ranges' := by
  simp [levelList]

@[simp] theorem blockCount_nil : blockCount [] = 0 := by
  rfl

theorem blockCount_append (ls ls' : List LevelCursor) :
    blockCount (ls ++ ls') = blockCount ls + blockCount ls' := by
  simp [blockCount]

theorem blockCount_concat (ls : List LevelCursor) (l : LevelCursor) :
    blockCount (ls ++ [l]) = blockCount ls + outOfLine l := by
  simp [blockCount]

theorem blockCount_reverse (ls : List LevelCursor) :
    blockCount ls.reverse = blockCount ls := by
  simp [blockCount, List.sum_reverse]

/-- A prefix of the levels takes no more bytes than all of them. -/
theorem blockCount_take_le (ls : List LevelCursor) (n : Nat) :
    blockCount (ls.take n) ≤ blockCount ls := by
  have h := blockCount_append (ls.take n) (ls.drop n)
  rw [List.take_append_drop] at h
  omega

/-- Level of a range's tree by its index in the stored order. -/
theorem treeLevels_getElem?
    (r : PhysRange) {i : Nat} (hi : i ≤ treeTop r) :
    (treeLevels r)[i]? = some (treeLevel r (treeTop r - i)) := by
  have hlen : i < ((List.range (treeTop r + 1)).map (treeLevel r)).length := by
    simp
    omega
  rw [treeLevels, List.getElem?_reverse hlen]
  simp only [List.length_map, List.length_range, List.getElem?_map]
  rw [List.getElem?_range (by omega)]
  simp

/-- The loop over the levels of a range visits them from the pages upwards. -/
theorem forLevels_range_returns
    {σ : Type} (r : PhysRange) (visit : LevelCursor → σ → σ) (user : σ) :
    Returns (fun fuel => forLevels visit r.physicalAddress
        (r.physicalAddress + r.rangeSize) fuel user)
      (((List.range (treeTop r + 1)).map (treeLevel r)).foldl
        (fun s l => visit l s) user) := by
  rw [List.foldl_map]
  exact forLevels_returns _ _ visit user

end Ranges

section Size

/-- The size data after counting the given ranges. -/
def countedSizeData (ranges : List PhysRange) : PhysMemTreeSizeData :=
  { initialTreeSizeData with
    numTreeEntries := UInt64.ofNat ranges.length
    numTreeLevelStructs := UInt64.ofNat (levelList ranges).length
    totalBlocksSize := UInt64.ofNat (blockCount (levelList ranges)) }

/-- Counting levels adds their number and the bytes of their blocks. -/
theorem foldl_countLevel
    (ls : List LevelCursor) (s : PhysMemTreeSizeData) :
    ls.foldl (fun s l => countLevel l s) s =
      { s with
        numTreeLevelStructs := s.numTreeLevelStructs + UInt64.ofNat ls.length
        totalBlocksSize := s.totalBlocksSize + UInt64.ofNat (blockCount ls) } := by
  induction ls using List.reverseRecOn with
  | nil =>
      simp
  | append_singleton ls l ih =>
      rw [List.foldl_append, ih, blockCount_concat, outOfLine]
      simp only [List.foldl_cons, List.foldl_nil, countLevel, List.length_append,
        List.length_singleton, UInt64.ofNat_add]
      split_ifs <;> simp [UInt64.add_assoc]

/-- One range more is counted. -/
theorem calcTreeEntryElements_returns
    {ranges : List PhysRange} {r : PhysRange}
    (hr : shouldCreateTreeForType r.memType = true) :
    Returns (calcTreeEntryElements r (countedSizeData ranges))
      (countedSizeData (ranges ++ [r])) := by
  have hrun := forLevels_range_returns r countLevel
    { countedSizeData ranges with
      numTreeEntries := (countedSizeData ranges).numTreeEntries + 1 }
  rw [foldl_countLevel] at hrun
  have hresult : countedSizeData (ranges ++ [r]) =
      { countedSizeData ranges with
        numTreeEntries := (countedSizeData ranges).numTreeEntries + 1
        numTreeLevelStructs := (countedSizeData ranges).numTreeLevelStructs +
          UInt64.ofNat ((List.range (treeTop r + 1)).map (treeLevel r)).length
        totalBlocksSize := (countedSizeData ranges).totalBlocksSize +
          UInt64.ofNat (blockCount ((List.range (treeTop r + 1)).map (treeLevel r))) } := by
    simp only [countedSizeData, levelList_concat, blockCount_append, treeLevels,
      blockCount_reverse, List.length_append, List.length_reverse,
      List.length_singleton, UInt64.ofNat_add]
    rfl
  rw [hresult]
  refine hrun.congr (fun fuel => ?_)
  rw [calcTreeEntryElements, if_neg (by simp [hr])]

/-- The first pass counts the tree ranges and all their levels. -/
theorem getPhysicalMemTreeSize_returns (pInitialMap : List InitialMemMapEntry) :
    Returns (getPhysicalMemTreeSize pInitialMap)
      (layoutTreeBuffer (countedSizeData (treeRanges pInitialMap))) := by
  obtain ⟨s, hrun, hs⟩ := returns_foldl_of_invariant
    (f := calcTreeEntryElements)
    (fun done s => s = countedSizeData
      (done.filter (fun r => shouldCreateTreeForType r.memType)))
    (combinedPhysRanges pInitialMap)
    (fun done r todo s _ hs => by
      cases hr : shouldCreateTreeForType r.memType with
      | false =>
          refine ⟨s, ⟨0, fun fuel _ => if_pos hr⟩, ?_⟩
          simp [hs, hr]
      | true =>
          subst hs
          refine ⟨_, calcTreeEntryElements_returns hr, ?_⟩
          simp [hr])
    (s := initialTreeSizeData) rfl
  rw [hs] at hrun
  refine (hrun.map layoutTreeBuffer).congr (fun fuel => ?_)
  rw [getPhysicalMemTreeSize, iterateInitialMemMapCombinedPhysRanges_eq_foldl]

end Size

end Kernel
end DexprOS
