import DexprOS.Kernel.Memory.PhysicalMemMapGen
import DexprOS.Kernel.Memory.PhysicalMemTreeMark

/-!
# Sizing and creation of the physical memory structures

The physical memory tree and the map of all ranges share one buffer: first the
tree's entries, levels and blocks, behind them the map.

Main facts:
* `getPhysicalMemStructsSizeData_returns`: what the sizing returns;
* `structsSizeData_exact`: its numbers, as long as they fit into 64 bits;
* `soundLayout_of_created`: the arrays of a created tree and map lie apart.
-/

namespace DexprOS
namespace Kernel

open Fuel

section PhysicalMemStructs

/-- `DexprOS_PhysMemStructsSizeData`. -/
structure PhysMemStructsSizeData where
  bufferSize : UInt64
  bufferAlignment : UInt64
  treeOffset : UInt64
  treeSizeData : PhysMemTreeSizeData
  memMapOffset : UInt64
  memMapSize : UInt64
deriving DecidableEq, Repr

/-- `DexprOS_GetPhysicalMemStructsSizeData` after its two calls. -/
def layoutStructsBuffer (treeSizeData : PhysMemTreeSizeData)
    (mapSize mapAlignment : UInt64) : PhysMemStructsSizeData :=
  let memMapOffset := align treeSizeData.bufferSize mapAlignment
  { treeSizeData := treeSizeData
    treeOffset := 0
    memMapOffset := memMapOffset
    memMapSize := mapSize
    bufferSize := memMapOffset + mapSize
    bufferAlignment :=
      if treeSizeData.bufferAlignment < mapAlignment then mapAlignment
      else treeSizeData.bufferAlignment }

/-- `DexprOS_GetPhysicalMemStructsSizeData`. -/
def getPhysicalMemStructsSizeData (pInitialMap : List InitialMemMapEntry)
    (fuel : Nat) : Option PhysMemStructsSizeData :=
  (getPhysicalMemTreeSize pInitialMap fuel).map fun treeSizeData =>
    let mapSize := getPhysicalMemMapSize pInitialMap
    layoutStructsBuffer treeSizeData mapSize.1 mapSize.2

/-- The out parameters of `DexprOS_CreatePhysicalMemStructs`, and the contents of
the parts of its buffer. -/
structure PhysMemStructs where
  tree : PhysicalMemTree
  memMap : PhysicalMemMap
  treeMemory : TreeMemory
  mapContent : Nat → PhysicalMemoryRange

/-- `DexprOS_CreatePhysicalMemStructs`: the result and the structures. -/
def createPhysicalMemStructs (pInitialMap : List InitialMemMapEntry)
    (pBuffer : UInt64) (sizeData : PhysMemStructsSizeData) (structs : PhysMemStructs)
    (fuel : Nat) : Option (Bool × PhysMemStructs) :=
  (createPhysicalMemTree pInitialMap (pBuffer + sizeData.treeOffset)
    sizeData.treeSizeData structs.treeMemory fuel).bind fun (created, tree, m) =>
  let structs := { structs with tree := tree, treeMemory := m }
  if created = false then
    some (false, structs)
  else
    (markPhysicalMemTreeRegions tree pInitialMap [(pBuffer, sizeData.bufferSize)] m
      fuel).map fun m =>
    let structs := { structs with treeMemory := m }
    let (created, memMap, content) :=
      createPhysicalMemMap pInitialMap (pBuffer + sizeData.memMapOffset)
        sizeData.memMapSize structs.mapContent
    (created, { structs with memMap := memMap, mapContent := content })

end PhysicalMemStructs

section Size

variable (pInitialMap : List InitialMemMapEntry)

/-- Bytes of the tree for the given ranges. -/
def treeSize (ranges : List PhysRange) : Nat :=
  64 * ranges.length + 32 * (levelList ranges).length + blockCount (levelList ranges)

/-- Bytes of both structures, as an exact number. -/
def requiredSize : Nat :=
  (treeSize (treeRanges pInitialMap) + 15) / 16 * 16 +
    32 * (combinedPhysRanges pInitialMap).length

/-- What the sizing returns. -/
def structsSizeData : PhysMemStructsSizeData :=
  layoutStructsBuffer (layoutTreeBuffer (countedSizeData (treeRanges pInitialMap)))
    (UInt64.ofNat (combinedPhysRanges pInitialMap).length * sizeofPhysicalMemoryRange)
    fundamentalAlignment

theorem getPhysicalMemStructsSizeData_returns :
    Returns (getPhysicalMemStructsSizeData pInitialMap)
      (structsSizeData pInitialMap) := by
  have hrun := (getPhysicalMemTreeSize_returns pInitialMap).map (fun treeSizeData =>
    layoutStructsBuffer treeSizeData
      (UInt64.ofNat (combinedPhysRanges pInitialMap).length * sizeofPhysicalMemoryRange)
      fundamentalAlignment)
  refine hrun.congr (fun fuel => ?_)
  rw [getPhysicalMemStructsSizeData, getPhysicalMemMapSize_eq]

/-- The numbers of the size data are the exact ones. -/
structure ExactSizes (s : PhysMemStructsSizeData) : Prop where
  numTreeEntries :
    s.treeSizeData.numTreeEntries.toNat = (treeRanges pInitialMap).length
  numTreeLevelStructs :
    s.treeSizeData.numTreeLevelStructs.toNat =
      (levelList (treeRanges pInitialMap)).length
  totalBlocksSize :
    s.treeSizeData.totalBlocksSize.toNat =
      blockCount (levelList (treeRanges pInitialMap))
  treeOffset : s.treeOffset = 0
  treeEntriesOffset : s.treeSizeData.treeEntriesOffset = 0
  treeLevelStructsOffset :
    s.treeSizeData.treeLevelStructsOffset.toNat =
      64 * (treeRanges pInitialMap).length
  blocksOffset :
    s.treeSizeData.blocksOffset.toNat =
      64 * (treeRanges pInitialMap).length +
        32 * (levelList (treeRanges pInitialMap)).length
  memMapOffset :
    s.memMapOffset.toNat = (treeSize (treeRanges pInitialMap) + 15) / 16 * 16
  memMapSize : s.memMapSize.toNat = 32 * (combinedPhysRanges pInitialMap).length
  bufferSize : s.bufferSize.toNat = requiredSize pInitialMap

/-- Aligning to 16 bytes rounds up as long as the result fits. -/
theorem align_fundamental_toNat
    {x : UInt64} {n : Nat} (hx : x.toNat = n) (hfit : (n + 15) / 16 * 16 < 2 ^ 64) :
    (align x fundamentalAlignment).toNat = (n + 15) / 16 * 16 := by
  have halign := align_toNat (x := x) (a := fundamentalAlignment) (k := 4)
    (by decide) rfl (by omega)
  rw [hx] at halign
  exact halign

variable {pInitialMap}

/-- A multiple of 16 stays as it is when it is aligned. -/
theorem align_fundamental_of_dvd
    {x : UInt64} {n : Nat} (hx : x.toNat = 16 * n) :
    (align x fundamentalAlignment).toNat = 16 * n := by
  have hlt := x.toNat_lt
  rw [align_fundamental_toNat hx] <;> omega

/-- A product of two numbers whose exact product fits. -/
theorem toNat_mul_ofNat
    {size : UInt64} {k n : Nat} (hsize : size.toNat = k) (hk : 0 < k)
    (hfit : k * n < 2 ^ 64) :
    (size * UInt64.ofNat n).toNat = k * n := by
  have hn : n < 2 ^ 64 := Nat.lt_of_le_of_lt (Nat.le_mul_of_pos_left n hk) hfit
  rw [UInt64.toNat_mul, hsize, UInt64.toNat_ofNat_of_lt' hn, Nat.mod_eq_of_lt hfit]

theorem layoutTreeBuffer_exact
    {ranges : List PhysRange} (hfit : treeSize ranges < 2 ^ 64) :
    (layoutTreeBuffer (countedSizeData ranges)).treeLevelStructsOffset.toNat =
        64 * ranges.length ∧
    (layoutTreeBuffer (countedSizeData ranges)).blocksOffset.toNat =
        64 * ranges.length + 32 * (levelList ranges).length ∧
    (layoutTreeBuffer (countedSizeData ranges)).bufferSize.toNat = treeSize ranges := by
  unfold treeSize at *
  have hentries : (sizeofPhysicalMemTreeEntry * UInt64.ofNat ranges.length).toNat =
      64 * ranges.length := toNat_mul_ofNat rfl (by decide) (by omega)
  have hlevels :
      (sizeofPhysicalMemTreeLevel * UInt64.ofNat (levelList ranges).length).toNat =
        32 * (levelList ranges).length := toNat_mul_ofNat rfl (by decide) (by omega)
  have hlt : blockCount (levelList ranges) < 2 ^ 64 := by omega
  have hblocks : (UInt64.ofNat (blockCount (levelList ranges))).toNat =
      blockCount (levelList ranges) := UInt64.toNat_ofNat_of_lt' hlt
  have hfirst := align_fundamental_of_dvd (n := 4 * ranges.length)
    (hentries.trans (by omega))
  have hsecond := align_fundamental_of_dvd
    (x := align (sizeofPhysicalMemTreeEntry * UInt64.ofNat ranges.length)
        fundamentalAlignment +
      sizeofPhysicalMemTreeLevel * UInt64.ofNat (levelList ranges).length)
    (n := 4 * ranges.length + 2 * (levelList ranges).length)
    (by rw [UInt64.toNat_add, hfirst, hlevels]; omega)
  refine ⟨hfirst.trans (by omega), hsecond.trans (by omega), ?_⟩
  show (_ + UInt64.ofNat (blockCount (levelList ranges))).toNat = _
  rw [UInt64.toNat_add]
  rw [show (align (align (sizeofPhysicalMemTreeEntry *
        (countedSizeData ranges).numTreeEntries) fundamentalAlignment +
      sizeofPhysicalMemTreeLevel * (countedSizeData ranges).numTreeLevelStructs)
        fundamentalAlignment).toNat = _ from hsecond, hblocks]
  omega

/-- The sizing is exact when the structures fit into the address space. -/
theorem structsSizeData_exact (hfit : requiredSize pInitialMap < 2 ^ 64) :
    ExactSizes pInitialMap (structsSizeData pInitialMap) := by
  have htree : treeSize (treeRanges pInitialMap) < 2 ^ 64 := by
    unfold requiredSize at hfit
    omega
  obtain ⟨hlevels, hblocks, hsize⟩ := layoutTreeBuffer_exact htree
  have hoffset : (structsSizeData pInitialMap).memMapOffset.toNat =
      (treeSize (treeRanges pInitialMap) + 15) / 16 * 16 :=
    align_fundamental_toNat hsize (by unfold requiredSize at hfit; omega)
  have hmapSize : (structsSizeData pInitialMap).memMapSize.toNat =
      32 * (combinedPhysRanges pInitialMap).length := by
    show (UInt64.ofNat (combinedPhysRanges pInitialMap).length *
      sizeofPhysicalMemoryRange).toNat = _
    rw [UInt64.mul_comm]
    exact toNat_mul_ofNat rfl (by decide) (by unfold requiredSize at hfit; omega)
  obtain ⟨hE, hL, hB⟩ : (treeRanges pInitialMap).length < 2 ^ 64 ∧
      (levelList (treeRanges pInitialMap)).length < 2 ^ 64 ∧
      blockCount (levelList (treeRanges pInitialMap)) < 2 ^ 64 := by
    unfold treeSize at htree
    omega
  exact
    { numTreeEntries := UInt64.toNat_ofNat_of_lt' hE
      numTreeLevelStructs := UInt64.toNat_ofNat_of_lt' hL
      totalBlocksSize := UInt64.toNat_ofNat_of_lt' hB
      treeOffset := rfl
      treeEntriesOffset := rfl
      treeLevelStructsOffset := hlevels
      blocksOffset := hblocks
      memMapOffset := hoffset
      memMapSize := hmapSize
      bufferSize := by
        show ((structsSizeData pInitialMap).memMapOffset +
          (structsSizeData pInitialMap).memMapSize).toNat = _
        rw [UInt64.toNat_add, hoffset, hmapSize]
        exact Nat.mod_eq_of_lt hfit }

/-- The sizing leaves room for everything that is created. -/
theorem ExactSizes.hasRoom
    {s : PhysMemStructsSizeData} (hs : ExactSizes pInitialMap s) :
    HasRoom s.treeSizeData (treeRanges pInitialMap) where
  entries := Nat.le_of_eq hs.numTreeEntries.symm
  levels := Nat.le_of_eq hs.numTreeLevelStructs.symm
  blocks := Nat.le_of_eq hs.totalBlocksSize.symm

end Size

section Layout

/-- A part of the buffer: its first byte and one past its last byte. -/
structure BufferPart where
  start : Nat
  stop : Nat

/-- The array of tree entries. -/
def entryPart (s : PhysMemStructsSizeData) : BufferPart where
  start := s.treeOffset.toNat + s.treeSizeData.treeEntriesOffset.toNat
  stop := s.treeOffset.toNat + s.treeSizeData.treeEntriesOffset.toNat +
    64 * s.treeSizeData.numTreeEntries.toNat

/-- The array of tree levels. -/
def levelPart (s : PhysMemStructsSizeData) : BufferPart where
  start := s.treeOffset.toNat + s.treeSizeData.treeLevelStructsOffset.toNat
  stop := s.treeOffset.toNat + s.treeSizeData.treeLevelStructsOffset.toNat +
    32 * s.treeSizeData.numTreeLevelStructs.toNat

/-- The array of map entries. -/
def mapPart (s : PhysMemStructsSizeData) : BufferPart where
  start := s.memMapOffset.toNat
  stop := s.memMapOffset.toNat + s.memMapSize.toNat

/-- The block array of level `j`. -/
def blockPart (s : PhysMemStructsSizeData) (m : TreeMemory) (j : Nat) :
    BufferPart where
  start := s.treeOffset.toNat + s.treeSizeData.blocksOffset.toNat +
    (m.levels j).pBlocks
  stop := s.treeOffset.toNat + s.treeSizeData.blocksOffset.toNat +
    (m.levels j).pBlocks + (m.levels j).numBlocks.toNat

/-- The levels that have their blocks in the buffer's block array. -/
def outOfLineLevels (s : PhysMemStructsSizeData) (m : TreeMemory) : List Nat :=
  (List.range s.treeSizeData.numTreeLevelStructs.toNat).filter
    (fun j => sizeofInPlaceBlocks < (m.levels j).numBlocks)

/-- All arrays of the structures. -/
def structParts (s : PhysMemStructsSizeData) (m : TreeMemory) : List BufferPart :=
  entryPart s :: levelPart s ::
    ((outOfLineLevels s m).map (blockPart s m) ++ [mapPart s])

/-- The arrays lie inside the buffer and apart from each other, and those of
structs are aligned. -/
structure SoundLayout (s : PhysMemStructsSizeData) (m : TreeMemory) : Prop where
  apart : (structParts s m).Pairwise
    (fun a b => a.stop ≤ b.start ∨ b.stop ≤ a.start)
  inside : ∀ a, a ∈ structParts s m → a.stop ≤ s.bufferSize.toNat
  aligned : ∀ a, a ∈ [entryPart s, levelPart s, mapPart s] → a.start % 16 = 0

variable {pInitialMap : List InitialMemMapEntry} {s : PhysMemStructsSizeData}
  {base m : TreeMemory}

theorem ExactSizes.entryPart (hs : ExactSizes pInitialMap s) :
    entryPart s = ⟨0, 64 * (treeRanges pInitialMap).length⟩ := by
  rw [Kernel.entryPart, hs.treeOffset, hs.treeEntriesOffset, hs.numTreeEntries,
    show (0 : UInt64).toNat = 0 from rfl, Nat.zero_add, Nat.zero_add]

theorem ExactSizes.levelPart (hs : ExactSizes pInitialMap s) :
    levelPart s = ⟨64 * (treeRanges pInitialMap).length,
      64 * (treeRanges pInitialMap).length +
        32 * (levelList (treeRanges pInitialMap)).length⟩ := by
  rw [Kernel.levelPart, hs.treeOffset, hs.treeLevelStructsOffset,
    hs.numTreeLevelStructs, show (0 : UInt64).toNat = 0 from rfl, Nat.zero_add]

theorem ExactSizes.mapPart (hs : ExactSizes pInitialMap s) :
    mapPart s = ⟨(treeSize (treeRanges pInitialMap) + 15) / 16 * 16,
      requiredSize pInitialMap⟩ := by
  rw [Kernel.mapPart, hs.memMapOffset, hs.memMapSize, requiredSize]

theorem ExactSizes.blockPart (hs : ExactSizes pInitialMap s) (j : Nat) :
    blockPart s m j = ⟨64 * (treeRanges pInitialMap).length +
        32 * (levelList (treeRanges pInitialMap)).length + (m.levels j).pBlocks,
      64 * (treeRanges pInitialMap).length +
        32 * (levelList (treeRanges pInitialMap)).length + (m.levels j).pBlocks +
        (m.levels j).numBlocks.toNat⟩ := by
  rw [Kernel.blockPart, hs.treeOffset, hs.blocksOffset,
    show (0 : UInt64).toNat = 0 from rfl, Nat.zero_add]

/-- An out-of-line level's blocks end inside the block array. -/
theorem blockPart_stop_le
    (hs : ExactSizes pInitialMap s)
    (hc : LevelsCreated base (levelList (treeRanges pInitialMap)) m)
    {j : Nat} (hj : j ∈ outOfLineLevels s m) :
    (blockPart s m j).stop ≤ treeSize (treeRanges pInitialMap) := by
  obtain ⟨hlt, hout⟩ := List.mem_filter.mp hj
  rw [List.mem_range, hs.numTreeLevelStructs] at hlt
  have hbefore := hc.pBlocks_before hlt (Nat.le_refl _) (of_decide_eq_true hout)
  rw [List.take_length] at hbefore
  rw [hs.blockPart, treeSize]
  show _ + _ ≤ _
  omega

/-- Levels that are stored later have their blocks later. -/
theorem blockPart_pairwise
    (hs : ExactSizes pInitialMap s)
    (hc : LevelsCreated base (levelList (treeRanges pInitialMap)) m) :
    ((outOfLineLevels s m).map (blockPart s m)).Pairwise
      (fun a b => a.stop ≤ b.start) := by
  refine List.pairwise_map.mpr (List.Pairwise.imp_of_mem ?_
    (List.Pairwise.filter _ List.pairwise_lt_range))
  intro i j hi hj hij
  obtain ⟨hlt, hout⟩ := List.mem_filter.mp hj
  rw [List.mem_range, hs.numTreeLevelStructs] at hlt
  have hbefore := hc.pBlocks_before hij (Nat.le_of_lt hlt)
    (of_decide_eq_true (List.mem_filter.mp hi).2)
  have hplaced := hc.placed j _ (List.getElem?_eq_getElem hlt)
  have hjout := of_decide_eq_true hout
  rw [hplaced.numBlocks] at hjout
  rw [hs.blockPart, hs.blockPart, hplaced.pBlocks hjout]
  show _ + _ + _ + _ ≤ _ + _ + _
  omega

/-- What is created in a buffer of the exact size is laid out soundly. -/
theorem soundLayout_of_created
    (hs : ExactSizes pInitialMap s)
    (hc : LevelsCreated base (levelList (treeRanges pInitialMap)) m) :
    SoundLayout s m := by
  have hblockStart : ∀ j, 64 * (treeRanges pInitialMap).length +
      32 * (levelList (treeRanges pInitialMap)).length ≤ (blockPart s m j).start := by
    intro j
    rw [hs.blockPart]
    exact Nat.le_add_right _ _
  have hblockStop := fun j => blockPart_stop_le hs hc (j := j)
  have htree : 64 * (treeRanges pInitialMap).length +
      32 * (levelList (treeRanges pInitialMap)).length ≤
        treeSize (treeRanges pInitialMap) := Nat.le_add_right _ _
  have hround : treeSize (treeRanges pInitialMap) ≤
      (treeSize (treeRanges pInitialMap) + 15) / 16 * 16 := by omega
  have hrequired : (treeSize (treeRanges pInitialMap) + 15) / 16 * 16 ≤
      requiredSize pInitialMap := Nat.le_add_right _ _
  rw [← hs.bufferSize] at hrequired
  refine ⟨?_, ?_, ?_⟩
  · -- the arrays are listed in the order in which they lie in the buffer
    have hordered : (structParts s m).Pairwise (fun a b => a.stop ≤ b.start) := by
      rw [structParts, hs.entryPart, hs.levelPart, hs.mapPart, List.pairwise_cons,
        List.pairwise_cons, List.pairwise_append]
      refine ⟨?_, ?_, blockPart_pairwise hs hc, List.pairwise_singleton _ _, ?_⟩
      · simp only [List.mem_cons, List.mem_append, List.mem_map, List.not_mem_nil,
          or_false]
        rintro a (rfl | ⟨j, -, rfl⟩ | rfl)
        · exact Nat.le_refl _
        · exact Nat.le_trans (Nat.le_add_right _ _) (hblockStart j)
        · dsimp only
          omega
      · simp only [List.mem_cons, List.mem_append, List.mem_map, List.not_mem_nil,
          or_false]
        rintro a (⟨j, -, rfl⟩ | rfl)
        · exact hblockStart j
        · exact Nat.le_trans htree hround
      · simp only [List.mem_map, List.mem_singleton]
        rintro a ⟨j, hj, rfl⟩ b rfl
        exact Nat.le_trans (hblockStop j hj) hround
    exact hordered.imp Or.inl
  · rw [structParts, hs.entryPart, hs.levelPart, hs.mapPart]
    simp only [List.mem_cons, List.mem_append, List.mem_map, List.not_mem_nil,
      or_false]
    rintro a (rfl | rfl | ⟨j, hj, rfl⟩ | rfl)
    · dsimp only
      omega
    · dsimp only
      omega
    · have := hblockStop j hj
      omega
    · exact Nat.le_of_eq hs.bufferSize.symm
  · rw [hs.entryPart, hs.levelPart, hs.mapPart]
    simp only [List.mem_cons, List.not_mem_nil, or_false]
    rintro a (rfl | rfl | rfl) <;> dsimp only <;> omega

end Layout

end Kernel
end DexprOS
