import DexprOS.Kernel.Memory.PhysicalMemStructsGen
import DexprOS.Kernel.Memory.TreeGeometry
import Mathlib.Algebra.Order.BigOperators.Group.List

/-!
# Agreement of sizing and creation

The sizing counts in 64 bits, so it is exact as long as the structures fit into
the address space.  The structures of ascending entries are at most half as large
as the memory they describe and so always fit.

Main facts:
* `requiredSize_lt`: the structures of ascending entries fit;
* `createPhysicalMemStructs_agrees`: what is sized is created, in its own place;
* `createPhysicalMemStructs_disagrees`: with overlapping entries it need not be.
-/

namespace DexprOS
namespace Kernel

open Fuel Spans

section Bounds

/-- The levels of a range together have few blocks for each page. -/
theorem blockCount_treeLevels_le (r : PhysRange) :
    blockCount (treeLevels r) ≤
      52 * (pageCount r.physicalAddress (r.physicalAddress + r.rangeSize) + 1) := by
  have htop : treeTop r ≤ 51 := topHeight_le _ _
  have hlevel : ∀ n, n ∈ (treeLevels r).map outOfLine →
      n ≤ pageCount r.physicalAddress (r.physicalAddress + r.rangeSize) + 1 := by
    intro n hn
    obtain ⟨l, hl, rfl⟩ := List.mem_map.mp hn
    obtain ⟨h, hh, rfl⟩ := List.mem_map.mp (List.mem_reverse.mp hl)
    have hnum : (treeLevel r h).numBlocks.toNat ≤ _ :=
      levelAt_numBlocks_le (by have := List.mem_range.mp hh; omega)
    rw [outOfLine]
    split_ifs
    · exact hnum
    · exact Nat.zero_le _
  have hsum := List.sum_le_card_nsmul _ _ hlevel
  rw [List.length_map, length_treeLevels, smul_eq_mul] at hsum
  exact Nat.le_trans hsum (Nat.mul_le_mul_right _ (by omega))

/-- A range's part of both structures is at most half its size. -/
theorem rangeStructs_le
    {r : PhysRange} (hsize : r.start + 4096 ≤ r.stop) (hstop : r.stop ≤ 2 ^ 63) :
    2 * (96 + 32 * (treeTop r + 1) + blockCount (treeLevels r)) ≤
      r.stop - r.start := by
  have htop : treeTop r ≤ 51 := topHeight_le _ _
  have hend : (r.physicalAddress + r.rangeSize).toNat = r.stop := by
    rw [UInt64.toNat_add]
    exact Nat.mod_eq_of_lt (Nat.lt_of_le_of_lt hstop (by decide))
  have hpages : 4096 * pageCount r.physicalAddress (r.physicalAddress + r.rangeSize) ≤
      (r.physicalAddress + r.rangeSize).toNat - r.physicalAddress.toNat + 8192 :=
    pageCount_mul_le (by rw [hend]; exact Nat.le_add_right _ _)
      (by rw [hend]; exact hstop)
  rw [hend, show r.physicalAddress.toNat = r.start from rfl] at hpages
  have hblocks := blockCount_treeLevels_le r
  omega

/-- The structures for a list of ranges are at most half as large as the ranges. -/
theorem structs_le
    (ranges : List PhysRange)
    (hranges : ∀ r, r ∈ ranges → r.start + 4096 ≤ r.stop ∧ r.stop ≤ 2 ^ 63) :
    2 * (treeSize (ranges.filter (fun r => shouldCreateTreeForType r.memType)) +
        32 * ranges.length) ≤
      (ranges.map (fun r => r.stop - r.start)).sum := by
  induction ranges using List.reverseRecOn with
  | nil =>
      simp [treeSize]
  | append_singleton ranges r ih =>
      have hrest := ih (fun d hd => hranges d (List.mem_append_left _ hd))
      obtain ⟨hsize, hstop⟩ := hranges r (by simp)
      have hr := rangeStructs_le hsize hstop
      rw [List.filter_append, List.map_append, List.sum_append, List.length_append]
      cases htype : shouldCreateTreeForType r.memType with
      | false =>
          simp only [htype, List.filter_cons, List.filter_nil, List.append_nil,
            List.map_cons, List.map_nil, List.sum_cons, List.sum_nil,
            List.length_singleton, Bool.false_eq_true, if_false]
          omega
      | true =>
          simp only [htype, List.filter_cons, List.filter_nil,
            List.map_cons, List.map_nil, List.sum_cons, List.sum_nil,
            List.length_singleton, if_true, treeSize, levelList_concat,
            blockCount_append, List.length_append, length_treeLevels] at hrest ⊢
          omega

variable {pInitialMap : List InitialMemMapEntry}

/-- The structures of ascending entries fit into the address space. -/
theorem requiredSize_lt (hmap : AscendingEntries pInitialMap) :
    requiredSize pInitialMap < 2 ^ 64 := by
  have hranges := hmap.combinedPhysRanges_forall
    (P := fun a => a.start + 4096 ≤ a.stop ∧ a.stop ≤ 2 ^ 63)
    (fun a b hjoin ha hb => ⟨by have := hjoin.1; dsimp only; omega, hb.2⟩)
    (fun e he => by
      have hpos := hmap.nonempty e he
      refine ⟨?_, hmap.below e he⟩
      show e.physicalAddress.toNat + 4096 ≤ e.physicalAddress.toNat + _ * 4096
      omega)
  have hsum := hmap.ordered_combinedPhysRanges.sum_length_le (Nat.zero_le (2 ^ 63))
    (fun _ _ => Nat.zero_le _)
    (fun a ha => by
      obtain ⟨r, hr, rfl⟩ := List.mem_map.mp ha
      exact (hranges r hr).2)
  rw [List.map_map, Nat.zero_add] at hsum
  have hle := structs_le (combinedPhysRanges pInitialMap) hranges
  have htotal : 2 * (treeSize (treeRanges pInitialMap) +
      32 * (combinedPhysRanges pInitialMap).length) ≤ 2 ^ 63 := Nat.le_trans hle hsum
  rw [requiredSize]
  omega

end Bounds

section Agreement

/-- The creation has used up the size data and written nothing behind it. -/
structure UsedExactly (sizeData : PhysMemTreeSizeData) (base : TreeMemory)
    (c : PhysMemTreeCreateData) : Prop where
  entries : c.treeEntryIndex = sizeData.numTreeEntries
  levels : c.treeLevelStructIndex = sizeData.numTreeLevelStructs
  blocks : c.blockIndex = sizeData.totalBlocksSize
  entryFrame : ∀ k, sizeData.numTreeEntries.toNat ≤ k →
    c.memory.entries k = base.entries k
  levelFrame : ∀ j, sizeData.numTreeLevelStructs.toNat ≤ j →
    c.memory.levels j = base.levels j
  blockFrame : ∀ i, sizeData.totalBlocksSize.toNat ≤ i →
    c.memory.blocks i = base.blocks i

/-- Tree and map are created in a buffer of the size that the sizing asks for,
they use up exactly what was counted, and their arrays do not overlap. -/
def SizingCreationAgree (pInitialMap : List InitialMemMapEntry) : Prop :=
  ∃ s, Returns (getPhysicalMemStructsSizeData pInitialMap) s ∧
    ∀ (pBuffer : UInt64) (base : TreeMemory) (content : Nat → PhysicalMemoryRange),
      ∃ c tree,
        Returns (createTreesForMemoryRanges pInitialMap (pBuffer + s.treeOffset)
          s.treeSizeData base) c ∧
        Returns (createPhysicalMemTree pInitialMap (pBuffer + s.treeOffset)
          s.treeSizeData base) (true, tree, c.memory) ∧
        (createPhysicalMemMap pInitialMap (pBuffer + s.memMapOffset) s.memMapSize
          content).1 = true ∧
        UsedExactly s.treeSizeData base c ∧
        SoundLayout s c.memory

variable {pInitialMap : List InitialMemMapEntry} {s : PhysMemStructsSizeData}

/-- The map is created with one entry for every combined range. -/
theorem createPhysicalMemMap_exact
    (hs : ExactSizes pInitialMap s) (pBuffer : UInt64)
    (content : Nat → PhysicalMemoryRange) :
    createPhysicalMemMap pInitialMap pBuffer s.memMapSize content =
      (true,
        { numEntries := UInt64.ofNat (combinedPhysRanges pInitialMap).length
          pEntries := pBuffer },
        Overlay.overlay ((combinedPhysRanges pInitialMap).map toMemoryRange) content) := by
  rw [createPhysicalMemMap, iterateInitialMemMapCombinedPhysRanges_eq_foldl,
    foldl_fillMemMapEntry _ _ _ _ (by rw [hs.memMapSize, Nat.mul_comm])]

theorem usedExactly_of_created
    (hs : ExactSizes pInitialMap s) {base : TreeMemory} {pEntries : UInt64}
    {c : PhysMemTreeCreateData}
    (hc : Created base s.treeSizeData pEntries (treeRanges pInitialMap) c) :
    UsedExactly s.treeSizeData base c where
  entries := by
    rw [hc.entryIndex, ← hs.numTreeEntries]
    exact UInt64.ofNat_toNat
  levels := by
    rw [hc.levelIndex, ← hs.numTreeLevelStructs]
    exact UInt64.ofNat_toNat
  blocks := by
    rw [hc.blockIndex, ← hs.totalBlocksSize]
    exact UInt64.ofNat_toNat
  entryFrame := by
    rw [hs.numTreeEntries]
    exact hc.entries.entryFrame
  levelFrame := by
    rw [hs.numTreeLevelStructs]
    exact hc.levels.levelFrame
  blockFrame := by
    rw [hs.totalBlocksSize]
    exact hc.levels.blockFrame

/-- Sizing and creation agree when the structures fit into the address space, in
particular for all ascending entries. -/
theorem createPhysicalMemStructs_agrees
    (h : AscendingEntries pInitialMap ∨ requiredSize pInitialMap < 2 ^ 64) :
    SizingCreationAgree pInitialMap := by
  have hs := structsSizeData_exact (h.elim requiredSize_lt id)
  refine ⟨structsSizeData pInitialMap,
    getPhysicalMemStructsSizeData_returns pInitialMap, fun pBuffer base content => ?_⟩
  obtain ⟨c, hc, hrun⟩ := createTreesForMemoryRanges_returns pInitialMap
    (pBuffer + (structsSizeData pInitialMap).treeOffset) base hs.hasRoom
  refine ⟨c, _, hrun, createPhysicalMemTree_returns hc hrun, ?_,
    usedExactly_of_created hs hc, soundLayout_of_created hs hc.levels⟩
  rw [createPhysicalMemMap_exact hs]

/-- Two ascending entries with a gap between them. -/
theorem createPhysicalMemStructs_agrees_two_entries :
    SizingCreationAgree
      [⟨.usable, .mapped, 0, 0x1000, 0x1000, 2⟩,
        ⟨.acpiNVS, .mapped, 0, 0x8000, 0x8000, 1⟩] :=
  createPhysicalMemStructs_agrees (Or.inl ⟨by decide, by decide, by decide⟩)

end Agreement

section Repeated

/-- Equal entries are never joined: each starts before its predecessor's end. -/
theorem combinedPhysRanges_replicate
    {e : InitialMemMapEntry}
    (he : e.physicalAddress ≠ e.physicalAddress + e.numPhysicalPages * physicalPageSize)
    (n : Nat) :
    combinedPhysRanges (List.replicate n e) =
      List.replicate n ⟨e.physicalAddress, e.numPhysicalPages * physicalPageSize,
        e.memoryType, e.flags⟩ := by
  have hfrom : ∀ (n : Nat) (ranges : List PhysRange),
      iterateCombinedFrom (fun r rs => rs ++ [r]) e.physicalAddress e.numPhysicalPages
          (e.physicalAddress + e.numPhysicalPages * physicalPageSize) e.memoryType
          e.flags (List.replicate n e) ranges =
        ranges ++ List.replicate (n + 1) ⟨e.physicalAddress,
          e.numPhysicalPages * physicalPageSize, e.memoryType, e.flags⟩ := by
    intro n
    induction n with
    | zero =>
        intro ranges
        simp [iterateCombinedFrom]
    | succ n ih =>
        intro ranges
        rw [List.replicate_succ, iterateCombinedFrom, if_neg (fun h => he h.2.2), ih,
          List.append_assoc]
        rfl
  cases n with
  | zero =>
      rfl
  | succ n =>
      exact (hfrom n []).trans (List.nil_append _)

theorem length_levelList_replicate (r : PhysRange) (n : Nat) :
    (levelList (List.replicate n r)).length = n * (treeTop r + 1) := by
  simp [levelList]

theorem blockCount_levelList_replicate (r : PhysRange) (n : Nat) :
    blockCount (levelList (List.replicate n r)) = n * blockCount (treeLevels r) := by
  induction n with
  | zero =>
      simp
  | succ n ih =>
      rw [List.replicate_succ', levelList_concat, blockCount_append, ih, Nat.succ_mul]

/-- A usable entry over the lowest `2 ^ 62` bytes. -/
def quarterEntry : InitialMemMapEntry where
  memoryType := .usable
  usage := .mapped
  flags := 0
  physicalAddress := 0
  virtualAddress := 0
  numPhysicalPages := 0x4000000000000

/-- Its physical range. -/
def quarterRange : PhysRange where
  physicalAddress := 0
  rangeSize := 0x4000000000000000
  memType := .usable
  memFlags := 0

theorem treeTop_quarterRange : treeTop quarterRange = 50 := by
  refine (Nat.find_eq_iff _).mpr ⟨by decide +kernel, ?_⟩
  decide +kernel

theorem blockCount_quarterRange : blockCount (treeLevels quarterRange) = 2 ^ 51 - 16 := by
  rw [treeLevels, treeTop_quarterRange]
  decide +kernel

theorem treeRanges_quarter (n : Nat) :
    treeRanges (List.replicate n quarterEntry) = List.replicate n quarterRange := by
  rw [treeRanges, combinedPhysRanges_replicate (by decide)]
  exact List.filter_replicate_of_pos rfl

/-- The sizing of 8192 such entries wraps. -/
theorem bufferSize_quarter :
    (structsSizeData (List.replicate 8192 quarterEntry)).bufferSize = 14024704 := by
  rw [structsSizeData, treeRanges_quarter, combinedPhysRanges_replicate (by decide),
    countedSizeData, length_levelList_replicate, blockCount_levelList_replicate,
    treeTop_quarterRange, blockCount_quarterRange, List.length_replicate,
    List.length_replicate]
  decide +kernel

theorem hasRoom_quarter :
    HasRoom (structsSizeData (List.replicate 8192 quarterEntry)).treeSizeData
      (treeRanges (List.replicate 8192 quarterEntry)) := by
  rw [treeRanges_quarter]
  show HasRoom (layoutTreeBuffer (countedSizeData _)) _
  rw [treeRanges_quarter]
  have hlevels : (levelList (List.replicate 8192 quarterRange)).length = 417792 := by
    rw [length_levelList_replicate, treeTop_quarterRange]
  have hblocks : blockCount (levelList (List.replicate 8192 quarterRange)) =
      2 ^ 64 - 2 ^ 17 := by
    rw [blockCount_levelList_replicate, blockCount_quarterRange]
    rfl
  refine ⟨?_, ?_, ?_⟩
  · show _ ≤ (UInt64.ofNat (List.replicate 8192 quarterRange).length).toNat
    rw [List.length_replicate]
    decide
  · show _ ≤ (UInt64.ofNat (levelList (List.replicate 8192 quarterRange)).length).toNat
    rw [hlevels]
    decide
  · show _ ≤ (UInt64.ofNat (blockCount
      (levelList (List.replicate 8192 quarterRange)))).toNat
    rw [hblocks]
    decide

/-- Overlapping entries can need more than the address space has.  The sizing of
these wraps, and the blocks are then created far outside of the buffer. -/
theorem createPhysicalMemStructs_disagrees :
    (∀ e, e ∈ List.replicate 8192 quarterEntry → e.stop < 2 ^ 63) ∧
    ¬ SizingCreationAgree (List.replicate 8192 quarterEntry) := by
  refine ⟨fun e he => ?_, ?_⟩
  · rw [List.eq_of_mem_replicate he]
    decide
  · rintro ⟨s, hs, hagree⟩
    obtain rfl := hs.unique (getPhysicalMemStructsSizeData_returns _)
    let base : TreeMemory :=
      { entries := fun _ => ⟨.usable, 0, 0, 0, 0, 0, 0, none⟩
        levels := fun _ => ⟨0, 0, 0, 0, fun _ => 0⟩
        blocks := fun _ => 0 }
    obtain ⟨c, tree, hrun, -, -, -, hlayout⟩ :=
      hagree 0 base (fun _ => toMemoryRange quarterRange)
    obtain ⟨c', hc, hrun'⟩ := createTreesForMemoryRanges_returns
      (List.replicate 8192 quarterEntry) (0 + (structsSizeData
        (List.replicate 8192 quarterEntry)).treeOffset) base hasRoom_quarter
    obtain rfl := hrun.unique hrun'
    -- the last level of the first entry alone has `2 ^ 50` blocks
    have hlevel : (levelList (treeRanges (List.replicate 8192 quarterEntry)))[50]? =
        some (treeLevel quarterRange 0) := by
      have htree := treeLevels_getElem? quarterRange (i := 50)
        (Nat.le_of_eq treeTop_quarterRange.symm)
      rw [treeTop_quarterRange] at htree
      have hlen : 50 < (treeLevels quarterRange).length := by
        rw [length_treeLevels, treeTop_quarterRange]
        decide
      rw [treeRanges_quarter, show 8192 = 8191 + 1 from rfl, List.replicate_succ,
        levelList, List.flatMap_cons, List.getElem?_append_left hlen]
      exact htree
    have hplaced := hc.levels.placed 50 _ hlevel
    have hnum : (c.memory.levels 50).numBlocks = 0x4000000000000 := by
      rw [hplaced.numBlocks]
      decide +kernel
    have hmem : 50 ∈ outOfLineLevels
        (structsSizeData (List.replicate 8192 quarterEntry)) c.memory := by
      refine List.mem_filter.mpr ⟨List.mem_range.mpr ?_, ?_⟩
      · exact Nat.lt_of_lt_of_le (List.getElem?_eq_some_iff.mp hlevel).1
          hasRoom_quarter.levels
      · rw [hnum]
        decide
    have hin := hlayout.inside (blockPart _ c.memory 50)
      (List.mem_cons_of_mem _ (List.mem_cons_of_mem _ (List.mem_append_left _
        (List.mem_map_of_mem hmem))))
    rw [bufferSize_quarter, blockPart, hnum,
      show (0x4000000000000 : UInt64).toNat = 2 ^ 50 from rfl,
      show (14024704 : UInt64).toNat = 14024704 from rfl] at hin
    dsimp only at hin
    omega

end Repeated

end Kernel
end DexprOS
