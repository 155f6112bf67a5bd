import DexprOS.Kernel.Memory.InitialMemMap
import DexprOS.Library.Overlay

/-!
# The physical memory map

The map of all combined physical ranges that is stored next to the physical
memory tree.

Main facts:
* `getPhysicalMemMapSize_eq`: the size asked for is that of all combined ranges;
* `foldl_fillMemMapEntry_stored`: those for which there is room are stored, in order;
* `createPhysicalMemMap_stores`: what is written to a buffer of any size.
-/

namespace DexprOS
namespace Kernel

open Overlay

section PhysicalMemMapGen

/-- `DexprOS_PhysicalMemoryRange`. -/
structure PhysicalMemoryRange where
  memoryType : PhysicalMemoryType
  physicalAddress : UInt64
  rangeSize : UInt64
  flags : UInt64
deriving DecidableEq, Repr

def sizeofPhysicalMemoryRange : UInt64 := 32

/-- `DexprOS_PhysicalMemMap`. -/
structure PhysicalMemMap where
  numEntries : UInt64
  pEntries : UInt64

/-- `CountMemoryRanges`. -/
def countMemoryRanges (_ : PhysRange) (numEntries : UInt64) : UInt64 :=
  numEntries + 1

/-- `DexprOS_GetPhysicalMemMapSize`: buffer size and buffer alignment. -/
def getPhysicalMemMapSize (pInitialMap : List InitialMemMapEntry) :
    UInt64 × UInt64 :=
  (iterateInitialMemMapCombinedPhysRanges pInitialMap countMemoryRanges 0 *
    sizeofPhysicalMemoryRange, fundamentalAlignment)

/-- `DexprOS_PhysMemMapFillData`, with what the memory behind `pEntries` holds. -/
structure PhysMemMapFillData where
  pEntries : UInt64
  content : Nat → PhysicalMemoryRange
  bufferSize : UInt64
  currentIndex : UInt64
  success : Bool

/-- The assignments of `FillMemMapEntry` for a range. -/
def toMemoryRange (r : PhysRange) : PhysicalMemoryRange where
  memoryType := r.memType
  physicalAddress := r.physicalAddress
  rangeSize := r.rangeSize
  flags := r.memFlags

/-- `FillMemMapEntry`. -/
def fillMemMapEntry (r : PhysRange) (fillData : PhysMemMapFillData) :
    PhysMemMapFillData :=
  let index := fillData.currentIndex
  let currentSize := (index + 1) * sizeofPhysicalMemoryRange
  if fillData.bufferSize < currentSize then
    { fillData with success := false }
  else
    { fillData with
      content := Function.update fillData.content index.toNat (toMemoryRange r)
      currentIndex := fillData.currentIndex + 1 }

/-- `DexprOS_CreatePhysicalMemMap`: the result, the map and the memory. -/
def createPhysicalMemMap (pInitialMap : List InitialMemMapEntry) (pBuffer : UInt64)
    (bufferSize : UInt64) (content : Nat → PhysicalMemoryRange) :
    Bool × PhysicalMemMap × (Nat → PhysicalMemoryRange) :=
  let fillData := iterateInitialMemMapCombinedPhysRanges pInitialMap fillMemMapEntry
    { pEntries := pBuffer
      content := content
      bufferSize := bufferSize
      currentIndex := 0
      success := true }
  (fillData.success,
    { numEntries := fillData.currentIndex, pEntries := fillData.pEntries },
    fillData.content)

end PhysicalMemMapGen

section Correctness

theorem foldl_countMemoryRanges (ranges : List PhysRange) :
    ranges.foldl (fun n r => countMemoryRanges r n) 0 =
      UInt64.ofNat ranges.length := by
  induction ranges using List.reverseRecOn with
  | nil =>
      rfl
  | append_singleton ranges r ih =>
      rw [List.foldl_append, ih, List.length_append, UInt64.ofNat_add]
      rfl

/-- The size asked for is that of all combined ranges. -/
theorem getPhysicalMemMapSize_eq (pInitialMap : List InitialMemMapEntry) :
    getPhysicalMemMapSize pInitialMap =
      (UInt64.ofNat (combinedPhysRanges pInitialMap).length *
        sizeofPhysicalMemoryRange, fundamentalAlignment) := by
  rw [getPhysicalMemMapSize, iterateInitialMemMapCombinedPhysRanges_eq_foldl,
    foldl_countMemoryRanges]

/-- How many ranges a buffer of that size has room for. -/
def storedRanges (ranges : List PhysRange) (bufferSize : UInt64) : Nat :=
  min ranges.length (bufferSize.toNat / 32)

/-- The test of `FillMemMapEntry` for the range behind `n` stored ones. -/
theorem fillMemMapEntry_fits_iff {n : Nat} (hn : n < 2 ^ 59 - 1) (bufferSize : UInt64) :
    bufferSize < (UInt64.ofNat n + 1) * sizeofPhysicalMemoryRange ↔
      bufferSize.toNat / 32 ≤ n := by
  have hsize : ((UInt64.ofNat n + 1) * sizeofPhysicalMemoryRange).toNat = (n + 1) * 32 := by
    have hnext : (UInt64.ofNat n + 1).toNat = n + 1 := by
      rw [UInt64.toNat_add, UInt64.toNat_ofNat_of_lt' (by simp only [UInt64.size]; omega),
        show (1 : UInt64).toNat = 1 from rfl]
      exact Nat.mod_eq_of_lt (by omega)
    rw [UInt64.toNat_mul, hnext, show sizeofPhysicalMemoryRange.toNat = 32 from rfl]
    exact Nat.mod_eq_of_lt (by omega)
  rw [UInt64.lt_iff_toNat_lt, hsize]
  omega

/-- The ranges for which there is room are stored in order; the other ones change nothing
but the result. -/
theorem foldl_fillMemMapEntry_stored
    (pEntries bufferSize : UInt64) (content : Nat → PhysicalMemoryRange)
    (ranges : List PhysRange) (hlen : ranges.length < 2 ^ 59) :
    ranges.foldl (fun s r => fillMemMapEntry r s)
        ⟨pEntries, content, bufferSize, 0, true⟩ =
      ⟨pEntries,
        overlay ((ranges.take (storedRanges ranges bufferSize)).map toMemoryRange) content,
        bufferSize, UInt64.ofNat (storedRanges ranges bufferSize),
        decide (ranges.length * 32 ≤ bufferSize.toNat)⟩ := by
  induction ranges using List.reverseRecOn with
  | nil =>
      simp [storedRanges]
  | append_singleton ranges r ih =>
      rw [List.length_append, List.length_singleton] at hlen
      have hstored : storedRanges ranges bufferSize ≤ ranges.length := Nat.min_le_left _ _
      have hindex : (UInt64.ofNat (storedRanges ranges bufferSize)).toNat =
          storedRanges ranges bufferSize :=
        UInt64.toNat_ofNat_of_lt' (by simp only [UInt64.size]; omega)
      have hfits := fillMemMapEntry_fits_iff (n := storedRanges ranges bufferSize)
        (by omega) bufferSize
      rw [List.foldl_append, ih (by omega), List.foldl_cons, List.foldl_nil]
      by_cases hfull : bufferSize.toNat / 32 ≤ ranges.length
      · -- The buffer is full: the range is refused.
        have hold : storedRanges ranges bufferSize = bufferSize.toNat / 32 :=
          Nat.min_eq_right hfull
        have hnew : storedRanges (ranges ++ [r]) bufferSize = bufferSize.toNat / 32 := by
          rw [storedRanges, List.length_append, List.length_singleton]
          exact Nat.min_eq_right (by omega)
        have hrefused : ¬ (ranges ++ [r]).length * 32 ≤ bufferSize.toNat := by
          rw [List.length_append, List.length_singleton]
          omega
        rw [fillMemMapEntry, if_pos (hfits.mpr hold.ge), hnew, hold,
          List.take_append_of_le_length hfull, decide_eq_false hrefused]
      · -- There is room: all ranges so far are stored, and this one behind them.
        have hold : storedRanges ranges bufferSize = ranges.length :=
          Nat.min_eq_left (by omega)
        have hnew : storedRanges (ranges ++ [r]) bufferSize = ranges.length + 1 := by
          rw [storedRanges, List.length_append, List.length_singleton]
          exact Nat.min_eq_left (by omega)
        rw [hold] at hindex hfits
        have hall : ranges.length * 32 ≤ bufferSize.toNat ∧
            (ranges.length + 1) * 32 ≤ bufferSize.toNat := by
          omega
        simp only [hold, fillMemMapEntry, if_neg (mt hfits.mp hfull), hindex, hnew,
          List.take_length, List.length_append, List.length_singleton,
          decide_eq_true hall.1, decide_eq_true hall.2, UInt64.ofNat_add]
        rw [List.take_of_length_le (by simp), List.map_append, List.map_singleton,
          overlay_concat, List.length_map]
        rfl

/-- With enough room all ranges are stored in order. -/
theorem foldl_fillMemMapEntry
    (pEntries bufferSize : UInt64) (content : Nat → PhysicalMemoryRange)
    (ranges : List PhysRange)
    (hroom : ranges.length * 32 ≤ bufferSize.toNat) :
    ranges.foldl (fun s r => fillMemMapEntry r s)
        ⟨pEntries, content, bufferSize, 0, true⟩ =
      ⟨pEntries, overlay (ranges.map toMemoryRange) content, bufferSize,
        UInt64.ofNat ranges.length, true⟩ := by
  have hlt := bufferSize.toNat_lt
  have hstored : storedRanges ranges bufferSize = ranges.length := Nat.min_eq_left (by omega)
  rw [foldl_fillMemMapEntry_stored _ _ _ _ (by omega), hstored, List.take_length,
    decide_eq_true hroom]

/-- The entries of the map can be an array in memory: each of them takes 40 bytes. -/
def FitsInMemory (pInitialMap : List InitialMemMapEntry) : Prop :=
  40 * pInitialMap.length ≤ 2 ^ 64

theorem length_combinedPhysRanges_le (pInitialMap : List InitialMemMapEntry) :
    (combinedPhysRanges pInitialMap).length ≤ pInitialMap.length := by
  have hfrom : ∀ (entries : List InitialMemMapEntry) (start numPages rangeEnd : UInt64)
      (memType : PhysicalMemoryType) (memFlags : UInt64) (ranges : List PhysRange),
      (iterateCombinedFrom (fun r rs => rs ++ [r]) start numPages rangeEnd memType memFlags
        entries ranges).length ≤ ranges.length + 1 + entries.length := by
    intro entries
    induction entries with
    | nil =>
        intro start numPages rangeEnd memType memFlags ranges
        simp [iterateCombinedFrom]
    | cons e entries ih =>
        intro start numPages rangeEnd memType memFlags ranges
        rw [iterateCombinedFrom, List.length_cons]
        split
        · exact (ih _ _ _ _ _ _).trans (by omega)
        · refine (ih _ _ _ _ _ _).trans ?_
          rw [List.length_append, List.length_singleton]
          omega
  cases pInitialMap with
  | nil =>
      exact Nat.le_refl 0
  | cons e entries =>
      have hle := hfrom entries e.physicalAddress e.numPhysicalPages
        (e.physicalAddress + e.numPhysicalPages * physicalPageSize) e.memoryType e.flags []
      rw [List.length_cons]
      exact hle.trans (by simp only [List.length_nil]; omega)

/-- **A buffer of any size**: the first ranges for which it has room are stored, nothing else
is written, and the result says whether it has the size that was asked for. -/
theorem createPhysicalMemMap_stores
    {pInitialMap : List InitialMemMapEntry} (hmap : FitsInMemory pInitialMap)
    (pBuffer bufferSize : UInt64) (content : Nat → PhysicalMemoryRange) :
    let ranges := combinedPhysRanges pInitialMap
    let k := min ranges.length (bufferSize.toNat / 32)
    ∃ created memMap content',
      createPhysicalMemMap pInitialMap pBuffer bufferSize content =
        (created, memMap, content') ∧
      memMap.pEntries = pBuffer ∧ memMap.numEntries.toNat = k ∧
      (∀ i r, i < k → ranges[i]? = some r → content' i = toMemoryRange r) ∧
      (∀ i, k ≤ i → content' i = content i) ∧
      (created = true ↔ (getPhysicalMemMapSize pInitialMap).1 ≤ bufferSize) := by
  intro ranges k
  have hlen : ranges.length < 2 ^ 59 := by
    have hle : ranges.length ≤ pInitialMap.length := length_combinedPhysRanges_le pInitialMap
    have hmap : 40 * pInitialMap.length ≤ 2 ^ 64 := hmap
    omega
  have hk : k ≤ ranges.length := Nat.min_le_left _ _
  have hfill := foldl_fillMemMapEntry_stored pBuffer bufferSize content ranges hlen
  have hlength : ((ranges.take k).map toMemoryRange).length = k := by
    rw [List.length_map, List.length_take, Nat.min_eq_left hk]
  refine ⟨decide (ranges.length * 32 ≤ bufferSize.toNat), ⟨UInt64.ofNat k, pBuffer⟩,
    overlay ((ranges.take k).map toMemoryRange) content, ?_, rfl, ?_, ?_, ?_, ?_⟩
  · rw [createPhysicalMemMap, iterateInitialMemMapCombinedPhysRanges_eq_foldl, hfill]
    rfl
  · exact UInt64.toNat_ofNat_of_lt' (by simp only [UInt64.size]; omega)
  · intro i r hi hr
    have hget : ((ranges.take k).map toMemoryRange)[i]? = some (toMemoryRange r) := by
      rw [List.getElem?_map, List.getElem?_take_of_lt hi, hr, Option.map_some]
    rw [overlay, hget, Option.getD_some]
  · intro i hi
    exact overlay_of_length_le (hlength.trans_le hi) content
  · have hsize : (UInt64.ofNat ranges.length * sizeofPhysicalMemoryRange).toNat =
        ranges.length * 32 := by
      rw [UInt64.toNat_mul, UInt64.toNat_ofNat_of_lt' (by simp only [UInt64.size]; omega),
        show sizeofPhysicalMemoryRange.toNat = 32 from rfl]
      exact Nat.mod_eq_of_lt (by omega)
    rw [getPhysicalMemMapSize_eq, UInt64.le_iff_toNat_le, hsize]
    exact decide_eq_true_iff

/-- Two ranges, and a buffer for one of them. -/
theorem createPhysicalMemMap_stores_one_of_two :
    ∃ memMap content',
      createPhysicalMemMap
          [⟨.usable, .mapped, 0, 0x1000, 0x1000, 2⟩, ⟨.acpiNVS, .mapped, 0, 0x8000, 0x8000, 1⟩]
          0x9000 63 (fun _ => ⟨.max, 0, 0, 0⟩) = (false, memMap, content') ∧
      memMap.numEntries.toNat = 1 ∧ content' 0 = ⟨.usable, 0x1000, 0x2000, 0⟩ ∧
      content' 1 = ⟨.max, 0, 0, 0⟩ := by
  have hmap : FitsInMemory [⟨.usable, .mapped, 0, 0x1000, 0x1000, 2⟩,
      ⟨.acpiNVS, .mapped, 0, 0x8000, 0x8000, 1⟩] := by
    unfold FitsInMemory
    decide
  obtain ⟨created, memMap, content', hrun, -, hnum, hstored, hrest, hresult⟩ :=
    createPhysicalMemMap_stores hmap 0x9000 63
      (fun _ => ⟨.max, 0, 0, 0⟩)
  have hcreated : created = false :=
    Bool.eq_false_iff.mpr fun h => absurd (hresult.mp h) (by decide)
  subst hcreated
  exact ⟨memMap, content', hrun, hnum,
    hstored 0 ⟨0x1000, 0x2000, .usable, 0⟩ (by decide) (by decide), hrest 1 (by decide)⟩

end Correctness

end Kernel
end DexprOS
