import DexprOS.Kernel.Memory.PhysicalMemTreeAccel
import Mathlib.Tactic.IntervalCases

/-!
# Pages of a tree and what the blocks above say about them

Pages, levels and blocks as a reader of the tree finds them: by the entry's level
array, the start of a level and the index of a block.

Main facts:
* `fillTreeAccelBlocks_pages`: a block is the summary of the pages it covers;
* `fillTreeAccelBlocks_bounds`: emptiness and fullness are exact, the error of the
  value between them is bounded;
* `fillTreeAccelBlocks_bits`: what the availability bits mean.
-/

namespace DexprOS
namespace Kernel

open Fuel HalvingSummary

section Pages

/-- `&pEntry->pTreeLevels[pEntry->numTreeLevels - 1 - h]`. -/
def levelOfHeight (entry : PhysicalMemTreeEntry) (h : Nat) : Nat :=
  entry.pTreeLevels + (entry.numTreeLevels.toNat - 1 - h)

/-- Number of the first page of a level. -/
def levelFirstPage (m : TreeMemory) (iLevel : Nat) : Nat :=
  (m.levels iLevel).startMappedAddress.toNat / 4096

/-- Page `p` has an available block in the last level of the entry. -/
def pageAvailable (m : TreeMemory) (iEntry p : Nat) : Bool :=
  let iLevel := lastLevel (m.entries iEntry)
  let first := levelFirstPage m iLevel
  first ≤ p ∧ p < first + (m.levels iLevel).numBlocks.toNat ∧
    m.block iLevel (p - first) = physMemPageAvailableBit

/-- The entry has a level at height `h` with a block `i`. -/
def EntryHasBlock (m : TreeMemory) (iEntry h i : Nat) : Prop :=
  h < (m.entries iEntry).numTreeLevels.toNat ∧
    i < (m.levels (levelOfHeight (m.entries iEntry) h)).numBlocks.toNat

/-- Block `i` of the entry's level at height `h`. -/
def entryBlock (m : TreeMemory) (iEntry h i : Nat) : UInt8 :=
  m.block (levelOfHeight (m.entries iEntry) h) i

/-- Number of the block, counted from address zero in blocks of its size. -/
def entryBlockNumber (m : TreeMemory) (iEntry h i : Nat) : Nat :=
  levelFirstPage m (levelOfHeight (m.entries iEntry) h) / 2 ^ h + i

/-- Number of available pages among the `2 ^ h` pages that the block covers. -/
def availablePages (m : TreeMemory) (iEntry h i : Nat) : Nat :=
  Nat.count (fun j => pageAvailable m iEntry
    (levelFirstPage m (levelOfHeight (m.entries iEntry) h) + i * 2 ^ h + j)) (2 ^ h)

/-- Every block of the entry's last level is either available or not. -/
def PagesAssigned (m : TreeMemory) (iEntry : Nat) : Prop :=
  ∀ i, i < (m.levels (lastLevel (m.entries iEntry))).numBlocks.toNat →
    m.block (lastLevel (m.entries iEntry)) i = physMemPageAvailableBit ∨
    m.block (lastLevel (m.entries iEntry)) i = physMemPageUnavailable

end Pages

section Summary

variable {ranges : List PhysRange} {tree : PhysicalMemTree} {m m' : TreeMemory}
  {k h i : Nat} {r : PhysRange}

theorem TreeShape.levelOfHeight_eq
    (hm : TreeShape ranges tree m) (hk : ranges[k]? = some r) :
    levelOfHeight (m.entries k) h = levelIndex ranges k r h := by
  rw [levelOfHeight, hm.numTreeLevels_toNat hk, hm.pTreeLevels k r hk, levelIndex,
    Nat.add_sub_cancel]

theorem TreeShape.entryHasBlock_iff
    (hm : TreeShape ranges tree m) (hk : ranges[k]? = some r) :
    EntryHasBlock m k h i ↔ HasBlock ranges k r h i := by
  rw [EntryHasBlock, hm.numTreeLevels_toNat hk, hm.levelOfHeight_eq hk]
  constructor
  · rintro ⟨hh, hi⟩
    have hle := Nat.le_of_lt_succ hh
    rw [(hm.levelAt hk hle).2.2] at hi
    exact ⟨hk, hle, hi⟩
  · rintro ⟨-, hh, hi⟩
    exact ⟨Nat.lt_succ_of_le hh, by rw [(hm.levelAt hk hh).2.2]; exact hi⟩

theorem TreeShape.levelFirstPage_eq
    (hm : TreeShape ranges tree m) (hk : ranges[k]? = some r) (hh : h ≤ treeTop r) :
    levelFirstPage m (levelIndex ranges k r h) =
      firstBlock r.physicalAddress h * 2 ^ h := by
  have htop : treeTop r ≤ 51 := topHeight_le _ _
  rw [levelFirstPage, (hm.levelAt hk hh).1]
  exact levelAt_minMappedAddress_div (by omega)

/-- An available page is a leaf that is full. -/
theorem TreeShape.pageAvailable_eq
    (hm : TreeShape ranges tree m) (hk : ranges[k]? = some r) :
    pageAvailable m k = leaf ranges k r m := by
  funext p
  have hfirst := hm.levelFirstPage_eq hk (Nat.zero_le _)
  rw [Nat.pow_zero, Nat.mul_one] at hfirst
  rw [pageAvailable, leaf, hm.lastLevel hk, hfirst,
    (hm.levelAt hk (Nat.zero_le _)).2.2, nodeState]
  refine decide_eq_decide.mpr ?_
  split_ifs with hp
  · simp [hp]
  · simp only [← and_assoc, hp, false_and, false_iff]
    decide

theorem TreeShape.leavesAssigned
    (hm : TreeShape ranges tree m) (h : PagesAssigned m k) :
    LeavesAssigned ranges k m := by
  intro r i hb
  have hlast := hm.lastLevel hb.entry
  rw [← hlast]
  exact h i (by rw [hlast]; exact hb.lt_numBlocks hm)

theorem TreeShape.entryBlockNumber_eq
    (hm : TreeShape ranges tree m) (hb : HasBlock ranges k r h i) :
    entryBlockNumber m k h i = firstBlock r.physicalAddress h + i := by
  rw [entryBlockNumber, hm.levelOfHeight_eq hb.entry,
    hm.levelFirstPage_eq hb.entry hb.height, Nat.mul_div_cancel _ (Nat.two_pow_pos h)]

/-- The pages that a block covers are the places under its node. -/
theorem TreeShape.availablePages_eq
    (hm : TreeShape ranges tree m) (hb : HasBlock ranges k r h i) :
    availablePages m k h i =
      fullPlaces (pageAvailable m k) h (entryBlockNumber m k h i) := by
  rw [hm.entryBlockNumber_eq hb, availablePages, hm.levelOfHeight_eq hb.entry,
    hm.levelFirstPage_eq hb.entry hb.height, ← Nat.add_mul, fullPlaces]

/-- In a created tree whose pages are assigned, the filling of the acceleration
levels makes every block the summary of the pages that it covers. -/
theorem fillTreeAccelBlocks_pages
    (hm : TreeShape ranges tree m) (hpos : 0 < ranges.length)
    (hassigned : ∀ k, k < ranges.length → PagesAssigned m k) :
    ∃ m', Returns (fillTreeAccelBlocks tree m) m' ∧ SameShape m m' ∧
      ∀ k, k < ranges.length →
        pageAvailable m' k = pageAvailable m k ∧
        ∀ h i, EntryHasBlock m' k h i →
          (entryBlock m' k h i).toNat =
            summary (pageAvailable m k) h (entryBlockNumber m k h i) ∧
          availablePages m k h i =
            fullPlaces (pageAvailable m k) h (entryBlockNumber m k h i) := by
  obtain ⟨m', hrun, hshape, hblocks⟩ := fillTreeAccelBlocks_returns hm hpos
    (fun k hk => hm.leavesAssigned (hassigned k hk))
  refine ⟨m', hrun, hshape, fun k hk => ?_⟩
  have hm' := hm.of_sameShape hshape
  have hentry := List.getElem?_eq_getElem hk
  obtain ⟨hleaf, hsummary⟩ := hblocks k _ hentry
  refine ⟨?_, fun h i hb => ?_⟩
  · rw [hm'.pageAvailable_eq hentry, hm.pageAvailable_eq hentry]
    funext p
    rw [leaf, leaf, hleaf]
  · have hb := (hm'.entryHasBlock_iff hentry).mp hb
    refine ⟨?_, hm.availablePages_eq hb⟩
    have hindex := hb.index
    rw [hm.entryBlockNumber_eq hb, entryBlock, hm'.levelOfHeight_eq hentry,
      ← nodeState_firstBlock_add hb.index, hsummary h hb.height (by omega),
      hm.pageAvailable_eq hentry]

end Summary

section MebibyteTree

/-- One usable mebibyte of 256 pages, from the address `0x100000` on. -/
def mebibyteMap : List InitialMemMapEntry :=
  [⟨.usable, .mapped, 0, 0x100000, 0x100000, 256⟩]

/-- Its combined range. -/
def mebibyteRange : PhysRange where
  physicalAddress := 0x100000
  rangeSize := 0x100000
  memType := .usable
  memFlags := 0

/-- What the sizing returns for it. -/
def mebibyteSizeData : PhysMemTreeSizeData where
  bufferAlignment := 16
  bufferSize := 848
  treeEntriesOffset := 0
  numTreeEntries := 1
  treeLevelStructsOffset := 64
  numTreeLevelStructs := 9
  blocksOffset := 352
  totalBlocksSize := 496

theorem treeRanges_mebibyte : treeRanges mebibyteMap = [mebibyteRange] := by
  decide

theorem treeTop_mebibyteRange : treeTop mebibyteRange = 8 := by
  refine (Nat.find_eq_iff _).mpr ⟨by decide, ?_⟩
  decide

theorem levelList_mebibyte :
    levelList [mebibyteRange] = (List.range 9).map (fun i => treeLevel mebibyteRange (8 - i)) := by
  rw [levelList, List.flatMap_cons, List.flatMap_nil, List.append_nil, treeLevels,
    treeTop_mebibyteRange]
  decide

theorem treeBuffer_mebibyte : TreeBuffer 0x200000 mebibyteSizeData :=
  ⟨by decide, by decide, by decide, by decide, by decide, by decide⟩

theorem hasRoom_mebibyte : HasRoom mebibyteSizeData (treeRanges mebibyteMap) := by
  rw [treeRanges_mebibyte]
  refine ⟨by decide, ?_, ?_⟩ <;> rw [levelList_mebibyte] <;> decide

theorem getPhysicalMemTreeSize_mebibyte :
    Returns (getPhysicalMemTreeSize mebibyteMap) mebibyteSizeData := by
  have hrun := getPhysicalMemTreeSize_returns mebibyteMap
  rw [treeRanges_mebibyte, countedSizeData, levelList_mebibyte] at hrun
  exact hrun

/-- A memory of zeros. -/
def zeroTreeMemory : TreeMemory where
  entries := fun _ => ⟨.unusable, 0, 0, 0, 0, 0, 0, none⟩
  levels := fun _ => ⟨0, 0, 0, 0, fun _ => 0⟩
  blocks := fun _ => 0

/-- The memory with the blocks at the given offsets available, and no others. -/
def withAvailable (offsets : List Nat) (m : TreeMemory) : TreeMemory :=
  { m with
    blocks := fun offset =>
      if offset ∈ offsets then physMemPageAvailableBit else physMemPageUnavailable }

theorem sameShape_withAvailable (offsets : List Nat) (m : TreeMemory) :
    SameShape m (withAvailable offsets m) :=
  ⟨rfl, fun _ => rfl⟩

/-- The tree is created, and the blocks of its pages start at offset 240. -/
theorem createPhysicalMemTree_mebibyte :
    ∃ tree m, Returns (createPhysicalMemTree mebibyteMap 0x200000 mebibyteSizeData
        zeroTreeMemory) (true, tree, m) ∧
      TreeShape [mebibyteRange] tree m ∧
      (m.levels 8).startMappedAddress = 0x100000 ∧ (m.levels 8).numBlocks = 256 ∧
      m.levelBlocks 8 = .outOfLine 240 := by
  obtain ⟨c, hc, hcreate⟩ := createTreesForMemoryRanges_returns mebibyteMap 0x200000
    zeroTreeMemory hasRoom_mebibyte
  have hrun := createPhysicalMemTree_returns hc hcreate
  have hm := TreeShape.of_success treeBuffer_mebibyte hrun
  rw [treeRanges_mebibyte] at hm
  have hlevel := hc.levels.placed 8 (treeLevel mebibyteRange 0) (by
    rw [treeRanges_mebibyte, levelList_mebibyte]
    rfl)
  have hnum : (c.memory.levels 8).numBlocks = 256 := by
    rw [hlevel.numBlocks]
    decide
  have hblocks : (c.memory.levels 8).pBlocks = 240 := by
    rw [hlevel.pBlocks (by decide), treeRanges_mebibyte, levelList_mebibyte]
    decide
  refine ⟨_, c.memory, hrun, hm, ?_, hnum, ?_⟩
  · rw [hlevel.startMappedAddress]
    decide
  · rw [TreeMemory.levelBlocks, hnum, hblocks]
    rfl

variable {tree : PhysicalMemTree} {m : TreeMemory}

theorem pagesAssigned_withAvailable
    (hm : TreeShape [mebibyteRange] tree m) (hptr : m.levelBlocks 8 = .outOfLine 240)
    (offsets : List Nat) :
    PagesAssigned (withAvailable offsets m) 0 := by
  have hshape := sameShape_withAvailable offsets m
  have hlast : lastLevel ((withAvailable offsets m).entries 0) = 8 := by
    rw [(hm.of_sameShape hshape).lastLevel (r := mebibyteRange) rfl, levelIndex,
      treeTop_mebibyteRange]
    rfl
  intro i _
  rw [hlast, TreeMemory.block, hshape.levelBlocks, hptr]
  show ite _ _ _ = _ ∨ ite _ _ _ = _
  split_ifs
  · exact Or.inl rfl
  · exact Or.inr rfl

/-- The available pages of the mebibyte. -/
theorem pageAvailable_withAvailable
    (hm : TreeShape [mebibyteRange] tree m)
    (hstart : (m.levels 8).startMappedAddress = 0x100000)
    (hnum : (m.levels 8).numBlocks = 256) (hptr : m.levelBlocks 8 = .outOfLine 240)
    (offsets : List Nat) :
    pageAvailable (withAvailable offsets m) 0 = fun p =>
      decide (256 ≤ p ∧ p < 512 ∧ 240 + (p - 256) ∈ offsets) := by
  have hshape := sameShape_withAvailable offsets m
  have hlast : lastLevel ((withAvailable offsets m).entries 0) = 8 := by
    rw [(hm.of_sameShape hshape).lastLevel (r := mebibyteRange) rfl, levelIndex,
      treeTop_mebibyteRange]
    rfl
  funext p
  rw [pageAvailable, hlast, levelFirstPage, hshape.startMappedAddress, hstart,
    hshape.numBlocks, hnum, TreeMemory.block, hshape.levelBlocks, hptr]
  refine decide_eq_decide.mpr (and_congr_right' (and_congr_right' ?_))
  show ite _ _ _ = _ ↔ _
  split_ifs with hp
  · exact ⟨fun _ => hp, fun _ => rfl⟩
  · exact ⟨fun heq => absurd heq (by decide), fun h => absurd h hp⟩

end MebibyteTree
section Bounds

/-- What the value `v` of a block at height `h` says about the number `c` of
available pages; the error is stated in pages, both sides times `2 ^ h`. -/
structure AccelBounds (h v c : Nat) : Prop where
  le : v ≤ 0x80
  empty : v = 0 ↔ c = 0
  full : v = 0x80 ↔ c = 2 ^ h
  exact : h ≤ 7 → v = c * 2 ^ (7 - h)
  error : 7 < h → v * 2 ^ h ≤ 128 * c + (h - 7) * 2 ^ h ∧
    128 * c ≤ v * 2 ^ h + (h - 7) * 2 ^ h

theorem accelBounds_summary (full : Nat → Bool) (h b : Nat) :
    AccelBounds h (summary full h b) (fullPlaces full h b) where
  le := summary_le full h b
  empty := summary_eq_zero_iff full h b
  full := summary_eq_full_iff full h b
  exact := fun hh => summary_exact full hh b
  error := by
    intro hh
    obtain ⟨d, rfl⟩ := Nat.exists_eq_add_of_lt hh
    have herror := summary_error full (d + 1) b
    rw [show 7 + d + 1 - 7 = d + 1 by omega]
    exact herror

variable {pInitialMap : List InitialMemMapEntry} {pBuffer : UInt64}
  {sizeData : PhysMemTreeSizeData} {base m₀ m : TreeMemory} {tree : PhysicalMemTree}

/-- Acceleration blocks never lie about emptiness and fullness, and their error is
bounded: in every created tree, for every assignment of its pages. -/
theorem fillTreeAccelBlocks_bounds
    (hbuffer : TreeBuffer pBuffer sizeData)
    (hcreate : Returns (createPhysicalMemTree pInitialMap pBuffer sizeData base)
      (true, tree, m₀))
    (hshape : SameShape m₀ m)
    (hassigned : ∀ k, k < (treeRanges pInitialMap).length → PagesAssigned m k)
    {k : Nat} (hk : k < (treeRanges pInitialMap).length) :
    ∃ m', Returns (fillTreeAccelBlocks tree m) m' ∧ SameShape m m' ∧
      pageAvailable m' k = pageAvailable m k ∧
      ∀ h i, EntryHasBlock m' k h i →
        AccelBounds h (entryBlock m' k h i).toNat (availablePages m k h i) := by
  have hm := (TreeShape.of_success hbuffer hcreate).of_sameShape hshape
  obtain ⟨m', hrun, hshape', hpages⟩ :=
    fillTreeAccelBlocks_pages hm (Nat.lt_of_le_of_lt (Nat.zero_le k) hk) hassigned
  obtain ⟨hsame, hblocks⟩ := hpages k hk
  refine ⟨m', hrun, hshape', hsame, fun h i hb => ?_⟩
  obtain ⟨hvalue, hcount⟩ := hblocks h i hb
  rw [hvalue, hcount]
  exact accelBounds_summary _ h _

/-- A mebibyte whose first page is available. -/
theorem fillTreeAccelBlocks_bounds_mebibyte :
    ∃ tree m₀ m', Returns (createPhysicalMemTree mebibyteMap 0x200000 mebibyteSizeData
        zeroTreeMemory) (true, tree, m₀) ∧
      Returns (fillTreeAccelBlocks tree (withAvailable [240] m₀)) m' ∧
      ∀ h i, EntryHasBlock m' 0 h i →
        AccelBounds h (entryBlock m' 0 h i).toNat
          (availablePages (withAvailable [240] m₀) 0 h i) := by
  obtain ⟨tree, m₀, hcreate, hm, -, -, hptr⟩ := createPhysicalMemTree_mebibyte
  have hlength : (treeRanges mebibyteMap).length = 1 := by rw [treeRanges_mebibyte]; rfl
  obtain ⟨m', hrun, -, -, hbounds⟩ := fillTreeAccelBlocks_bounds treeBuffer_mebibyte
    hcreate (sameShape_withAvailable [240] m₀)
    (fun k hk => by
      obtain rfl : k = 0 := by omega
      exact pagesAssigned_withAvailable hm hptr [240])
    (k := 0) (by omega)
  exact ⟨tree, m₀, m', hcreate, hrun, hbounds⟩

end Bounds

section Bits

/-- The highest set bit of a block's value. -/
def highestSetBit (v : UInt8) : UInt8 :=
  if v = 0 then 0 else UInt8.ofNat (2 ^ Nat.log2 v.toNat)

/-- The bit named after the fraction `1 / 2 ^ n` of a block. -/
def fractionAvailableBit : Nat → UInt8
  | 0 => physMemBlockFullyAvailableBit
  | 1 => physMemBlockHalfAvailableBit
  | 2 => physMemBlockQuarterAvailableBit
  | 3 => physMemBlock_1_8_AvailableBit
  | 4 => physMemBlock_1_16_AvailableBit
  | 5 => physMemBlock_1_32_AvailableBit
  | 6 => physMemBlock_1_64_AvailableBit
  | _ => physMemBlock_1_128_OrLessAvailableBit

/-- The bits of the value `v` of a block at height `h` with `c` available pages mean
exactly what they are named after. -/
structure BitsMean (h : Nat) (v : UInt8) (c : Nat) : Prop where
  fraction : ∀ n, 1 ≤ n → n ≤ 6 →
    (highestSetBit v = fractionAvailableBit n ↔
      2 ^ h ≤ c * 2 ^ n ∧ c * 2 ^ (n - 1) < 2 ^ h)
  orLess : highestSetBit v = physMemBlock_1_128_OrLessAvailableBit ↔
    0 < c ∧ c * 64 < 2 ^ h

/-- The bits never overstate by name, and they understate by at most one unit for
each level above height 7. -/
structure BitsBound (h : Nat) (v : UInt8) (c : Nat) : Prop where
  full : highestSetBit v = physMemBlockFullyAvailableBit ↔ c = 2 ^ h
  fraction : ∀ n, 1 ≤ n → n ≤ 6 → highestSetBit v = fractionAvailableBit n →
    2 ^ h ≤ c * 2 ^ n ∧ 128 * c < (2 ^ (8 - n) + (h - 7)) * 2 ^ h
  orLess : highestSetBit v = physMemBlock_1_128_OrLessAvailableBit →
    0 < c ∧ 128 * c < (2 + (h - 7)) * 2 ^ h
  none : highestSetBit v = physMemBlockUnavailable ↔ c = 0

theorem highestSetBit_eq_iff (v : UInt8) {n : Nat} (hn : n ≤ 7) :
    highestSetBit v = fractionAvailableBit n ↔
      2 ^ (7 - n) ≤ v.toNat ∧ v.toNat < 2 ^ (8 - n) := by
  have hbit : fractionAvailableBit n = UInt8.ofNat (2 ^ (7 - n)) := by
    interval_cases n <;> rfl
  have hpos : 0 < 2 ^ (7 - n) := Nat.two_pow_pos _
  rw [highestSetBit, hbit]
  split_ifs with hv
  · rw [hv, show (0 : UInt8).toNat = 0 from rfl]
    have hne : (0 : UInt8) ≠ UInt8.ofNat (2 ^ (7 - n)) := by
      interval_cases n <;> decide
    simp only [hne, false_iff]
    omega
  · have hne : v.toNat ≠ 0 := fun h => hv (UInt8.toNat_inj.mp h)
    have hlog : v.toNat.log2 < 8 := (Nat.log2_lt hne).mpr v.toNat_lt
    have hinj : UInt8.ofNat (2 ^ v.toNat.log2) = UInt8.ofNat (2 ^ (7 - n)) ↔
        v.toNat.log2 = 7 - n := by
      generalize v.toNat.log2 = l at hlog
      interval_cases l <;> interval_cases n <;> decide
    rw [hinj, Nat.log2_eq_iff hne, show 7 - n + 1 = 8 - n by omega]

theorem highestSetBit_eq_zero_iff (v : UInt8) :
    highestSetBit v = physMemBlockUnavailable ↔ v.toNat = 0 := by
  rw [highestSetBit]
  split_ifs with hv
  · simp [hv, physMemBlockUnavailable]
  · have hne : v.toNat ≠ 0 := fun h => hv (UInt8.toNat_inj.mp h)
    have hlog : v.toNat.log2 < 8 := (Nat.log2_lt hne).mpr v.toNat_lt
    simp only [hne, iff_false]
    generalize v.toNat.log2 = l at hlog
    interval_cases l <;> decide

variable {h c : Nat} {v : UInt8}

/-- Up to height 7 values are exact, so the bits are. -/
theorem bitsMean_of_exact
    (hh : h ≤ 7) (hv : v.toNat = c * 2 ^ (7 - h)) : BitsMean h v c := by
  have hscale : v.toNat * 2 ^ h = 128 * c := by
    rw [hv, Nat.mul_assoc, ← Nat.pow_add, Nat.sub_add_cancel hh, Nat.mul_comm]
  have hpow : 0 < 2 ^ h := Nat.two_pow_pos h
  have hbound : ∀ n, n ≤ 7 → (2 ^ (7 - n) ≤ v.toNat ↔ 2 ^ h ≤ c * 2 ^ n) := by
    intro n hn
    have hunit : 2 ^ (7 - n) * 2 ^ n = 128 := by
      rw [← Nat.pow_add, Nat.sub_add_cancel hn]
    rw [← Nat.mul_le_mul_right_iff (Nat.mul_pos hpow (Nat.two_pow_pos n)),
      ← Nat.mul_assoc v.toNat, hscale]
    rw [show 2 ^ (7 - n) * (2 ^ h * 2 ^ n) = 128 * 2 ^ h by rw [← hunit]; ring,
      Nat.mul_assoc]
    omega
  constructor
  · intro n hn hn'
    rw [highestSetBit_eq_iff v (by omega), hbound n (by omega), ← Nat.not_le,
      show 8 - n = 7 - (n - 1) by omega, hbound (n - 1) (by omega), Nat.not_le]
  · rw [show physMemBlock_1_128_OrLessAvailableBit = fractionAvailableBit 7 from rfl,
      highestSetBit_eq_iff v (Nat.le_refl 7), ← Nat.not_le,
      show 8 - 7 = 7 - 6 from rfl, hbound 6 (by decide), Nat.not_le]
    refine and_congr ?_ Iff.rfl
    have hzero : v.toNat = 0 ↔ c = 0 := by
      rw [hv]
      simp
    omega

/-- Above height 7 the bits are bounded by the error of the values. -/
theorem bitsBound_of_accelBounds
    (hh : 7 < h) (hv : AccelBounds h v.toNat c)
    (heven : v.toNat / 2 * 2 * 2 ^ h ≤ 128 * c) : BitsBound h v c := by
  have hpow : 0 < 2 ^ h := Nat.two_pow_pos h
  have hupper : ∀ x, v.toNat < x → 128 * c < (x + (h - 7)) * 2 ^ h := by
    intro x hx
    have hmul := Nat.mul_le_mul_right (2 ^ h) (Nat.succ_le_of_lt hx)
    rw [Nat.succ_mul] at hmul
    have herror := (hv.error hh).2
    rw [Nat.add_mul]
    omega
  refine ⟨?_, ?_, ?_, ?_⟩
  · rw [← hv.full, show physMemBlockFullyAvailableBit = fractionAvailableBit 0 from rfl,
      highestSetBit_eq_iff v (Nat.zero_le _)]
    have hle := hv.le
    omega
  · intro n hn hn' hbit
    obtain ⟨hlow, hhigh⟩ := (highestSetBit_eq_iff v (by omega)).mp hbit
    refine ⟨?_, hupper _ hhigh⟩
    have hdouble : 2 ^ (7 - n) = 2 ^ (6 - n) * 2 := by
      rw [← Nat.pow_succ, show (6 - n).succ = 7 - n by omega]
    have hunit : 2 ^ (7 - n) * 2 ^ n = 128 := by
      rw [← Nat.pow_add, Nat.sub_add_cancel (by omega)]
    have hlow' : 2 ^ (7 - n) ≤ v.toNat / 2 * 2 := by omega
    have hmul := Nat.le_trans (Nat.mul_le_mul_right (2 ^ h) hlow') heven
    refine Nat.le_of_mul_le_mul_left ?_ (Nat.two_pow_pos (7 - n))
    calc 2 ^ (7 - n) * 2 ^ h ≤ 128 * c := hmul
      _ = 2 ^ (7 - n) * (c * 2 ^ n) := by rw [← hunit]; ring
  · intro hbit
    obtain ⟨hlow, hhigh⟩ := (highestSetBit_eq_iff v (n := 7) (Nat.le_refl 7)).mp hbit
    refine ⟨?_, hupper 2 hhigh⟩
    have hempty := hv.empty
    omega
  · rw [highestSetBit_eq_zero_iff, hv.empty]

variable {pInitialMap : List InitialMemMapEntry} {pBuffer : UInt64}
  {sizeData : PhysMemTreeSizeData} {base m₀ m : TreeMemory} {tree : PhysicalMemTree}

/-- Up to height 7 the availability bits mean what they are named after; above it
they never overstate, and understate by a bounded amount. -/
theorem fillTreeAccelBlocks_bits
    (hbuffer : TreeBuffer pBuffer sizeData)
    (hcreate : Returns (createPhysicalMemTree pInitialMap pBuffer sizeData base)
      (true, tree, m₀))
    (hshape : SameShape m₀ m)
    (hassigned : ∀ k, k < (treeRanges pInitialMap).length → PagesAssigned m k)
    {k : Nat} (hk : k < (treeRanges pInitialMap).length) :
    ∃ m', Returns (fillTreeAccelBlocks tree m) m' ∧
      ∀ h i, 1 ≤ h → EntryHasBlock m' k h i →
        (h ≤ 7 → BitsMean h (entryBlock m' k h i) (availablePages m k h i)) ∧
        (7 < h → BitsBound h (entryBlock m' k h i) (availablePages m k h i)) := by
  have hm := (TreeShape.of_success hbuffer hcreate).of_sameShape hshape
  obtain ⟨m', hrun, -, hpages⟩ :=
    fillTreeAccelBlocks_pages hm (Nat.lt_of_le_of_lt (Nat.zero_le k) hk) hassigned
  obtain ⟨-, hblocks⟩ := hpages k hk
  refine ⟨m', hrun, fun h i _ hb => ?_⟩
  obtain ⟨hvalue, hcount⟩ := hblocks h i hb
  have hbounds := accelBounds_summary (pageAvailable m k) h (entryBlockNumber m k h i)
  have heven := summary_even_part_le (pageAvailable m k) h (entryBlockNumber m k h i)
  rw [← hvalue, ← hcount] at hbounds heven
  exact ⟨fun hh => bitsMean_of_exact hh (hbounds.exact hh),
    fun hh => bitsBound_of_accelBounds hh hbounds heven⟩

/-- A mebibyte whose first page is available. -/
theorem fillTreeAccelBlocks_bits_mebibyte :
    ∃ tree m₀ m', Returns (createPhysicalMemTree mebibyteMap 0x200000 mebibyteSizeData
        zeroTreeMemory) (true, tree, m₀) ∧
      Returns (fillTreeAccelBlocks tree (withAvailable [240] m₀)) m' ∧
      ∀ h i, 1 ≤ h → EntryHasBlock m' 0 h i →
        (h ≤ 7 → BitsMean h (entryBlock m' 0 h i)
          (availablePages (withAvailable [240] m₀) 0 h i)) ∧
        (7 < h → BitsBound h (entryBlock m' 0 h i)
          (availablePages (withAvailable [240] m₀) 0 h i)) := by
  obtain ⟨tree, m₀, hcreate, hm, -, -, hptr⟩ := createPhysicalMemTree_mebibyte
  have hlength : (treeRanges mebibyteMap).length = 1 := by rw [treeRanges_mebibyte]; rfl
  obtain ⟨m', hrun, hbits⟩ := fillTreeAccelBlocks_bits treeBuffer_mebibyte
    hcreate (sameShape_withAvailable [240] m₀)
    (fun k hk => by
      obtain rfl : k = 0 := by omega
      exact pagesAssigned_withAvailable hm hptr [240])
    (k := 0) (by omega)
  exact ⟨tree, m₀, m', hcreate, hrun, hbits⟩

/-- Three available pages in the lower half of the mebibyte and one in the upper
half are `1 / 64` of it, but the top block only has the lowest bit set. -/
theorem fillTreeAccelBlocks_bits_height_eight :
    TreeBuffer 0x200000 mebibyteSizeData ∧
    Returns (getPhysicalMemTreeSize mebibyteMap) mebibyteSizeData ∧
    ∃ tree m₀ m', Returns (createPhysicalMemTree mebibyteMap 0x200000 mebibyteSizeData
        zeroTreeMemory) (true, tree, m₀) ∧
      SameShape m₀ (withAvailable [240, 241, 242, 368] m₀) ∧
      PagesAssigned (withAvailable [240, 241, 242, 368] m₀) 0 ∧
      Returns (fillTreeAccelBlocks tree (withAvailable [240, 241, 242, 368] m₀)) m' ∧
      EntryHasBlock m' 0 8 0 ∧
      ¬ BitsMean 8 (entryBlock m' 0 8 0)
        (availablePages (withAvailable [240, 241, 242, 368] m₀) 0 8 0) := by
  obtain ⟨tree, m₀, hcreate, hm, hstart, hnum, hptr⟩ := createPhysicalMemTree_mebibyte
  have hshape := sameShape_withAvailable [240, 241, 242, 368] m₀
  have hassigned := pagesAssigned_withAvailable hm hptr [240, 241, 242, 368]
  have hm' := hm.of_sameShape hshape
  obtain ⟨m', hrun, hshape', hpages⟩ := fillTreeAccelBlocks_pages hm' (by decide)
    (fun k hk => by
      obtain rfl : k = 0 := Nat.lt_one_iff.mp hk
      exact hassigned)
  refine ⟨treeBuffer_mebibyte, getPhysicalMemTreeSize_mebibyte, tree, m₀, m', hcreate,
    hshape, hassigned, hrun, ?_, ?_⟩
  all_goals
    have hb : HasBlock [mebibyteRange] 0 mebibyteRange 8 0 :=
      ⟨rfl, by rw [treeTop_mebibyteRange], by decide⟩
    have hentry := ((hm'.of_sameShape hshape').entryHasBlock_iff hb.entry).mpr hb
  · exact hentry
  · obtain ⟨hvalue, hcount⟩ := (hpages 0 (by decide)).2 8 0 hentry
    rw [pageAvailable_withAvailable hm hstart hnum hptr, hm'.entryBlockNumber_eq hb,
      show firstBlock mebibyteRange.physicalAddress 8 + 0 = 1 by decide] at hvalue hcount
    have hone : entryBlock m' 0 8 0 = 1 := by
      rw [← UInt8.toNat_inj, hvalue]
      decide +kernel
    have hfour : availablePages (withAvailable [240, 241, 242, 368] m₀) 0 8 0 = 4 := by
      rw [hcount]
      decide +kernel
    intro hmean
    rw [hone, hfour] at hmean
    exact absurd ((hmean.fraction 6 (by decide) (by decide)).mpr (by decide)) (by decide)

end Bits

end Kernel
end DexprOS
