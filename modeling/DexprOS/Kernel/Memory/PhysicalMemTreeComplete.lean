import DexprOS.Kernel.Memory.PhysicalMemStructsSize
import DexprOS.Kernel.Memory.PhysicalMemTreePages
import Mathlib.Data.List.Forall2

/-!
# The entries that are found from the first one

The head of a created tree is the address of its buffer, whatever that address is and
whether there is an entry at all.  A walk along the entries ends at `NULL`, so with the
buffer at address zero it finds no entry, and in a tree without entries it finds one.

Main facts:
* `entryPointer_zero`: the first entry is found unless it is at address zero;
* `completeTree_iff`: which addresses of the entries give a complete tree;
* `createPhysicalMemTree_complete_iff`: at which addresses the creation does.
-/

namespace DexprOS
namespace Kernel

open Fuel

section CompleteTree

/-- The entry is the one of the range. -/
structure Describes (entry : PhysicalMemTreeEntry) (r : PhysRange) : Prop where
  type : entry.type = r.memType
  flags : entry.flags = r.memFlags
  startAddress : entry.startAddress = r.physicalAddress
  endAddress : entry.endAddress = r.physicalAddress + r.rangeSize

/-- The entries that are found from the first one are those of the ranges, one for each of
them and in their order. -/
def CompleteTree (ranges : List PhysRange) (tree : PhysicalMemTree) (m : TreeMemory) : Prop :=
  ∃ visited, Follows m tree.pFirstEntry visited ∧ visited.Nodup ∧
    List.Forall₂ (fun k r => Describes (m.entries k) r) visited ranges

variable {base : TreeMemory} {sizeData : PhysMemTreeSizeData} {pEntries : UInt64}
  {ranges : List PhysRange} {c : PhysMemTreeCreateData} {tree : PhysicalMemTree}
  {m : TreeMemory}

theorem Created.describes
    (hc : Created base sizeData pEntries ranges c) {k : Nat} {r : PhysRange}
    (hk : ranges[k]? = some r) :
    Describes (c.memory.entries k) r := by
  rw [hc.entries.placed k r hk]
  exact ⟨rfl, rfl, rfl, rfl⟩

theorem entryPointer_zero (pEntries : UInt64) :
    entryPointer pEntries 0 = if pEntries = 0 then none else some 0 := by
  simp [entryPointer]

/-- A tree without a first entry is complete if there are no ranges, and otherwise a tree is
complete only if there are some. -/
theorem completeTree_of_none (hfirst : tree.pFirstEntry = none) :
    CompleteTree ranges tree m ↔ ranges = [] := by
  constructor
  · rintro ⟨visited, hfollows, -, hdescribes⟩
    rw [hfirst] at hfollows
    cases hfollows
    exact List.forall₂_nil_left_iff.mp hdescribes
  · rintro rfl
    exact ⟨[], by rw [hfirst]; exact .null, List.nodup_nil, .nil⟩

theorem ne_nil_of_completeTree
    {k : Nat} (hfirst : tree.pFirstEntry = some k) (h : CompleteTree ranges tree m) :
    ranges ≠ [] := by
  rintro rfl
  obtain ⟨visited, hfollows, -, hdescribes⟩ := h
  rw [hfirst] at hfollows
  cases hfollows
  cases hdescribes

/-- A created tree whose entries have their addresses is complete. -/
theorem completeTree_of_created
    (hc : Created base sizeData pEntries ranges c) (hpos : 0 < ranges.length)
    (hptr : ∀ k, k < ranges.length → entryPointer pEntries k = some k) :
    CompleteTree ranges { pFirstEntry := entryPointer pEntries 0 } c.memory := by
  have hm := TreeShape.of_created hc hptr
  refine ⟨List.range ranges.length, hm.follows hpos, List.nodup_range,
    List.forall₂_of_length_eq_of_get List.length_range (fun k hk hk' => ?_)⟩
  simp only [List.get_eq_getElem, List.getElem_range]
  exact hc.describes (List.getElem?_eq_getElem hk')

/-- Exactly if the head is `NULL` for no ranges, and for no ranges only. -/
theorem completeTree_iff
    (hc : Created base sizeData pEntries ranges c)
    (hinside : ranges ≠ [] → pEntries.toNat + 64 * ranges.length ≤ 2 ^ 64) :
    CompleteTree ranges { pFirstEntry := entryPointer pEntries 0 } c.memory ↔
      (pEntries = 0 ↔ ranges = []) := by
  by_cases hnull : pEntries = 0
  · have hfirst : entryPointer pEntries 0 = none := by
      rw [entryPointer_zero, if_pos hnull]
    refine (completeTree_of_none ?_).trans (iff_true_left hnull).symm
    exact hfirst
  · have hfirst : entryPointer pEntries 0 = some 0 := by
      rw [entryPointer_zero, if_neg hnull]
    rw [iff_false_left hnull]
    constructor
    · exact ne_nil_of_completeTree hfirst
    · intro hne
      have hroom := hinside hne
      exact completeTree_of_created hc (List.length_pos_of_ne_nil hne)
        (fun k hk => entryPointer_of_inside hnull (by omega))

end CompleteTree

section Creation

/-- The buffer is at the start of a usable mapped entry that has enough pages, in memory that
does not wrap around. -/
def CanSelect (pInitialMap : List InitialMemMapEntry) (bufferSize address : UInt64) : Prop :=
  ∃ e, e ∈ pInitialMap ∧ e.memoryType = .usable ∧ e.usage = .mapped ∧
    bufferSize ≤ e.numPhysicalPages * physicalPageSize ∧ address = e.virtualAddress ∧
    e.virtualAddress.toNat + e.numPhysicalPages.toNat * 4096 ≤ 2 ^ 64

/-- The creation on the zero-filled buffer hands out a complete tree. -/
def CreatesComplete (pInitialMap : List InitialMemMapEntry) (s : PhysMemStructsSizeData)
    (address : UInt64) : Prop :=
  ∃ success tree m,
    Returns (createPhysicalMemTree pInitialMap (address + s.treeOffset) s.treeSizeData
      zeroTreeMemory) (success, tree, m) ∧
    CompleteTree (treeRanges pInitialMap) tree m

variable {pInitialMap : List InitialMemMapEntry} {s : PhysMemStructsSizeData}
  {address : UInt64}

/-- The structures end inside of the entry that was selected for them. -/
theorem CanSelect.inside
    (h : CanSelect pInitialMap s.bufferSize address) :
    address.toNat + s.bufferSize.toNat ≤ 2 ^ 64 := by
  obtain ⟨e, -, -, -, hpages, rfl, hwrap⟩ := h
  have hle := UInt64.le_iff_toNat_le.mp hpages
  rw [UInt64.toNat_mul, show physicalPageSize.toNat = 4096 from rfl] at hle
  have hmod := Nat.mod_le (e.numPhysicalPages.toNat * 4096) (2 ^ 64)
  omega

/-- What the creation makes of structures that fit into the address space. -/
theorem createPhysicalMemTree_created
    (hfit : requiredSize pInitialMap < 2 ^ 64) (address : UInt64) :
    ∃ c, Created zeroTreeMemory (structsSizeData pInitialMap).treeSizeData address
        (treeRanges pInitialMap) c ∧
      Returns (createPhysicalMemTree pInitialMap
        (address + (structsSizeData pInitialMap).treeOffset)
        (structsSizeData pInitialMap).treeSizeData zeroTreeMemory)
        (true, { pFirstEntry := entryPointer address 0 }, c.memory) := by
  have hexact := structsSizeData_exact hfit
  obtain ⟨c, hc, hrun⟩ := createTreesForMemoryRanges_returns pInitialMap
    (address + (structsSizeData pInitialMap).treeOffset) zeroTreeMemory hexact.hasRoom
  have hcreate := createPhysicalMemTree_returns hc hrun
  rw [hexact.treeEntriesOffset, hexact.treeOffset, UInt64.add_zero, UInt64.add_zero]
    at hc hcreate
  rw [hexact.treeOffset, UInt64.add_zero]
  exact ⟨c, hc, hcreate⟩

/-- A tree is complete exactly if its buffer is not at address zero and there is a range, or
it is and there is none. -/
theorem createPhysicalMemTree_complete_iff
    (hmap : AscendingEntries pInitialMap ∨ requiredSize pInitialMap < 2 ^ 64)
    (hs : Returns (getPhysicalMemStructsSizeData pInitialMap) s)
    (hplace : treeRanges pInitialMap = [] ∨ CanSelect pInitialMap s.bufferSize address) :
    CreatesComplete pInitialMap s address ↔ (address = 0 ↔ treeRanges pInitialMap = []) := by
  have hfit : requiredSize pInitialMap < 2 ^ 64 := hmap.elim requiredSize_lt id
  obtain rfl := hs.unique (getPhysicalMemStructsSizeData_returns pInitialMap)
  have hexact := structsSizeData_exact hfit
  obtain ⟨c, hc, hcreate⟩ := createPhysicalMemTree_created hfit address
  have hinside : treeRanges pInitialMap ≠ [] →
      address.toNat + 64 * (treeRanges pInitialMap).length ≤ 2 ^ 64 := by
    intro hne
    have hselect := (hplace.resolve_left hne).inside
    rw [hexact.bufferSize, requiredSize, treeSize] at hselect
    omega
  rw [← completeTree_iff hc hinside]
  constructor
  · rintro ⟨success, tree, m, hreturns, hcomplete⟩
    obtain ⟨-, rfl, rfl⟩ := hreturns.unique hcreate
    exact hcomplete
  · exact fun hcomplete => ⟨_, _, _, hcreate, hcomplete⟩

/-- A usable entry of 16 pages at the given address. -/
def sixteenPagesAt (address : UInt64) : List InitialMemMapEntry :=
  [⟨.usable, .mapped, 0, address, address, 16⟩]

theorem ascendingEntries_sixteenPagesAt
    {address : UInt64} (h : address.toNat + 65536 ≤ 2 ^ 63) :
    AscendingEntries (sixteenPagesAt address) where
  ascending := List.pairwise_singleton _ _
  nonempty := by
    intro e he
    rw [List.mem_singleton.mp he]
    exact (by decide : 0 < (16 : UInt64).toNat)
  below := by
    intro e he
    rw [List.mem_singleton.mp he, InitialMemMapEntry.stop]
    dsimp only
    rw [show (16 : UInt64).toNat = 16 from rfl]
    omega

theorem canSelect_sixteenPagesAt
    {address : UInt64} (h : address.toNat + 65536 ≤ 2 ^ 63) {bufferSize : UInt64}
    (hsize : bufferSize ≤ 16 * physicalPageSize) :
    CanSelect (sixteenPagesAt address) bufferSize address := by
  refine ⟨_, List.mem_singleton_self _, rfl, rfl, hsize, rfl, ?_⟩
  dsimp only
  rw [show (16 : UInt64).toNat = 16 from rfl]
  omega

/-- One page up, the tree is complete. -/
theorem createPhysicalMemTree_complete_iff_page_one :
    CreatesComplete (sixteenPagesAt 0x1000) (structsSizeData (sixteenPagesAt 0x1000)) 0x1000 := by
  refine (createPhysicalMemTree_complete_iff
    (.inl (ascendingEntries_sixteenPagesAt (by decide)))
    (getPhysicalMemStructsSizeData_returns _)
    (.inr (canSelect_sixteenPagesAt (by decide) (by decide +kernel)))).mpr ?_
  decide +kernel

/-- At address zero nothing is found of the same range, and the tree of an empty map has an
entry. -/
theorem createPhysicalMemTree_incomplete :
    (CanSelect (sixteenPagesAt 0) (structsSizeData (sixteenPagesAt 0)).bufferSize 0 ∧
      ¬ CreatesComplete (sixteenPagesAt 0) (structsSizeData (sixteenPagesAt 0)) 0) ∧
    ¬ CreatesComplete [] (structsSizeData []) 0x1000 := by
  refine ⟨⟨canSelect_sixteenPagesAt (by decide) (by decide +kernel), ?_⟩, ?_⟩
  · rintro ⟨success, tree, m, hrun, hcomplete⟩
    have hmap : AscendingEntries (sixteenPagesAt 0) :=
      ascendingEntries_sixteenPagesAt (by decide)
    obtain ⟨c, hc, hcreate⟩ := createPhysicalMemTree_created (requiredSize_lt hmap) 0
    obtain ⟨-, rfl, rfl⟩ := hrun.unique hcreate
    have hranges := (completeTree_of_none rfl).mp hcomplete
    revert hranges
    decide +kernel
  · rintro ⟨success, tree, m, hrun, hcomplete⟩
    have hmap : AscendingEntries [] := ⟨.nil, by simp, by simp⟩
    obtain ⟨c, hc, hcreate⟩ := createPhysicalMemTree_created (requiredSize_lt hmap) 0x1000
    obtain ⟨-, rfl, rfl⟩ := hrun.unique hcreate
    exact ne_nil_of_completeTree (k := 0) (by decide) hcomplete rfl

end Creation

end Kernel
end DexprOS
