import DexprOS.Kernel.Memory.PhysicalMemTreeAccesses

/-!
# What the marking writes

The marking of a tree as one sequence of writes to blocks.  All writes of `MarkUsedTreePages`
write the same value, to blocks that are the same whatever was written before; so they can be
done in any order.

Main facts:
* `markRegion_comm`: the markings of two regions can be swapped;
* `markPhysicalMemTreeRegions_returns`: the marking as a fold over the regions;
* `markPhysicalMemTreeRegions_exact`: what the marking leaves in the last levels.
-/

namespace DexprOS
namespace Kernel

open Fuel RoundUp

section Swapping

variable {m m' : TreeMemory}

/-- Writes of the same value can be swapped, also to the same block. -/
theorem store_comm (m : TreeMemory) (p q : BlockPtr) (i j : Nat) (value : UInt8) :
    (m.store p i value).store q j value = (m.store q j value).store p i value := by
  have hupdate : ∀ (f : Nat → UInt8) (a b : Nat),
      Function.update (Function.update f a value) b value =
        Function.update (Function.update f b value) a value := by
    intro f a b
    by_cases hab : a = b
    · rw [hab]
    · exact Function.update_comm hab value value f
  cases p with
  | outOfLine offset =>
      cases q with
      | outOfLine offset' =>
          simp only [TreeMemory.store, hupdate]
      | inPlace iLevel =>
          rfl
  | inPlace iLevel =>
      cases q with
      | outOfLine offset =>
          rfl
      | inPlace iLevel' =>
          by_cases hlevel : iLevel = iLevel'
          · subst hlevel
            simp only [TreeMemory.store, Function.update_self, Function.update_idem, hupdate]
          · simp only [TreeMemory.store, Function.update_of_ne hlevel,
              Function.update_of_ne (Ne.symm hlevel), Function.update_comm hlevel]

theorem memset_comm
    (m : TreeMemory) (p q : BlockPtr) (first first' count count' : Nat) (value : UInt8) :
    (m.memset p first value count).memset q first' value count' =
      (m.memset q first' value count').memset p first value count := by
  have hstore : ∀ (m : TreeMemory) (j : Nat),
      (m.memset p first value count).store q j value =
        (m.store q j value).memset p first value count :=
    fun m j => (List.foldl_hom (fun m : TreeMemory => m.store q j value)
      (fun m i => store_comm m q p j (first + i) value)).symm
  exact List.foldl_hom (fun m : TreeMemory => m.memset p first value count)
    (fun m j => hstore m (first' + j))

/-- What a visit marks only depends on the shape of the tree. -/
theorem markUsedEntryPages_extent
    (startAddress endAddress : UInt64) (k : Nat) (m : TreeMemory) :
    (∀ m', SameShape m m' → markUsedEntryPages startAddress endAddress k m' = m') ∨
    ∃ p first count, ∀ m', SameShape m m' →
      markUsedEntryPages startAddress endAddress k m' =
        m'.memset p first physMemPageUnavailable count := by
  by_cases hmeets : startAddress < (m.entries k).endAddress ∧
      (m.entries k).startAddress < endAddress
  · exact .inr ⟨_, _, _, fun m' hshape => by
      unfold markUsedEntryPages
      simp only [hshape.entries, hshape.startMappedAddress, hshape.numBlocks,
        hshape.blockSize, hshape.levelBlocks]
      exact if_pos hmeets⟩
  · refine .inl fun m' hshape => ?_
    unfold markUsedEntryPages
    simp only [hshape.entries]
    rw [if_neg hmeets]

/-- Visits of any two entries, for any two regions, can be swapped. -/
theorem markUsedEntryPages_comm
    (startAddress endAddress startAddress' endAddress' : UInt64) (k k' : Nat)
    (m : TreeMemory) :
    markUsedEntryPages startAddress' endAddress' k'
        (markUsedEntryPages startAddress endAddress k m) =
      markUsedEntryPages startAddress endAddress k
        (markUsedEntryPages startAddress' endAddress' k' m) := by
  have hshape := sameShape_markUsedEntryPages startAddress endAddress k m
  have hshape' := sameShape_markUsedEntryPages startAddress' endAddress' k' m
  have hself := SameShape.refl m
  rcases markUsedEntryPages_extent startAddress endAddress k m with h | ⟨p, first, count, h⟩
  · rw [h m hself, h _ hshape']
  · rcases markUsedEntryPages_extent startAddress' endAddress' k' m with
      h' | ⟨q, first', count', h'⟩
    · rw [h' m hself, h' _ hshape]
    · rw [h' _ hshape, h m hself, h _ hshape', h' m hself]
      exact memset_comm m p q first first' count count' _

/-- `MarkUsedTreePages` on a tree with `n` entries. -/
def markRegion (n : Nat) (m : TreeMemory) (region : UInt64 × UInt64) : TreeMemory :=
  (List.range n).foldl
    (fun m k => markUsedEntryPages (region.1 / physicalPageSize * physicalPageSize)
      (align (region.1 + region.2) physicalPageSize) k m) m

theorem sameShape_markRegion (n : Nat) (m : TreeMemory) (region : UInt64 × UInt64) :
    SameShape m (markRegion n m region) :=
  sameShape_foldl (fun m k => sameShape_markUsedEntryPages _ _ k m) _ m

/-- The markings of two regions can be swapped. -/
theorem markRegion_comm (n : Nat) (m : TreeMemory) (region region' : UInt64 × UInt64) :
    markRegion n (markRegion n m region) region' =
      markRegion n (markRegion n m region') region := by
  have hvisit : ∀ (m : TreeMemory) (k : Nat),
      markUsedEntryPages (region'.1 / physicalPageSize * physicalPageSize)
          (align (region'.1 + region'.2) physicalPageSize) k (markRegion n m region) =
        markRegion n (markUsedEntryPages (region'.1 / physicalPageSize * physicalPageSize)
          (align (region'.1 + region'.2) physicalPageSize) k m) region :=
    fun m k => (List.foldl_hom
      (fun m : TreeMemory => markUsedEntryPages
        (region'.1 / physicalPageSize * physicalPageSize)
        (align (region'.1 + region'.2) physicalPageSize) k m)
      (fun m j => markUsedEntryPages_comm _ _ _ _ k j m)).symm
  exact List.foldl_hom (fun m : TreeMemory => markRegion n m region) hvisit

end Swapping

section Run

variable {ranges : List PhysRange} {tree : PhysicalMemTree} {m : TreeMemory}

/-- All pages of a tree with `n` entries set available. -/
def setEntriesAvailable (n : Nat) (m : TreeMemory) : TreeMemory :=
  (List.range n).foldl (fun m k => setEntryPagesAvailable k m) m

/-- All levels above the last ones of a tree with `n` entries filled. -/
def fillEntries (n : Nat) (m : TreeMemory) : TreeMemory :=
  (List.range n).foldl (fun m k => fillEntryAccelBlocks k m) m

theorem sameShape_setEntriesAvailable (n : Nat) (m : TreeMemory) :
    SameShape m (setEntriesAvailable n m) :=
  sameShape_foldl (fun m k => sameShape_setEntryPagesAvailable k m) _ m

theorem sameShape_markRegions (n : Nat) (regions : List (UInt64 × UInt64)) (m : TreeMemory) :
    SameShape m (regions.foldl (markRegion n) m) :=
  sameShape_foldl (fun m region => sameShape_markRegion n m region) regions m

/-- A loop that marks at most a region for each element marks these regions in order. -/
theorem foldl_mark_returns
    {α : Type} (mark : α → TreeMemory → Nat → Option TreeMemory)
    (region : α → Option (UInt64 × UInt64))
    (hm : TreeShape ranges tree m) (hpos : 0 < ranges.length)
    (hmark : ∀ x m fuel, mark x m fuel =
      match region x with
      | none => some m
      | some (address, size) => markUsedTreePages tree address size m fuel)
    (xs : List α) :
    Returns (fun fuel => xs.foldl (fun m x => m.bind fun m => mark x m fuel) (some m))
      ((xs.filterMap region).foldl (markRegion ranges.length) m) := by
  obtain ⟨m', hrun, hm'⟩ := returns_foldl_of_invariant (f := mark)
    (fun done m' => m' = (done.filterMap region).foldl (markRegion ranges.length) m) xs
    (fun done x todo m₁ _ hdone => by
      have hm₁ := hm.of_sameShape
        (hdone ▸ sameShape_markRegions ranges.length (done.filterMap region) m)
      rw [List.filterMap_append, List.foldl_append, ← hdone]
      cases hregion : region x with
      | none =>
          refine ⟨m₁, (returns_pure m₁).congr fun fuel => ?_, ?_⟩
          · rw [hmark, hregion]
          · simp [hregion]
      | some r =>
          refine ⟨markRegion ranges.length m₁ r,
            (walkEntries_returns hm₁ hpos (sameShape_markUsedEntryPages _ _)).congr
              fun fuel => ?_, ?_⟩
          · rw [hmark, hregion]
            rfl
          · simp [hregion])
    rfl
  rw [hm'] at hrun
  exact hrun

/-- The marking marks the regions in use one after the other. -/
theorem markPhysicalMemTreeRegions_returns
    (hm : TreeShape ranges tree m) (hpos : 0 < ranges.length)
    (pInitialMap : List InitialMemMapEntry) (otherRegions : List (UInt64 × UInt64)) :
    Returns (markPhysicalMemTreeRegions tree pInitialMap otherRegions m)
      (fillEntries ranges.length
        ((pInitialMap.filterMap usedRegion ++ otherRegions).foldl (markRegion ranges.length)
          (setEntriesAvailable ranges.length m))) := by
  have hm₁ := hm.of_sameShape (sameShape_setEntriesAvailable ranges.length m)
  have hm₂ := hm₁.of_sameShape
    (sameShape_markRegions ranges.length (pInitialMap.filterMap usedRegion) _)
  have hm₃ := hm₂.of_sameShape (sameShape_markRegions ranges.length otherRegions _)
  have hset : Returns (setAllTreePagesAvailable tree m) (setEntriesAvailable ranges.length m) :=
    walkEntries_returns hm hpos sameShape_setEntryPagesAvailable
  have hentries := foldl_mark_returns (markInitialMapEntry tree) usedRegion hm₁ hpos
    markInitialMapEntry_eq pInitialMap
  have hother := foldl_mark_returns
    (fun region m fuel => markUsedTreePages tree region.1 region.2 m fuel) some hm₂ hpos
    (fun region _ _ => by cases region; rfl) otherRegions
  rw [List.filterMap_some] at hother
  have hfill := walkEntries_returns hm₃ hpos sameShape_fillEntryAccelBlocks
  rw [List.foldl_append]
  exact hset.bind (hentries.bind (hother.bind hfill))

/-- The other regions can be marked in any order. -/
theorem markPhysicalMemTreeRegions_perm
    (hm : TreeShape ranges tree m) (hpos : 0 < ranges.length)
    {pInitialMap : List InitialMemMapEntry} {otherRegions otherRegions' : List (UInt64 × UInt64)}
    (hperm : otherRegions.Perm otherRegions') {m' : TreeMemory}
    (hrun : Returns (markPhysicalMemTreeRegions tree pInitialMap otherRegions m) m') :
    Returns (markPhysicalMemTreeRegions tree pInitialMap otherRegions' m) m' := by
  obtain rfl := hrun.unique (markPhysicalMemTreeRegions_returns hm hpos pInitialMap otherRegions)
  have hsame := (hperm.append_left (pInitialMap.filterMap usedRegion)).foldl_eq'
    (fun region _ region' _ m => markRegion_comm ranges.length m region region')
    (setEntriesAvailable ranges.length m)
  rw [hsame]
  exact markPhysicalMemTreeRegions_returns hm hpos pInitialMap otherRegions'

end Run

section Exact

/-- The block of page `p` in the last level of the entry. -/
def pageBlock (m : TreeMemory) (iEntry p : Nat) : UInt8 :=
  m.block (lastLevel (m.entries iEntry)) (p - levelFirstPage m (lastLevel (m.entries iEntry)))

/-- The page is in a used entry of the initial map, or meets the extent of one of the other
regions, rounded to whole pages. -/
def PageInUse (pInitialMap : List InitialMemMapEntry)
    (otherRegions : List (UInt64 × UInt64)) (p : Nat) : Prop :=
  (∃ e ∈ pInitialMap, e.HasPage p ∧ shouldCreateTreeForType e.memoryType = true ∧
    isUsageInUse e.usage = true) ∨
  ∃ region ∈ otherRegions, region.1.toNat / 4096 ≤ p ∧
    p < (region.1.toNat + region.2.toNat) ⌈/⌉ 4096

variable {pInitialMap : List InitialMemMapEntry} {otherRegions : List (UInt64 × UInt64)}
  {ranges : List PhysRange} {tree : PhysicalMemTree} {m : TreeMemory}

/-- The regions that the marking goes through touch the pages in use. -/
theorem touchesAny_iff_pageInUse
    (haligned : ∀ e ∈ pInitialMap, e.start % 4096 = 0)
    (hbelow : ∀ e ∈ pInitialMap, e.stop ≤ 2 ^ 63) (p : Nat) :
    TouchesAny (pInitialMap.filterMap usedRegion) p ∨ TouchesAny otherRegions p ↔
      PageInUse pInitialMap otherRegions p := by
  refine or_congr (touchesAny_usedRegion_iff haligned hbelow p) ?_
  refine exists_congr fun region => and_congr_right fun _ => ?_
  rw [touches_iff, Nat.ceilDiv_eq_add_pred_div]
  rfl

/-- An entry's page has an available block exactly if the page is available. -/
theorem TreeShape.pageAvailable_iff_pageBlock
    (hm : TreeShape ranges tree m) {k p : Nat} {r : PhysRange} (hk : ranges[k]? = some r)
    (hr : r.Aligned) (hp : r.HasPage p) :
    pageAvailable m k p = true ↔ pageBlock m k p = physMemPageAvailableBit := by
  have hfirst := hm.levelFirstPage_eq hk (Nat.zero_le _)
  have hnum := (hm.levelAt hk (Nat.zero_le _)).2.2
  obtain ⟨hle, hlt⟩ := (hr.hasPage_iff p).mp hp
  rw [firstBlock, Nat.pow_zero, Nat.div_one, Nat.mul_one] at hfirst
  rw [pageAvailable, pageBlock, decide_eq_true_iff, hm.lastLevel hk, hfirst, hnum]
  exact ⟨fun h => h.2.2, fun h => ⟨hle, hlt, h⟩⟩

/-- **The marking sets exactly the pages in use**: those pages of the entries are unavailable
and all others available, every write is to a block of its level, and the order of the other
regions does not matter. -/
theorem markPhysicalMemTreeRegions_exact
    {pBuffer : UInt64} {sizeData : PhysMemTreeSizeData} {base m₀ : TreeMemory}
    (hbuffer : TreeBuffer pBuffer sizeData)
    (hcreate : Returns (createPhysicalMemTree pInitialMap pBuffer sizeData base)
      (true, tree, m₀))
    (haligned : ∀ e ∈ pInitialMap, e.start % 4096 = 0)
    (hbelow : ∀ e ∈ pInitialMap, e.stop ≤ 2 ^ 63)
    (husable : treeRanges pInitialMap ≠ [])
    (hother : ∀ region ∈ otherRegions, ExtentFits region) :
    ∃ m, Returns (markPhysicalMemTreeRegions tree pInitialMap otherRegions m₀) m ∧
      (∀ k r p, (treeRanges pInitialMap)[k]? = some r → r.HasPage p →
        (pageBlock m k p = physMemPageUnavailable ↔ PageInUse pInitialMap otherRegions p) ∧
        (¬ PageInUse pInitialMap otherRegions p →
          pageBlock m k p = physMemPageAvailableBit)) ∧
      (∀ fuel,
        (tracedMarkPhysicalMemTreeRegions tree pInitialMap otherRegions m₀ fuel).result =
            markPhysicalMemTreeRegions tree pInitialMap otherRegions m₀ fuel ∧
          (tracedMarkPhysicalMemTreeRegions tree pInitialMap otherRegions m₀ fuel).Within
            (BlockWrite.Inside m₀ (levelList (treeRanges pInitialMap)).length)) ∧
      ∀ otherRegions', otherRegions.Perm otherRegions' →
        Returns (markPhysicalMemTreeRegions tree pInitialMap otherRegions' m₀) m := by
  have hm := TreeShape.of_success hbuffer hcreate
  have hpos := List.length_pos_of_ne_nil husable
  have hranges : ∀ r ∈ treeRanges pInitialMap, r.Aligned := fun r hr =>
    combinedPhysRanges_aligned haligned hbelow r (List.mem_of_mem_filter hr)
  obtain ⟨m, hrun, hshape, hpages⟩ :=
    markPhysicalMemTreeRegions_states hm hpos hranges hbelow hother
  have hm' := hm.of_sameShape hshape
  refine ⟨m, hrun, fun k r p hk hp => ?_,
    fun fuel => ⟨result_tracedMarkPhysicalMemTreeRegions _ _ _ _ fuel,
      within_tracedMarkPhysicalMemTreeRegions hm hpos hranges hbelow hother fuel⟩,
    fun _ hperm => markPhysicalMemTreeRegions_perm hm hpos hperm hrun⟩
  have hr := hranges r (List.mem_of_getElem? hk)
  obtain ⟨hassigned, havailable⟩ := hpages k (List.getElem?_eq_some_iff.mp hk).1
  have hstate : pageBlock m k p = physMemPageAvailableBit ↔
      ¬ PageInUse pInitialMap otherRegions p := by
    rw [← hm'.pageAvailable_iff_pageBlock hk hr hp, havailable p,
      ← touchesAny_iff_pageInUse haligned hbelow p, not_or]
    exact and_iff_right ⟨r, hk, hp⟩
  have hvalue : pageBlock m k p = physMemPageAvailableBit ∨
      pageBlock m k p = physMemPageUnavailable := by
    refine hassigned _ ?_
    obtain ⟨hle, hlt⟩ := (hr.hasPage_iff p).mp hp
    have hfirst := hm'.levelFirstPage_eq hk (Nat.zero_le _)
    rw [firstBlock, Nat.pow_zero, Nat.div_one, Nat.mul_one] at hfirst
    rw [hm'.lastLevel hk, (hm'.levelAt hk (Nat.zero_le _)).2.2, hfirst]
    omega
  refine ⟨?_, hstate.mpr⟩
  constructor
  · intro hunavailable
    by_contra hfree
    rw [hstate.mpr hfree] at hunavailable
    exact absurd hunavailable (by decide)
  · intro hused
    exact hvalue.resolve_left fun havail => hstate.mp havail hused

/-- With 16 bytes in use across the second and third of the 256 pages, the first page is
free. -/
theorem markPhysicalMemTreeRegions_exact_mebibyte :
    ∃ tree m₀ m,
      Returns (createPhysicalMemTree mebibyteMap 0x200000 mebibyteSizeData zeroTreeMemory)
        (true, tree, m₀) ∧
      Returns (markPhysicalMemTreeRegions tree mebibyteMap [(0x101FF8, 0x10)] m₀) m ∧
      pageBlock m 0 0x100 = physMemPageAvailableBit ∧
      pageBlock m 0 0x101 = physMemPageUnavailable ∧
      pageBlock m 0 0x102 = physMemPageUnavailable := by
  obtain ⟨tree, m₀, hcreate, -⟩ := createPhysicalMemTree_mebibyte
  have hother : ∀ region ∈ [((0x101FF8 : UInt64), (0x10 : UInt64))], ExtentFits region := by
    intro region hregion
    obtain rfl := List.mem_singleton.mp hregion
    exact Nat.le_of_ble_eq_true rfl
  obtain ⟨m, hrun, hblocks, -⟩ := markPhysicalMemTreeRegions_exact treeBuffer_mebibyte hcreate
    (by decide) (by decide) (by rw [treeRanges_mebibyte]; decide) hother
  have hk : (treeRanges mebibyteMap)[0]? = some mebibyteRange := by
    rw [treeRanges_mebibyte]
    rfl
  have hused : ∀ p, PageInUse mebibyteMap [(0x101FF8, 0x10)] p ↔ p = 0x101 ∨ p = 0x102 := by
    intro p
    simp only [PageInUse, mebibyteMap, List.mem_cons, List.not_mem_nil, or_false, isUsageInUse,
      exists_eq_left, Bool.false_eq_true, and_false, Nat.ceilDiv_eq_add_pred_div,
      Nat.add_one_sub_one, UInt64.reduceToNat, Nat.reduceDiv, Nat.reduceAdd, false_or]
    omega
  have hpage : ∀ p, 0x100 ≤ p → p < 0x200 → mebibyteRange.HasPage p := by
    intro p hle hlt
    have hstart : mebibyteRange.start = 0x100000 := rfl
    have hstop : mebibyteRange.stop = 0x200000 := rfl
    rw [PhysRange.HasPage, hstart, hstop]
    omega
  refine ⟨tree, m₀, m, hcreate, hrun, ?_, ?_, ?_⟩
  · refine (hblocks 0 _ 0x100 hk (hpage _ (by decide) (by decide))).2 ?_
    rw [hused]
    decide
  · exact (hblocks 0 _ 0x101 hk (hpage _ (by decide) (by decide))).1.mpr
      ((hused _).mpr (.inl rfl))
  · exact (hblocks 0 _ 0x102 hk (hpage _ (by decide) (by decide))).1.mpr
      ((hused _).mpr (.inr rfl))

end Exact

end Kernel
end DexprOS
