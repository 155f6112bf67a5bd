import DexprOS.Kernel.Memory.PhysicalMemTreePages

/-!
# The pages of a marked tree

What the marking passes leave in the last levels of a tree for page-aligned ranges: a page
is available unless it lies in one of the regions that were marked.

Main facts:
* `setAllTreePagesAvailable_states`: first all pages are available;
* `markUsedTreePages_states`: marking a region takes away exactly the pages it touches;
* `markPhysicalMemTreeRegions_states`: what the two loops over the regions leave;
* `markPhysicalMemTreeRegions_reports`: which pages the tree reports as available.
-/

namespace DexprOS
namespace Kernel

open Fuel HalvingSummary RoundUp Spans

section Aligned

/-- The range consists of whole pages in the lower half of the addresses. -/
structure PhysRange.Aligned (r : PhysRange) : Prop where
  start : r.start % 4096 = 0
  stop : r.stop % 4096 = 0
  below : r.stop ≤ 2 ^ 63

/-- The range contains the physical page with number `p`. -/
def PhysRange.HasPage (r : PhysRange) (p : Nat) : Prop :=
  r.start ≤ p * 4096 ∧ p * 4096 < r.stop

/-- The bytes of a region touch the physical page with number `p`. -/
def Touches (address size p : Nat) : Prop :=
  p * 4096 < address + size ∧ address < (p + 1) * 4096

instance (address size p : Nat) : Decidable (Touches address size p) :=
  inferInstanceAs (Decidable (_ ∧ _))

/-- Neither the end of the region nor its rounding up to a whole page wraps around. -/
def ExtentFits (region : UInt64 × UInt64) : Prop :=
  region.1.toNat + region.2.toNat + 4095 < 2 ^ 64

theorem extentFits_of_below
    {region : UInt64 × UInt64} (h : region.1.toNat + region.2.toNat ≤ 2 ^ 63) :
    ExtentFits region := by
  rw [ExtentFits]
  omega

variable {r : PhysRange}

theorem PhysRange.Aligned.end_toNat (hr : r.Aligned) :
    (r.physicalAddress + r.rangeSize).toNat = r.stop := by
  have hbelow := hr.below
  rw [PhysRange.stop] at hbelow ⊢
  rw [UInt64.toNat_add]
  omega

/-- Its pages are the blocks of the last level. -/
theorem PhysRange.Aligned.numBlocks (hr : r.Aligned) :
    firstPage r.physicalAddress * 4096 = r.start ∧
      (firstPage r.physicalAddress + (treeLevel r 0).numBlocks.toNat) * 4096 = r.stop := by
  have hcount : (treeLevel r 0).numBlocks.toNat =
      (r.physicalAddress + r.rangeSize).toNat ⌈/⌉ 4096 - firstPage r.physicalAddress := by
    refine pageCount_eq ?_ ?_
    · rw [hr.end_toNat]
      exact Nat.le_add_right _ _
    · rw [hr.end_toNat]
      exact hr.below
  rw [hcount, hr.end_toNat, firstPage, Nat.ceilDiv_eq_add_pred_div]
  obtain ⟨hstart, hstop, -⟩ := hr
  have hle : r.start ≤ r.stop := Nat.le_add_right _ _
  rw [PhysRange.start] at *
  omega

/-- Ranges that are combined from whole pages consist of whole pages. -/
theorem combinedPhysRanges_aligned
    {pInitialMap : List InitialMemMapEntry} (haligned : ∀ e ∈ pInitialMap, e.start % 4096 = 0)
    (hbelow : ∀ e ∈ pInitialMap, e.stop ≤ 2 ^ 63) :
    ∀ r ∈ combinedPhysRanges pInitialMap, r.Aligned := by
  let P : Span (PhysicalMemoryType × UInt64) → Prop := fun a =>
    a.start % 4096 = 0 ∧ a.stop % 4096 = 0 ∧ a.stop ≤ 2 ^ 63
  have hentries : ∀ a ∈ pInitialMap.map InitialMemMapEntry.physSpan, P a := by
    intro a ha
    obtain ⟨e, he, rfl⟩ := List.mem_map.mp ha
    have hstart := haligned e he
    refine ⟨hstart, ?_, hbelow e he⟩
    rw [InitialMemMapEntry.start] at hstart
    show e.stop % 4096 = 0
    rw [InitialMemMapEntry.stop]
    omega
  have hspans := coalesce_forall (fun _ _ _ ha hb => ⟨ha.1, hb.2⟩) hentries
  rw [← combinedPhysRanges_spans hbelow] at hspans
  intro r hr
  obtain ⟨hstart, hstop, hend⟩ := hspans r.span (List.mem_map_of_mem hr)
  exact ⟨hstart, hstop, hend⟩

theorem PhysRange.Aligned.hasPage_iff (hr : r.Aligned) (p : Nat) :
    r.HasPage p ↔ firstPage r.physicalAddress ≤ p ∧
      p < firstPage r.physicalAddress + (treeLevel r 0).numBlocks.toNat := by
  obtain ⟨hstart, hstop⟩ := hr.numBlocks
  rw [PhysRange.HasPage]
  omega

end Aligned

section States

variable {ranges : List PhysRange} {tree : PhysicalMemTree} {m m' : TreeMemory}
variable {available : Nat → Bool}

/-- The state of an available or unavailable page. -/
def pageState (available : Bool) : UInt8 :=
  if available then physMemPageAvailableBit else physMemPageUnavailable

/-- The blocks of entry `k`'s last level say which of its pages are available. -/
def EntryStates (ranges : List PhysRange) (available : Nat → Bool) (k : Nat)
    (m : TreeMemory) : Prop :=
  ∀ r i, HasBlock ranges k r 0 i →
    m.block (levelIndex ranges k r 0) i = pageState (available (firstPage r.physicalAddress + i))

/-- The same for all entries. -/
def PageStates (ranges : List PhysRange) (available : Nat → Bool) (m : TreeMemory) : Prop :=
  ∀ k, EntryStates ranges available k m

theorem EntryStates.of_sameBlocks
    {k : Nat} (h : EntryStates ranges available k m) (hsame : SameBlocks ranges k m m') :
    EntryStates ranges available k m' := by
  intro r i hb
  rw [hsame r 0 i hb]
  exact h r i hb

/-- What a walk along the entries leaves, when each visit makes the states of the entry that
it visits, from what its blocks had at first. -/
theorem walkEntries_states
    {visit : Nat → TreeMemory → TreeMemory} (before : Nat → TreeMemory → Prop)
    (hm : TreeShape ranges tree m) (hpos : 0 < ranges.length)
    (hvisit : LocalVisit ranges tree visit)
    (hsame : ∀ k m m', SameBlocks ranges k m m' → before k m → before k m')
    (hstates : ∀ k m, TreeShape ranges tree m → before k m →
      EntryStates ranges available k (visit k m))
    (hbefore : ∀ k, before k m) :
    ∃ m', Returns (walkEntries visit tree m) m' ∧ SameShape m m' ∧
      PageStates ranges available m' := by
  refine ⟨_, walkEntries_returns hm hpos hvisit.sameShape,
    sameShape_foldl (fun m k => hvisit.sameShape k m) _ m, fun k r i hb => ?_⟩
  have hk : k < ranges.length := (List.getElem?_eq_some_iff.mp hb.entry).1
  obtain ⟨m₁, hm₁, hfirst, hlast⟩ := hm.foldl_visit hvisit hk
  have hvisited := hstates k m₁ hm₁ (hsame k m m₁ hfirst (hbefore k))
  exact hvisited.of_sameBlocks hlast r i hb

/-- A visit that writes a run of blocks of the entry's last level. -/
theorem localVisit_of_memset
    {visit : Nat → TreeMemory → TreeMemory} (hshape : ∀ k m, SameShape m (visit k m))
    (hvisit : ∀ k r m, TreeShape ranges tree m → ranges[k]? = some r →
      visit k m = m ∨ ∃ first value count,
        first + count ≤ (treeLevel r 0).numBlocks.toNat ∧
        visit k m = m.memset (m.levelBlocks (levelIndex ranges k r 0)) first value count) :
    LocalVisit ranges tree visit where
  sameShape := hshape
  sameBlocks := by
    intro k k' m hm hk hne r' h' i' hb'
    have hentry := List.getElem?_eq_getElem hk
    obtain heq | ⟨first, value, count, hcount, heq⟩ := hvisit k _ m hm hentry
    · rw [heq]
    · rw [heq, hm.block_memset hentry (Nat.zero_le _) hcount hb', if_neg (fun h => hne h.1)]

/-- Which pages of an entry are available. -/
theorem TreeShape.pageAvailable_iff
    {k : Nat} {r : PhysRange} (hm : TreeShape ranges tree m) (hk : ranges[k]? = some r)
    (hr : r.Aligned) (hstates : PageStates ranges available m) (p : Nat) :
    pageAvailable m k p = true ↔ r.HasPage p ∧ available p = true := by
  have hfirst : firstBlock r.physicalAddress 0 = firstPage r.physicalAddress := by
    rw [firstBlock, Nat.pow_zero, Nat.div_one]
  rw [hm.pageAvailable_eq hk, leaf, decide_eq_true_iff, nodeState, hfirst]
  split_ifs with hp
  · rw [hstates k r _ ⟨hk, Nat.zero_le _, by omega⟩, Nat.add_sub_cancel' hp.1]
    have hpage := (hr.hasPage_iff p).mpr hp
    cases available p with
    | false =>
        simp [pageState, physMemPageUnavailable, physMemPageAvailableBit]
    | true =>
        simp [pageState, hpage]
  · have hpage := (hr.hasPage_iff p).not.mpr hp
    simp [hpage, physMemPageAvailableBit]

/-- States are always one of two values. -/
theorem PageStates.pagesAssigned
    {k : Nat} (hstates : PageStates ranges available m) (hm : TreeShape ranges tree m)
    (hk : k < ranges.length) :
    PagesAssigned m k := by
  have hentry := List.getElem?_eq_getElem hk
  intro i hi
  rw [hm.lastLevel hentry] at hi ⊢
  rw [(hm.levelAt hentry (Nat.zero_le _)).2.2] at hi
  rw [hstates k _ i ⟨hentry, Nat.zero_le _, hi⟩, pageState]
  split
  · exact .inl rfl
  · exact .inr rfl

/-- So are the summaries of the single pages. -/
theorem pagesAssigned_of_summary
    {k : Nat} {full : Nat → Bool} (hm : TreeShape ranges tree m) (hk : k < ranges.length)
    (hsummary : ∀ i, EntryHasBlock m k 0 i →
      ∃ b, (entryBlock m k 0 i).toNat = summary full 0 b) :
    PagesAssigned m k := by
  have hentry := List.getElem?_eq_getElem hk
  intro i hi
  rw [hm.lastLevel hentry] at hi ⊢
  rw [(hm.levelAt hentry (Nat.zero_le _)).2.2] at hi
  obtain ⟨b, hvalue⟩ :=
    hsummary i ((hm.entryHasBlock_iff hentry).mpr ⟨hentry, Nat.zero_le _, hi⟩)
  rw [entryBlock, hm.levelOfHeight_eq hentry, summary] at hvalue
  rw [← UInt8.toNat_inj, ← UInt8.toNat_inj, hvalue]
  split
  · exact .inl rfl
  · exact .inr rfl

end States

section SetAll

variable {ranges : List PhysRange} {tree : PhysicalMemTree} {m : TreeMemory}
variable {available : Nat → Bool}

theorem sameShape_setEntryPagesAvailable (k : Nat) (m : TreeMemory) :
    SameShape m (setEntryPagesAvailable k m) :=
  sameShape_memset m _ _ _ _

theorem setEntryPagesAvailable_eq
    {k : Nat} {r : PhysRange} (hm : TreeShape ranges tree m) (hk : ranges[k]? = some r) :
    setEntryPagesAvailable k m =
      m.memset (m.levelBlocks (levelIndex ranges k r 0)) 0 physMemPageAvailableBit
        (treeLevel r 0).numBlocks.toNat := by
  rw [setEntryPagesAvailable, hm.lastLevel hk, (hm.levelAt hk (Nat.zero_le _)).2.2]

/-- First all pages are available. -/
theorem setAllTreePagesAvailable_states
    (hm : TreeShape ranges tree m) (hpos : 0 < ranges.length) :
    ∃ m', Returns (setAllTreePagesAvailable tree m) m' ∧ SameShape m m' ∧
      PageStates ranges (fun _ => true) m' := by
  have hvisit : LocalVisit ranges tree setEntryPagesAvailable :=
    localVisit_of_memset sameShape_setEntryPagesAvailable fun k r m hm hk =>
      .inr ⟨0, _, _, by rw [Nat.zero_add], setEntryPagesAvailable_eq hm hk⟩
  refine walkEntries_states (fun _ _ => True) hm hpos hvisit
    (fun _ _ _ _ _ => trivial) (fun k m hm _ r i hb => ?_) (fun _ => trivial)
  rw [setEntryPagesAvailable_eq hm hb.entry,
    hm.block_memset hb.entry (Nat.zero_le _) (by rw [Nat.zero_add]) hb,
    if_pos ⟨rfl, rfl, Nat.zero_le _, by rw [Nat.zero_add]; exact hb.index⟩]
  rfl

end SetAll

section MarkUsed

variable {ranges : List PhysRange} {tree : PhysicalMemTree} {m : TreeMemory}
variable {available : Nat → Bool} {startAddress endAddress : UInt64} {a b : Nat}

theorem sameShape_markUsedEntryPages (startAddress endAddress : UInt64) (k : Nat)
    (m : TreeMemory) :
    SameShape m (markUsedEntryPages startAddress endAddress k m) := by
  unfold markUsedEntryPages
  dsimp only
  split
  · exact sameShape_memset m _ _ _ _
  · exact SameShape.refl m

/-- The number of pages between two addresses. -/
theorem sub_div_pages
    {x y size : UInt64} {m n : Nat} (hx : x.toNat = m * 4096) (hy : y.toNat = n * 4096)
    (hsize : size.toNat = 4096) (hle : n ≤ m) :
    ((x - y) / size).toNat = m - n := by
  have hsub : y ≤ x := by
    rw [UInt64.le_iff_toNat_le, hx, hy]
    omega
  rw [UInt64.toNat_div, UInt64.toNat_sub_of_le _ _ hsub, hx, hy, hsize]
  omega

/-- The higher and the lower of two addresses of pages. -/
theorem higher_toNat
    {x y : UInt64} {m n : Nat} (hx : x.toNat = m * 4096) (hy : y.toNat = n * 4096) :
    (if x < y then y else x).toNat = max m n * 4096 := by
  rw [← Nat.mul_max_mul_right, ← hx, ← hy]
  split_ifs with hlt
  · exact (Nat.max_eq_right (UInt64.lt_iff_toNat_lt.mp hlt).le).symm
  · exact (Nat.max_eq_left (Nat.not_lt.mp fun h => hlt (UInt64.lt_iff_toNat_lt.mpr h))).symm

theorem lower_toNat
    {x y : UInt64} {m n : Nat} (hx : x.toNat = m * 4096) (hy : y.toNat = n * 4096) :
    (if y < x then y else x).toNat = min m n * 4096 := by
  rw [← Nat.mul_min_mul_right, ← hx, ← hy]
  split_ifs with hlt
  · exact (Nat.min_eq_right (UInt64.lt_iff_toNat_lt.mp hlt).le).symm
  · exact (Nat.min_eq_left (Nat.not_lt.mp fun h => hlt (UInt64.lt_iff_toNat_lt.mpr h))).symm

/-- What the loop body of `MarkUsedTreePages` does with the blocks, the number of the first one
and the count that it computes, and what it does when the region misses the entry. -/
def withUsedBlocks {α : Type} (startAddress endAddress : UInt64) (iEntry : Nat)
    (m : TreeMemory) (mark : BlockPtr → Nat → Nat → α) (skip : α) : α :=
  let entry := m.entries iEntry
  if startAddress < entry.endAddress ∧ entry.startAddress < endAddress then
    let iLevel := lastLevel entry
    let level := m.levels iLevel
    let minMapAddress := level.startMappedAddress
    let maxMapAddress := level.startMappedAddress + level.numBlocks * level.blockSize
    let minMapAddress :=
      if minMapAddress < startAddress then startAddress else minMapAddress
    let maxMapAddress :=
      if endAddress < maxMapAddress then endAddress else maxMapAddress
    let iFirstBlock := (minMapAddress - level.startMappedAddress) / level.blockSize
    let numMarkBlocks := (maxMapAddress - minMapAddress) / level.blockSize
    mark (m.levelBlocks iLevel) iFirstBlock.toNat numMarkBlocks.toNat
  else
    skip

/-- The blocks are those of the pages from `a` on and before `b`, as far as the entry has
them. -/
theorem withUsedBlocks_eq
    {α : Type} {mark : BlockPtr → Nat → Nat → α} {skip : α}
    {k : Nat} {r : PhysRange} (hm : TreeShape ranges tree m) (hk : ranges[k]? = some r)
    (hr : r.Aligned) (ha : startAddress.toNat = a * 4096) (hb : endAddress.toNat = b * 4096)
    (hab : a ≤ b) :
    withUsedBlocks startAddress endAddress k m mark skip =
      if a < firstPage r.physicalAddress + (treeLevel r 0).numBlocks.toNat ∧
          firstPage r.physicalAddress < b then
        mark (m.levelBlocks (levelIndex ranges k r 0))
          (max (firstPage r.physicalAddress) a - firstPage r.physicalAddress)
          (min (firstPage r.physicalAddress + (treeLevel r 0).numBlocks.toNat) b -
            max (firstPage r.physicalAddress) a)
      else skip := by
  obtain ⟨hstart, hstop⟩ := hr.numBlocks
  obtain ⟨hmin, hsize, hnum⟩ := hm.levelAt hk (Nat.zero_le _)
  have hbelow := hr.below
  have hminNat : (treeLevel r 0).minMappedAddress.toNat =
      firstPage r.physicalAddress * 4096 := by
    have hmapped : (treeLevel r 0).minMappedAddress.toNat =
        firstBlock r.physicalAddress 0 * 2 ^ (12 + 0) := levelAt_minMappedAddress (Nat.zero_le 51)
    rwa [firstBlock, Nat.pow_zero, Nat.div_one] at hmapped
  have hsizeNat : (treeLevel r 0).blockSize.toNat = 4096 := rfl
  have hentryStart : (m.entries k).startAddress.toNat = firstPage r.physicalAddress * 4096 := by
    rw [hm.startAddress k r hk, hstart]
    rfl
  have hentryEnd : (m.entries k).endAddress.toNat =
      (firstPage r.physicalAddress + (treeLevel r 0).numBlocks.toNat) * 4096 := by
    rw [hm.endAddress k r hk, hr.end_toNat, hstop]
  unfold withUsedBlocks
  dsimp only
  rw [hm.lastLevel hk, hmin, hsize, hnum]
  generalize hf : firstPage r.physicalAddress = f at *
  generalize hn : (treeLevel r 0).numBlocks = n at *
  have hmaxNat : ((treeLevel r 0).minMappedAddress + n * (treeLevel r 0).blockSize).toNat =
      (f + n.toNat) * 4096 := by
    rw [UInt64.toNat_add, UInt64.toNat_mul, hminNat, hsizeNat]
    omega
  refine if_ctx_congr ?_ (fun h => ?_) (fun _ => rfl)
  · rw [UInt64.lt_iff_toNat_lt, UInt64.lt_iff_toNat_lt, ha, hb, hentryStart, hentryEnd]
    omega
  · have hfirst := higher_toNat hminNat ha
    have hlast := lower_toNat hmaxNat hb
    rw [sub_div_pages hfirst hminNat hsizeNat (by omega),
      sub_div_pages hlast hfirst hsizeNat (by omega)]

/-- A visit marks the pages from `a` on and before `b`, as far as the entry has them. -/
theorem markUsedEntryPages_eq
    {k : Nat} {r : PhysRange} (hm : TreeShape ranges tree m) (hk : ranges[k]? = some r)
    (hr : r.Aligned) (ha : startAddress.toNat = a * 4096) (hb : endAddress.toNat = b * 4096)
    (hab : a ≤ b) :
    markUsedEntryPages startAddress endAddress k m =
      if a < firstPage r.physicalAddress + (treeLevel r 0).numBlocks.toNat ∧
          firstPage r.physicalAddress < b then
        m.memset (m.levelBlocks (levelIndex ranges k r 0))
          (max (firstPage r.physicalAddress) a - firstPage r.physicalAddress)
          physMemPageUnavailable
          (min (firstPage r.physicalAddress + (treeLevel r 0).numBlocks.toNat) b -
            max (firstPage r.physicalAddress) a)
      else m := by
  have hmark : markUsedEntryPages startAddress endAddress k m =
      withUsedBlocks startAddress endAddress k m
        (fun p first count => m.memset p first physMemPageUnavailable count) m := rfl
  rw [hmark]
  exact withUsedBlocks_eq hm hk hr ha hb hab

/-- The pages that a visit marks are pages of an entry of `n` pages from `f` on. -/
theorem marked_length_le
    {f n : Nat} (hmeets : a < f + n ∧ f < b) :
    max f a - f + (min (f + n) b - max f a) ≤ n := by
  omega

/-- They are those from `a` on and before `b`. -/
theorem mem_marked_iff
    {f n i : Nat} (hi : i < n) (hmeets : a < f + n ∧ f < b) :
    max f a - f ≤ i ∧ i < max f a - f + (min (f + n) b - max f a) ↔
      a ≤ f + i ∧ f + i < b := by
  omega

/-- After a visit the entry's pages from `a` on and before `b` are unavailable. -/
theorem markUsedEntryPages_states
    {k : Nat} (hm : TreeShape ranges tree m) (haligned : ∀ r ∈ ranges, r.Aligned)
    (ha : startAddress.toNat = a * 4096) (hb : endAddress.toNat = b * 4096) (hab : a ≤ b)
    (hstates : EntryStates ranges available k m) :
    EntryStates ranges (fun p => available p && !decide (a ≤ p ∧ p < b)) k
      (markUsedEntryPages startAddress endAddress k m) := by
  intro r i hblock
  have hi := hblock.index
  have hr := haligned r (List.mem_of_getElem? hblock.entry)
  have hbefore := hstates r i hblock
  rw [markUsedEntryPages_eq hm hblock.entry hr ha hb hab]
  generalize firstPage r.physicalAddress = f at *
  dsimp only
  split_ifs with hmeets
  · have hmem := mem_marked_iff hi hmeets
    rw [hm.block_memset hblock.entry (Nat.zero_le _) (marked_length_le hmeets) hblock, hbefore]
    by_cases hmarked : a ≤ f + i ∧ f + i < b
    · rw [if_pos ⟨rfl, rfl, hmem.mpr hmarked⟩, decide_eq_true hmarked, Bool.not_true,
        Bool.and_false]
      rfl
    · rw [if_neg fun h => hmarked (hmem.mp h.2.2), decide_eq_false hmarked, Bool.not_false,
        Bool.and_true]
  · rw [hbefore, decide_eq_false (by omega), Bool.not_false, Bool.and_true]

/-- The pages that a region touches, by the addresses that the code compares. -/
theorem touches_iff (address size p : Nat) :
    Touches address size p ↔
      address / 4096 ≤ p ∧ p < (address + size + 4095) / 4096 := by
  rw [Touches]
  omega

/-- The start and the end of the extent of a region, in pages. -/
theorem extent_toNat
    {region : UInt64 × UInt64} (hfits : ExtentFits region) :
    (region.1 / physicalPageSize * physicalPageSize).toNat = region.1.toNat / 4096 * 4096 ∧
    (align (region.1 + region.2) physicalPageSize).toNat =
      (region.1.toNat + region.2.toNat + 4095) / 4096 * 4096 := by
  rw [ExtentFits] at hfits
  have hsum : (region.1 + region.2).toNat = region.1.toNat + region.2.toNat := by
    rw [UInt64.toNat_add]
    omega
  constructor
  · rw [UInt64.toNat_mul, UInt64.toNat_div, show physicalPageSize.toNat = 4096 from rfl]
    omega
  · have halign := align_toNat (x := region.1 + region.2) (a := physicalPageSize) (k := 12)
      (by decide) rfl (by rw [hsum]; omega)
    rwa [hsum] at halign

/-- Marking a region takes away exactly the pages that it touches. -/
theorem markUsedTreePages_states
    (hm : TreeShape ranges tree m) (hpos : 0 < ranges.length)
    (haligned : ∀ r ∈ ranges, r.Aligned) {address size : UInt64}
    (hregion : ExtentFits (address, size)) (hstates : PageStates ranges available m) :
    ∃ m', Returns (markUsedTreePages tree address size m) m' ∧ SameShape m m' ∧
      PageStates ranges
        (fun p => available p && !decide (Touches address.toNat size.toNat p)) m' := by
  obtain ⟨hstart, hend⟩ := extent_toNat hregion
  dsimp only at hstart hend
  have hab : address.toNat / 4096 ≤ (address.toNat + size.toNat + 4095) / 4096 :=
    Nat.div_le_div_right (by omega)
  have hvisit : LocalVisit ranges tree (markUsedEntryPages
      (address / physicalPageSize * physicalPageSize)
      (align (address + size) physicalPageSize)) := by
    refine localVisit_of_memset (sameShape_markUsedEntryPages _ _) fun k r m hm hk => ?_
    rw [markUsedEntryPages_eq hm hk (haligned r (List.mem_of_getElem? hk)) hstart hend hab]
    split_ifs with hmeets
    · exact .inr ⟨_, _, _, marked_length_le hmeets, rfl⟩
    · exact .inl rfl
  have hwalk := walkEntries_states (EntryStates ranges available) hm hpos hvisit
    (fun _ _ _ hsame hbefore => hbefore.of_sameBlocks hsame)
    (fun k m hm hbefore => markUsedEntryPages_states hm haligned hstart hend hab hbefore)
    hstates
  simp only [touches_iff]
  exact hwalk

end MarkUsed

section MarkRegions

variable {ranges : List PhysRange} {tree : PhysicalMemTree} {m : TreeMemory}
variable {available : Nat → Bool}

/-- The region that the loop over the initial map marks for an entry, if any. -/
def usedRegion (entry : InitialMemMapEntry) : Option (UInt64 × UInt64) :=
  if shouldCreateTreeForType entry.memoryType && isUsageInUse entry.usage then
    some (entry.physicalAddress, entry.numPhysicalPages * physicalPageSize)
  else none

/-- Some of the regions touches the page. -/
def TouchesAny (regions : List (UInt64 × UInt64)) (p : Nat) : Prop :=
  ∃ region ∈ regions, Touches region.1.toNat region.2.toNat p

instance (regions : List (UInt64 × UInt64)) (p : Nat) : Decidable (TouchesAny regions p) :=
  inferInstanceAs (Decidable (∃ region ∈ regions, _))

theorem touchesAny_concat (regions : List (UInt64 × UInt64)) (region : UInt64 × UInt64)
    (p : Nat) :
    TouchesAny (regions ++ [region]) p ↔
      TouchesAny regions p ∨ Touches region.1.toNat region.2.toNat p := by
  simp only [TouchesAny, List.mem_append, List.mem_singleton, or_and_right, exists_or,
    exists_eq_left]

/-- A loop that marks at most a region for each element. -/
theorem foldl_mark_states
    {α : Type} (mark : α → TreeMemory → Nat → Option TreeMemory)
    (region : α → Option (UInt64 × UInt64))
    (hm : TreeShape ranges tree m) (hpos : 0 < ranges.length)
    (haligned : ∀ r ∈ ranges, r.Aligned)
    (hmark : ∀ x m fuel, mark x m fuel =
      match region x with
      | none => some m
      | some (address, size) => markUsedTreePages tree address size m fuel)
    (xs : List α)
    (hxs : ∀ x ∈ xs, ∀ r ∈ region x, ExtentFits r)
    (hstates : PageStates ranges available m) :
    ∃ m', Returns (fun fuel =>
        xs.foldl (fun m x => m.bind fun m => mark x m fuel) (some m)) m' ∧ SameShape m m' ∧
      PageStates ranges
        (fun p => available p && !decide (TouchesAny (xs.filterMap region) p)) m' := by
  refine returns_foldl_of_invariant (f := mark)
    (fun done m' => SameShape m m' ∧ PageStates ranges
      (fun p => available p && !decide (TouchesAny (done.filterMap region) p)) m') xs
    (fun done x todo m₁ hsplit hdone => ?_) ⟨SameShape.refl m, ?_⟩
  · obtain ⟨hshape, hdone⟩ := hdone
    rw [List.filterMap_append]
    have hx := hxs x (by rw [hsplit]; simp)
    cases hregion : region x with
    | none =>
        refine ⟨m₁, (returns_pure m₁).congr fun fuel => ?_, hshape, ?_⟩
        · rw [hmark, hregion]
        · simpa [hregion] using hdone
    | some r =>
        obtain ⟨m₂, hrun, hshape', hstates'⟩ := markUsedTreePages_states
          (hm.of_sameShape hshape) hpos haligned (hx r hregion) hdone
        refine ⟨m₂, hrun.congr fun fuel => ?_, hshape.trans hshape', ?_⟩
        · rw [hmark, hregion]
        · rw [show List.filterMap region [x] = [r] by simp [hregion]]
          simpa only [touchesAny_concat, Bool.decide_or, Bool.not_or, Bool.and_assoc]
            using hstates'
  · simpa [TouchesAny] using hstates

theorem usedRegion_below
    {e : InitialMemMapEntry} (he : e.stop ≤ 2 ^ 63) :
    ∀ r ∈ usedRegion e, ExtentFits r := by
  intro r hr
  rw [usedRegion] at hr
  split_ifs at hr with hused
  · obtain rfl := Option.some.inj hr
    rw [InitialMemMapEntry.stop] at he
    refine extentFits_of_below ?_
    dsimp only
    rw [UInt64.toNat_mul, show physicalPageSize.toNat = 4096 from rfl]
    omega
  · simp at hr

/-- A region touches the pages of an entry exactly if it is the entry's range. -/
theorem touches_entry_iff
    {e : InitialMemMapEntry} (haligned : e.start % 4096 = 0) (hbelow : e.stop ≤ 2 ^ 63)
    (p : Nat) :
    Touches e.physicalAddress.toNat (e.numPhysicalPages * physicalPageSize).toNat p ↔
      e.HasPage p := by
  rw [InitialMemMapEntry.start] at haligned
  rw [InitialMemMapEntry.stop] at hbelow
  have hsize : (e.numPhysicalPages * physicalPageSize).toNat =
      e.numPhysicalPages.toNat * 4096 := by
    rw [UInt64.toNat_mul, show physicalPageSize.toNat = 4096 from rfl]
    omega
  rw [hsize, Touches, InitialMemMapEntry.HasPage, InitialMemMapEntry.start,
    InitialMemMapEntry.stop]
  omega

/-- The marked pages are those of the entries in use. -/
theorem touchesAny_usedRegion_iff
    {pInitialMap : List InitialMemMapEntry} (haligned : ∀ e ∈ pInitialMap, e.start % 4096 = 0)
    (hbelow : ∀ e ∈ pInitialMap, e.stop ≤ 2 ^ 63) (p : Nat) :
    TouchesAny (pInitialMap.filterMap usedRegion) p ↔
      ∃ e ∈ pInitialMap, e.HasPage p ∧ shouldCreateTreeForType e.memoryType = true ∧
        isUsageInUse e.usage = true := by
  simp only [TouchesAny, List.mem_filterMap]
  constructor
  · rintro ⟨region, ⟨e, he, hregion⟩, htouches⟩
    rw [usedRegion] at hregion
    split_ifs at hregion with hused
    obtain rfl := Option.some.inj hregion
    rw [Bool.and_eq_true] at hused
    exact ⟨e, he, (touches_entry_iff (haligned e he) (hbelow e he) p).mp htouches, hused⟩
  · rintro ⟨e, he, hp, hused⟩
    refine ⟨(e.physicalAddress, e.numPhysicalPages * physicalPageSize), ⟨e, he, ?_⟩,
      (touches_entry_iff (haligned e he) (hbelow e he) p).mpr hp⟩
    rw [usedRegion, if_pos (by rw [Bool.and_eq_true]; exact hused)]

theorem markInitialMapEntry_eq (entry : InitialMemMapEntry) (m : TreeMemory) (fuel : Nat) :
    markInitialMapEntry tree entry m fuel =
      match usedRegion entry with
      | none => some m
      | some (address, size) => markUsedTreePages tree address size m fuel := by
  rw [markInitialMapEntry, usedRegion]
  split_ifs <;> rfl

/-- What the marking of the regions leaves of the pages: those that no region in use
touches. -/
theorem markPhysicalMemTreeRegions_states
    (hm : TreeShape ranges tree m) (hpos : 0 < ranges.length)
    (haligned : ∀ r ∈ ranges, r.Aligned) {pInitialMap : List InitialMemMapEntry}
    (hentries : ∀ e ∈ pInitialMap, e.stop ≤ 2 ^ 63) {otherRegions : List (UInt64 × UInt64)}
    (hother : ∀ r ∈ otherRegions, ExtentFits r) :
    ∃ m', Returns (markPhysicalMemTreeRegions tree pInitialMap otherRegions m) m' ∧
      SameShape m m' ∧
      ∀ k, k < ranges.length → PagesAssigned m' k ∧ ∀ p, pageAvailable m' k p = true ↔
        (∃ r, ranges[k]? = some r ∧ r.HasPage p) ∧
          ¬ TouchesAny (pInitialMap.filterMap usedRegion) p ∧ ¬ TouchesAny otherRegions p := by
  have hused : ∀ e ∈ pInitialMap, ∀ r ∈ usedRegion e, ExtentFits r :=
    fun e he => usedRegion_below (hentries e he)
  have hregions : ∀ r ∈ otherRegions, ∀ r' ∈ some r, ExtentFits r' := by
    intro r hr r' hr'
    rw [Option.mem_some_iff] at hr'
    rw [← hr']
    exact hother r hr
  obtain ⟨m₁, hrun₁, hshape₁, hstates₁⟩ := setAllTreePagesAvailable_states hm hpos
  have hm₁ := hm.of_sameShape hshape₁
  obtain ⟨m₂, hrun₂, hshape₂, hstates₂⟩ := foldl_mark_states (markInitialMapEntry tree)
    usedRegion hm₁ hpos haligned markInitialMapEntry_eq pInitialMap hused hstates₁
  have hm₂ := hm₁.of_sameShape hshape₂
  obtain ⟨m₃, hrun₃, hshape₃, hstates₃⟩ := foldl_mark_states
    (fun region m fuel => markUsedTreePages tree region.1 region.2 m fuel) some hm₂ hpos haligned
    (fun region _ _ => by cases region; rfl) otherRegions hregions hstates₂
  have hm₃ := hm₂.of_sameShape hshape₃
  obtain ⟨m₄, hrun₄, hshape₄, hpages⟩ := fillTreeAccelBlocks_pages hm₃ hpos
    (fun k hk => hstates₃.pagesAssigned hm₃ hk)
  refine ⟨m₄, hrun₁.bind (hrun₂.bind (hrun₃.bind hrun₄)),
    hshape₁.trans (hshape₂.trans (hshape₃.trans hshape₄)), fun k hk =>
      ⟨pagesAssigned_of_summary (hm₃.of_sameShape hshape₄) hk
        (fun i hb => ⟨_, ((hpages k hk).2 0 i hb).1⟩), fun p => ?_⟩⟩
  have hentry := List.getElem?_eq_getElem hk
  rw [(hpages k hk).1, hm₃.pageAvailable_iff hentry
    (haligned _ (List.getElem_mem hk)) hstates₃ p, hentry, List.filterMap_some]
  simp

end MarkRegions

section Reports

/-- The entries on the list of a tree. -/
inductive TreeEntry (tree : PhysicalMemTree) (m : TreeMemory) : Nat → Prop
  | first {k : Nat} (hfirst : tree.pFirstEntry = some k) : TreeEntry tree m k
  | next {k k' : Nat} (hk : TreeEntry tree m k)
      (hnext : (m.entries k).pNextEntry = some k') : TreeEntry tree m k'

/-- The last level of the entry has a block for page `p`, with the availability bit set. -/
def HasAvailableBlock (m : TreeMemory) (iEntry p : Nat) : Prop :=
  let iLevel := lastLevel (m.entries iEntry)
  let first := levelFirstPage m iLevel
  first ≤ p ∧ p < first + (m.levels iLevel).numBlocks.toNat ∧
    m.block iLevel (p - first) &&& physMemPageAvailableBit ≠ 0

/-- The tree reports page `p` as available. -/
def ReportsAvailable (tree : PhysicalMemTree) (m : TreeMemory) (p : Nat) : Prop :=
  ∃ iEntry, TreeEntry tree m iEntry ∧ HasAvailableBlock m iEntry p

variable {ranges : List PhysRange} {tree : PhysicalMemTree} {m : TreeMemory}

theorem TreeShape.treeEntry_iff
    (hm : TreeShape ranges tree m) (hpos : 0 < ranges.length) (k : Nat) :
    TreeEntry tree m k ↔ k < ranges.length := by
  constructor
  · intro h
    induction h with
    | first hfirst =>
        rw [hm.first hpos] at hfirst
        rwa [← Option.some.inj hfirst]
    | next hk hnext ih =>
        rw [hm.next _ ih] at hnext
        split_ifs at hnext with hlast
        · rwa [← Option.some.inj hnext]
  · intro h
    induction k with
    | zero =>
        exact .first (hm.first hpos)
    | succ k ih =>
        have hk := Nat.lt_of_succ_lt h
        exact .next (ih hk) (by rw [hm.next k hk, if_pos h])

/-- Where every block is either available or not, the bit decides. -/
theorem hasAvailableBlock_iff
    {k : Nat} (hassigned : PagesAssigned m k) (p : Nat) :
    HasAvailableBlock m k p ↔ pageAvailable m k p = true := by
  rw [HasAvailableBlock, pageAvailable]
  rw [decide_eq_true_iff]
  refine and_congr_right fun hle => and_congr_right fun hlt => ?_
  obtain heq | heq := hassigned (p - levelFirstPage m (lastLevel (m.entries k))) (by omega)
  · rw [heq]
    decide
  · rw [heq]
    decide

/-- A marked tree reports the pages of its ranges that no region in use touches. -/
theorem markPhysicalMemTreeRegions_reports
    (hm : TreeShape ranges tree m) (hpos : 0 < ranges.length)
    (haligned : ∀ r ∈ ranges, r.Aligned) {pInitialMap : List InitialMemMapEntry}
    (hentries : ∀ e ∈ pInitialMap, e.stop ≤ 2 ^ 63) {otherRegions : List (UInt64 × UInt64)}
    (hother : ∀ r ∈ otherRegions, ExtentFits r) :
    ∃ m', Returns (markPhysicalMemTreeRegions tree pInitialMap otherRegions m) m' ∧
      ∀ p, ReportsAvailable tree m' p ↔
        (∃ r ∈ ranges, r.HasPage p) ∧
          ¬ TouchesAny (pInitialMap.filterMap usedRegion) p ∧ ¬ TouchesAny otherRegions p := by
  obtain ⟨m', hrun, hshape, hpages⟩ :=
    markPhysicalMemTreeRegions_states hm hpos haligned hentries hother
  refine ⟨m', hrun, fun p => ?_⟩
  constructor
  · rintro ⟨k, hk, hblock⟩
    rw [(hm.of_sameShape hshape).treeEntry_iff hpos] at hk
    obtain ⟨hassigned, hstates⟩ := hpages k hk
    obtain ⟨⟨r, hr, hp⟩, hunused⟩ :=
      (hstates p).mp ((hasAvailableBlock_iff hassigned p).mp hblock)
    exact ⟨⟨r, List.mem_of_getElem? hr, hp⟩, hunused⟩
  · rintro ⟨⟨r, hr, hp⟩, hunused⟩
    obtain ⟨k, hk⟩ := List.mem_iff_getElem?.mp hr
    have hlt : k < ranges.length := (List.getElem?_eq_some_iff.mp hk).1
    obtain ⟨hassigned, hstates⟩ := hpages k hlt
    exact ⟨k, ((hm.of_sameShape hshape).treeEntry_iff hpos k).mpr hlt,
      (hasAvailableBlock_iff hassigned p).mpr ((hstates p).mpr ⟨⟨r, hk, hp⟩, hunused⟩)⟩

end Reports

end Kernel
end DexprOS
