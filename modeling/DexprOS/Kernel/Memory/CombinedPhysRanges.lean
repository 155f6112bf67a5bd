import DexprOS.Kernel.Memory.PhysicalMemMapGen
import DexprOS.Kernel.Memory.PhysicalMemTreeGen

/-!
# The combined physical ranges

The ranges over which `DexprOS_IterateInitialMemMapCombinedPhysRanges` iterates are the
canonical form of the initial map: they depend only on the types and flags of the pages, not
on how the map splits them into entries or on what the entries are used for.

Main facts:
* `combinedPhysRanges_label`: the ranges give every address the type and flags of its page;
* `combinedPhysRanges_eq_of_samePages`: maps with the same pages have the same ranges;
* `combinedPhysRanges_canonical`: the canonical form, and what is built from it.
-/

namespace DexprOS
namespace Kernel

open Spans

section Pages

/-- The entry has a page at address `x`. -/
def InitialMemMapEntry.PageAt (e : InitialMemMapEntry) (x : Nat) : Prop :=
  ∃ i, i < e.numPhysicalPages.toNat ∧ x = e.start + 4096 * i

/-- The map has a page of that type and with those flags at address `x`. -/
def AssignsPage (entries : List InitialMemMapEntry) (x : Nat)
    (memType : PhysicalMemoryType) (memFlags : UInt64) : Prop :=
  ∃ e ∈ entries, e.PageAt x ∧ e.memoryType = memType ∧ e.flags = memFlags

/-- The maps assign the same types and flags to the same pages. -/
def SamePages (entries entries' : List InitialMemMapEntry) : Prop :=
  ∀ x memType memFlags,
    AssignsPage entries x memType memFlags ↔ AssignsPage entries' x memType memFlags

variable {pMemMap pMemMap' : List InitialMemMapEntry}

/-- The addresses of an entry are those of its pages. -/
theorem InitialMemMapEntry.mem_iff_pageAt (e : InitialMemMapEntry) (x : Nat) :
    (e.start ≤ x ∧ x < e.stop) ↔ ∃ p, e.PageAt p ∧ p ≤ x ∧ x < p + 4096 := by
  have hstop : e.stop = e.start + e.numPhysicalPages.toNat * 4096 := rfl
  constructor
  · rintro ⟨hle, hlt⟩
    refine ⟨e.start + 4096 * ((x - e.start) / 4096), ⟨(x - e.start) / 4096, ?_, rfl⟩, ?_, ?_⟩
    · omega
    · omega
    · omega
  · rintro ⟨p, ⟨i, hi, rfl⟩, hle, hlt⟩
    omega

/-- The labels of the entries' spans are the types and flags of the pages. -/
theorem labels_physSpan_iff (x : Nat) (l : PhysicalMemoryType × UInt64) :
    Labels (pMemMap.map InitialMemMapEntry.physSpan) x l ↔
      ∃ p, AssignsPage pMemMap p l.1 l.2 ∧ p ≤ x ∧ x < p + 4096 := by
  constructor
  · rintro ⟨a, ha, hle, hlt, rfl⟩
    obtain ⟨e, he, rfl⟩ := List.mem_map.mp ha
    obtain ⟨p, hp, hx⟩ := (e.mem_iff_pageAt x).mp ⟨hle, hlt⟩
    exact ⟨p, ⟨e, he, hp, rfl, rfl⟩, hx⟩
  · rintro ⟨p, ⟨e, he, hp, htype, hflags⟩, hx⟩
    obtain ⟨hle, hlt⟩ := (e.mem_iff_pageAt x).mpr ⟨p, hp, hx⟩
    exact ⟨e.physSpan, List.mem_map_of_mem he, hle, hlt, Prod.ext htype hflags⟩

theorem SamePages.labels
    (h : SamePages pMemMap pMemMap') (x : Nat) (l : PhysicalMemoryType × UInt64) :
    Labels (pMemMap.map InitialMemMapEntry.physSpan) x l ↔
      Labels (pMemMap'.map InitialMemMapEntry.physSpan) x l := by
  rw [labels_physSpan_iff, labels_physSpan_iff]
  exact exists_congr fun p => and_congr_left' (h p l.1 l.2)

end Pages

section Canonical

variable {pMemMap pMemMap' : List InitialMemMapEntry}

/-- A range is determined by its span. -/
theorem PhysRange.span_injective : Function.Injective PhysRange.span := by
  rintro ⟨address, size, memType, memFlags⟩ ⟨address', size', memType', memFlags'⟩ h
  have hstart : address.toNat = address'.toNat := congrArg Span.start h
  have hstop : address.toNat + size.toNat = address'.toNat + size'.toNat :=
    congrArg Span.stop h
  have hlabel : (memType, memFlags) = (memType', memFlags') := congrArg Span.label h
  have hsize : size.toNat = size'.toNat := by omega
  obtain ⟨rfl, rfl⟩ := Prod.mk.inj hlabel
  rw [UInt64.toNat_inj.mp hstart, UInt64.toNat_inj.mp hsize]

/-- The ranges give every address the type and flags of its page. -/
theorem combinedPhysRanges_label
    (h : AscendingEntries pMemMap) (x : Nat) (memType : PhysicalMemoryType)
    (memFlags : UInt64) :
    (∃ r ∈ combinedPhysRanges pMemMap,
        r.start ≤ x ∧ x < r.stop ∧ r.memType = memType ∧ r.memFlags = memFlags) ↔
      ∃ p, AssignsPage pMemMap p memType memFlags ∧ p ≤ x ∧ x < p + 4096 := by
  rw [← labels_physSpan_iff (l := (memType, memFlags)), ← labels_coalesce h.ordered,
    ← combinedPhysRanges_spans h.below, Labels]
  constructor
  · rintro ⟨r, hr, hle, hlt, htype, hflags⟩
    exact ⟨r.span, List.mem_map_of_mem hr, hle, hlt, Prod.ext htype hflags⟩
  · rintro ⟨a, ha, hle, hlt, hlabel⟩
    obtain ⟨r, hr, rfl⟩ := List.mem_map.mp ha
    exact ⟨r, hr, hle, hlt, congrArg Prod.fst hlabel, congrArg Prod.snd hlabel⟩

/-- Two consecutive ranges do not touch, or differ in type or flags. -/
theorem isChain_combinedPhysRanges (h : AscendingEntries pMemMap) :
    (combinedPhysRanges pMemMap).IsChain fun r r' =>
      ¬ (r.stop = r'.start ∧ r.memType = r'.memType ∧ r.memFlags = r'.memFlags) := by
  have hchain := isChain_coalesce (pMemMap.map InitialMemMapEntry.physSpan)
  rw [← combinedPhysRanges_spans h.below, List.isChain_map] at hchain
  refine hchain.imp fun r r' hnot hjoin => hnot ⟨hjoin.1, ?_⟩
  exact Prod.ext hjoin.2.1 hjoin.2.2

/-- Maps with the same pages have the same ranges. -/
theorem combinedPhysRanges_eq_of_samePages
    (h : AscendingEntries pMemMap) (h' : AscendingEntries pMemMap')
    (hsame : SamePages pMemMap pMemMap') :
    combinedPhysRanges pMemMap = combinedPhysRanges pMemMap' := by
  have hspans := eq_of_labels (ordered_coalesce h.ordered) (ordered_coalesce h'.ordered)
    (isChain_coalesce _) (isChain_coalesce _) fun x l => by
      rw [labels_coalesce h.ordered, labels_coalesce h'.ordered, hsame.labels]
  rw [← combinedPhysRanges_spans h.below, ← combinedPhysRanges_spans h'.below] at hspans
  exact PhysRange.span_injective.list_map hspans

/-- The iteration depends on the map only through its ranges. -/
theorem iterateInitialMemMapCombinedPhysRanges_congr
    {σ : Type} (heq : combinedPhysRanges pMemMap = combinedPhysRanges pMemMap')
    (pFunc : PhysRange → σ → σ) (pUserData : σ) :
    iterateInitialMemMapCombinedPhysRanges pMemMap pFunc pUserData =
      iterateInitialMemMapCombinedPhysRanges pMemMap' pFunc pUserData := by
  rw [iterateInitialMemMapCombinedPhysRanges_eq_foldl,
    iterateInitialMemMapCombinedPhysRanges_eq_foldl, heq]

/-- What is built from the combined ranges: the physical memory map and the tree. -/
structure SameStructures (pMemMap pMemMap' : List InitialMemMapEntry) : Prop where
  memMapSize : getPhysicalMemMapSize pMemMap = getPhysicalMemMapSize pMemMap'
  memMap : createPhysicalMemMap pMemMap = createPhysicalMemMap pMemMap'
  treeSize : getPhysicalMemTreeSize pMemMap = getPhysicalMemTreeSize pMemMap'
  tree : createPhysicalMemTree pMemMap = createPhysicalMemTree pMemMap'

theorem sameStructures_of_ranges
    (heq : combinedPhysRanges pMemMap = combinedPhysRanges pMemMap') :
    SameStructures pMemMap pMemMap' where
  memMapSize := by
    rw [getPhysicalMemMapSize, getPhysicalMemMapSize,
      iterateInitialMemMapCombinedPhysRanges_congr heq]
  memMap := by
    funext pBuffer bufferSize content
    rw [createPhysicalMemMap, createPhysicalMemMap,
      iterateInitialMemMapCombinedPhysRanges_congr heq]
  treeSize := by
    funext fuel
    rw [getPhysicalMemTreeSize, getPhysicalMemTreeSize,
      iterateInitialMemMapCombinedPhysRanges_congr heq]
  tree := by
    funext pBuffer sizeData memory fuel
    rw [createPhysicalMemTree, createPhysicalMemTree, createTreesForMemoryRanges,
      createTreesForMemoryRanges, iterateInitialMemMapCombinedPhysRanges_congr heq]

/-- **The canonical form of a map**: the iteration hands out ascending and disjoint ranges
that give every address the type and flags of its page, no two consecutive ones of which
could be one; and maps with the same pages are the same to it. -/
theorem combinedPhysRanges_canonical (h : AscendingEntries pMemMap) :
    (∀ (σ : Type) (pFunc : PhysRange → σ → σ) (pUserData : σ),
      iterateInitialMemMapCombinedPhysRanges pMemMap pFunc pUserData =
        (combinedPhysRanges pMemMap).foldl (fun s r => pFunc r s) pUserData) ∧
    (combinedPhysRanges pMemMap).Pairwise (fun r r' => r.stop ≤ r'.start) ∧
    (∀ r ∈ combinedPhysRanges pMemMap, r.start < r.stop) ∧
    (∀ x memType memFlags,
      (∃ r ∈ combinedPhysRanges pMemMap,
          r.start ≤ x ∧ x < r.stop ∧ r.memType = memType ∧ r.memFlags = memFlags) ↔
        ∃ p, AssignsPage pMemMap p memType memFlags ∧ p ≤ x ∧ x < p + 4096) ∧
    ((combinedPhysRanges pMemMap).IsChain fun r r' =>
      ¬ (r.stop = r'.start ∧ r.memType = r'.memType ∧ r.memFlags = r'.memFlags)) ∧
    ∀ pMemMap', AscendingEntries pMemMap' → SamePages pMemMap pMemMap' →
      combinedPhysRanges pMemMap = combinedPhysRanges pMemMap' ∧
        SameStructures pMemMap pMemMap' := by
  have hordered := h.ordered_combinedPhysRanges
  refine ⟨fun _ => iterateInitialMemMapCombinedPhysRanges_eq_foldl pMemMap,
    List.pairwise_map.mp hordered.ascending, ?_, combinedPhysRanges_label h,
    isChain_combinedPhysRanges h, fun pMemMap' h' hsame => ?_⟩
  · intro r hr
    exact hordered.nonempty r.span (List.mem_map_of_mem hr)
  · have heq := combinedPhysRanges_eq_of_samePages h h' hsame
    exact ⟨heq, sameStructures_of_ranges heq⟩

/-- Two pages in one entry, or in two entries of different usages. -/
theorem combinedPhysRanges_canonical_two_pages :
    SameStructures [⟨.usable, .mapped, 0, 0x1000, 0x1000, 2⟩]
      [⟨.usable, .kernelCode, 0, 0x1000, 0x1000, 1⟩,
        ⟨.usable, .mapped, 0, 0x2000, 0x2000, 1⟩] := by
  have hone : AscendingEntries [⟨.usable, .mapped, 0, 0x1000, 0x1000, 2⟩] :=
    ⟨by decide, by decide, by decide⟩
  have htwo : AscendingEntries [⟨.usable, .kernelCode, 0, 0x1000, 0x1000, 1⟩,
      ⟨.usable, .mapped, 0, 0x2000, 0x2000, 1⟩] :=
    ⟨by decide, by decide, by decide⟩
  refine ((combinedPhysRanges_canonical hone).2.2.2.2.2 _ htwo ?_).2
  intro x memType memFlags
  have hpages : (2 : UInt64).toNat = 2 ∧ (1 : UInt64).toNat = 1 ∧
      (0x1000 : UInt64).toNat = 0x1000 ∧ (0x2000 : UInt64).toNat = 0x2000 := by
    decide
  obtain ⟨htwoPages, honePage, hfirst, hsecond⟩ := hpages
  simp only [AssignsPage, InitialMemMapEntry.PageAt, InitialMemMapEntry.start,
    List.mem_cons, List.not_mem_nil, or_false, exists_eq_left, exists_eq_or_imp,
    htwoPages, honePage, hfirst, hsecond]
  constructor
  · rintro ⟨⟨i, hi, rfl⟩, htype, hflags⟩
    obtain rfl | rfl : i = 0 ∨ i = 1 := by omega
    · exact .inl ⟨⟨0, Nat.one_pos, rfl⟩, htype, hflags⟩
    · exact .inr ⟨⟨0, Nat.one_pos, rfl⟩, htype, hflags⟩
  · rintro (⟨⟨i, hi, rfl⟩, htype, hflags⟩ | ⟨⟨i, hi, rfl⟩, htype, hflags⟩)
    · exact ⟨⟨0, by omega, by omega⟩, htype, hflags⟩
    · exact ⟨⟨1, by omega, by omega⟩, htype, hflags⟩

end Canonical

end Kernel
end DexprOS
