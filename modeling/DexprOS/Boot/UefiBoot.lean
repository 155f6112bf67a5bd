import DexprOS.Kernel.Efi.InitialMemMapCreation
import DexprOS.Kernel.Memory.PhysicalMemStructsSize
import DexprOS.Kernel.Memory.PhysicalMemTreeComplete
import DexprOS.Kernel.Memory.PhysicalMemTreeMarking

/-!
# Physical memory at boot

The steps of `efi_main` from the firmware's memory map to the physical memory tree: the
initial memory map, the place for the structures, their creation.

Main facts:
* `treeRanges_hasPage_iff`: the tree covers the pages of the entries of managed types;
* `PagedEntries.touchesAny_usedRegion_iff`: the marked pages are those of the entries in use;
* `createMemStructs_reports`: the pages that the tree reports as available are the free
  pages of the firmware's map, less those of the initial map and of the tree itself.
-/

namespace DexprOS
namespace Boot

open Efi Fuel Kernel Spans

section MemStructs

/-- The loop that looks for a region for the structures; `none` is `rangeFound == false`. -/
def findMemStructsAddress (entries : List InitialMemMapEntry) (bufferSize : UInt64) :
    Option UInt64 :=
  (entries.find? fun entry =>
    entry.memoryType = .usable ∧ entry.usage = .mapped ∧
      bufferSize ≤ entry.numPhysicalPages * physicalPageSize).map
    InitialMemMapEntry.virtualAddress

/-- What has been found when the structures are created. -/
structure MemStructsPlace where
  initialMemMap : InitialMemMap
  physMemReq : PhysMemStructsSizeData
  memStructsAddress : UInt64

/-- The steps up to the place of the structures; the inner `none` is the return of
`EFI_OUT_OF_RESOURCES`. -/
def placeMemStructs (map : List EfiMemoryDescriptor) (content : Nat → InitialMemMapEntry)
    (initialMemMap : InitialMemMap) (fuel : Nat) : Option (Option MemStructsPlace) :=
  (createInitialMemMapFromEfi map content initialMemMap fuel).bind
    fun (created, initialMemMap) =>
  if created = false then
    some none
  else
    (getPhysicalMemStructsSizeData initialMemMap.entries fuel).map fun physMemReq =>
      (findMemStructsAddress initialMemMap.entries physMemReq.bufferSize).map
        fun memStructsAddress => ⟨initialMemMap, physMemReq, memStructsAddress⟩

/-- The structures after `memset(pPhysicalMemData, 0, physMemReq.bufferSize)`. -/
def zeroMemStructs (structs : PhysMemStructs) : PhysMemStructs :=
  { structs with
    treeMemory := zeroTreeMemory
    mapContent := fun _ => ⟨.unusable, 0, 0, 0⟩ }

/-- All steps: the place, the result of `DexprOS_CreatePhysicalMemStructs` and the created
structures. -/
def createMemStructs (map : List EfiMemoryDescriptor) (content : Nat → InitialMemMapEntry)
    (initialMemMap : InitialMemMap) (structs : PhysMemStructs) (fuel : Nat) :
    Option (Option (MemStructsPlace × Bool × PhysMemStructs)) :=
  (placeMemStructs map content initialMemMap fuel).bind fun place =>
    match place with
    | none => some none
    | some place =>
        (createPhysicalMemStructs place.initialMemMap.entries place.memStructsAddress
          place.physMemReq (zeroMemStructs structs) fuel).map
          fun created => some (place, created)

end MemStructs

section Pages

variable {entries : List InitialMemMapEntry} {p : Nat}

/-- What holds of the pages of regular ascending entries. -/
structure PagedEntries (entries : List InitialMemMapEntry) : Prop where
  ascending : entries.Pairwise (fun a b => a.stop ≤ b.start)
  regular : ∀ e ∈ entries, e.Regular

theorem PagedEntries.ascendingEntries
    (h : PagedEntries entries) :
    AscendingEntries entries where
  ascending := h.ascending
  nonempty := by
    intro e he
    have hlt := (h.regular e he).nonempty
    rw [InitialMemMapEntry.start, InitialMemMapEntry.stop] at hlt
    omega
  below := fun e he => (h.regular e he).below

/-- The combined ranges consist of whole pages. -/
theorem PagedEntries.aligned
    (h : PagedEntries entries) :
    ∀ r ∈ combinedPhysRanges entries, r.Aligned :=
  combinedPhysRanges_aligned (fun e he => (h.regular e he).aligned)
    h.ascendingEntries.below

/-- The tree covers the pages of the entries of managed types. -/
theorem treeRanges_hasPage_iff
    (h : PagedEntries entries) (p : Nat) :
    (∃ r ∈ treeRanges entries, r.HasPage p) ↔
      ∃ e ∈ entries, e.HasPage p ∧ shouldCreateTreeForType e.memoryType = true := by
  have hlabels := fun l => labels_coalesce h.ascendingEntries.ordered (p * 4096) l
  rw [← combinedPhysRanges_spans h.ascendingEntries.below] at hlabels
  simp only [Labels, List.mem_map, exists_exists_and_eq_and] at hlabels
  constructor
  · rintro ⟨r, hr, hp⟩
    obtain ⟨hr, htype⟩ := List.mem_filter.mp hr
    obtain ⟨e, he, hstart, hstop, hlabel⟩ :=
      (hlabels (r.memType, r.memFlags)).mp ⟨r, hr, hp.1, hp.2, rfl⟩
    refine ⟨e, he, ⟨hstart, hstop⟩, ?_⟩
    rw [show e.memoryType = r.memType from congrArg Prod.fst hlabel]
    exact htype
  · rintro ⟨e, he, hp, htype⟩
    obtain ⟨r, hr, hstart, hstop, hlabel⟩ :=
      (hlabels (e.memoryType, e.flags)).mpr ⟨e, he, hp.1, hp.2, rfl⟩
    refine ⟨r, List.mem_filter.mpr ⟨hr, ?_⟩, hstart, hstop⟩
    rw [show r.memType = e.memoryType from congrArg Prod.fst hlabel]
    exact htype

/-- The marked pages are those of the entries in use. -/
theorem PagedEntries.touchesAny_usedRegion_iff
    (h : PagedEntries entries) (p : Nat) :
    TouchesAny (entries.filterMap usedRegion) p ↔
      ∃ e ∈ entries, e.HasPage p ∧ shouldCreateTreeForType e.memoryType = true ∧
        isUsageInUse e.usage = true :=
  Kernel.touchesAny_usedRegion_iff (fun e he => (h.regular e he).aligned)
    h.ascendingEntries.below p

end Pages

section Creation

variable {entries : List InitialMemMapEntry} {s : PhysMemStructsSizeData}

/-- The tree's part of the buffer is laid out as the creation expects it. -/
theorem treeBuffer_of_exact
    (hs : ExactSizes entries (structsSizeData entries))
    (hfit : requiredSize entries < 2 ^ 63) {address : UInt64} (haddress : address ≠ 0)
    (hinside : address.toNat + requiredSize entries ≤ 2 ^ 64) :
    TreeBuffer address (structsSizeData entries).treeSizeData := by
  have htree : treeSize (treeRanges entries) ≤ requiredSize entries := by
    rw [requiredSize]
    omega
  have hsize : (structsSizeData entries).treeSizeData.bufferSize.toNat =
      treeSize (treeRanges entries) := (layoutTreeBuffer_exact (by omega)).2.2
  refine ⟨haddress, ?_, ?_, ?_, ?_, ?_⟩
  · rw [hs.treeEntriesOffset, hs.numTreeEntries, hs.treeLevelStructsOffset]
    exact (Nat.zero_add _).le
  · rw [hs.treeLevelStructsOffset, hs.numTreeLevelStructs, hs.blocksOffset]
  · rw [hs.blocksOffset, hs.totalBlocksSize, hsize, treeSize]
  · rw [hsize]
    omega
  · rw [hsize]
    omega

/-- The creation runs through when the tree is created and marked. -/
theorem createPhysicalMemStructs_returns
    {address : UInt64} {structs : PhysMemStructs} {tree : PhysicalMemTree} {m₀ m : TreeMemory}
    (htree : Returns (createPhysicalMemTree entries (address + s.treeOffset) s.treeSizeData
      structs.treeMemory) (true, tree, m₀))
    (hmark : Returns (markPhysicalMemTreeRegions tree entries [(address, s.bufferSize)] m₀) m) :
    let map := createPhysicalMemMap entries (address + s.memMapOffset) s.memMapSize
      structs.mapContent
    Returns (createPhysicalMemStructs entries address s structs)
      (map.1, ⟨tree, map.2.1, m, map.2.2⟩) := by
  obtain ⟨n, hn⟩ := htree
  obtain ⟨n', hn'⟩ := hmark
  refine ⟨max n n', fun fuel hle => ?_⟩
  rw [createPhysicalMemStructs, hn fuel (le_of_max_le_left hle), Option.bind_some]
  dsimp only
  rw [if_neg (by decide), hn' fuel (le_of_max_le_right hle)]
  rfl

/-- In a buffer that lies in memory the structures are created, and the tree reports the
pages of managed types that are not in use and not in the buffer. -/
theorem createPhysicalMemStructs_reports
    (h : PagedEntries entries) (hs : Returns (getPhysicalMemStructsSizeData entries) s)
    (hmanaged : ∃ e ∈ entries, shouldCreateTreeForType e.memoryType = true)
    {address : UInt64} (haddress : address ≠ 0)
    (hinside : address.toNat + s.bufferSize.toNat ≤ 2 ^ 63) (structs : PhysMemStructs) :
    ∃ structs', Returns (createPhysicalMemStructs entries address s structs) (true, structs') ∧
      ∀ p, ReportsAvailable structs'.tree structs'.treeMemory p ↔
        (∃ e ∈ entries, e.HasPage p ∧ shouldCreateTreeForType e.memoryType = true) ∧
          ¬ (∃ e ∈ entries, e.HasPage p ∧ shouldCreateTreeForType e.memoryType = true ∧
            isUsageInUse e.usage = true) ∧
          ¬ Touches address.toNat s.bufferSize.toNat p := by
  obtain rfl := hs.unique (getPhysicalMemStructsSizeData_returns entries)
  have hexact := structsSizeData_exact (requiredSize_lt h.ascendingEntries)
  have hnull : address.toNat ≠ 0 := fun hzero => haddress (UInt64.toNat_inj.mp hzero)
  have hfit := hinside
  rw [hexact.bufferSize] at hfit
  have hbuffer := treeBuffer_of_exact hexact (by omega) haddress (by omega)
  obtain ⟨s, hs', hagree⟩ := createPhysicalMemStructs_agrees (.inl h.ascendingEntries)
  obtain rfl := hs'.unique hs
  obtain ⟨c, tree, -, htree, hmapCreated, -, -⟩ :=
    hagree address structs.treeMemory structs.mapContent
  have hm : TreeShape (treeRanges entries) tree c.memory := by
    rw [hexact.treeOffset, UInt64.add_zero] at htree
    exact TreeShape.of_success hbuffer htree
  have hpos : 0 < (treeRanges entries).length := by
    obtain ⟨e, he, htype⟩ := hmanaged
    have hreg := h.regular e he
    have hpage : e.HasPage (e.start / 4096) := by
      have halign := hreg.aligned
      have hlt := hreg.nonempty
      rw [InitialMemMapEntry.HasPage]
      omega
    obtain ⟨r, hr, -⟩ := (treeRanges_hasPage_iff h _).mpr ⟨e, he, hpage, htype⟩
    exact List.length_pos_of_mem hr
  have hother : ∀ r ∈ [(address, (structsSizeData entries).bufferSize)], ExtentFits r := by
    intro r hr
    rw [List.mem_singleton.mp hr]
    exact extentFits_of_below hinside
  obtain ⟨m, hmark, hreports⟩ := markPhysicalMemTreeRegions_reports hm hpos
    (fun r hr => h.aligned r (List.mem_of_mem_filter hr)) h.ascendingEntries.below hother
  have hrun := createPhysicalMemStructs_returns htree hmark
  dsimp only at hrun
  rw [hmapCreated] at hrun
  refine ⟨_, hrun, fun p => ?_⟩
  rw [hreports p, treeRanges_hasPage_iff h p, h.touchesAny_usedRegion_iff p]
  simp [TouchesAny]

end Creation

section Boot

variable {map : List EfiMemoryDescriptor} {content : Nat → InitialMemMapEntry}
variable {regions : List InitialMemMapEntry} {region : InitialMemMapEntry} {m : InitialMemMap}

theorem pagedEntries_of_describesItself
    (h : DescribesItself map regions region content m) :
    PagedEntries m.entries :=
  ⟨h.ascending, h.regular⟩

/-- What an entry says about a page is what the page's descriptor says, but for the pages of
the map itself. -/
theorem exists_entry_iff
    (h : DescribesItself map regions region content m)
    (P : PhysicalMemoryType → InitialMemMapMappedUsage → Prop) (p : Nat) :
    (∃ e ∈ m.entries, e.HasPage p ∧ P e.memoryType e.usage) ↔
      ∃ d ∈ map, d.HasPage p ∧ P (toDexprOSMemType d.type)
        (if region.start ≤ p * 4096 ∧
            p * 4096 < region.start + initMapPages regions.length * 4096 then
          .initialMemMap
        else
          toDexprOSInitialMemMapUsage d.type) := by
  constructor
  · rintro ⟨e, he, hp, hP⟩
    obtain ⟨d, hd, hdp, htype, husage, -⟩ :=
      (h.pages p e.memoryType e.usage e.flags).mp ⟨e, he, hp, rfl, rfl, rfl⟩
    exact ⟨d, hd, hdp, by rw [htype, husage]; exact hP⟩
  · rintro ⟨d, hd, hp, hP⟩
    obtain ⟨e, he, hep, htype, husage, -⟩ := (h.pages p _ _ _).mpr ⟨d, hd, hp, rfl, rfl, rfl⟩
    exact ⟨e, he, hep, by rw [htype, husage]; exact hP⟩

/-- The pages of the map are those that its memory touches. -/
theorem touches_initMap_iff
    (hregion : region.start % 4096 = 0) {size : UInt64} {n : Nat}
    (hsize : size.toNat = 40 * (n + 1)) (p : Nat) :
    Touches region.physicalAddress.toNat size.toNat p ↔
      region.start ≤ p * 4096 ∧ p * 4096 < region.start + initMapPages n * 4096 := by
  rw [hsize, Touches, initMapPages]
  rw [InitialMemMapEntry.start] at *
  omega

/-- A type whose memory is managed and has no use of its own at boot. -/
def IsFreeType (type : EfiMemoryType) : Prop :=
  type = .conventionalMemory ∨ type = .persistentMemory

/-- Managed types that are not in use are the free ones. -/
theorem managed_not_inUse_iff (type : EfiMemoryType) :
    shouldCreateTreeForType (toDexprOSMemType type) = true ∧
        ¬ isUsageInUse (toDexprOSInitialMemMapUsage type) = true ↔
      IsFreeType type := by
  cases type <;> simp [toDexprOSMemType, shouldCreateTreeForType, isUsageInUse,
    toDexprOSInitialMemMapUsage, IsFreeType]

/-- The pages of managed types that are not in use are the free pages of the firmware's map
that the map itself does not take. -/
theorem managed_pages_iff
    {limit : Nat} (hmap : WellFormedMap limit map)
    (h : DescribesItself map regions region content m) (p : Nat) :
    (∃ e ∈ m.entries, e.HasPage p ∧ shouldCreateTreeForType e.memoryType = true) ∧
        ¬ (∃ e ∈ m.entries, e.HasPage p ∧ shouldCreateTreeForType e.memoryType = true ∧
          isUsageInUse e.usage = true) ↔
      (∃ d ∈ map, d.HasPage p ∧ IsFreeType d.type) ∧
        ¬ (region.start ≤ p * 4096 ∧
          p * 4096 < region.start + initMapPages regions.length * 4096) := by
  rw [exists_entry_iff h (fun type _ => shouldCreateTreeForType type = true) p,
    exists_entry_iff h (fun type usage => shouldCreateTreeForType type = true ∧
      isUsageInUse usage = true) p]
  by_cases hself : region.start ≤ p * 4096 ∧
      p * 4096 < region.start + initMapPages regions.length * 4096
  · simp [hself, isUsageInUse]
  · simp only [hself, not_false_eq_true, and_true]
    constructor
    · rintro ⟨⟨d, hd, hp, htype⟩, hunused⟩
      exact ⟨d, hd, hp, (managed_not_inUse_iff d.type).mp
        ⟨htype, fun hused => hunused ⟨d, hd, hp, htype, hused⟩⟩⟩
    · rintro ⟨d, hd, hp, hfree⟩
      obtain ⟨htype, hunused⟩ := (managed_not_inUse_iff d.type).mpr hfree
      refine ⟨⟨d, hd, hp, htype⟩, ?_⟩
      rintro ⟨d', hd', hp', -, hused⟩
      obtain rfl := hmap.eq_of_hasPage hd hd' hp hp'
      exact hunused hused

/-- The place that is found lies at the beginning of an available entry with room for the
structures. -/
theorem findMemStructsAddress_spec
    {entries : List InitialMemMapEntry} {bufferSize address : UInt64}
    (h : findMemStructsAddress entries bufferSize = some address) :
    ∃ e ∈ entries, e.Available ∧ bufferSize ≤ e.numPhysicalPages * physicalPageSize ∧
      address = e.virtualAddress := by
  obtain ⟨e, hfind, rfl⟩ := Option.map_eq_some_iff.mp h
  have hfound := List.find?_some hfind
  rw [decide_eq_true_iff] at hfound
  exact ⟨e, List.mem_of_find?_eq_some hfind, ⟨hfound.1, hfound.2.1⟩, hfound.2.2, rfl⟩

variable {initialMemMap : InitialMemMap}

/-- The steps up to the place, when the initial map is created. -/
theorem placeMemStructs_returns
    (hcreate : Returns (createInitialMemMapFromEfi map content initialMemMap) (true, m)) :
    Returns (placeMemStructs map content initialMemMap)
      ((findMemStructsAddress m.entries (structsSizeData m.entries).bufferSize).map
        fun memStructsAddress => ⟨m, structsSizeData m.entries, memStructsAddress⟩) := by
  obtain ⟨n, hn⟩ := hcreate
  obtain ⟨n', hn'⟩ := getPhysicalMemStructsSizeData_returns m.entries
  refine ⟨max n n', fun fuel hle => ?_⟩
  rw [placeMemStructs, hn fuel (le_of_max_le_left hle), Option.bind_some]
  dsimp only
  rw [if_neg (by decide), hn' fuel (le_of_max_le_right hle), Option.map_some]

/-- They stop when it is not created. -/
theorem placeMemStructs_returns_none
    (hcreate : Returns (createInitialMemMapFromEfi map content initialMemMap) (false, m)) :
    Returns (placeMemStructs map content initialMemMap) none := by
  obtain ⟨n, hn⟩ := hcreate
  refine ⟨n, fun fuel hle => ?_⟩
  rw [placeMemStructs, hn fuel hle, Option.bind_some]
  rfl

/-- All steps, when there is a place and the creation succeeds. -/
theorem createMemStructs_returns
    {place : MemStructsPlace} {structs : PhysMemStructs} {created : Bool × PhysMemStructs}
    (hplace : Returns (placeMemStructs map content initialMemMap) (some place))
    (hcreate : Returns (createPhysicalMemStructs place.initialMemMap.entries
      place.memStructsAddress place.physMemReq (zeroMemStructs structs)) created) :
    Returns (createMemStructs map content initialMemMap structs) (some (place, created)) := by
  have hlast := hcreate.map fun created => some (place, created)
  exact hplace.bind hlast

/-- The place of the structures, when there is one: the initial map lies in the memory that
was taken for it, and the structures lie in an available entry. -/
theorem placeMemStructs_some
    (hmap : WellFormedMap (2 ^ 63) map) {place : MemStructsPlace}
    (hplace : Returns (placeMemStructs map content initialMemMap) (some place)) :
    ∃ regions region size, region.start % 4096 = 0 ∧
      size.toNat = 40 * (regions.length + 1) ∧
      Returns (allocInitMemMapMemory map)
        (some ⟨region.physicalAddress, region.virtualAddress, size⟩) ∧
      region.virtualAddress = region.physicalAddress ∧
      DescribesItself map regions region content place.initialMemMap ∧
      place.physMemReq = structsSizeData place.initialMemMap.entries ∧
      findMemStructsAddress place.initialMemMap.entries place.physMemReq.bufferSize =
        some place.memStructsAddress := by
  obtain ⟨sorted, hperm, hasc⟩ := exists_ascending_map hmap
  have hcanon := canonical_iteratedEntries hmap hperm hasc
  rcases allocInitMemMapMemory_ascending hmap hperm hasc with
    ⟨halloc, -⟩ | ⟨region, size, hregion, -, hsize, halloc⟩
  · have hfalse : Returns (createInitialMemMapFromEfi map content initialMemMap)
        (false, initialMemMap) := halloc.bind (returns_pure _)
    exact absurd (hplace.unique (placeMemStructs_returns_none hfalse)) (Option.some_ne_none _)
  · obtain ⟨m, hm, hdescribes⟩ :=
      createInitMemMap_returns hmap hperm hasc hregion hsize content
    have hcreate : Returns (createInitialMemMapFromEfi map content initialMemMap) (true, m) :=
      halloc.bind hm
    have hfound := hplace.unique (placeMemStructs_returns hcreate)
    obtain ⟨address, hfind, rfl⟩ := Option.map_eq_some_iff.mp hfound.symm
    have hreg := hcanon.regular region hregion.1
    exact ⟨_, region, size, hreg.aligned, hsize, halloc, hreg.identity, hdescribes, rfl, hfind⟩

/-- For every map of the firmware for which there is a place for the structures, they are
created, and the tree reports exactly the free pages of the map that neither the initial
map nor the structures take. -/
theorem createMemStructs_reports
    (hmap : WellFormedMap (2 ^ 52) map) (content : Nat → InitialMemMapEntry)
    (initialMemMap : InitialMemMap) (structs : PhysMemStructs) {place : MemStructsPlace}
    (hplace : Returns (placeMemStructs map content initialMemMap) (some place))
    (haddress : place.memStructsAddress ≠ 0) :
    ∃ structs' memory,
      Returns (createMemStructs map content initialMemMap structs)
        (some (place, true, structs')) ∧
      Returns (allocInitMemMapMemory map) (some memory) ∧
      place.initialMemMap.pEntries = memory.physAddress ∧
      40 * place.initialMemMap.numEntries.toNat ≤ memory.size.toNat ∧
      (∀ p, ReportsAvailable structs'.tree structs'.treeMemory p ↔
        (∃ d ∈ map, d.HasPage p ∧
          (d.type = .conventionalMemory ∨ d.type = .persistentMemory)) ∧
        ¬ Touches memory.physAddress.toNat memory.size.toNat p ∧
        ¬ Touches place.memStructsAddress.toNat place.physMemReq.bufferSize.toNat p) ∧
      ∀ d ∈ map, d.type = .loaderCode ∨ d.type = .loaderData → ∀ p, d.HasPage p →
        ¬ ReportsAvailable structs'.tree structs'.treeMemory p := by
  have hmap' : WellFormedMap (2 ^ 63) map :=
    ⟨hmap.aligned, hmap.nonempty, hmap.disjoint,
      fun d hd => (hmap.below d hd).trans (by decide)⟩
  obtain ⟨regions, region, size, hregion, hsize, halloc, hidentity, hdescribes, hreq, hfind⟩ :=
    placeMemStructs_some hmap' hplace
  have hentries := pagedEntries_of_describesItself hdescribes
  obtain ⟨e, he, havailable, hroom, hvirtual⟩ := findMemStructsAddress_spec hfind
  have hreg := hentries.regular e he
  have hinside : place.memStructsAddress.toNat + place.physMemReq.bufferSize.toNat ≤ 2 ^ 63 := by
    have hbelow := hreg.below
    rw [InitialMemMapEntry.stop] at hbelow
    rw [UInt64.le_iff_toNat_le, UInt64.toNat_mul, show physicalPageSize.toNat = 4096 from rfl]
      at hroom
    rw [hvirtual, hreg.identity]
    omega
  have hsizes : Returns (getPhysicalMemStructsSizeData place.initialMemMap.entries)
      place.physMemReq := by
    rw [hreq]
    exact getPhysicalMemStructsSizeData_returns _
  obtain ⟨structs', hcreate, hreports⟩ := createPhysicalMemStructs_reports hentries hsizes
    ⟨e, he, by rw [havailable.1]; rfl⟩ haddress hinside (zeroMemStructs structs)
  have hpages : ∀ p, ReportsAvailable structs'.tree structs'.treeMemory p ↔
      (∃ d ∈ map, d.HasPage p ∧ IsFreeType d.type) ∧
      ¬ Touches region.physicalAddress.toNat size.toNat p ∧
      ¬ Touches place.memStructsAddress.toNat place.physMemReq.bufferSize.toNat p := by
    intro p
    rw [hreports p, ← and_assoc, managed_pages_iff hmap hdescribes p,
      ← touches_initMap_iff hregion hsize p, and_assoc]
  refine ⟨structs', ⟨region.physicalAddress, region.virtualAddress, size⟩,
    createMemStructs_returns hplace hcreate, halloc, hdescribes.stored, ?_, hpages, ?_⟩
  · have hlength : place.initialMemMap.entries.length =
        place.initialMemMap.numEntries.toNat := by
      rw [InitialMemMap.entries, List.length_map, List.length_range]
    have hstored := hdescribes.room
    rw [hlength] at hstored
    show _ ≤ size.toNat
    omega
  · intro d hd htype p hp hreport
    obtain ⟨⟨d', hd', hp', hfree⟩, -⟩ := (hpages p).mp hreport
    obtain rfl := hmap.eq_of_hasPage hd hd' hp hp'
    obtain htype | htype := htype <;> rw [htype] at hfree <;> simp [IsFreeType] at hfree

/-- A firmware map with sixteen free pages. -/
def sixteenPageMap : List EfiMemoryDescriptor :=
  [⟨.conventionalMemory, 0x1000, 16, efiMemoryWB⟩]

theorem sixteenPageMap_wellFormed {limit : Nat} (hlimit : 0x11000 ≤ limit) :
    WellFormedMap limit sixteenPageMap where
  aligned := by decide
  nonempty := by decide
  disjoint := List.pairwise_singleton _ _
  below := by
    intro d hd
    obtain rfl := List.mem_singleton.mp hd
    exact hlimit

/-- No map yet. -/
def noMemMap : InitialMemMap :=
  ⟨0, 0, fun _ => unsetEntry⟩

/-- The entries of the initial map: the page that holds it, and the others. -/
def sixteenPageEntries : List InitialMemMapEntry :=
  [⟨.usable, .initialMemMap, physicalMemoryWriteBackBit, 0x1000, 0x1000, 1⟩,
    ⟨.usable, .mapped, physicalMemoryWriteBackBit, 0x2000, 0x2000, 15⟩]

theorem createInitialMemMapFromEfi_sixteenPages :
    Returns (allocInitMemMapMemory sixteenPageMap) (some ⟨0x1000, 0x1000, 80⟩) ∧
      ∃ m, Returns (createInitialMemMapFromEfi sixteenPageMap (fun _ => unsetEntry) noMemMap)
        (true, m) ∧ m.entries = sixteenPageEntries := by
  have hmap : WellFormedMap (2 ^ 63) sixteenPageMap := sixteenPageMap_wellFormed (by norm_num)
  have halloc := (iterEfiMemMapAsInitMap_ascending hmap (List.Perm.refl _) (by decide)
    initMemMapAllocCallback ⟨0, 0, 0, 0⟩).map chooseInitMemMapMemory
  have hcreate := (iterEfiMemMapAsInitMap_ascending hmap (List.Perm.refl _) (by decide)
    fillInitMemMapEntry
    ⟨⟨0x1000, 0, fun _ => unsetEntry⟩, 80, 0x1000, 0x1000, 1, true⟩).map
      fun s => (s.success, s.memMap)
  exact ⟨halloc, _, Returns.bind halloc hcreate, by decide +kernel⟩

/-- The structures for the sixteen pages take at most nine of them. -/
theorem bufferSize_sixteenPages :
    0 < (structsSizeData sixteenPageEntries).bufferSize.toNat ∧
      (structsSizeData sixteenPageEntries).bufferSize.toNat < 9 * 4096 := by
  have hranges : combinedPhysRanges sixteenPageEntries =
      [⟨0x1000, 0x10000, .usable, physicalMemoryWriteBackBit⟩] := by
    decide
  have hstructs := structs_le (combinedPhysRanges sixteenPageEntries)
    (by rw [hranges]; decide)
  have hsum : ((combinedPhysRanges sixteenPageEntries).map fun r => r.stop - r.start).sum =
      16 * 4096 := by
    rw [hranges]
    rfl
  rw [hsum] at hstructs
  have hlength : (combinedPhysRanges sixteenPageEntries).length = 1 := by
    rw [hranges]
    rfl
  have hrequired : 0 < requiredSize sixteenPageEntries ∧
      requiredSize sixteenPageEntries < 9 * 4096 := by
    rw [requiredSize, treeRanges]
    omega
  rwa [(structsSizeData_exact (hrequired.2.trans (by decide))).bufferSize]

/-- The first page holds the map, the next one the structures, the last one is free. -/
theorem createMemStructs_reports_sixteenPages :
    ∃ place structs',
      Returns (createMemStructs sixteenPageMap (fun _ => unsetEntry) noMemMap
        ⟨⟨none⟩, ⟨0, 0⟩, zeroTreeMemory, fun _ => ⟨.unusable, 0, 0, 0⟩⟩)
        (some (place, true, structs')) ∧
      ¬ ReportsAvailable structs'.tree structs'.treeMemory 1 ∧
      ¬ ReportsAvailable structs'.tree structs'.treeMemory 2 ∧
      ReportsAvailable structs'.tree structs'.treeMemory 16 := by
  obtain ⟨halloc, m, hcreate, hentries⟩ := createInitialMemMapFromEfi_sixteenPages
  obtain ⟨hpos, hsize⟩ := bufferSize_sixteenPages
  have hplace := placeMemStructs_returns hcreate
  rw [hentries] at hplace
  have hfind : findMemStructsAddress sixteenPageEntries
      (structsSizeData sixteenPageEntries).bufferSize = some 0x2000 := by
    have hroom : (structsSizeData sixteenPageEntries).bufferSize ≤ 15 * physicalPageSize := by
      rw [UInt64.le_iff_toNat_le]
      exact hsize.le.trans (by decide)
    rw [findMemStructsAddress]
    generalize (structsSizeData sixteenPageEntries).bufferSize = bufferSize at hroom
    simp [sixteenPageEntries, hroom]
  rw [hfind] at hplace
  obtain ⟨structs', memory, hrun, hmemory, -, -, hreports, -⟩ := createMemStructs_reports
    (sixteenPageMap_wellFormed (by norm_num)) (fun _ => unsetEntry) noMemMap
    ⟨⟨none⟩, ⟨0, 0⟩, zeroTreeMemory, fun _ => ⟨.unusable, 0, 0, 0⟩⟩ hplace
    (show (0x2000 : UInt64) ≠ 0 by decide)
  obtain rfl := Option.some.inj (halloc.unique hmemory)
  have hstart : (0x2000 : UInt64).toNat = 0x2000 := rfl
  refine ⟨_, structs', hrun, ?_, ?_, ?_⟩
  · rw [hreports]
    rintro ⟨-, hmap, -⟩
    exact hmap (by decide)
  · rw [hreports]
    rintro ⟨-, -, hstructs⟩
    refine hstructs ?_
    dsimp only
    rw [Touches, hstart]
    omega
  · rw [hreports]
    refine ⟨⟨_, List.mem_singleton_self _, by unfold EfiMemoryDescriptor.HasPage; decide,
      .inl rfl⟩, by decide, ?_⟩
    dsimp only
    rw [Touches, hstart]
    omega

end Boot

end Boot
end DexprOS
