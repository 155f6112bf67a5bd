import DexprOS.Kernel.Efi.InitialMemMapGenEfi
import DexprOS.Library.Overlay

/-!
# Creation of the initial memory map

The map is stored at the beginning of the largest free region that it describes.
A first pass over the firmware's map counts the regions and finds that place, a
second pass writes the entries.

Main facts:
* `foldl_initMemMapAllocCallback`: the first pass counts and finds a largest region;
* `foldl_fillInitMemMapEntry`: the second pass writes `splitEntries`, in order;
* `createInitialMemMapFromEfi_describes`: the map describes the firmware's map
  and its own storage.
-/

namespace DexprOS
namespace Kernel

open Efi Fuel Overlay

section Definitions

/-- `sizeof(DexprOS_InitialMemMapEntry)`. -/
def sizeofInitialMemMapEntry : UInt64 := 40

/-- `DexprOS_InitMemMapAllocStruct`. -/
structure InitMemMapAllocStruct where
  numRegions : UInt64
  largestUsableRegionAddress : UInt64
  virtualAddress : UInt64
  numLargestUsableRegionPages : UInt64

/-- `InitMemMapAllocCallback`. -/
def initMemMapAllocCallback (memEntry : InitialMemMapEntry)
    (allocStruct : InitMemMapAllocStruct) : InitMemMapAllocStruct :=
  let allocStruct := { allocStruct with numRegions := allocStruct.numRegions + 1 }
  if memEntry.memoryType = .usable ∧ memEntry.usage = .mapped ∧
      allocStruct.numLargestUsableRegionPages < memEntry.numPhysicalPages then
    { allocStruct with
      largestUsableRegionAddress := memEntry.physicalAddress
      virtualAddress := memEntry.virtualAddress
      numLargestUsableRegionPages := memEntry.numPhysicalPages }
  else
    allocStruct

/-- The output parameters of `AllocInitMemMapMemory`. -/
structure InitMemMapMemory where
  physAddress : UInt64
  virtAddress : UInt64
  size : UInt64

/-- `AllocInitMemMapMemory` after its iteration; `none` is the result `false`. -/
def chooseInitMemMapMemory (allocStruct : InitMemMapAllocStruct) :
    Option InitMemMapMemory :=
  -- one additional entry tells where the map itself is
  let numRegions := allocStruct.numRegions + 1
  let requiredSize := numRegions * sizeofInitialMemMapEntry
  let requiredPages := (requiredSize + physicalPageSize - 1) / physicalPageSize
  if requiredPages ≤ allocStruct.numLargestUsableRegionPages then
    some
      { physAddress := allocStruct.largestUsableRegionAddress
        virtAddress := allocStruct.virtualAddress
        size := requiredSize }
  else
    none

/-- `AllocInitMemMapMemory`; the outer option is the fuel's. -/
def allocInitMemMapMemory (map : List EfiMemoryDescriptor) (fuel : Nat) :
    Option (Option InitMemMapMemory) :=
  (iterEfiMemMapAsInitMap map initMemMapAllocCallback
    { numRegions := 0
      largestUsableRegionAddress := 0
      virtualAddress := 0
      numLargestUsableRegionPages := 0 } fuel).map chooseInitMemMapMemory

/-- `DexprOS_InitMemMapCreationStruct`. -/
structure InitMemMapCreationStruct where
  memMap : InitialMemMap
  availableSize : UInt64
  initMapPhysAddress : UInt64
  initMapVirtAddress : UInt64
  numInitMapPages : UInt64
  success : Bool

namespace InitMemMapCreationStruct

/-- The check that precedes every write of an entry. -/
def isFull (s : InitMemMapCreationStruct) : Bool :=
  s.availableSize ≤ s.memMap.numEntries * sizeofInitialMemMapEntry

/-- Write the next entry. -/
def putEntry (s : InitMemMapCreationStruct) (e : InitialMemMapEntry) :
    InitMemMapCreationStruct :=
  { s with
    memMap :=
      { s.memMap with
        numEntries := s.memMap.numEntries + 1
        content := Function.update s.memMap.content s.memMap.numEntries.toNat e } }

/-- The result of a write without room. -/
def fail (s : InitMemMapCreationStruct) : InitMemMapCreationStruct :=
  { s with success := false }

end InitMemMapCreationStruct

/-- The entry for the pages that hold the map itself. -/
def initMapEntry (numInitMapPages : UInt64) (memEntry : InitialMemMapEntry) :
    InitialMemMapEntry :=
  { memEntry with
    usage := .initialMemMap
    numPhysicalPages := numInitMapPages }

/-- The entry for the pages that are left. -/
def remainingEntry (numInitMapPages : UInt64) (memEntry : InitialMemMapEntry) :
    InitialMemMapEntry :=
  { memEntry with
    physicalAddress := memEntry.physicalAddress + numInitMapPages * physicalPageSize
    virtualAddress := memEntry.virtualAddress + numInitMapPages * physicalPageSize
    numPhysicalPages := memEntry.numPhysicalPages - numInitMapPages }

/-- `FillInitMemMapEntry`. -/
def fillInitMemMapEntry (memEntry : InitialMemMapEntry)
    (createInfo : InitMemMapCreationStruct) : InitMemMapCreationStruct :=
  if memEntry.physicalAddress = createInfo.initMapPhysAddress then
    if createInfo.isFull then
      createInfo.fail
    else
      let createInfo := createInfo.putEntry
        (initMapEntry createInfo.numInitMapPages memEntry)
      if memEntry.numPhysicalPages = createInfo.numInitMapPages then
        createInfo
      else if createInfo.isFull then
        createInfo.fail
      else
        createInfo.putEntry (remainingEntry createInfo.numInitMapPages memEntry)
  else if createInfo.isFull then
    createInfo.fail
  else
    createInfo.putEntry memEntry

/-- `CreateInitMemMap`: the result and the map; `content` is what the memory
behind the virtual address holds before. -/
def createInitMemMap (map : List EfiMemoryDescriptor)
    (physAddress virtAddress availableSize : UInt64)
    (content : Nat → InitialMemMapEntry) (fuel : Nat) :
    Option (Bool × InitialMemMap) :=
  (iterEfiMemMapAsInitMap map fillInitMemMapEntry
    { memMap := { pEntries := virtAddress, numEntries := 0, content := content }
      availableSize := availableSize
      initMapPhysAddress := physAddress
      initMapVirtAddress := virtAddress
      numInitMapPages := (availableSize + physicalPageSize - 1) / physicalPageSize
      success := true } fuel).map (fun s => (s.success, s.memMap))

/-- `DexprOS_CreateInitialMemMapFromEfi`; `content` is what the chosen memory
holds before. -/
def createInitialMemMapFromEfi (map : List EfiMemoryDescriptor)
    (content : Nat → InitialMemMapEntry) (memMap : InitialMemMap) (fuel : Nat) :
    Option (Bool × InitialMemMap) :=
  (allocInitMemMapMemory map fuel).bind fun memory =>
    match memory with
    | none => some (false, memMap)
    | some memory =>
        createInitMemMap map memory.physAddress memory.virtAddress memory.size
          content fuel

end Definitions

section Counting

/-- Regular ascending entries take at least a page each. -/
theorem length_mul_le_of_regular
    (entries : List InitialMemMapEntry) :
    ∀ x : Nat, x ≤ 2 ^ 63 →
      entries.Pairwise (fun a b => a.stop ≤ b.start) →
      (∀ e, e ∈ entries → e.Regular) →
      (∀ e, e ∈ entries → x ≤ e.start) →
      x + entries.length * 4096 ≤ 2 ^ 63 := by
  induction entries with
  | nil =>
      intro x hx _ _ _
      simpa using hx
  | cons e entries ih =>
      intro x _ hasc hreg hlow
      have he := hreg e (by simp)
      have hxe := hlow e (by simp)
      have hpage : e.start + 4096 ≤ e.stop := by
        have hne := he.nonempty
        rw [InitialMemMapEntry.start, InitialMemMapEntry.stop] at *
        omega
      have hrest := ih e.stop he.below (List.pairwise_cons.mp hasc).2
        (fun d hd => hreg d (List.mem_cons_of_mem e hd))
        (List.pairwise_cons.mp hasc).1
      rw [List.length_cons]
      omega

/-- What the first pass knows after the given regions. -/
structure Surveyed (regions : List InitialMemMapEntry)
    (s : InitMemMapAllocStruct) : Prop where
  count : s.numRegions = UInt64.ofNat regions.length
  largest : ∀ r, r ∈ regions → r.Available →
    r.numPhysicalPages ≤ s.numLargestUsableRegionPages
  found : s.numLargestUsableRegionPages = 0 ∨
    ∃ r, r ∈ regions ∧ r.Available ∧
      s.largestUsableRegionAddress = r.physicalAddress ∧
      s.virtualAddress = r.virtualAddress ∧
      s.numLargestUsableRegionPages = r.numPhysicalPages

/-- One region more. -/
theorem Surveyed.step
    {regions : List InitialMemMapEntry} {s : InitMemMapAllocStruct}
    (h : Surveyed regions s) (e : InitialMemMapEntry) :
    Surveyed (regions ++ [e]) (initMemMapAllocCallback e s) := by
  have hcount : s.numRegions + 1 = UInt64.ofNat (regions ++ [e]).length := by
    rw [h.count, List.length_append, List.length_singleton, UInt64.ofNat_add]
    rfl
  unfold initMemMapAllocCallback
  dsimp only
  split_ifs with hlarger
  · obtain ⟨htype, husage, hlt⟩ := hlarger
    refine ⟨hcount, ?_, Or.inr ⟨e, by simp, ⟨htype, husage⟩, rfl, rfl, rfl⟩⟩
    intro r hr havail
    rcases List.mem_append.mp hr with hr | hr
    · exact UInt64.le_of_lt (UInt64.lt_of_le_of_lt (h.largest r hr havail) hlt)
    · obtain rfl : r = e := by simpa using hr
      exact UInt64.le_refl _
  · refine ⟨hcount, ?_, ?_⟩
    · intro r hr havail
      rcases List.mem_append.mp hr with hr | hr
      · exact h.largest r hr havail
      · obtain rfl : r = e := by simpa using hr
        exact UInt64.not_lt.mp (fun hlt => hlarger ⟨havail.1, havail.2, hlt⟩)
    · refine h.found.imp_right ?_
      rintro ⟨r, hr, hrest⟩
      exact ⟨r, List.mem_append_left [e] hr, hrest⟩

/-- The first pass counts the regions and finds a largest available one. -/
theorem foldl_initMemMapAllocCallback
    (regions : List InitialMemMapEntry) :
    Surveyed regions
      (regions.foldl (fun s e => initMemMapAllocCallback e s) ⟨0, 0, 0, 0⟩) := by
  induction regions using List.reverseRecOn with
  | nil =>
      exact ⟨rfl, by simp, Or.inl rfl⟩
  | append_singleton regions e ih =>
      rw [List.foldl_concat]
      exact ih.step e

end Counting

section Writing

/-- The state of the second pass after writing the given entries. -/
def InitMemMapCreationStruct.filled (s : InitMemMapCreationStruct)
    (written : List InitialMemMapEntry) : InitMemMapCreationStruct :=
  { s with
    memMap :=
      { s.memMap with
        numEntries := UInt64.ofNat written.length
        content := overlay written s.memMap.content } }

/-- What the second pass makes of one region. -/
def splitEntry (physAddress numInitMapPages : UInt64) (e : InitialMemMapEntry) :
    List InitialMemMapEntry :=
  if e.physicalAddress = physAddress then
    if e.numPhysicalPages = numInitMapPages then
      [initMapEntry numInitMapPages e]
    else
      [initMapEntry numInitMapPages e, remainingEntry numInitMapPages e]
  else
    [e]

/-- What the second pass makes of all regions. -/
def splitEntries (physAddress numInitMapPages : UInt64)
    (regions : List InitialMemMapEntry) : List InitialMemMapEntry :=
  regions.flatMap (splitEntry physAddress numInitMapPages)

variable {s : InitMemMapCreationStruct} {written : List InitialMemMapEntry}

theorem putEntry_filled
    (hlen : written.length < 2 ^ 64) (e : InitialMemMapEntry) :
    (s.filled written).putEntry e = s.filled (written ++ [e]) := by
  have hindex : (UInt64.ofNat written.length).toNat = written.length :=
    UInt64.toNat_ofNat_of_lt' hlen
  have hnext : UInt64.ofNat written.length + 1 =
      UInt64.ofNat (written ++ [e]).length := by
    rw [List.length_append, List.length_singleton, UInt64.ofNat_add]
    rfl
  simp only [InitMemMapCreationStruct.filled, InitMemMapCreationStruct.putEntry,
    hindex, hnext, overlay_concat]

/-- There is room for another entry. -/
theorem isFull_filled
    (hroom : (written.length + 1) * 40 ≤ s.availableSize.toNat) :
    (s.filled written).isFull = false := by
  have hlt := s.availableSize.toNat_lt
  have hlen : written.length < 2 ^ 64 := by omega
  have hindex : (UInt64.ofNat written.length).toNat = written.length :=
    UInt64.toNat_ofNat_of_lt' hlen
  have hsize : (UInt64.ofNat written.length * sizeofInitialMemMapEntry).toNat =
      written.length * 40 := by
    rw [UInt64.toNat_mul, hindex, show sizeofInitialMemMapEntry.toNat = 40 from rfl]
    omega
  have hnot : ¬ s.availableSize ≤
      UInt64.ofNat written.length * sizeofInitialMemMapEntry := by
    rw [UInt64.le_iff_toNat_le, hsize]
    omega
  exact decide_eq_false hnot

/-- One region is written as `splitEntry` says while there is room. -/
theorem fillInitMemMapEntry_filled
    {e : InitialMemMapEntry}
    (hroom : (written.length +
      (splitEntry s.initMapPhysAddress s.numInitMapPages e).length) * 40 ≤
        s.availableSize.toNat) :
    fillInitMemMapEntry e (s.filled written) =
      s.filled (written ++ splitEntry s.initMapPhysAddress s.numInitMapPages e) := by
  have hlt := s.availableSize.toNat_lt
  have hone : (written.length + 1) * 40 ≤ s.availableSize.toNat := by
    have : 1 ≤ (splitEntry s.initMapPhysAddress s.numInitMapPages e).length := by
      unfold splitEntry
      split_ifs <;> simp
    omega
  have hfirst := isFull_filled hone
  unfold fillInitMemMapEntry splitEntry
  unfold splitEntry at hroom
  rw [show (s.filled written).initMapPhysAddress = s.initMapPhysAddress from rfl,
    show (s.filled written).numInitMapPages = s.numInitMapPages from rfl]
  simp only [hfirst, Bool.false_eq_true, if_false, putEntry_filled
    (show written.length < 2 ^ 64 by omega)]
  rw [show ∀ l, (s.filled l).numInitMapPages = s.numInitMapPages from fun _ => rfl]
  split_ifs at hroom ⊢ with haddr hexact hfull
  · rfl
  · exfalso
    rw [isFull_filled (by simpa using hroom)] at hfull
    exact Bool.false_ne_true hfull
  · rw [putEntry_filled (by simp; omega), List.append_assoc]
    rfl
  · rfl

/-- The second pass writes the split regions, in order, while there is room. -/
theorem foldl_fillInitMemMapEntry
    (regions : List InitialMemMapEntry) :
    ∀ written : List InitialMemMapEntry,
      (written.length +
        (splitEntries s.initMapPhysAddress s.numInitMapPages regions).length) * 40 ≤
          s.availableSize.toNat →
      regions.foldl (fun s e => fillInitMemMapEntry e s) (s.filled written) =
        s.filled (written ++
          splitEntries s.initMapPhysAddress s.numInitMapPages regions) := by
  induction regions with
  | nil =>
      intro written _
      simp [splitEntries]
  | cons e regions ih =>
      intro written hroom
      have hsplit : splitEntries s.initMapPhysAddress s.numInitMapPages (e :: regions) =
          splitEntry s.initMapPhysAddress s.numInitMapPages e ++
            splitEntries s.initMapPhysAddress s.numInitMapPages regions := by
        simp [splitEntries]
      rw [hsplit, List.length_append] at hroom
      rw [List.foldl_cons, fillInitMemMapEntry_filled (by omega),
        ih _ (by rw [List.length_append]; omega), hsplit, List.append_assoc]

end Writing

section Splitting

variable {physAddress numInitMapPages : UInt64} {e : InitialMemMapEntry}

@[simp] theorem initMapEntry_start :
    (initMapEntry numInitMapPages e).start = e.start := by
  rfl

@[simp] theorem initMapEntry_stop :
    (initMapEntry numInitMapPages e).stop =
      e.start + numInitMapPages.toNat * 4096 := by
  rfl

/-- The remaining entry starts where the map's entry stops. -/
theorem remainingEntry_start
    (he : e.Regular)
    (hpages : numInitMapPages.toNat ≤ e.numPhysicalPages.toNat) :
    (remainingEntry numInitMapPages e).start =
      e.start + numInitMapPages.toNat * 4096 := by
  have hbelow := he.below
  rw [InitialMemMapEntry.stop] at hbelow
  rw [InitialMemMapEntry.start, remainingEntry, InitialMemMapEntry.start]
  dsimp only
  rw [UInt64.toNat_add, UInt64.toNat_mul, show physicalPageSize.toNat = 4096 from rfl]
  omega

/-- The remaining entry stops where the region stops. -/
theorem remainingEntry_stop
    (he : e.Regular)
    (hpages : numInitMapPages.toNat ≤ e.numPhysicalPages.toNat) :
    (remainingEntry numInitMapPages e).stop = e.stop := by
  have hstart := remainingEntry_start he hpages
  have hsub : (e.numPhysicalPages - numInitMapPages).toNat =
      e.numPhysicalPages.toNat - numInitMapPages.toNat :=
    UInt64.toNat_sub_of_le _ _ hpages
  rw [InitialMemMapEntry.start] at hstart
  rw [InitialMemMapEntry.stop, hstart, InitialMemMapEntry.stop,
    InitialMemMapEntry.start]
  simp only [remainingEntry, hsub]
  omega

theorem initMapEntry_regular
    (he : e.Regular) (hpos : 0 < numInitMapPages.toNat)
    (hpages : numInitMapPages.toNat ≤ e.numPhysicalPages.toNat) :
    (initMapEntry numInitMapPages e).Regular where
  aligned := he.aligned
  identity := he.identity
  nonempty := by
    rw [initMapEntry_start, initMapEntry_stop]
    exact Nat.lt_add_of_pos_right (Nat.mul_pos hpos (by decide))
  below := Nat.le_trans
    (Nat.add_le_add_left (Nat.mul_le_mul_right 4096 hpages) e.start) he.below

theorem remainingEntry_regular
    (he : e.Regular)
    (hpages : numInitMapPages.toNat < e.numPhysicalPages.toNat) :
    (remainingEntry numInitMapPages e).Regular where
  aligned := by
    have haligned := he.aligned
    rw [remainingEntry_start he (Nat.le_of_lt hpages)]
    omega
  identity := by
    simp only [remainingEntry, he.identity]
  nonempty := by
    rw [remainingEntry_start he (Nat.le_of_lt hpages),
      remainingEntry_stop he (Nat.le_of_lt hpages), InitialMemMapEntry.stop,
      InitialMemMapEntry.start]
    omega
  below := by
    rw [remainingEntry_stop he (Nat.le_of_lt hpages)]
    exact he.below

/-- A region that is split has room for the map. -/
def FitsIn (physAddress numInitMapPages : UInt64) (e : InitialMemMapEntry) : Prop :=
  e.physicalAddress = physAddress →
    0 < numInitMapPages.toNat ∧ numInitMapPages.toNat ≤ e.numPhysicalPages.toNat

/-- The parts of a region are regular and lie inside it. -/
theorem splitEntry_regular
    (he : e.Regular) (hfits : FitsIn physAddress numInitMapPages e) :
    ∀ c, c ∈ splitEntry physAddress numInitMapPages e →
      c.Regular ∧ e.start ≤ c.start ∧ c.stop ≤ e.stop := by
  intro c hc
  unfold splitEntry at hc
  split_ifs at hc with haddr hexact
  · obtain ⟨hpos, hpages⟩ := hfits haddr
    obtain rfl : c = initMapEntry numInitMapPages e := by simpa using hc
    refine ⟨initMapEntry_regular he hpos hpages, Nat.le_refl _, ?_⟩
    rw [initMapEntry_stop, ← hexact, InitialMemMapEntry.stop,
      InitialMemMapEntry.start]
  · obtain ⟨hpos, hpages⟩ := hfits haddr
    have hlt : numInitMapPages.toNat < e.numPhysicalPages.toNat :=
      Nat.lt_of_le_of_ne hpages (fun h => hexact (UInt64.toNat_inj.mp h.symm))
    rcases List.mem_pair.mp hc with rfl | rfl
    · refine ⟨initMapEntry_regular he hpos hpages, Nat.le_refl _, ?_⟩
      rw [initMapEntry_stop, InitialMemMapEntry.stop, InitialMemMapEntry.start]
      omega
    · refine ⟨remainingEntry_regular he hlt, ?_, ?_⟩
      · rw [remainingEntry_start he hpages]
        omega
      · rw [remainingEntry_stop he hpages]
  · obtain rfl : c = e := by simpa using hc
    exact ⟨he, Nat.le_refl _, Nat.le_refl _⟩

theorem splitEntry_ascending
    (he : e.Regular) (hfits : FitsIn physAddress numInitMapPages e) :
    (splitEntry physAddress numInitMapPages e).Pairwise
      (fun a b => a.stop ≤ b.start) := by
  unfold splitEntry
  split_ifs with haddr hexact
  · exact List.pairwise_singleton _ _
  · rw [List.pairwise_pair, initMapEntry_stop,
      remainingEntry_start he (hfits haddr).2]
  · exact List.pairwise_singleton _ _

theorem initMapEntry_hasPage
    (hpages : numInitMapPages.toNat ≤ e.numPhysicalPages.toNat) (p : Nat) :
    (initMapEntry numInitMapPages e).HasPage p ↔
      e.HasPage p ∧ p * 4096 < e.start + numInitMapPages.toNat * 4096 := by
  have hstop : e.stop = e.start + e.numPhysicalPages.toNat * 4096 := rfl
  rw [InitialMemMapEntry.HasPage, InitialMemMapEntry.HasPage,
    initMapEntry_start, initMapEntry_stop]
  omega

theorem remainingEntry_hasPage
    (he : e.Regular)
    (hpages : numInitMapPages.toNat ≤ e.numPhysicalPages.toNat) (p : Nat) :
    (remainingEntry numInitMapPages e).HasPage p ↔
      e.HasPage p ∧ ¬ p * 4096 < e.start + numInitMapPages.toNat * 4096 := by
  rw [InitialMemMapEntry.HasPage, InitialMemMapEntry.HasPage,
    remainingEntry_start he hpages, remainingEntry_stop he hpages]
  omega

/-- What the parts of a region say about a page. -/
theorem splitEntry_pages
    (he : e.Regular) (hfits : FitsIn physAddress numInitMapPages e)
    (p : Nat) (memoryType : PhysicalMemoryType)
    (usage : InitialMemMapMappedUsage) (flags : UInt64) :
    (∃ c, c ∈ splitEntry physAddress numInitMapPages e ∧ c.HasPage p ∧
      c.memoryType = memoryType ∧ c.usage = usage ∧ c.flags = flags) ↔
    e.HasPage p ∧ e.memoryType = memoryType ∧
      (if e.physicalAddress = physAddress ∧
          p * 4096 < e.start + numInitMapPages.toNat * 4096 then
        .initialMemMap
      else
        e.usage) = usage ∧
      e.flags = flags := by
  unfold splitEntry
  by_cases haddr : e.physicalAddress = physAddress
  · obtain ⟨hpos, hpages⟩ := hfits haddr
    have hmap := initMapEntry_hasPage hpages p
    have hrest := remainingEntry_hasPage he hpages p
    have hlast : e.numPhysicalPages = numInitMapPages → e.HasPage p →
        p * 4096 < e.start + numInitMapPages.toNat * 4096 := by
      rintro rfl h
      exact h.2
    by_cases hexact : e.numPhysicalPages = numInitMapPages
    · by_cases hfirst : p * 4096 < e.start + numInitMapPages.toNat * 4096
      · rw [hexact] at *
        simp [haddr, hmap, hfirst]
        simp [initMapEntry]
      · have hno : ¬ e.HasPage p := fun h => hfirst (hlast hexact h)
        simp [haddr, hexact, hmap, hno]
    · by_cases hfirst : p * 4096 < e.start + numInitMapPages.toNat * 4096
      · simp [haddr, hexact, hmap, hrest, hfirst]
        simp [initMapEntry]
      · simp [haddr, hexact, hmap, hrest, hfirst]
        simp [remainingEntry]
  · simp [haddr]

end Splitting

section SplitRegions

variable {numInitMapPages : UInt64}
  {regions : List InitialMemMapEntry} {region : InitialMemMapEntry}

/-- Only one region starts at the address of the map. -/
theorem eq_of_start_eq
    (hasc : regions.Pairwise (fun a b => a.stop ≤ b.start))
    (hreg : ∀ e, e ∈ regions → e.Regular)
    (hregion : region ∈ regions)
    {e : InitialMemMapEntry} (he : e ∈ regions)
    (haddr : e.physicalAddress = region.physicalAddress) :
    e = region := by
  have hstart : e.start = region.start := congrArg UInt64.toNat haddr
  have h₁ := (hreg e he).nonempty
  have h₂ := (hreg region hregion).nonempty
  rcases InitialMemMapEntry.eq_or_apart hasc he hregion with heq | hle | hle
  · exact heq
  · omega
  · omega

/-- At most one region is split. -/
theorem length_splitEntries_le
    (hasc : regions.Pairwise (fun a b => a.stop ≤ b.start))
    (hreg : ∀ e, e ∈ regions → e.Regular)
    (physAddress numInitMapPages : UInt64) :
    (splitEntries physAddress numInitMapPages regions).length ≤
      regions.length + 1 := by
  induction regions with
  | nil =>
      simp [splitEntries]
  | cons e regions ih =>
      have hrest := (List.pairwise_cons.mp hasc).2
      have hregRest : ∀ d, d ∈ regions → d.Regular :=
        fun d hd => hreg d (List.mem_cons_of_mem e hd)
      have hsplit : splitEntries physAddress numInitMapPages (e :: regions) =
          splitEntry physAddress numInitMapPages e ++
            splitEntries physAddress numInitMapPages regions := by
        simp [splitEntries]
      rw [hsplit, List.length_append, List.length_cons]
      by_cases haddr : e.physicalAddress = physAddress
      · have hsame : splitEntries physAddress numInitMapPages regions = regions := by
          have hone : ∀ d, d ∈ regions →
              splitEntry physAddress numInitMapPages d = [d] := by
            intro d hd
            refine if_neg (fun hd' => ?_)
            have hde : d = e := eq_of_start_eq hasc hreg (by simp)
              (List.mem_cons_of_mem e hd) (hd'.trans haddr.symm)
            have hle := (List.pairwise_cons.mp hasc).1 d hd
            have hne := (hreg e (by simp)).nonempty
            rw [hde] at hle
            omega
          rw [splitEntries, List.flatMap_congr hone, List.flatMap_singleton']
        have htwo : (splitEntry physAddress numInitMapPages e).length ≤ 2 := by
          unfold splitEntry
          split_ifs <;> simp
        rw [hsame]
        omega
      · have hone : splitEntry physAddress numInitMapPages e = [e] := if_neg haddr
        have := ih hrest hregRest
        rw [hone, List.length_singleton]
        omega

variable (hasc : regions.Pairwise (fun a b => a.stop ≤ b.start))
  (hreg : ∀ e, e ∈ regions → e.Regular)
  (hregion : region ∈ regions)
  (hpos : 0 < numInitMapPages.toNat)
  (hpages : numInitMapPages.toNat ≤ region.numPhysicalPages.toNat)
include hasc hreg hregion hpos hpages

theorem fitsIn_of_mem
    {e : InitialMemMapEntry} (he : e ∈ regions) :
    FitsIn region.physicalAddress numInitMapPages e := by
  intro haddr
  obtain rfl := eq_of_start_eq hasc hreg hregion he haddr
  exact ⟨hpos, hpages⟩

theorem splitEntries_regular :
    ∀ c, c ∈ splitEntries region.physicalAddress numInitMapPages regions →
      c.Regular := by
  intro c hc
  obtain ⟨e, he, hce⟩ := List.mem_flatMap.mp hc
  exact (splitEntry_regular (hreg e he)
    (fitsIn_of_mem hasc hreg hregion hpos hpages he) c hce).1

theorem splitEntries_ascending :
    (splitEntries region.physicalAddress numInitMapPages regions).Pairwise
      (fun a b => a.stop ≤ b.start) := by
  have hfits : ∀ e, e ∈ regions → FitsIn region.physicalAddress numInitMapPages e :=
    fun e he => fitsIn_of_mem hasc hreg hregion hpos hpages he
  rw [splitEntries, List.pairwise_flatMap]
  refine ⟨fun e he => splitEntry_ascending (hreg e he) (hfits e he), ?_⟩
  refine hasc.imp_of_mem ?_
  intro a b ha hb hab c hc d hd
  have h₁ := (splitEntry_regular (hreg a ha) (hfits a ha) c hc).2.2
  have h₂ := (splitEntry_regular (hreg b hb) (hfits b hb) d hd).2.1
  omega

/-- What the written entries say about a page. -/
theorem splitEntries_pages
    (p : Nat) (memoryType : PhysicalMemoryType)
    (usage : InitialMemMapMappedUsage) (flags : UInt64) :
    (∃ c, c ∈ splitEntries region.physicalAddress numInitMapPages regions ∧
      c.HasPage p ∧ c.memoryType = memoryType ∧ c.usage = usage ∧
      c.flags = flags) ↔
    ∃ e, e ∈ regions ∧ e.HasPage p ∧ e.memoryType = memoryType ∧
      (if region.start ≤ p * 4096 ∧
          p * 4096 < region.start + numInitMapPages.toNat * 4096 then
        .initialMemMap
      else
        e.usage) = usage ∧
      e.flags = flags := by
  have hhere : ∀ e, e ∈ regions → e.HasPage p →
      ((e.physicalAddress = region.physicalAddress ∧
          p * 4096 < e.start + numInitMapPages.toNat * 4096) ↔
        (region.start ≤ p * 4096 ∧
          p * 4096 < region.start + numInitMapPages.toNat * 4096)) := by
    intro e he hp
    have hstop : region.stop =
      region.start + region.numPhysicalPages.toNat * 4096 := rfl
    constructor
    · rintro ⟨haddr, hlt⟩
      obtain rfl := eq_of_start_eq hasc hreg hregion he haddr
      exact ⟨hp.1, hlt⟩
    · rintro ⟨hle, hlt⟩
      obtain ⟨hp₁, hp₂⟩ := hp
      rcases InitialMemMapEntry.eq_or_apart hasc he hregion with rfl | happart
      · exact ⟨rfl, hlt⟩
      · omega
  have hsplit : ∀ e, e ∈ regions →
      ((∃ c, c ∈ splitEntry region.physicalAddress numInitMapPages e ∧
          c.HasPage p ∧ c.memoryType = memoryType ∧ c.usage = usage ∧
          c.flags = flags) ↔
        e.HasPage p ∧ e.memoryType = memoryType ∧
          (if region.start ≤ p * 4096 ∧
              p * 4096 < region.start + numInitMapPages.toNat * 4096 then
            .initialMemMap
          else
            e.usage) = usage ∧
          e.flags = flags) := by
    intro e he
    rw [splitEntry_pages (hreg e he)
      (fitsIn_of_mem hasc hreg hregion hpos hpages he)]
    refine and_congr_right (fun hp => ?_)
    simp only [hhere e he hp]
  constructor
  · rintro ⟨c, hc, hinfo⟩
    obtain ⟨e, he, hce⟩ := List.mem_flatMap.mp hc
    exact ⟨e, he, (hsplit e he).mp ⟨c, hce, hinfo⟩⟩
  · rintro ⟨e, he, hinfo⟩
    obtain ⟨c, hce, hc⟩ := (hsplit e he).mpr hinfo
    exact ⟨c, List.mem_flatMap.mpr ⟨e, he, hce⟩, hc⟩

end SplitRegions

section Creation

/-- Pages that the map needs for the given number of regions. -/
def initMapPages (numRegions : Nat) : Nat :=
  (40 * (numRegions + 1) + 4095) / 4096

/-- A region in which the map can be stored. -/
def CanHoldMap (regions : List InitialMemMapEntry) (region : InitialMemMapEntry) :
    Prop :=
  region ∈ regions ∧ region.Available ∧
    initMapPages regions.length ≤ region.numPhysicalPages.toNat

/-- The map is stored at the beginning of `region` and describes the firmware's
map page by page, the pages that it is stored in as its own. -/
structure DescribesItself (map : List EfiMemoryDescriptor)
    (regions : List InitialMemMapEntry) (region : InitialMemMapEntry)
    (content : Nat → InitialMemMapEntry) (m : InitialMemMap) : Prop where
  stored : m.pEntries = region.physicalAddress
  room : m.entries.length ≤ regions.length + 1
  unwritten : ∀ i, regions.length + 1 ≤ i → m.content i = content i
  ascending : m.entries.Pairwise (fun a b => a.stop ≤ b.start)
  regular : ∀ e, e ∈ m.entries → e.Regular
  pages : ∀ p memoryType usage flags,
    (∃ e, e ∈ m.entries ∧ e.HasPage p ∧ e.memoryType = memoryType ∧
      e.usage = usage ∧ e.flags = flags) ↔
    (∃ d, d ∈ map ∧ d.HasPage p ∧ toDexprOSMemType d.type = memoryType ∧
      (if region.start ≤ p * 4096 ∧
          p * 4096 < region.start + initMapPages regions.length * 4096 then
        .initialMemMap
      else
        toDexprOSInitialMemMapUsage d.type) = usage ∧
      toDexprOSAttributeFlags d.attributes = flags)

/-- The numbers computed from the number of regions do not wrap. -/
theorem requiredSize_toNat
    {n : Nat} (hn : n * 4096 ≤ 2 ^ 63) :
    ((UInt64.ofNat n + 1) * sizeofInitialMemMapEntry).toNat = 40 * (n + 1) ∧
    (((UInt64.ofNat n + 1) * sizeofInitialMemMapEntry + physicalPageSize - 1) /
      physicalPageSize).toNat = initMapPages n := by
  have hlt : n < 2 ^ 64 := by omega
  have hcount : (UInt64.ofNat n + 1).toNat = n + 1 := by
    rw [UInt64.toNat_add, UInt64.toNat_ofNat_of_lt' hlt,
      show (1 : UInt64).toNat = 1 from rfl]
    omega
  have hsize : ((UInt64.ofNat n + 1) * sizeofInitialMemMapEntry).toNat =
      40 * (n + 1) := by
    rw [UInt64.toNat_mul, hcount, show sizeofInitialMemMapEntry.toNat = 40 from rfl]
    omega
  refine ⟨hsize, ?_⟩
  rw [UInt64.toNat_div, UInt64.toNat_sub, UInt64.toNat_add, hsize,
    show physicalPageSize.toNat = 4096 from rfl, show (1 : UInt64).toNat = 1 from rfl,
    initMapPages]
  omega

/-- The place chosen after the first pass. -/
theorem chooseInitMemMapMemory_surveyed
    {regions : List InitialMemMapEntry} {s : InitMemMapAllocStruct}
    (h : Surveyed regions s) (hlen : regions.length * 4096 ≤ 2 ^ 63) :
    (chooseInitMemMapMemory s = none ∧ ∀ r, ¬ CanHoldMap regions r) ∨
    ∃ region size, CanHoldMap regions region ∧
      (∀ r, r ∈ regions → r.Available →
        r.numPhysicalPages ≤ region.numPhysicalPages) ∧
      size.toNat = 40 * (regions.length + 1) ∧
      chooseInitMemMapMemory s =
        some ⟨region.physicalAddress, region.virtualAddress, size⟩ := by
  obtain ⟨hsize, hpages⟩ := requiredSize_toNat hlen
  rw [← h.count] at hsize hpages
  unfold chooseInitMemMapMemory
  dsimp only
  split_ifs with hroom
  · right
    rw [UInt64.le_iff_toNat_le, hpages] at hroom
    rcases h.found with hzero | ⟨region, hregion, havail, haddr, hvirt, hnum⟩
    · exfalso
      rw [hzero, show (0 : UInt64).toNat = 0 from rfl, initMapPages] at hroom
      omega
    · rw [hnum] at hroom
      refine ⟨region, _, ⟨hregion, havail, hroom⟩, ?_, hsize, by rw [haddr, hvirt]⟩
      intro r hr hr'
      rw [← hnum]
      exact h.largest r hr hr'
  · left
    refine ⟨rfl, ?_⟩
    rintro r ⟨hr, havail, hfits⟩
    apply hroom
    rw [UInt64.le_iff_toNat_le, hpages]
    exact Nat.le_trans hfits (h.largest r hr havail)

variable {map sorted : List EfiMemoryDescriptor}

/-- The map written to the chosen region describes itself. -/
theorem createInitMemMap_returns
    (hmap : WellFormedMap (2 ^ 63) map)
    (hperm : sorted.Perm map)
    (hasc : sorted.Pairwise (fun a b => a.stop ≤ b.start))
    {region : InitialMemMapEntry} {size : UInt64}
    (hregion : CanHoldMap (iteratedEntries sorted) region)
    (hsize : size.toNat = 40 * ((iteratedEntries sorted).length + 1))
    (content : Nat → InitialMemMapEntry) :
    ∃ m, Returns (createInitMemMap map region.physicalAddress region.virtualAddress
        size content) (true, m) ∧
      DescribesItself map (iteratedEntries sorted) region content m := by
  have hcanon := canonical_iteratedEntries hmap hperm hasc
  have hiter := iterEfiMemMapAsInitMap_ascending hmap hperm hasc
    (σ := InitMemMapCreationStruct)
  generalize iteratedEntries sorted = regions at *
  obtain ⟨hmem, havail, hfits⟩ := hregion
  have hlen : regions.length * 4096 ≤ 2 ^ 63 := by
    simpa using length_mul_le_of_regular regions 0 (Nat.zero_le _) hcanon.ascending
      hcanon.regular (fun e _ => Nat.zero_le _)
  have hpages : ((size + physicalPageSize - 1) / physicalPageSize).toNat =
      initMapPages regions.length := by
    rw [UInt64.toNat_div, UInt64.toNat_sub, UInt64.toNat_add, hsize,
      show physicalPageSize.toNat = 4096 from rfl,
      show (1 : UInt64).toNat = 1 from rfl, initMapPages]
    omega
  have hpos : 0 < ((size + physicalPageSize - 1) / physicalPageSize).toNat := by
    rw [hpages, initMapPages]
    omega
  rw [← hpages] at hfits
  generalize hnum : (size + physicalPageSize - 1) / physicalPageSize = numPages at *
  let start : InitMemMapCreationStruct :=
    { memMap := ⟨region.virtualAddress, 0, content⟩
      availableSize := size
      initMapPhysAddress := region.physicalAddress
      initMapVirtAddress := region.virtualAddress
      numInitMapPages := numPages
      success := true }
  have hlength := length_splitEntries_le hcanon.ascending hcanon.regular
    region.physicalAddress numPages
  have hfold : regions.foldl (fun s e => fillInitMemMapEntry e s) start =
      start.filled (splitEntries region.physicalAddress numPages regions) := by
    have := foldl_fillInitMemMapEntry (s := start) regions []
      (by simp only [start, hsize, List.length_nil]; omega)
    simpa [start, InitMemMapCreationStruct.filled] using this
  have hentries : (start.filled (splitEntries region.physicalAddress numPages
      regions)).memMap.entries =
        splitEntries region.physicalAddress numPages regions := by
    have hcount : (splitEntries region.physicalAddress numPages
        regions).length < 2 ^ 64 := by omega
    simp only [InitialMemMap.entries, InitMemMapCreationStruct.filled,
      UInt64.toNat_ofNat_of_lt' hcount]
    exact map_range_overlay _ _
  have hrun := (hiter fillInitMemMapEntry start).map (fun s => (s.success, s.memMap))
  rw [hfold] at hrun
  refine ⟨_, hrun.congr (fun fuel => ?_), ?_, ?_, ?_, ?_, ?_, ?_⟩
  · rw [createInitMemMap, hnum]
  · exact (hcanon.regular region hmem).identity
  · rw [hentries]
    exact hlength
  · intro i hi
    exact overlay_of_length_le (Nat.le_trans hlength hi) content
  · rw [hentries]
    exact splitEntries_ascending hcanon.ascending hcanon.regular hmem hpos hfits
  · rw [hentries]
    exact splitEntries_regular hcanon.ascending hcanon.regular hmem hpos hfits
  · intro p memoryType usage flags
    rw [hentries, splitEntries_pages hcanon.ascending hcanon.regular hmem hpos hfits,
      hpages]
    constructor
    · rintro ⟨e, he, hp, rfl, rfl, rfl⟩
      obtain ⟨d, hd, hdp, htype, husage, hflags⟩ :=
        (hcanon.pages p e.memoryType e.usage e.flags).mp ⟨e, he, hp, rfl, rfl, rfl⟩
      exact ⟨d, hd, hdp, htype, by rw [husage], hflags⟩
    · rintro ⟨d, hd, hp, rfl, rfl, rfl⟩
      obtain ⟨e, he, hep, htype, husage, hflags⟩ :=
        (hcanon.pages p _ _ _).mpr ⟨d, hd, hp, rfl, rfl, rfl⟩
      exact ⟨e, he, hep, htype, by rw [husage], hflags⟩

/-- Either no region can hold the map or the memory for it is taken from a largest one. -/
theorem allocInitMemMapMemory_ascending
    (hmap : WellFormedMap (2 ^ 63) map)
    (hperm : sorted.Perm map)
    (hasc : sorted.Pairwise (fun a b => a.stop ≤ b.start)) :
    (Returns (allocInitMemMapMemory map) none ∧
      ∀ r, ¬ CanHoldMap (iteratedEntries sorted) r) ∨
    ∃ region size, CanHoldMap (iteratedEntries sorted) region ∧
      (∀ r, r ∈ iteratedEntries sorted → r.Available →
        r.numPhysicalPages ≤ region.numPhysicalPages) ∧
      size.toNat = 40 * ((iteratedEntries sorted).length + 1) ∧
      Returns (allocInitMemMapMemory map)
        (some ⟨region.physicalAddress, region.virtualAddress, size⟩) := by
  have hcanon := canonical_iteratedEntries hmap hperm hasc
  have hlen : (iteratedEntries sorted).length * 4096 ≤ 2 ^ 63 := by
    simpa using length_mul_le_of_regular _ 0 (Nat.zero_le _) hcanon.ascending
      hcanon.regular (fun e _ => Nat.zero_le _)
  have halloc := (iterEfiMemMapAsInitMap_ascending hmap hperm hasc
    initMemMapAllocCallback ⟨0, 0, 0, 0⟩).map chooseInitMemMapMemory
  rcases chooseInitMemMapMemory_surveyed
    (foldl_initMemMapAllocCallback (iteratedEntries sorted)) hlen with
    ⟨hnone, hno⟩ | ⟨region, size, hregion, hlargest, hsize, hsome⟩
  · rw [hnone] at halloc
    exact .inl ⟨halloc, hno⟩
  · rw [hsome] at halloc
    exact .inr ⟨region, size, hregion, hlargest, hsize, halloc⟩

/-- Either no region can hold the map or the map is stored in a largest one. -/
theorem createInitialMemMapFromEfi_ascending
    (hmap : WellFormedMap (2 ^ 63) map)
    (hperm : sorted.Perm map)
    (hasc : sorted.Pairwise (fun a b => a.stop ≤ b.start))
    (content : Nat → InitialMemMapEntry) (memMap : InitialMemMap) :
    (Returns (createInitialMemMapFromEfi map content memMap) (false, memMap) ∧
      ∀ r, ¬ CanHoldMap (iteratedEntries sorted) r) ∨
    ∃ region m, CanHoldMap (iteratedEntries sorted) region ∧
      (∀ r, r ∈ iteratedEntries sorted → r.Available →
        r.numPhysicalPages ≤ region.numPhysicalPages) ∧
      Returns (createInitialMemMapFromEfi map content memMap) (true, m) ∧
      DescribesItself map (iteratedEntries sorted) region content m := by
  rcases allocInitMemMapMemory_ascending hmap hperm hasc with
    ⟨halloc, hno⟩ | ⟨region, size, hregion, hlargest, hsize, halloc⟩
  · left
    exact ⟨halloc.bind (returns_pure _), hno⟩
  · right
    obtain ⟨m, hm, hdescribes⟩ :=
      createInitMemMap_returns hmap hperm hasc hregion hsize content
    exact ⟨region, m, hregion, hlargest, halloc.bind hm, hdescribes⟩

/-- The initial memory map is created exactly when an available region has room
for it, and then lies in a largest one and describes itself. -/
theorem createInitialMemMapFromEfi_describes
    (hmap : WellFormedMap (2 ^ 63) map)
    (content : Nat → InitialMemMapEntry) (memMap : InitialMemMap) :
    ∃ regions ok m, Canonical map regions ∧
      Returns (createInitialMemMapFromEfi map content memMap) (ok, m) ∧
      (ok = true ↔ ∃ region, CanHoldMap regions region) ∧
      (ok = true → ∃ region, CanHoldMap regions region ∧
        (∀ r, r ∈ regions → r.Available →
          r.numPhysicalPages ≤ region.numPhysicalPages) ∧
        DescribesItself map regions region content m) := by
  obtain ⟨sorted, hperm, hasc⟩ := exists_ascending_map hmap
  have hcanon := canonical_iteratedEntries hmap hperm hasc
  rcases createInitialMemMapFromEfi_ascending hmap hperm hasc content memMap with
    ⟨hrun, hno⟩ | ⟨region, m, hregion, hlargest, hrun, hdescribes⟩
  · exact ⟨_, false, memMap, hcanon, hrun, by simpa using hno, by simp⟩
  · exact ⟨_, true, m, hcanon, hrun, by simpa using ⟨region, hregion⟩,
      fun _ => ⟨region, hregion, hlargest, hdescribes⟩⟩

/-- A firmware map with one region of two pages. -/
theorem createInitialMemMapFromEfi_describes_two_pages :
    ∃ regions ok m,
      Canonical [⟨.conventionalMemory, 4096, 2, efiMemoryWB⟩] regions ∧
      Returns (createInitialMemMapFromEfi
        [⟨.conventionalMemory, 4096, 2, efiMemoryWB⟩] (fun _ => unsetEntry)
        ⟨0, 0, fun _ => unsetEntry⟩) (ok, m) ∧
      (ok = true ↔ ∃ region, CanHoldMap regions region) ∧
      (ok = true → ∃ region, CanHoldMap regions region ∧
        (∀ r, r ∈ regions → r.Available →
          r.numPhysicalPages ≤ region.numPhysicalPages) ∧
        DescribesItself [⟨.conventionalMemory, 4096, 2, efiMemoryWB⟩] regions region
          (fun _ => unsetEntry) m) :=
  createInitialMemMapFromEfi_describes
    { aligned := by decide
      nonempty := by decide
      disjoint := by simp
      below := by simp [EfiMemoryDescriptor.stop] }
    _ _

end Creation

end Kernel
end DexprOS
