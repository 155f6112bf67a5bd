import DexprOS.Boot.PageMapIdentity
import DexprOS.Kernel.Efi.InitialMemMapCreation

/-!
# The initial memory map and the boot page map

The initial memory map says of its entries how their pages are used; an entry with a usage
is taken to be mapped.  The boot page map decides on its own what it maps.

Main facts:
* `DescribesItself.used_iff`: the pages with a usage are those of the descriptors with one;
* `usedPages_mapped_iff`: the two agree exactly when the framebuffer happens to cover the
  persistent memory that the page map leaves out.
-/

namespace DexprOS
namespace Boot

open Efi Fuel Radix Kernel

section Used

variable {map : List EfiMemoryDescriptor} {regions : List InitialMemMapEntry}
variable {region : InitialMemMapEntry} {content : Nat → InitialMemMapEntry} {m : InitialMemMap}

/-- The pages with a usage are those of the descriptors with one: the map's own pages lie in
available memory. -/
theorem used_iff
    (hcanon : Canonical map regions) (hregion : CanHoldMap regions region)
    (hm : DescribesItself map regions region content m) {p : Nat} :
    (∃ e ∈ m.entries, e.HasPage p ∧ e.usage ≠ .none) ↔
      ∃ d ∈ map, d.HasPage p ∧ toDexprOSInitialMemMapUsage d.type ≠ .none := by
  constructor
  · rintro ⟨e, he, hp, husage⟩
    obtain ⟨d, hd, hdp, -, hdusage, -⟩ :=
      (hm.pages p e.memoryType e.usage e.flags).mp ⟨e, he, hp, rfl, rfl, rfl⟩
    split at hdusage
    · rename_i hown
      obtain ⟨hmem, ⟨-, hmapped⟩, hfits⟩ := hregion
      have hrp : region.HasPage p := by
        refine ⟨hown.1, hown.2.trans_le ?_⟩
        rw [InitialMemMapEntry.start, InitialMemMapEntry.stop]
        omega
      obtain ⟨d', hd', hdp', -, husage', -⟩ :=
        (hcanon.pages p region.memoryType region.usage region.flags).mp
          ⟨region, hmem, hrp, rfl, rfl, rfl⟩
      refine ⟨d', hd', hdp', ?_⟩
      rw [husage', hmapped]
      decide
    · exact ⟨d, hd, hdp, hdusage ▸ husage⟩
  · rintro ⟨d, hd, hdp, husage⟩
    obtain ⟨e, he, hp, -, heusage, -⟩ := (hm.pages p _ _ _).mpr ⟨d, hd, hdp, rfl, rfl, rfl⟩
    refine ⟨e, he, hp, ?_⟩
    rw [heusage]
    split
    · decide
    · exact husage

end Used

section Agreement

variable {map : List EfiMemoryDescriptor} {framebufferBase framebufferSize : UInt64}

/-- Persistent memory that the page map leaves out. -/
def LeftOut (d : EfiMemoryDescriptor) : Prop :=
  d.type = .persistentMemory ∧ d.attributes &&& efiMemoryRuntime ≠ efiMemoryRuntime

/-- A descriptor with a usage is included, except for persistent memory. -/
theorem included_or_leftOut
    {d : EfiMemoryDescriptor}
    (husage : toDexprOSInitialMemMapUsage d.type ≠ .none) :
    shouldIncludeInPageMap d.type d.attributes = true ∨ LeftOut d := by
  unfold LeftOut
  cases htype : d.type <;> rw [htype] at husage <;>
    simp_all [toDexprOSInitialMemMapUsage, shouldIncludeInPageMap, em]

theorem LeftOut.used
    {d : EfiMemoryDescriptor} (h : LeftOut d) :
    toDexprOSInitialMemMapUsage d.type ≠ .none := by
  rw [h.1]
  decide

theorem LeftOut.not_included
    {d : EfiMemoryDescriptor} (h : LeftOut d) :
    shouldIncludeInPageMap d.type d.attributes ≠ true := by
  rw [h.1]
  simpa [shouldIncludeInPageMap] using h.2

/-- The framebuffer covers the persistent memory that the page map leaves out, and lies so
that its pages share no leaf with a used page other than themselves. -/
structure FramebufferFits (map : List EfiMemoryDescriptor)
    (framebufferBase framebufferSize : UInt64) : Prop where
  covers : ∀ d ∈ map, LeftOut d → ∀ a, d.HasPage (a / 4096) →
    PageMeets a (framebufferBase.toNat, framebufferBase.toNat + framebufferSize.toNat)
  apart : ∀ d ∈ map, toDexprOSInitialMemMapUsage d.type ≠ .none → ∀ a, d.HasPage (a / 4096) →
    ∀ a', PageMeets a' (framebufferBase.toNat, framebufferBase.toNat + framebufferSize.toNat) →
      a' / 4096 % 2 ^ 36 = a / 4096 → a' / 4096 = a / 4096

variable {buffer size : Nat} {memory : Nat → Nat}

/-- Aligned descriptors contain the pages that they meet. -/
theorem hasPage_iff_pageMeets
    (hmap : WellFormedMap (2 ^ 48) map) {d : EfiMemoryDescriptor} (hd : d ∈ map) (a : Nat) :
    d.HasPage (a / 4096) ↔ PageMeets a (d.start, d.stop) := by
  have halign := hmap.aligned d hd
  have hstop : d.stop % 4096 = 0 := by
    rw [EfiMemoryDescriptor.start] at halign
    rw [EfiMemoryDescriptor.stop]
    omega
  rw [pageMeets_iff, mem_pagesOf, EfiMemoryDescriptor.HasPage]
  dsimp only
  omega

/-- The pages that the page map enters. -/
theorem mem_pagesOfRanges_initial4
    (hmap : WellFormedMap (2 ^ 48) map) (a : Nat) :
    a / 4096 ∈ pagesOfRanges
        (PageMapKind.initial4.ranges map framebufferBase framebufferSize) ↔
      (∃ d ∈ map, shouldIncludeInPageMap d.type d.attributes = true ∧ d.HasPage (a / 4096)) ∨
        PageMeets a
          (framebufferBase.toNat, framebufferBase.toNat + framebufferSize.toNat) := by
  have hdescriptor : (∃ range ∈ (map.filter fun d =>
        shouldIncludeInPageMap d.type d.attributes).map (fun d => (d.start, d.stop)),
        PageMeets a range) ↔
      ∃ d ∈ map, shouldIncludeInPageMap d.type d.attributes = true ∧ d.HasPage (a / 4096) := by
    constructor
    · rintro ⟨range, hr, hmeets⟩
      obtain ⟨d, hd, rfl⟩ := List.mem_map.mp hr
      obtain ⟨hd, hincluded⟩ := List.mem_filter.mp hd
      exact ⟨d, hd, hincluded, (hasPage_iff_pageMeets hmap hd a).mpr hmeets⟩
    · rintro ⟨d, hd, hincluded, hp⟩
      exact ⟨_, List.mem_map_of_mem (List.mem_filter.mpr ⟨hd, hincluded⟩),
        (hasPage_iff_pageMeets hmap hd a).mp hp⟩
  rw [← hdescriptor, mem_pagesOfRanges]
  simp only [← pageMeets_iff]
  unfold PageMapKind.ranges
  simp only [List.mem_append, or_and_right, exists_or]
  refine or_congr Iff.rfl ?_
  simp [PageMapKind.framebuffer]

/-- A page is mapped to itself exactly when it was entered, and no other page with it. -/
theorem walk_initial4_iff
    (hmap : WellFormedMap (2 ^ 48) map)
    (hframebuffer : framebufferBase.toNat + framebufferSize.toNat ≤ 2 ^ 63)
    (hbuffer : buffer + size ≤ 2 ^ 64)
    (hroot : (setupInitialPageMap4 map framebufferBase framebufferSize buffer size memory).1 ≠ 0)
    {a : Nat} (ha : a < 2 ^ 48) :
    walk (setupInitialPageMap4 map framebufferBase framebufferSize buffer size memory).2.memory
        a 4 (setupInitialPageMap4 map framebufferBase framebufferSize buffer size memory).1 =
          some ⟨a / 4096 * 4096, true⟩ ↔
      a / 4096 ∈ pagesOfRanges
          (PageMapKind.initial4.ranges map framebufferBase framebufferSize) ∧
        ∀ p ∈ pagesOfRanges
            (PageMapKind.initial4.ranges map framebufferBase framebufferSize),
          p % 2 ^ 36 = a / 4096 → p = a / 4096 := by
  have hword : ∀ range ∈ PageMapKind.initial4.ranges map framebufferBase framebufferSize,
      range.2 < 2 ^ 64 := by
    intro range hr
    obtain hr | hr := List.mem_append.mp hr
    · obtain ⟨d, hd, rfl⟩ := List.mem_map.mp hr
      have hstop := hmap.below d (List.mem_filter.mp hd).1
      dsimp only
      omega
    · obtain rfl := List.mem_singleton.mp hr
      dsimp only
      omega
  have hsetup : setupInitialPageMap4 map framebufferBase framebufferSize = _ :=
    PageMapKind.setup_eq hword
  rw [hsetup] at hroot ⊢
  obtain ⟨b, addr, htop, hs, haddr⟩ := setupPageMap_represents
    mapMemoryRangeInLevel4Table_maps (fun range hr => (hword range hr).le) hbuffer memory hroot
  have hpow : 512 ^ b.top = 2 ^ 36 := by
    rw [htop]
    norm_num
  have hiff := walk_root_eq_identity_iff hs (show a < 2 ^ (12 + 9 * b.top) by rwa [htop])
  rw [hpow, haddr, htop] at hiff
  exact hiff

/-- All used pages are mapped to themselves exactly when the framebuffer makes up for the
persistent memory that is left out. -/
theorem usedPages_mapped_iff
    (hmap : WellFormedMap (2 ^ 48) map)
    (hframebuffer : framebufferBase.toNat + framebufferSize.toNat ≤ 2 ^ 63)
    (hbuffer : buffer + size ≤ 2 ^ 64)
    (hroot : (setupInitialPageMap4 map framebufferBase framebufferSize buffer size memory).1 ≠ 0) :
    (∀ d ∈ map, toDexprOSInitialMemMapUsage d.type ≠ .none → ∀ a, d.HasPage (a / 4096) →
      walk (setupInitialPageMap4 map framebufferBase framebufferSize buffer size
          memory).2.memory a 4
        (setupInitialPageMap4 map framebufferBase framebufferSize buffer size memory).1 =
          some ⟨a / 4096 * 4096, true⟩) ↔
      FramebufferFits map framebufferBase framebufferSize := by
  have hbelow (d : EfiMemoryDescriptor) (hd : d ∈ map) (a : Nat) (hp : d.HasPage (a / 4096)) :
      a < 2 ^ 48 ∧ a / 4096 % 2 ^ 36 = a / 4096 := by
    have hstop := hmap.below d hd
    have hlt := hp.2
    omega
  have hiff (a : Nat) (ha : a < 2 ^ 48) :=
    walk_initial4_iff hmap hframebuffer hbuffer hroot ha
  have hmem (a : Nat) : a / 4096 ∈ pagesOfRanges
      (PageMapKind.initial4.ranges map framebufferBase framebufferSize) ↔ _ :=
    mem_pagesOfRanges_initial4 hmap a
  constructor
  · intro hmapped
    constructor
    · intro d hd hleft a hp
      obtain ⟨ha, -⟩ := hbelow d hd a hp
      have hpage := ((hiff a ha).mp (hmapped d hd hleft.used a hp)).1
      obtain ⟨d', hd', hincluded, hp'⟩ | hmeets := (hmem a).mp hpage
      · rw [hmap.eq_of_hasPage hd' hd hp' hp] at hincluded
        exact absurd hincluded hleft.not_included
      · exact hmeets
    · intro d hd husage a hp a' hmeets hmod
      obtain ⟨ha, -⟩ := hbelow d hd a hp
      exact ((hiff a ha).mp (hmapped d hd husage a hp)).2 _ ((hmem a').mpr (.inr hmeets)) hmod
  · rintro ⟨hcovers, happart⟩ d hd husage a hp
    obtain ⟨ha, -⟩ := hbelow d hd a hp
    refine (hiff a ha).mpr ⟨(hmem a).mpr ?_, ?_⟩
    · obtain hincluded | hleft := included_or_leftOut husage
      · exact .inl ⟨d, hd, hincluded, hp⟩
      · exact .inr (hcovers d hd hleft a hp)
    · intro p hpage hmod
      have hself : p * 4096 / 4096 = p := Nat.mul_div_cancel p (by decide)
      rw [← hself] at hpage hmod ⊢
      obtain ⟨d', hd', -, hp'⟩ | hmeets := (hmem (p * 4096)).mp hpage
      · exact (hbelow d' hd' _ hp').2.symm.trans hmod
      · exact happart d hd husage a hp _ hmeets hmod

/-- One page of persistent memory beside two pages of conventional memory. -/
def persistentMap : List EfiMemoryDescriptor :=
  [⟨.conventionalMemory, 0x1000, 2, efiMemoryWB⟩, ⟨.persistentMemory, 0x100000, 1, efiMemoryWB⟩]

theorem persistentMap_wellFormed {limit : Nat} (hlimit : 2 ^ 21 ≤ limit) :
    WellFormedMap limit persistentMap where
  aligned := by decide
  nonempty := by decide
  disjoint := by decide
  below := by
    intro d hd
    refine le_trans ?_ hlimit
    revert d
    decide

/-- Its initial memory map. -/
theorem persistentMap_created (content : Nat → InitialMemMapEntry) (memMap : InitialMemMap) :
    ∃ region m, CanHoldMap (iteratedEntries persistentMap) region ∧
      Returns (createInitialMemMapFromEfi persistentMap content memMap) (true, m) ∧
      DescribesItself persistentMap (iteratedEntries persistentMap) region content m := by
  have hmap : WellFormedMap (2 ^ 63) persistentMap := persistentMap_wellFormed (by norm_num)
  rcases createInitialMemMapFromEfi_ascending hmap (List.Perm.refl _) (by decide) content memMap
    with ⟨-, hno⟩ | ⟨region, m, hregion, -, hreturns, hm⟩
  · exact absurd ⟨by decide, ⟨by decide, by decide⟩, by decide⟩
      (hno (toEntry ⟨.conventionalMemory, 0x1000, 2, efiMemoryWB⟩))
  · exact ⟨region, m, hregion, hreturns, hm⟩

/-- The page map of that memory map. -/
theorem persistentMap_root :
    (setupInitialPageMap4 persistentMap 0xE0000000 0x1000 0x200000 0x10000 fun _ => 0).1 ≠ 0 := by
  have hword : ∀ range ∈ PageMapKind.initial4.ranges persistentMap 0xE0000000 0x1000,
      range.2 < 2 ^ 64 := by
    decide
  obtain ⟨-, hroot, -⟩ | ⟨hsmall, -⟩ := PageMapKind.setup_consumes hword
    (show 0x200000 % 4096 = 0 by decide) (show 0x200000 + 0x10000 ≤ 2 ^ 64 by decide)
    fun _ => 0
  · rw [show setupInitialPageMap4 persistentMap 0xE0000000 0x1000 =
      PageMapKind.initial4.setup persistentMap 0xE0000000 0x1000 from rfl, hroot]
    decide
  · exact absurd hsmall (by decide +kernel)

/-- What the initial memory map says of usage agrees with the boot page map exactly when the
framebuffer covers the persistent memory that the page map leaves out. -/
theorem initialMemMap_mapped_iff
    (map : List EfiMemoryDescriptor) (framebufferBase framebufferSize : UInt64)
    (buffer size : Nat) (memory : Nat → Nat)
    (content : Nat → InitialMemMapEntry) (memMap m : InitialMemMap)
    (hmap : WellFormedMap (2 ^ 48) map)
    (hframebuffer : framebufferBase.toNat + framebufferSize.toNat ≤ 2 ^ 63)
    (hbuffer : buffer + size ≤ 2 ^ 64)
    (hroot : (setupInitialPageMap4 map framebufferBase framebufferSize buffer size memory).1 ≠ 0)
    (hcreate : Returns (createInitialMemMapFromEfi map content memMap) (true, m)) :
    (∀ e ∈ m.entries, e.usage ≠ .none → ∀ a, e.HasPage (a / 4096) →
      walk (setupInitialPageMap4 map framebufferBase framebufferSize buffer size
          memory).2.memory a 4
        (setupInitialPageMap4 map framebufferBase framebufferSize buffer size memory).1 =
          some ⟨a / 4096 * 4096, true⟩) ↔
      FramebufferFits map framebufferBase framebufferSize := by
  have hwide : WellFormedMap (2 ^ 63) map :=
    { hmap with below := fun d hd => (hmap.below d hd).trans (by norm_num) }
  obtain ⟨regions, ok, m', hcanon, hreturns, -, hdescribes⟩ :=
    createInitialMemMapFromEfi_describes hwide content memMap
  obtain ⟨rfl, rfl⟩ : ok = true ∧ m' = m := by
    simpa using hreturns.unique hcreate
  obtain ⟨region, hregion, -, hm⟩ := hdescribes rfl
  rw [← usedPages_mapped_iff hmap hframebuffer hbuffer hroot]
  constructor
  · intro hmapped d hd husage a hp
    obtain ⟨e, he, hep, heusage⟩ := (used_iff hcanon hregion hm).mpr ⟨d, hd, hp, husage⟩
    exact hmapped e he heusage a hep
  · intro hmapped e he heusage a hep
    obtain ⟨d, hd, hp, husage⟩ := (used_iff hcanon hregion hm).mp ⟨e, he, hep, heusage⟩
    exact hmapped d hd husage a hp

/-- The persistent page decides. -/
theorem initialMemMap_mapped_iff_persistent :
    ∃ m, Returns (createInitialMemMapFromEfi persistentMap (fun _ => unsetEntry)
        ⟨0, 0, fun _ => unsetEntry⟩) (true, m) ∧
      ((∀ e ∈ m.entries, e.usage ≠ .none → ∀ a, e.HasPage (a / 4096) →
        walk (setupInitialPageMap4 persistentMap 0xE0000000 0x1000 0x200000 0x10000
            fun _ => 0).2.memory a 4
          (setupInitialPageMap4 persistentMap 0xE0000000 0x1000 0x200000 0x10000
            fun _ => 0).1 = some ⟨a / 4096 * 4096, true⟩) ↔
        FramebufferFits persistentMap 0xE0000000 0x1000) := by
  obtain ⟨region, m, -, hreturns, -⟩ := persistentMap_created (fun _ => unsetEntry)
    ⟨0, 0, fun _ => unsetEntry⟩
  exact ⟨m, hreturns, initialMemMap_mapped_iff persistentMap 0xE0000000 0x1000 0x200000 0x10000
    (fun _ => 0) _ _ m (persistentMap_wellFormed (by norm_num)) (by decide) (by decide)
    persistentMap_root hreturns⟩

/-- The persistent page has the usage of mapped memory, and is not mapped. -/
theorem persistent_page_not_mapped :
    WellFormedMap (2 ^ 48) persistentMap ∧
    (setupInitialPageMap4 persistentMap 0xE0000000 0x1000 0x200000 0x10000 fun _ => 0).1 ≠ 0 ∧
    ∃ m, Returns (createInitialMemMapFromEfi persistentMap (fun _ => unsetEntry)
        ⟨0, 0, fun _ => unsetEntry⟩) (true, m) ∧
      ∃ e ∈ m.entries, e.HasPage (0x100000 / 4096) ∧ e.usage ≠ .none ∧
        walk (setupInitialPageMap4 persistentMap 0xE0000000 0x1000 0x200000 0x10000
            fun _ => 0).2.memory 0x100000 4
          (setupInitialPageMap4 persistentMap 0xE0000000 0x1000 0x200000 0x10000
            fun _ => 0).1 ≠ some ⟨0x100000, true⟩ := by
  have hmap : WellFormedMap (2 ^ 48) persistentMap := persistentMap_wellFormed (by norm_num)
  have hwide : WellFormedMap (2 ^ 63) persistentMap := persistentMap_wellFormed (by norm_num)
  have hcanon := canonical_iteratedEntries hwide (List.Perm.refl _) (by decide)
  obtain ⟨region, m, hregion, hreturns, hm⟩ := persistentMap_created (fun _ => unsetEntry)
    ⟨0, 0, fun _ => unsetEntry⟩
  let d : EfiMemoryDescriptor := ⟨.persistentMemory, 0x100000, 1, efiMemoryWB⟩
  have hd : d ∈ persistentMap := by decide
  have hdp : d.HasPage (0x100000 / 4096) := ⟨by decide, by decide⟩
  obtain ⟨e, he, hp, husage⟩ := (used_iff hcanon hregion hm).mpr ⟨d, hd, hdp, by decide⟩
  refine ⟨hmap, persistentMap_root, m, hreturns, e, he, hp, husage, fun hwalk => ?_⟩
  have hpage := ((walk_initial4_iff hmap (by decide) (by decide) persistentMap_root
    (show 0x100000 < 2 ^ 48 by decide)).mp hwalk).1
  obtain ⟨d', hd', hincluded, hp'⟩ | ⟨x, hx, hlo, -⟩ :=
    (mem_pagesOfRanges_initial4 hmap _).mp hpage
  · rw [hmap.eq_of_hasPage hd' hd hp' hdp] at hincluded
    exact absurd hincluded (by decide)
  · have hlo : 0xE0000000 ≤ x := hlo
    omega

end Agreement

end Boot
end DexprOS
