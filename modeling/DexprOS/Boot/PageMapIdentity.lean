import DexprOS.Boot.PageMapMapping

/-!
# The boot page maps are identity maps

The walk of the processor through the tables that a setup function leaves, and the pages
that it finds.

Main facts:
* `walk_represented`: a walk finds the pages among the represented nodes and no others;
* `setup_identityMaps`: each of the three setup functions maps exactly the pages of the
  included descriptors and of the framebuffer, and writes nothing outside its buffer.
-/

namespace DexprOS
namespace Boot

open Efi Radix

section Walk

/-- What a walk finds: the page frame, and whether the read/write bit is set all the way
to it. -/
structure Mapping where
  frame : Nat
  writable : Bool
deriving DecidableEq, Repr

/-- The walk of the processor from a table of the given level: nine bits of the address
select the entry, which must be present. -/
def walk (memory : Nat → Nat) (a : Nat) : Nat → Nat → Option Mapping
  | 0, frame => some ⟨frame, true⟩
  | level + 1, table =>
      let entry := memory (table + 8 * ((a >>> (12 + 9 * level)) &&& 0x1FF))
      if entry &&& pagePresentBit = 0 then none
      else (walk memory a level (entry &&& pageAddressMask)).map fun mapping =>
        { mapping with writable := mapping.writable && entry &&& pageReadWriteBit != 0 }

variable {b : TableBuffer} {nodes : Finset (Nat × Nat)} {pages : Finset Nat}
variable {addr : Nat → Nat → Nat} {s : TableSpace}

/-- The tables above a represented leaf are represented. -/
theorem Represents.ancestor
    (hs : Represents b nodes pages addr s) {a k : Nat}
    (hleaf : (0, nodeIndex b.top 0 a) ∈ nodes) (hk : k ≤ b.top) :
    (k, nodeIndex b.top k a) ∈ nodes := by
  induction k with
  | zero =>
      exact hleaf
  | succ k ih =>
      rw [nodeIndex_succ hk]
      exact hs.closed k _ (ih (by omega)) hk

theorem entry_writable
    {a : Nat}
    (ha : a % 4096 = 0) :
    (a + 3) &&& pageReadWriteBit ≠ 0 := by
  have hbit : (a + 3).testBit 1 = true := by
    rw [Nat.testBit_eq_decide_div_mod_eq]
    simp only [pow_one, decide_eq_true_eq]
    omega
  intro hzero
  have hand := Nat.testBit_and (a + 3) pageReadWriteBit 1
  rw [hzero, hbit, Nat.zero_testBit] at hand
  exact absurd hand (by decide)

/-- A walk finds the word of the leaf for an address, if there is one. -/
theorem walk_represented
    (hs : Represents b nodes pages addr s) {a level : Nat}
    (hn : (level, nodeIndex b.top level a) ∈ nodes) :
    walk s.memory a level (addr level (nodeIndex b.top level a)) =
      if (0, nodeIndex b.top 0 a) ∈ nodes then
        some ⟨addr 0 (nodeIndex b.top 0 a), true⟩
      else none := by
  induction level with
  | zero =>
      rw [if_pos hn]
      rfl
  | succ level ih =>
      have htop : level + 1 ≤ b.top := hs.level_le _ _ hn
      have hindex := nodeIndex_mod htop a
      rw [nodeIndex_succ htop] at hn ⊢
      have hentry := hs.entry_of hn
      rw [walk, entry_index, ← hindex, hentry]
      by_cases hchild : (level, nodeIndex b.top level a) ∈ nodes
      · have haligned : addr level (nodeIndex b.top level a) % 4096 = 0 := by
          cases level with
          | zero => exact hs.word_aligned _
          | succ level => exact hs.aligned level _ hchild
        have hword : addr level (nodeIndex b.top level a) < 2 ^ 64 := by
          cases level with
          | zero => exact hs.word_lt _
          | succ level =>
              have hin := hs.inside level _ hchild
              have hend := hs.end_le
              have hnext := hs.next_le
              omega
        rw [if_pos hchild, if_neg (entry_present haligned), address_of_entry haligned hword,
          ih hchild]
        split
        · simp [entry_writable haligned]
        · rfl
      · have hleaf : (0, nodeIndex b.top 0 a) ∉ nodes :=
          fun hleaf => hchild (hs.ancestor hleaf (by omega))
        rw [if_neg hchild, if_neg hleaf, Nat.zero_and, if_pos rfl]

/-- The walk from the root, when the leaves are those of some pages. -/
theorem walk_root {P : Finset Nat}
    (hs : Represents b ({(b.top, 0)} ∪ cover 512 b.top (leavesOf b.top P)) P addr s)
    {a : Nat} (ha : a < 2 ^ (12 + 9 * b.top)) :
    walk s.memory a b.top (addr b.top 0) =
      if ∃ p ∈ P, p % 512 ^ b.top = a / 4096 then some ⟨addr 0 (a / 4096), true⟩ else none := by
  have hroot : (b.top, nodeIndex b.top b.top a) ∈
      {(b.top, 0)} ∪ cover 512 b.top (leavesOf b.top P) := by
    rw [nodeIndex_top]
    exact Finset.mem_union_left _ (Finset.mem_singleton_self _)
  have hpage : a / 4096 < 512 ^ b.top := by
    rw [managed_bytes] at ha
    exact Nat.div_lt_of_lt_mul ha
  have hleaf : nodeIndex b.top 0 a = a / 4096 :=
    Nat.mod_eq_of_lt hpage
  have hwalk := walk_represented hs hroot
  rw [nodeIndex_top, hleaf] at hwalk
  rw [hwalk]
  exact if_congr (hs.leaf_iff _) rfl rfl

/-- A page is mapped to itself exactly when it was entered, and no other page with it. -/
theorem walk_root_eq_identity_iff {P : Finset Nat}
    (hs : Represents b ({(b.top, 0)} ∪ cover 512 b.top (leavesOf b.top P)) P addr s)
    {a : Nat} (ha : a < 2 ^ (12 + 9 * b.top)) :
    walk s.memory a b.top (addr b.top 0) = some ⟨a / 4096 * 4096, true⟩ ↔
      a / 4096 ∈ P ∧ ∀ p ∈ P, p % 512 ^ b.top = a / 4096 → p = a / 4096 := by
  have hpage : a / 4096 % 512 ^ b.top = a / 4096 := by
    rw [managed_bytes] at ha
    exact Nat.mod_eq_of_lt (Nat.div_lt_of_lt_mul ha)
  rw [walk_root hs ha]
  constructor
  · intro hwalk
    split at hwalk
    · rename_i hexists
      have hword : addr 0 (a / 4096) = a / 4096 * 4096 := by simpa using hwalk
      have honly : ∀ p ∈ P, p % 512 ^ b.top = a / 4096 → p = a / 4096 := by
        intro p hp hmod
        have hle := hs.words.le hp
        rw [hmod, hword] at hle
        have hge := Nat.mod_le p (512 ^ b.top)
        omega
      obtain ⟨p, hp, hmod⟩ := hexists
      exact ⟨honly p hp hmod ▸ hp, honly⟩
    · exact absurd hwalk (by simp)
  · rintro ⟨hmem, honly⟩
    have hword := hs.words.eq_of_subsingleton hmem fun p hp hmod =>
      honly p hp (hmod.trans hpage)
    rw [hpage] at hword
    rw [if_pos ⟨_, hmem, hpage⟩, hword]

end Walk

section Kinds

/-- The three boot page maps. -/
inductive PageMapKind where
  | initial4
  | transitional4
  | initial5
deriving DecidableEq, Repr

namespace PageMapKind

/-- Levels of tables. -/
def levels : PageMapKind → Nat
  | initial4 => 4
  | transitional4 => 4
  | initial5 => 5

def shouldInclude : PageMapKind → EfiMemoryType → UInt64 → Bool
  | initial4 => shouldIncludeInPageMap
  | transitional4 => shouldIncludeInTransitionalPageMap
  | initial5 => shouldIncludeInPageMap

/-- The framebuffer as a range, where the map has it. -/
def framebuffer (framebufferBase framebufferSize : UInt64) : PageMapKind → List (Nat × Nat)
  | initial4 => [(framebufferBase.toNat, framebufferBase.toNat + framebufferSize.toNat)]
  | transitional4 => []
  | initial5 => [(framebufferBase.toNat, framebufferBase.toNat + framebufferSize.toNat)]

/-- The ranges to map, as exact numbers. -/
def ranges (kind : PageMapKind) (map : List EfiMemoryDescriptor)
    (framebufferBase framebufferSize : UInt64) : List (Nat × Nat) :=
  (map.filter fun d => kind.shouldInclude d.type d.attributes).map (fun d => (d.start, d.stop)) ++
    kind.framebuffer framebufferBase framebufferSize

/-- The setup function. -/
def setup (map : List EfiMemoryDescriptor) (framebufferBase framebufferSize : UInt64) :
    PageMapKind → Nat → Nat → (Nat → Nat) → Nat × TableSpace
  | initial4 => setupInitialPageMap4 map framebufferBase framebufferSize
  | transitional4 => setupTransitionalPageMap4 map
  | initial5 => setupInitialPageMap5 map framebufferBase framebufferSize

/-- The size calculator. -/
def calculateSize (map : List EfiMemoryDescriptor) (framebufferBase framebufferSize : UInt64) :
    PageMapKind → Nat → Option UInt64
  | initial4 => calculateInitialPageMap4Size map framebufferBase framebufferSize
  | transitional4 => calculateTransitionalPageMap4Size map
  | initial5 => calculateInitialPageMap5Size map framebufferBase framebufferSize

/-- The loop over the parts below the root. -/
def mapMemoryRange : PageMapKind → Nat → Nat → Nat → Nat → TableSpace → Bool × TableSpace
  | initial4 => mapMemoryRangeInLevel4Table
  | transitional4 => mapMemoryRangeInLevel4Table
  | initial5 => mapMemoryRangeInLevel5Table

theorem mapMemoryRange_maps (kind : PageMapKind) :
    MapsRanges kind.levels kind.mapMemoryRange := by
  cases kind with
  | initial4 => exact mapMemoryRangeInLevel4Table_maps
  | transitional4 => exact mapMemoryRangeInLevel4Table_maps
  | initial5 => exact mapMemoryRangeInLevel5Table_maps

theorem levels_le (kind : PageMapKind) :
    kind.levels ≤ 5 := by
  cases kind with
  | initial4 => decide
  | transitional4 => decide
  | initial5 => decide

theorem exists_levels (kind : PageMapKind) :
    ∃ levels, kind.levels = levels + 1 := by
  cases kind with
  | initial4 => exact ⟨3, rfl⟩
  | transitional4 => exact ⟨3, rfl⟩
  | initial5 => exact ⟨4, rfl⟩

end PageMapKind

/-- The 64-bit end of a descriptor is the exact one while it fits. -/
theorem mapMax_toNat
    {d : EfiMemoryDescriptor}
    (hd : d.stop < 2 ^ 64) :
    (mapMax d).toNat = d.stop := by
  rw [EfiMemoryDescriptor.stop] at hd ⊢
  have hpages : (d.numberOfPages * efiPageSize).toNat = d.numberOfPages.toNat * 4096 := by
    rw [UInt64.toNat_mul, efiPageSize, show (4096 : UInt64).toNat = 4096 from rfl]
    exact Nat.mod_eq_of_lt (by omega)
  rw [mapMax, UInt64.toNat_add, hpages]
  exact Nat.mod_eq_of_lt hd

namespace PageMapKind

variable {kind : PageMapKind} {map : List EfiMemoryDescriptor}
variable {framebufferBase framebufferSize : UInt64}

theorem limit_lt_word (kind : PageMapKind) :
    2 ^ (12 + 9 * kind.levels) < 2 ^ 64 :=
  Nat.pow_lt_pow_right (by decide) (by have := kind.levels_le; omega)

/-- Ranges that fit are the ranges that the setup functions compute. -/
theorem setup_eq
    (hword : ∀ range ∈ kind.ranges map framebufferBase framebufferSize, range.2 < 2 ^ 64) :
    kind.setup map framebufferBase framebufferSize =
      setupPageMap kind.mapMemoryRange (kind.ranges map framebufferBase framebufferSize) := by
  have hincluded : includedRanges kind.shouldInclude map =
      (map.filter fun d => kind.shouldInclude d.type d.attributes).map
        fun d => (d.start, d.stop) := by
    refine List.map_congr_left fun d hd => ?_
    rw [mapMax_toNat]
    · rfl
    · have hmem := List.mem_map_of_mem (f := fun d => (d.start, d.stop)) hd
      exact hword _ (List.mem_append_left _ hmem)
  have hframebuffer : ∀ range ∈ kind.framebuffer framebufferBase framebufferSize,
      range.2 < 2 ^ 64 :=
    fun range hr => hword range (List.mem_append_right _ hr)
  have hrange (h : framebufferBase.toNat + framebufferSize.toNat < 2 ^ 64) :
      framebufferRange framebufferBase framebufferSize =
        (framebufferBase.toNat, framebufferBase.toNat + framebufferSize.toNat) := by
    rw [framebufferRange, UInt64.toNat_add, Nat.mod_eq_of_lt h]
  unfold ranges
  rw [← hincluded]
  cases kind with
  | initial4 =>
      rw [setup, framebuffer, ← hrange (hframebuffer _ (List.mem_singleton_self _))]
      rfl
  | transitional4 =>
      rw [framebuffer, List.append_nil]
      rfl
  | initial5 =>
      rw [setup, framebuffer, ← hrange (hframebuffer _ (List.mem_singleton_self _))]
      rfl

/-- What a setup function takes. -/
theorem setup_consumes {buffer size : Nat}
    (hword : ∀ range ∈ kind.ranges map framebufferBase framebufferSize, range.2 < 2 ^ 64)
    (halign : buffer % 4096 = 0) (hbuffer : buffer + size ≤ 2 ^ 64) (memory : Nat → Nat) :
    (4096 * tablesForRanges kind.levels (kind.ranges map framebufferBase framebufferSize) ≤
        size ∧
      (kind.setup map framebufferBase framebufferSize buffer size memory).1 = buffer ∧
      (kind.setup map framebufferBase framebufferSize buffer size memory).2.next = buffer +
        4096 * tablesForRanges kind.levels (kind.ranges map framebufferBase framebufferSize)) ∨
    (size <
        4096 * tablesForRanges kind.levels (kind.ranges map framebufferBase framebufferSize) ∧
      (kind.setup map framebufferBase framebufferSize buffer size memory).1 = 0) := by
  have hmaps := kind.mapMemoryRange_maps
  obtain ⟨levels, hlevels⟩ := kind.exists_levels
  rw [setup_eq hword]
  rw [hlevels] at hmaps ⊢
  exact setupPageMap_consumes hmaps (fun range hr => (hword range hr).le) halign hbuffer memory

end PageMapKind

/-- The page of an address meets a range. -/
def PageMeets (a : Nat) (range : Nat × Nat) : Prop :=
  ∃ x, x / 4096 = a / 4096 ∧ range.1 ≤ x ∧ x < range.2

theorem pageMeets_iff
    {a : Nat} {range : Nat × Nat} :
    PageMeets a range ↔ a / 4096 ∈ pagesOf range.1 range.2 := by
  rw [mem_pagesOf]
  constructor
  · rintro ⟨x, hpage, hstart, hend⟩
    omega
  · rintro ⟨hlt, hend, hstart⟩
    exact ⟨max range.1 (a / 4096 * 4096), by omega, le_max_left _ _, by omega⟩

/-- Every walk from the root ends as the ranges say. -/
def MapsIdentically (levels : Nat) (ranges : List (Nat × Nat)) (result : Nat × TableSpace) :
    Prop :=
  ∀ a < 2 ^ (12 + 9 * levels),
    ((∃ range ∈ ranges, PageMeets a range) →
      walk result.2.memory a levels result.1 = some ⟨a / 4096 * 4096, true⟩) ∧
    ((¬ ∃ range ∈ ranges, PageMeets a range) →
      walk result.2.memory a levels result.1 = none)

end Kinds

section Setup

variable {levels : Nat}
variable {mapMemoryRange : Nat → Nat → Nat → Nat → TableSpace → Bool × TableSpace}
variable {ranges : List (Nat × Nat)} {buffer size : Nat}

/-- Pages below the limit of the root. -/
theorem pagesOfRanges_lt {limit : Nat}
    (hend : ∀ range ∈ ranges, range.2 ≤ 2 ^ (12 + 9 * limit)) :
    ∀ p ∈ pagesOfRanges ranges, p < 512 ^ limit := by
  intro p hp
  obtain ⟨range, hr, hp⟩ := mem_pagesOfRanges.mp hp
  have hlt := (mem_pagesOf.mp hp).2.1.trans_le (hend range hr)
  rw [managed_bytes, Nat.mul_comm] at hlt
  exact Nat.lt_of_mul_lt_mul_left hlt

/-- Tables that represent some pages below the limit map exactly these pages. -/
theorem mapsIdentically_of_represents {b : TableBuffer} {addr : Nat → Nat → Nat}
    {s : TableSpace}
    (hs : Represents b ({(b.top, 0)} ∪ cover 512 b.top (leavesOf b.top (pagesOfRanges ranges)))
      (pagesOfRanges ranges) addr s)
    (hend : ∀ range ∈ ranges, range.2 ≤ 2 ^ (12 + 9 * b.top)) :
    MapsIdentically b.top ranges (addr b.top 0, s) := by
  have hlt := pagesOfRanges_lt hend
  have hself (p : Nat) (hp : p ∈ pagesOfRanges ranges) : p % 512 ^ b.top = p :=
    Nat.mod_eq_of_lt (hlt p hp)
  intro a ha
  have hmem : (∃ range ∈ ranges, PageMeets a range) ↔ a / 4096 ∈ pagesOfRanges ranges := by
    simp only [mem_pagesOfRanges, pageMeets_iff]
  rw [hmem]
  constructor
  · intro hp
    exact (walk_root_eq_identity_iff hs ha).mpr
      ⟨hp, fun p hp' hmod => (hself p hp').symm.trans hmod⟩
  · intro hp
    refine (walk_root hs ha).trans (if_neg ?_)
    rintro ⟨p, hp', hmod⟩
    exact hp (hmod ▸ (hself p hp').symm ▸ hp')

/-- Nothing is written outside the tables. -/
theorem Represents.outside {b : TableBuffer} {nodes : Finset (Nat × Nat)} {pages : Finset Nat}
    {addr : Nat → Nat → Nat} {s : TableSpace}
    (hs : Represents b nodes pages addr s) {a : Nat}
    (ha : a < b.buffer ∨ b.bufferEnd ≤ a) :
    s.memory a = b.initial a := by
  have hnext := hs.next_le
  exact hs.frame a (by omega)

/-- The words that a setup function writes lie inside its buffer. -/
theorem setupPageMap_outside
    (hmaps : MapsRanges (levels + 1) mapMemoryRange)
    (hend : ∀ range ∈ ranges, range.2 ≤ 2 ^ 64)
    (hword : buffer + size ≤ 2 ^ 64) (memory : Nat → Nat) {a : Nat}
    (ha : a % 8 = 0) (hout : a < buffer ∨ buffer + size < a + 8) :
    (setupPageMap mapMemoryRange ranges buffer size memory).2.memory a = memory a := by
  by_cases husable : buffer % 4096 ≠ 0 ∨ size < 4096
  · rw [setupPageMap_unusable husable]
  · obtain ⟨result, hresult, hprepares⟩ := setupPageMap_prepares hmaps hend
      (by omega) (by omega) hword memory
    rw [hresult]
    have houtside : a < buffer ∨ buffer + 8 * (size / 8) ≤ a := by omega
    cases hprepares with
    | fits addr represents agree => exact represents.outside houtside
    | full nodes pages addr represents subset subset_need missing noRoom =>
        exact represents.outside houtside

/-- Behind a root that a setup function returns are the tables of the ranges. -/
theorem setupPageMap_represents
    (hmaps : MapsRanges (levels + 1) mapMemoryRange)
    (hend : ∀ range ∈ ranges, range.2 ≤ 2 ^ 64)
    (hbuffer : buffer + size ≤ 2 ^ 64) (memory : Nat → Nat)
    (hroot : (setupPageMap mapMemoryRange ranges buffer size memory).1 ≠ 0) :
    ∃ b addr, b.top = levels + 1 ∧
      Represents b ({(b.top, 0)} ∪ cover 512 b.top (leavesOf b.top (pagesOfRanges ranges)))
        (pagesOfRanges ranges) addr
        (setupPageMap mapMemoryRange ranges buffer size memory).2 ∧
      addr b.top 0 = (setupPageMap mapMemoryRange ranges buffer size memory).1 := by
  by_cases husable : buffer % 4096 ≠ 0 ∨ size < 4096
  · rw [setupPageMap_unusable husable] at hroot
    exact absurd rfl hroot
  · obtain ⟨result, hresult, hprepares⟩ := setupPageMap_prepares hmaps hend
      (by omega) (by omega) hbuffer memory
    rw [hresult] at hroot ⊢
    cases hprepares with
    | full nodes pages addr represents subset subset_need missing noRoom => exact absurd rfl hroot
    | fits addr represents agree =>
        rw [Finset.empty_union] at represents
        exact ⟨_, addr, rfl, represents, agree levels 0 (Finset.mem_singleton_self _)⟩

/-- A root that a setup function returns maps exactly the pages of the ranges. -/
theorem setupPageMap_mapsIdentically
    (hmaps : MapsRanges (levels + 1) mapMemoryRange)
    (hend : ∀ range ∈ ranges, range.2 ≤ 2 ^ (12 + 9 * (levels + 1)))
    (hlimit : 2 ^ (12 + 9 * (levels + 1)) ≤ 2 ^ 64)
    (hbuffer : buffer + size ≤ 2 ^ 64) (memory : Nat → Nat)
    (hroot : (setupPageMap mapMemoryRange ranges buffer size memory).1 ≠ 0) :
    MapsIdentically (levels + 1) ranges
      (setupPageMap mapMemoryRange ranges buffer size memory) := by
  obtain ⟨b, addr, htop, hs, haddr⟩ := setupPageMap_represents hmaps
    (fun range hr => (hend range hr).trans hlimit) hbuffer memory hroot
  rw [← htop] at hend ⊢
  have hmapped := mapsIdentically_of_represents hs hend
  rw [haddr] at hmapped
  exact hmapped

end Setup

section Identity

/-- The three boot page maps map exactly the pages of the included descriptors and of the
framebuffer, to themselves, and nothing is written outside the buffer. -/
theorem setup_identityMaps
    (kind : PageMapKind) (map : List EfiMemoryDescriptor)
    (framebufferBase framebufferSize : UInt64) (buffer size : Nat) (memory : Nat → Nat)
    (hranges : ∀ range ∈ kind.ranges map framebufferBase framebufferSize,
      range.2 ≤ 2 ^ (12 + 9 * kind.levels))
    (hbuffer : buffer + size ≤ 2 ^ 64) :
    ((kind.setup map framebufferBase framebufferSize buffer size memory).1 ≠ 0 →
      MapsIdentically kind.levels (kind.ranges map framebufferBase framebufferSize)
        (kind.setup map framebufferBase framebufferSize buffer size memory)) ∧
    ∀ a, a % 8 = 0 → (a < buffer ∨ buffer + size < a + 8) →
      (kind.setup map framebufferBase framebufferSize buffer size memory).2.memory a =
        memory a := by
  obtain ⟨levels, hlevels⟩ := kind.exists_levels
  have hmaps := kind.mapMemoryRange_maps
  have hlimit := kind.limit_lt_word
  have hword : ∀ range ∈ kind.ranges map framebufferBase framebufferSize, range.2 < 2 ^ 64 :=
    fun range hr => (hranges range hr).trans_lt hlimit
  rw [PageMapKind.setup_eq hword]
  rw [hlevels] at hranges hmaps hlimit ⊢
  constructor
  · exact setupPageMap_mapsIdentically hmaps hranges hlimit.le hbuffer memory
  · intro a ha hout
    exact setupPageMap_outside hmaps (fun range hr => (hword range hr).le) hbuffer memory ha hout

/-- One page of conventional memory and one of the framebuffer, in a buffer of eight tables
whose words were all different from zero. -/
theorem setup_identityMaps_two_pages :
    MapsIdentically 4 [(0x100000, 0x101000), (0xE0000000, 0xE0001000)]
      (PageMapKind.initial4.setup [⟨.conventionalMemory, 0x100000, 1, efiMemoryWB⟩]
        0xE0000000 0x1000 0x200000 0x8000 fun _ => 0xFFFF) := by
  have hranges : ∀ range ∈ PageMapKind.initial4.ranges
      [⟨.conventionalMemory, 0x100000, 1, efiMemoryWB⟩] 0xE0000000 0x1000,
      range.2 ≤ 2 ^ (12 + 9 * PageMapKind.initial4.levels) := by
    decide
  refine (setup_identityMaps .initial4 [⟨.conventionalMemory, 0x100000, 1, efiMemoryWB⟩]
    0xE0000000 0x1000 0x200000 0x8000 (fun _ => 0xFFFF) hranges (by decide)).1 ?_
  have hword : ∀ range ∈ PageMapKind.initial4.ranges
      [⟨.conventionalMemory, 0x100000, 1, efiMemoryWB⟩] 0xE0000000 0x1000,
      range.2 < 2 ^ 64 := by
    decide
  obtain ⟨-, hroot, -⟩ | ⟨hsmall, -⟩ := PageMapKind.setup_consumes hword
    (show 0x200000 % 4096 = 0 by decide) (show 0x200000 + 0x8000 ≤ 2 ^ 64 by decide)
    fun _ => 0xFFFF
  · rw [hroot]
    decide
  · exact absurd hsmall (by decide +kernel)

end Identity

end Boot
end DexprOS
