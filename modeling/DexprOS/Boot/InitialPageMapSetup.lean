import DexprOS.Efi.EfiDef
import DexprOS.Library.FuelLoop
import Mathlib.Algebra.Order.Ring.Nat
import Mathlib.Data.UInt
import Mathlib.Logic.Function.Basic

/-!
# The boot page maps

Size calculation and construction of the identity maps of `InitialPageMapSetup.c`.

The size calculators work on 64-bit words.  The builders work on addresses as numbers,
because the sums they form stay below `2 ^ 64` for ranges that end at or below `2 ^ 63`;
their memory gives the 64-bit word at each address that is a multiple of eight.
-/

namespace DexprOS
namespace Boot

open Efi Fuel

section Ranges

def pagePresentBit : Nat := 1
def pageReadWriteBit : Nat := 1 <<< 1

/-- `0xFFFFFFFFFFFFF000`, which keeps the address of a table or of a page. -/
def pageAddressMask : Nat := 0xFFFFFFFFFFFFF000

def initialPageSize : Nat := 4096
def singlePageMapTableSize : Nat := 4096

def level1PageTableManagedBytes : UInt64 := 0x200000
def level2PageTableManagedBytes : UInt64 := 0x40000000
def level3PageTableManagedBytes : UInt64 := 0x8000000000
def level4PageTableManagedBytes : UInt64 := 0x1000000000000

def shouldIncludeInPageMap (type : EfiMemoryType) (attributes : UInt64) : Bool :=
  match type with
  | .loaderCode
  | .loaderData
  | .runtimeServicesCode
  | .runtimeServicesData
  | .bootServicesCode
  | .bootServicesData
  | .conventionalMemory => true
  | _ => attributes &&& efiMemoryRuntime == efiMemoryRuntime

def shouldIncludeInTransitionalPageMap (type : EfiMemoryType) (attributes : UInt64) : Bool :=
  match type with
  | .loaderCode
  | .loaderData
  | .runtimeServicesCode
  | .runtimeServicesData
  | .bootServicesCode
  | .bootServicesData => true
  | _ => attributes &&& efiMemoryRuntime == efiMemoryRuntime

/-- `mapMax` of a descriptor. -/
def mapMax (d : EfiMemoryDescriptor) : UInt64 :=
  d.physicalStart + d.numberOfPages * efiPageSize

/-- The loop's body in the two searches; the range is `none` as long as
`memoryRangeFound` is false. -/
def considerRange (shouldInclude : EfiMemoryType → UInt64 → Bool) (minAddress : UInt64)
    (range : Option (UInt64 × UInt64)) (d : EfiMemoryDescriptor) : Option (UInt64 × UInt64) :=
  if shouldInclude d.type d.attributes ∧ minAddress ≤ d.physicalStart ∧
      range.all (fun range => decide (d.physicalStart < range.1)) then
    some (d.physicalStart, mapMax d)
  else range

def findNextMemoryRange (map : List EfiMemoryDescriptor) (framebufferBase framebufferSize : UInt64)
    (minAddress : UInt64) : Option (UInt64 × UInt64) :=
  let range := map.foldl (considerRange shouldIncludeInPageMap minAddress) none
  if minAddress ≤ framebufferBase ∧
      range.all (fun range => decide (framebufferBase < range.2)) then
    some (framebufferBase, framebufferBase + framebufferSize)
  else range

def findNextMemoryRangeTransitional (map : List EfiMemoryDescriptor) (minAddress : UInt64) :
    Option (UInt64 × UInt64) :=
  map.foldl (considerRange shouldIncludeInTransitionalPageMap minAddress) none

end Ranges

section Sizes

/-- The counters of one level of tables. -/
structure LevelCount where
  tableManSize : UInt64
  highestTableIndex : UInt64
  numTables : UInt64

/-- The body of the loop over the levels. -/
def countRange (memoryRangeBase memoryRangeLast : UInt64) (level : LevelCount) : LevelCount :=
  let startTableIndex := memoryRangeBase / level.tableManSize
  let endTableIndex := (memoryRangeLast - 1) / level.tableManSize
  let numRangeTables := endTableIndex - startTableIndex
  let numRangeTables :=
    if level.highestTableIndex < startTableIndex ∨ level.numTables = 0 then numRangeTables + 1
    else numRangeTables
  { level with
    highestTableIndex := endTableIndex
    numTables := level.numTables + numRangeTables }

/-- One pass of the endless loop, on `highestResolvedAddress` and the counters. -/
def calculateSizePass (findNext : UInt64 → Option (UInt64 × UInt64))
    (s : UInt64 × List LevelCount) : Pass (UInt64 × List LevelCount) (List LevelCount) :=
  match findNext s.1 with
  | none => .leave s.2
  | some (memoryRangeBase, memoryRangeLast) =>
      .again (memoryRangeLast, s.2.map (countRange memoryRangeBase memoryRangeLast))

/-- What the three calculators have in common. -/
def calculatePageMapSize (findNext : UInt64 → Option (UInt64 × UInt64))
    (managedMemorySizePerTableLevel : List UInt64) (fuel : Nat) : Option UInt64 :=
  (forever (calculateSizePass findNext) fuel
      (0, managedMemorySizePerTableLevel.map fun size => ⟨size, 0, 0⟩)).map
    fun levels => ((levels.map LevelCount.numTables).sum + 1) * 4096

def calculateInitialPageMap4Size (map : List EfiMemoryDescriptor)
    (framebufferBase framebufferSize : UInt64) : Nat → Option UInt64 :=
  calculatePageMapSize (findNextMemoryRange map framebufferBase framebufferSize)
    [level1PageTableManagedBytes, level2PageTableManagedBytes, level3PageTableManagedBytes]

def calculateTransitionalPageMap4Size (map : List EfiMemoryDescriptor) : Nat → Option UInt64 :=
  calculatePageMapSize (findNextMemoryRangeTransitional map)
    [level1PageTableManagedBytes, level2PageTableManagedBytes, level3PageTableManagedBytes]

def calculateInitialPageMap5Size (map : List EfiMemoryDescriptor)
    (framebufferBase framebufferSize : UInt64) : Nat → Option UInt64 :=
  calculatePageMapSize (findNextMemoryRange map framebufferBase framebufferSize)
    [level1PageTableManagedBytes, level2PageTableManagedBytes, level3PageTableManagedBytes,
      level4PageTableManagedBytes]

end Sizes

section Tables

/-- The memory, and `*ppNextAvailableTableSpace`. -/
structure TableSpace where
  memory : Nat → Nat
  next : Nat

/-- `table[i] = 0` for the 512 entries of a table. -/
def zeroTable (table : Nat) (memory : Nat → Nat) : Nat → Nat :=
  (List.range 512).foldl (fun memory i => Function.update memory (table + 8 * i) 0) memory

/-- `*pEntry |= bits`. -/
def orWord (entry bits : Nat) (memory : Nat → Nat) : Nat → Nat :=
  Function.update memory entry (memory entry ||| bits)

/-- The first half of the four `Prepare` functions: the table behind an entry of the table
above, taken from the buffer on first use.  It is `none` when the buffer is used up. -/
def subtableOf (entryShift startAddress upperTable bufferEnd : Nat) (s : TableSpace) :
    Option Nat × TableSpace :=
  let entry := upperTable + 8 * ((startAddress >>> entryShift) &&& 0x1FF)
  if s.memory entry &&& pagePresentBit = 0 then
    if s.next + 8 * 512 > bufferEnd then (none, s)
    else
      let table := s.next
      let memory := zeroTable table s.memory
      let memory := orWord entry (table &&& pageAddressMask) memory
      let memory := orWord entry (pagePresentBit ||| pageReadWriteBit) memory
      (some table, { memory := memory, next := s.next + 8 * 512 })
  else (some (s.memory entry &&& pageAddressMask), s)

/-- The loop over the subtables.  `managedMemorySize` is `2 ^ managedShift`, and `prepare`
is called with the bounds of each part. -/
def forSubtables (managedShift endAddress : Nat)
    (prepare : Nat → Nat → TableSpace → Bool × TableSpace)
    (subtableStartAddress subtableEndAddress : Nat) (s : TableSpace) : Bool × TableSpace :=
  if subtableStartAddress < endAddress then
    match prepare subtableStartAddress subtableEndAddress s with
    | (false, s) => (false, s)
    | (true, s) =>
        forSubtables managedShift endAddress prepare
          ((subtableStartAddress / 2 ^ managedShift + 1) * 2 ^ managedShift)
          (min ((subtableEndAddress / 2 ^ managedShift + 1) * 2 ^ managedShift) endAddress) s
  else (true, s)
termination_by endAddress - subtableStartAddress
decreasing_by
  have hnext := Nat.lt_div_mul_add (a := subtableStartAddress) (Nat.two_pow_pos managedShift)
  rw [Nat.add_mul, Nat.one_mul]
  omega

/-- The loop with its starting values. -/
def mapSubtables (managedShift : Nat) (prepare : Nat → Nat → TableSpace → Bool × TableSpace)
    (startAddress endAddress : Nat) (s : TableSpace) : Bool × TableSpace :=
  let alignedStartAddress := startAddress / 2 ^ managedShift * 2 ^ managedShift
  forSubtables managedShift endAddress prepare startAddress
    (min (alignedStartAddress + 2 ^ managedShift) endAddress) s

/-- The loop of `PrepareLevel1Table` over the pages. -/
def fillPages (table endAddress entryAddress : Nat) (memory : Nat → Nat) : Nat → Nat :=
  if entryAddress < endAddress then
    let entry := table + 8 * ((entryAddress >>> 12) &&& 0x1FF)
    let memory := orWord entry entryAddress memory
    let memory := orWord entry (pagePresentBit ||| pageReadWriteBit) memory
    fillPages table endAddress (entryAddress + initialPageSize) memory
  else memory
termination_by endAddress - entryAddress
decreasing_by
  rw [initialPageSize]
  omega

def prepareLevel1Table (bufferEnd level2Table startAddress endAddress : Nat) (s : TableSpace) :
    Bool × TableSpace :=
  match subtableOf 21 startAddress level2Table bufferEnd s with
  | (none, s) => (false, s)
  | (some level1Table, s) =>
      (true, { s with
        memory :=
          fillPages level1Table endAddress (startAddress &&& pageAddressMask) s.memory })

/-- What `Prepare` functions above the first level have in common. -/
def prepareTable (entryShift managedShift : Nat)
    (prepareSubtable : Nat → Nat → Nat → Nat → TableSpace → Bool × TableSpace)
    (bufferEnd upperTable startAddress endAddress : Nat) (s : TableSpace) : Bool × TableSpace :=
  match subtableOf entryShift startAddress upperTable bufferEnd s with
  | (none, s) => (false, s)
  | (some table, s) =>
      mapSubtables managedShift (prepareSubtable bufferEnd table) startAddress endAddress s

def prepareLevel2Table : Nat → Nat → Nat → Nat → TableSpace → Bool × TableSpace :=
  prepareTable 30 21 prepareLevel1Table

def prepareLevel3Table : Nat → Nat → Nat → Nat → TableSpace → Bool × TableSpace :=
  prepareTable 39 30 prepareLevel2Table

def prepareLevel4Table : Nat → Nat → Nat → Nat → TableSpace → Bool × TableSpace :=
  prepareTable 48 39 prepareLevel3Table

def mapMemoryRangeInLevel4Table (bufferEnd pml4Table startAddress endAddress : Nat)
    (s : TableSpace) : Bool × TableSpace :=
  mapSubtables 39 (prepareLevel3Table bufferEnd pml4Table) startAddress endAddress s

def mapMemoryRangeInLevel5Table (bufferEnd pml5Table startAddress endAddress : Nat)
    (s : TableSpace) : Bool × TableSpace :=
  mapSubtables 48 (prepareLevel4Table bufferEnd pml5Table) startAddress endAddress s

end Tables

section Setup

/-- One range after another; a range that does not fit ends the setup. -/
def mapRanges (mapMemoryRange : Nat → Nat → TableSpace → Bool × TableSpace) :
    List (Nat × Nat) → TableSpace → Bool × TableSpace
  | [], s => (true, s)
  | (startAddress, endAddress) :: ranges, s =>
      match mapMemoryRange startAddress endAddress s with
      | (false, s) => (false, s)
      | (true, s) => mapRanges mapMemoryRange ranges s

/-- The ranges of the included descriptors in the map's order. -/
def includedRanges (shouldInclude : EfiMemoryType → UInt64 → Bool)
    (map : List EfiMemoryDescriptor) : List (Nat × Nat) :=
  (map.filter fun d => shouldInclude d.type d.attributes).map fun d =>
    (d.physicalStart.toNat, (mapMax d).toNat)

/-- What the three setup functions have in common: the pointer that they return, where zero
is `NULL`, and the memory that they leave, with the address of the next free table. -/
def setupPageMap
    (mapMemoryRange : Nat → Nat → Nat → Nat → TableSpace → Bool × TableSpace)
    (ranges : List (Nat × Nat)) (pageMapBuffer pageMapBufferSize : Nat) (memory : Nat → Nat) :
    Nat × TableSpace :=
  if pageMapBuffer % initialPageSize ≠ 0 then (0, ⟨memory, pageMapBuffer⟩)
  else if pageMapBufferSize < singlePageMapTableSize then (0, ⟨memory, pageMapBuffer⟩)
  else
    let rootTable := pageMapBuffer
    let bufferEnd := pageMapBuffer + 8 * (pageMapBufferSize / 8)
    match mapRanges (mapMemoryRange bufferEnd rootTable) ranges
        ⟨zeroTable rootTable memory, pageMapBuffer + 8 * 512⟩ with
    | (false, s) => (0, s)
    | (true, s) => (rootTable, s)

def framebufferRange (framebufferBase framebufferSize : UInt64) : Nat × Nat :=
  (framebufferBase.toNat, (framebufferBase + framebufferSize).toNat)

def setupInitialPageMap4 (map : List EfiMemoryDescriptor)
    (framebufferBase framebufferSize : UInt64) : Nat → Nat → (Nat → Nat) → Nat × TableSpace :=
  setupPageMap mapMemoryRangeInLevel4Table
    (includedRanges shouldIncludeInPageMap map ++
      [framebufferRange framebufferBase framebufferSize])

def setupTransitionalPageMap4 (map : List EfiMemoryDescriptor) :
    Nat → Nat → (Nat → Nat) → Nat × TableSpace :=
  setupPageMap mapMemoryRangeInLevel4Table
    (includedRanges shouldIncludeInTransitionalPageMap map)

def setupInitialPageMap5 (map : List EfiMemoryDescriptor)
    (framebufferBase framebufferSize : UInt64) : Nat → Nat → (Nat → Nat) → Nat × TableSpace :=
  setupPageMap mapMemoryRangeInLevel5Table
    (includedRanges shouldIncludeInPageMap map ++
      [framebufferRange framebufferBase framebufferSize])

end Setup

end Boot
end DexprOS
