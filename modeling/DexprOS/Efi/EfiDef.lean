import Mathlib.Data.List.Pairwise
import Mathlib.Tactic.Common

/-!
# UEFI memory map types

The part of the gnu-efi headers that the boot code reads: memory types, memory
attributes and memory descriptors.

A firmware memory map is the list of its descriptors in firmware order; the
stride `memoryDescriptorSize`, which only locates the descriptors, is left out.
-/

namespace DexprOS
namespace Efi

section EfiDef

/-- `EFI_MEMORY_TYPE`.  The descriptor field is a 32-bit number: `other` is every
number without an enumerator. -/
inductive EfiMemoryType where
  | reservedMemoryType
  | loaderCode
  | loaderData
  | bootServicesCode
  | bootServicesData
  | runtimeServicesCode
  | runtimeServicesData
  | conventionalMemory
  | unusableMemory
  | acpiReclaimMemory
  | acpiMemoryNVS
  | memoryMappedIO
  | memoryMappedIOPortSpace
  | palCode
  | persistentMemory
  | unacceptedMemoryType
  | other
deriving DecidableEq, Repr

def efiMemoryUC : UInt64 := 0x0000000000000001
def efiMemoryWC : UInt64 := 0x0000000000000002
def efiMemoryWT : UInt64 := 0x0000000000000004
def efiMemoryWB : UInt64 := 0x0000000000000008
def efiMemoryUCE : UInt64 := 0x0000000000000010
def efiMemoryWP : UInt64 := 0x0000000000001000
def efiMemoryRP : UInt64 := 0x0000000000002000
def efiMemoryXP : UInt64 := 0x0000000000004000
def efiMemoryRO : UInt64 := 0x0000000000020000
def efiMemoryNV : UInt64 := 0x0000000000008000
def efiMemoryRuntime : UInt64 := 0x8000000000000000
def efiMemoryMoreReliable : UInt64 := 0x0000000000010000
def efiMemorySP : UInt64 := 0x0000000000040000
def efiMemoryCpuCrypto : UInt64 := 0x0000000000080000
def efiMemoryIsaValid : UInt64 := 0x4000000000000000
def efiMemoryIsaMask : UInt64 := 0x0FFFF00000000000

def efiPageSize : UInt64 := 4096

/-- `EFI_MEMORY_DESCRIPTOR`, without the virtual address that nothing reads. -/
structure EfiMemoryDescriptor where
  type : EfiMemoryType
  physicalStart : UInt64
  numberOfPages : UInt64
  attributes : UInt64
deriving DecidableEq, Repr

namespace EfiMemoryDescriptor

/-- First address of the range, as a number. -/
def start (d : EfiMemoryDescriptor) : Nat :=
  d.physicalStart.toNat

/-- One past the last address of the range, as an exact number. -/
def stop (d : EfiMemoryDescriptor) : Nat :=
  d.physicalStart.toNat + d.numberOfPages.toNat * 4096

/-- The range contains the physical page with number `p`. -/
def HasPage (d : EfiMemoryDescriptor) (p : Nat) : Prop :=
  d.start ≤ p * 4096 ∧ p * 4096 < d.stop

end EfiMemoryDescriptor

/-- What the firmware promises of the memory map: page aligned, nonempty and
pairwise disjoint descriptors, here all ending at or below `limit`. -/
structure WellFormedMap (limit : Nat) (map : List EfiMemoryDescriptor) : Prop where
  aligned : ∀ d, d ∈ map → d.start % 4096 = 0
  nonempty : ∀ d, d ∈ map → 1 ≤ d.numberOfPages.toNat
  disjoint : map.Pairwise (fun a b => a.stop ≤ b.start ∨ b.stop ≤ a.start)
  below : ∀ d, d ∈ map → d.stop ≤ limit

theorem WellFormedMap.start_lt_stop
    {limit : Nat} {map : List EfiMemoryDescriptor} (hmap : WellFormedMap limit map)
    {d : EfiMemoryDescriptor} (hd : d ∈ map) :
    d.start < d.stop := by
  have := hmap.nonempty d hd
  rw [EfiMemoryDescriptor.start, EfiMemoryDescriptor.stop]
  omega

/-- A page lies in one descriptor only. -/
theorem WellFormedMap.eq_of_hasPage
    {limit : Nat} {map : List EfiMemoryDescriptor} (hmap : WellFormedMap limit map)
    {d d' : EfiMemoryDescriptor} {p : Nat}
    (hd : d ∈ map) (hd' : d' ∈ map) (hp : d.HasPage p) (hp' : d'.HasPage p) :
    d = d' := by
  have hsymm : Std.Symm (fun a b : EfiMemoryDescriptor =>
      a.stop ≤ b.start ∨ b.stop ≤ a.start) := ⟨fun _ _ h => h.symm⟩
  by_contra hne
  have hapart := List.Pairwise.forall hmap.disjoint hd hd' hne
  obtain ⟨hlo, hhi⟩ := hp
  obtain ⟨hlo', hhi'⟩ := hp'
  omega

/-- The order of the descriptors does not matter. -/
theorem WellFormedMap.perm
    {limit : Nat} {map map' : List EfiMemoryDescriptor}
    (hmap : WellFormedMap limit map) (hperm : map'.Perm map) :
    WellFormedMap limit map' where
  aligned := fun d hd => hmap.aligned d (hperm.mem_iff.mp hd)
  nonempty := fun d hd => hmap.nonempty d (hperm.mem_iff.mp hd)
  disjoint := (hperm.pairwise_iff Or.symm).mpr hmap.disjoint
  below := fun d hd => hmap.below d (hperm.mem_iff.mp hd)

end EfiDef

end Efi
end DexprOS
