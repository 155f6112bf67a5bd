import DexprOS.Library.BitMask
import Mathlib.Tactic.Common

/-!
# Kernel memory definitions

Physical memory types, memory flags and alignment, from `MemoryDef.h` and
`Paging.h`.
-/

namespace DexprOS
namespace Kernel

section MemoryDef

def physicalPageSize : UInt64 := 4096

def fundamentalAlignment : UInt64 := 16

/-- `DEXPROS_ALIGN(x, a)` for a power of two `a`. -/
def align (x a : UInt64) : UInt64 :=
  (x + a - 1) &&& ~~~ (a - 1)

/-- `DexprOS_PhysicalMemoryType`; `max` is the enumerator that counts the others
and marks an unset type. -/
inductive PhysicalMemoryType where
  | unusable
  | firmwareReserved
  | unaccepted
  | usable
  | usablePersistent
  | acpiReclaim
  | acpiNVS
  | efiBootServicesCode
  | efiBootServicesData
  | efiRuntimeServicesCode
  | efiRuntimeServicesData
  | max
deriving DecidableEq, Repr

def physicalMemoryUCBit : UInt64 := 0x1
def physicalMemoryWriteCombineBit : UInt64 := 0x2
def physicalMemoryWriteThroughBit : UInt64 := 0x4
def physicalMemoryWriteBackBit : UInt64 := 0x8
def physicalMemoryUCEBit : UInt64 := 0x10
def physicalMemoryWriteProtectedBit : UInt64 := 0x20
def physicalMemoryReadProtectedBit : UInt64 := 0x40
def physicalMemoryExecuteProtectedBit : UInt64 := 0x80
def physicalMemoryNonVolatileBit : UInt64 := 0x100
def physicalMemoryMoreReliableBit : UInt64 := 0x200
def physicalMemoryReadOnlyBit : UInt64 := 0x400
def physicalMemorySpecificPurposeBit : UInt64 := 0x800
def physicalMemoryCpuCryptoBit : UInt64 := 0x1000
def physicalMemoryEfiRuntimeBit : UInt64 := 0x2000
def physicalMemoryIsaValidBit : UInt64 := 0x4000

/-- Aligning to a power of two rounds up, unless the sum wraps. -/
theorem align_toNat
    {x a : UInt64} {k : Nat}
    (hk : k ≤ 64) (ha : a.toNat = 2 ^ k)
    (hfit : x.toNat + (2 ^ k - 1) < 2 ^ 64) :
    (align x a).toNat = (x.toNat + (2 ^ k - 1)) / 2 ^ k * 2 ^ k := by
  have hpos : 0 < 2 ^ k := Nat.two_pow_pos k
  have hlt : 2 ^ k < 2 ^ 64 := ha ▸ a.toNat_lt
  have hone : (1 : UInt64).toNat = 1 := rfl
  have hmask : (a - 1).toNat = 2 ^ k - 1 := by
    rw [UInt64.toNat_sub, ha, hone]
    omega
  have hsum : (x + a - 1).toNat = x.toNat + (2 ^ k - 1) := by
    rw [UInt64.toNat_sub, UInt64.toNat_add, ha, hone]
    omega
  have hnot : (~~~ (a - 1)).toNat = 2 ^ 64 - 2 ^ k := by
    rw [UInt64.toNat_not, hmask]
    show 2 ^ 64 - 1 - (2 ^ k - 1) = 2 ^ 64 - 2 ^ k
    omega
  rw [align, UInt64.toNat_and, hsum, hnot]
  exact BitMask.and_high_mask hfit hk

end MemoryDef

end Kernel
end DexprOS
