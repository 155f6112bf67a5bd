import DexprOS.Kernel.X8664.GdtCreator
import Mathlib.Tactic.IntervalCases

/-!
# The interrupt descriptor table

Encoding of the gates and the setup of all 256 vectors.  The addresses of the interrupt
service routines are those of the linked kernel, any function of the routine.

Main facts:
* `decodesTo_encodeIDTEntry`, `get_encodeIDTEntry_of_ne`: a gate is read back, and no other
  one is touched;
* `decodesTo_setupIDT`, `present_setupIDT_iff`: the table after the setup.
-/

namespace DexprOS
namespace Idt

open BitFields

section Routines

/-- The routines of `Interrupts.S`, `DexprOS_ISR_*`. -/
inductive ISR where
  | divisionError
  | debug
  | nmi
  | breakpoint
  | overflow
  | boundRangeExceeded
  | invalidOpcode
  | deviceNotAvaible
  | doubleFault
  | invalidTSS
  | segmentNotPresent
  | stackSegmentFault
  | generalProtectionFault
  | pageFault
  | x87FloatingPointException
  | alignmentCheck
  | machineCheck
  | simdException
  | virtualizationException
  | controlProtectionException
  | hypervisorInjectionException
  | vmmCommunicationException
  | securityException
  | isaPIT
  | isaKeyboard
  | isaStub
  | isaCOM2
  | isaCOM1
  | isaLPT2
  | isaFloppyDisk
  | isaLPT1Spurious
  | isaCMOSClock
  | isaPeripherals0
  | isaPeripherals1
  | isaPeripherals2
  | isaPS2Mouse
  | isaFPU
  | isaPrimaryATAHardDisk
  | isaSecondaryATAHardDisk

/-- The routine that a vector belongs to: that of the exception with this number on the
processor, and from 32 on that of the ISA request line. -/
def routineOf : Nat → Option ISR
  | 0 => some .divisionError
  | 1 => some .debug
  | 2 => some .nmi
  | 3 => some .breakpoint
  | 4 => some .overflow
  | 5 => some .boundRangeExceeded
  | 6 => some .invalidOpcode
  | 7 => some .deviceNotAvaible
  | 8 => some .doubleFault
  | 10 => some .invalidTSS
  | 11 => some .segmentNotPresent
  | 12 => some .stackSegmentFault
  | 13 => some .generalProtectionFault
  | 14 => some .pageFault
  | 16 => some .x87FloatingPointException
  | 17 => some .alignmentCheck
  | 18 => some .machineCheck
  | 19 => some .simdException
  | 20 => some .virtualizationException
  | 21 => some .controlProtectionException
  | 28 => some .hypervisorInjectionException
  | 29 => some .vmmCommunicationException
  | 30 => some .securityException
  | 32 => some .isaPIT
  | 33 => some .isaKeyboard
  | 34 => some .isaStub
  | 35 => some .isaCOM2
  | 36 => some .isaCOM1
  | 37 => some .isaLPT2
  | 38 => some .isaFloppyDisk
  | 39 => some .isaLPT1Spurious
  | 40 => some .isaCMOSClock
  | 41 => some .isaPeripherals0
  | 42 => some .isaPeripherals1
  | 43 => some .isaPeripherals2
  | 44 => some .isaPS2Mouse
  | 45 => some .isaFPU
  | 46 => some .isaPrimaryATAHardDisk
  | 47 => some .isaSecondaryATAHardDisk
  | _ => none

end Routines

section Setup

/-- `DEXPROS_X86_64_NUM_IDT_ENTRIES` -/
def numIdtEntries : Nat := 256

def gateTypeInterruptGateBits : BitVec 8 := 0xE
def gateTypeTrapGateBits : BitVec 8 := 0xF
def interruptPresentBit : BitVec 8 := 0x80

structure InterruptDescriptor where
  offset : BitVec 64
  segmentSelector : BitVec 16
  ist : BitVec 8
  flags : BitVec 8

/-- `DexprOS_EncodeIDTEntry`, on `g_DexprOS_InterruptDescriptorTable` -/
def encodeIDTEntry (entryIndex : BitVec 8) (desc : InterruptDescriptor)
    (table : RecordedArray (BitVec 64)) : RecordedArray (BitVec 64) :=
  let i := entryIndex.toNat * 2
  let table := (table.put i 0).put (i + 1) 0
  let offset := desc.offset
  let segment := desc.segmentSelector.setWidth 64
  let ist := desc.ist.setWidth 64
  let flags := desc.flags.setWidth 64
  let table := table.orAt i (offset &&& 0xFFFF#64)
  let table := table.orAt i (segment <<< 16)
  let table := table.orAt i ((ist &&& 0x7#64) <<< 32)
  let table := table.orAt i (flags <<< 40)
  let table := table.orAt i (((offset >>> 16) &&& 0xFFFF#64) <<< 48)
  table.orAt (i + 1) (offset >>> 32)

/-- `g_DexprOS_ExceptionISRAdresses` -/
def exceptionISRAdresses (address : ISR → BitVec 64) : List (BitVec 64) :=
  [address .divisionError, address .debug, address .nmi, address .breakpoint,
    address .overflow, address .boundRangeExceeded, address .invalidOpcode,
    address .deviceNotAvaible, address .doubleFault, 0, address .invalidTSS,
    address .segmentNotPresent, address .stackSegmentFault, address .generalProtectionFault,
    address .pageFault, 0, address .x87FloatingPointException, address .alignmentCheck,
    address .machineCheck, address .simdException, address .virtualizationException,
    address .controlProtectionException, 0, 0, 0, 0, 0, 0,
    address .hypervisorInjectionException, address .vmmCommunicationException,
    address .securityException, 0]

/-- A present trap gate. -/
def trapGate : BitVec 8 := gateTypeTrapGateBits ||| interruptPresentBit

/-- A present interrupt gate. -/
def interruptGate : BitVec 8 := gateTypeInterruptGateBits ||| interruptPresentBit

/-- `g_DexprOS_IDTExceptionEntryFlags` -/
def idtExceptionEntryFlags : List (BitVec 8) :=
  [trapGate, trapGate, interruptGate, trapGate, trapGate, trapGate, trapGate, trapGate,
    trapGate, 0, trapGate, trapGate, trapGate, trapGate, trapGate, 0, trapGate, trapGate,
    trapGate, trapGate, trapGate, trapGate, 0, 0, 0, 0, 0, 0, trapGate, trapGate, trapGate, 0]

/-- `g_DexprOS_ISA_ISR_Addresses` -/
def isaISRAddresses (address : ISR → BitVec 64) : List (BitVec 64) :=
  [address .isaPIT, address .isaKeyboard, address .isaStub, address .isaCOM2,
    address .isaCOM1, address .isaLPT2, address .isaFloppyDisk, address .isaLPT1Spurious,
    address .isaCMOSClock, address .isaPeripherals0, address .isaPeripherals1,
    address .isaPeripherals2, address .isaPS2Mouse, address .isaFPU,
    address .isaPrimaryATAHardDisk, address .isaSecondaryATAHardDisk]

/-- The descriptor that the loop over the exceptions builds. -/
def exceptionDescriptor (address : ISR → BitVec 64) (kernelCodeSegment : BitVec 16) (i : Nat) :
    InterruptDescriptor :=
  let flags := idtExceptionEntryFlags.getD i 0
  { offset := (exceptionISRAdresses address).getD i 0
    segmentSelector :=
      if flags &&& interruptPresentBit = interruptPresentBit then kernelCodeSegment else 0
    ist := 0
    flags := flags }

/-- The descriptor that the loop over the ISA interrupts builds. -/
def isaDescriptor (address : ISR → BitVec 64) (kernelCodeSegment : BitVec 16) (i : Nat) :
    InterruptDescriptor where
  offset := (isaISRAddresses address).getD i 0
  segmentSelector := kernelCodeSegment
  ist := 0
  flags := gateTypeInterruptGateBits ||| interruptPresentBit

/-- The descriptor of an unused interrupt. -/
def unusedDescriptor : InterruptDescriptor := ⟨0, 0, 0, 0⟩

/-- A loop that encodes the entries from `first` on. -/
def encodeEntries (first count : Nat) (desc : Nat → InterruptDescriptor)
    (table : RecordedArray (BitVec 64)) : RecordedArray (BitVec 64) :=
  (List.range count).foldl
    (fun table i => encodeIDTEntry (BitVec.ofNat 8 (first + i)) (desc i) table) table

/-- What `DexprOS_SetupIDT` leaves, with the arguments of its call of `DexprOS_LoadIDT`. -/
structure LoadedIDT where
  table : RecordedArray (BitVec 64)
  limit : BitVec 16
  offset : BitVec 64

/-- `DexprOS_SetupIDT` -/
def setupIDT (address : ISR → BitVec 64) (tableAddress : BitVec 64)
    (kernelCodeSegment : BitVec 16) (table : RecordedArray (BitVec 64)) : LoadedIDT :=
  let table := encodeEntries 0 32 (exceptionDescriptor address kernelCodeSegment) table
  let table := encodeEntries 32 16 (isaDescriptor address kernelCodeSegment) table
  let table := encodeEntries 48 208 (fun _ => unusedDescriptor) table
  { table := table
    limit := BitVec.ofNat 16 (8 * (numIdtEntries * 2) - 1)
    offset := tableAddress }

end Setup

section Decoding

/-- The two quadwords of a vector in the table. -/
def gate (table : RecordedArray (BitVec 64)) (vector : BitVec 8) : BitVec 64 × BitVec 64 :=
  (table.get (vector.toNat * 2), table.get (vector.toNat * 2 + 1))

/-- The handler of a gate, bits 0 to 15 and 48 to 63, and 0 to 31 of the second quadword. -/
def gateOffset (g : BitVec 64 × BitVec 64) : BitVec 64 :=
  g.2.extractLsb' 0 32 ++ (g.1.extractLsb' 48 16 ++ g.1.extractLsb' 0 16)

/-- The selector of a gate, bits 16 to 31. -/
def gateSelector (g : BitVec 64 × BitVec 64) : BitVec 16 :=
  g.1.extractLsb' 16 16

/-- The stack of a gate, bits 32 to 34. -/
def gateIst (g : BitVec 64 × BitVec 64) : BitVec 3 :=
  g.1.extractLsb' 32 3

/-- The attributes of a gate, bits 40 to 47. -/
def gateAttributes (g : BitVec 64 × BitVec 64) : BitVec 8 :=
  g.1.extractLsb' 40 8

/-- The present flag, the highest of the attributes. -/
def Present (g : BitVec 64 × BitVec 64) : Prop :=
  gateAttributes g &&& interruptPresentBit = interruptPresentBit

/-- The gate is that of the descriptor. -/
def DecodesTo (g : BitVec 64 × BitVec 64) (desc : InterruptDescriptor) : Prop :=
  gateOffset g = desc.offset ∧ gateSelector g = desc.segmentSelector ∧
    gateIst g = desc.ist.setWidth 3 ∧ gateAttributes g = desc.flags

/-- The fields of the first quadword in the order of its encoding. -/
def gatePieces (desc : InterruptDescriptor) : List Piece :=
  [⟨0, 16, desc.offset.extractLsb' 0 16⟩,
    ⟨16, 16, desc.segmentSelector⟩,
    ⟨32, 3, desc.ist.extractLsb' 0 3⟩,
    ⟨40, 8, desc.flags⟩,
    ⟨48, 16, desc.offset.extractLsb' 16 16⟩]

variable (entryIndex : BitVec 8) (desc : InterruptDescriptor) (table : RecordedArray (BitVec 64))

theorem gatePieces_separate :
    Separate (gatePieces desc) := by
  simp [Separate, gatePieces, Piece.Avoids]

theorem assemble_gatePieces :
    assemble 64 (gatePieces desc) =
      0#64 ||| (desc.offset &&& 0xFFFF#64)
        ||| (desc.segmentSelector.setWidth 64 <<< 16)
        ||| ((desc.ist.setWidth 64 &&& 0x7#64) <<< 32)
        ||| (desc.flags.setWidth 64 <<< 40)
        ||| (((desc.offset >>> 16) &&& 0xFFFF#64) <<< 48) := by
  have hlow := mask_eq_place desc.offset 16 0xFFFF#64 rfl (by simp)
  have hhigh := shifted_mask_eq_place desc.offset 16 16 48 0xFFFF#64 rfl (by simp)
  rw [BitVec.setWidth_eq] at hlow hhigh
  rw [hlow, hhigh, mask_shift_eq_place desc.ist 3 32 0x7#64 rfl (by simp)]
  rfl

/-- An encoded entry has the pieces of its descriptor in the first quadword. -/
theorem get_encodeIDTEntry_first :
    (encodeIDTEntry entryIndex desc table).get (entryIndex.toNat * 2) =
      assemble 64 (gatePieces desc) := by
  have hne : entryIndex.toNat * 2 ≠ entryIndex.toNat * 2 + 1 := by omega
  simp only [encodeIDTEntry, RecordedArray.get_orAt_of_ne hne, RecordedArray.get_orAt_self,
    RecordedArray.get_put_of_ne hne, RecordedArray.get_put_self]
  rw [assemble_gatePieces]
  rfl

theorem get_encodeIDTEntry_second :
    (encodeIDTEntry entryIndex desc table).get (entryIndex.toNat * 2 + 1) =
      desc.offset >>> 32 := by
  have hne : entryIndex.toNat * 2 + 1 ≠ entryIndex.toNat * 2 := by omega
  simp only [encodeIDTEntry, RecordedArray.get_orAt_self, RecordedArray.get_orAt_of_ne hne,
    RecordedArray.get_put_self]
  simp

/-- The encoding changes the two quadwords of its own vector and no other. -/
theorem get_encodeIDTEntry_of_ne
    {k : Nat}
    (hfirst : k ≠ entryIndex.toNat * 2) (hsecond : k ≠ entryIndex.toNat * 2 + 1) :
    (encodeIDTEntry entryIndex desc table).get k = table.get k := by
  simp only [encodeIDTEntry, RecordedArray.get_orAt_of_ne hfirst,
    RecordedArray.get_orAt_of_ne hsecond, RecordedArray.get_put_of_ne hfirst,
    RecordedArray.get_put_of_ne hsecond]

/-- An interrupt descriptor is read back from its gate. -/
theorem decodesTo_encodeIDTEntry :
    DecodesTo (gate (encodeIDTEntry entryIndex desc table) entryIndex) desc := by
  have hsep := gatePieces_separate desc
  have hfirst := get_encodeIDTEntry_first entryIndex desc table
  have hsecond := get_encodeIDTEntry_second entryIndex desc table
  have hread : ∀ {p : Piece}, p ∈ gatePieces desc → p.lo + p.len ≤ 64 →
      (gate (encodeIDTEntry entryIndex desc table) entryIndex).1.extractLsb' p.lo p.len =
        p.value := by
    intro p hp hfit
    rw [gate, hfirst]
    exact extract_assemble hsep hp hfit
  refine ⟨?_, ?_, ?_, ?_⟩
  · have hlow := hread (p := ⟨0, 16, desc.offset.extractLsb' 0 16⟩) (by simp [gatePieces])
      (by simp)
    have hmiddle := hread (p := ⟨48, 16, desc.offset.extractLsb' 16 16⟩) (by simp [gatePieces])
      (by simp)
    have hhigh : (gate (encodeIDTEntry entryIndex desc table) entryIndex).2.extractLsb' 0 32 =
        desc.offset.extractLsb' 32 32 := by
      rw [gate, hsecond]
      exact extract_ushiftRight desc.offset 32 0 32
    simp only at hlow hmiddle
    have hword : desc.offset.extractLsb' 16 16 ++ desc.offset.extractLsb' 0 16 =
        desc.offset.extractLsb' 0 (16 + 16) :=
      BitVec.extractLsb'_append_extractLsb'_eq_extractLsb' rfl
    rw [gateOffset, hlow, hmiddle, hhigh, hword]
    exact (BitVec.extractLsb'_append_extractLsb'_eq_extractLsb' rfl).trans
      BitVec.extractLsb'_eq_self
  · exact hread (p := ⟨16, 16, desc.segmentSelector⟩) (by simp [gatePieces]) (by simp)
  · rw [BitVec.setWidth_eq_extractLsb' (by simp)]
    exact hread (p := ⟨32, 3, desc.ist.extractLsb' 0 3⟩) (by simp [gatePieces]) (by simp)
  · exact hread (p := ⟨40, 8, desc.flags⟩) (by simp [gatePieces]) (by simp)

end Decoding

section Vectors

variable (desc : Nat → InterruptDescriptor) (table : RecordedArray (BitVec 64))

/-- Another vector keeps its gate. -/
theorem gate_encodeIDTEntry_of_ne
    {entryIndex vector : BitVec 8} (desc : InterruptDescriptor)
    (h : vector.toNat ≠ entryIndex.toNat) :
    gate (encodeIDTEntry entryIndex desc table) vector = gate table vector := by
  rw [gate, gate, get_encodeIDTEntry_of_ne _ _ _ (by omega) (by omega),
    get_encodeIDTEntry_of_ne _ _ _ (by omega) (by omega)]

/-- A loop over entries gives each of its vectors the descriptor of its pass. -/
theorem decodesTo_encodeEntries
    {first count i : Nat}
    (hi : i < count) (hfit : first + count ≤ 256) :
    DecodesTo (gate (encodeEntries first count desc table) (BitVec.ofNat 8 (first + i)))
      (desc i) := by
  induction count with
  | zero => omega
  | succ count ih =>
      rw [encodeEntries, List.range_succ, List.foldl_append, List.foldl_cons, List.foldl_nil]
      by_cases hlast : i = count
      · rw [hlast]
        exact decodesTo_encodeIDTEntry _ _ _
      · rw [gate_encodeIDTEntry_of_ne]
        · exact ih (by omega) (by omega)
        · simp only [BitVec.toNat_ofNat]
          omega

/-- The vectors outside of the loop keep theirs. -/
theorem gate_encodeEntries_of_outside
    {first count : Nat} {vector : BitVec 8}
    (hfit : first + count ≤ 256)
    (hout : vector.toNat < first ∨ first + count ≤ vector.toNat) :
    gate (encodeEntries first count desc table) vector = gate table vector := by
  induction count with
  | zero => rfl
  | succ count ih =>
      rw [encodeEntries, List.range_succ, List.foldl_append, List.foldl_cons, List.foldl_nil,
        gate_encodeIDTEntry_of_ne]
      · exact ih (by omega) (by omega)
      · simp only [BitVec.toNat_ofNat]
        omega

end Vectors

section AfterSetup

variable (address : ISR → BitVec 64) (tableAddress : BitVec 64) (kernelCodeSegment : BitVec 16)
variable (table : RecordedArray (BitVec 64))

/-- The type of the gate of a vector in use: the non-maskable interrupt and the ISA ones have
interrupt gates, the other exceptions trap gates. -/
def gateOf (vector : Nat) : BitVec 8 :=
  if vector = 2 ∨ 32 ≤ vector then interruptGate else trapGate

/-- The descriptor that a vector should have. -/
def descriptorOf (vector : Nat) : InterruptDescriptor :=
  match routineOf vector with
  | some routine => ⟨address routine, kernelCodeSegment, 0, gateOf vector⟩
  | none => unusedDescriptor

/-- The descriptor of a routine's vector. -/
theorem descriptorOf_eq
    {vector : Nat} {routine : ISR}
    (h : routineOf vector = some routine) :
    descriptorOf address kernelCodeSegment vector =
      ⟨address routine, kernelCodeSegment, 0, gateOf vector⟩ := by
  rw [descriptorOf, h]

theorem descriptorOf_eq_unused
    {vector : Nat}
    (h : routineOf vector = none) :
    descriptorOf address kernelCodeSegment vector = unusedDescriptor := by
  rw [descriptorOf, h]

theorem exceptionDescriptor_eq
    {i : Nat}
    (hi : i < 32) :
    exceptionDescriptor address kernelCodeSegment i =
      descriptorOf address kernelCodeSegment i := by
  interval_cases i <;> rfl

theorem isaDescriptor_eq
    {i : Nat}
    (hi : i < 16) :
    isaDescriptor address kernelCodeSegment i =
      descriptorOf address kernelCodeSegment (32 + i) := by
  interval_cases i <;> rfl

theorem routineOf_eq_none
    {vector : Nat}
    (h : 48 ≤ vector) :
    routineOf vector = none := by
  unfold routineOf
  split <;> first | rfl | omega

theorem setupIDT_table :
    (setupIDT address tableAddress kernelCodeSegment table).table =
      encodeEntries 48 208 (fun _ => unusedDescriptor)
        (encodeEntries 32 16 (isaDescriptor address kernelCodeSegment)
          (encodeEntries 0 32 (exceptionDescriptor address kernelCodeSegment) table)) := by
  simp only [setupIDT]

/-- After the setup every vector has its descriptor. -/
theorem decodesTo_setupIDT
    (vector : BitVec 8) :
    DecodesTo (gate (setupIDT address tableAddress kernelCodeSegment table).table vector)
      (descriptorOf address kernelCodeSegment vector.toNat) := by
  have hlt := vector.isLt
  -- the pass of a loop from `first` on that encodes this vector
  have hpass : ∀ (first count : Nat) (desc : Nat → InterruptDescriptor)
      (table : RecordedArray (BitVec 64)), first ≤ vector.toNat →
      vector.toNat < first + count → first + count ≤ 256 →
      DecodesTo (gate (encodeEntries first count desc table) vector)
        (desc (vector.toNat - first)) := by
    intro first count desc table hfirst hcount hfit
    have h := decodesTo_encodeEntries desc table (i := vector.toNat - first) (by omega) hfit
    rwa [Nat.add_sub_cancel' hfirst, BitVec.ofNat_toNat, BitVec.setWidth_eq] at h
  rw [setupIDT_table]
  rcases Nat.lt_or_ge vector.toNat 48 with hused | hunused
  · rw [gate_encodeEntries_of_outside _ _ (by omega) (by omega)]
    rcases Nat.lt_or_ge vector.toNat 32 with hexception | hisa
    · rw [gate_encodeEntries_of_outside _ _ (by omega) (by omega),
        ← exceptionDescriptor_eq address kernelCodeSegment hexception]
      exact hpass 0 32 _ table (by omega) (by omega) (by omega)
    · have hdesc := isaDescriptor_eq address kernelCodeSegment (i := vector.toNat - 32)
        (by omega)
      rw [Nat.add_sub_cancel' hisa] at hdesc
      rw [← hdesc]
      exact hpass 32 16 _ _ hisa (by omega) (by omega)
  · rw [descriptorOf_eq_unused address kernelCodeSegment (routineOf_eq_none hunused)]
    exact hpass 48 208 (fun _ => unusedDescriptor) _ hunused (by omega) (by omega)

/-- A gate in use is present. -/
theorem gateOf_present
    (vector : Nat) :
    gateOf vector &&& interruptPresentBit = interruptPresentBit := by
  rw [gateOf]
  split <;> rfl

/-- A vector is present exactly when it has a routine. -/
theorem present_setupIDT_iff
    (vector : BitVec 8) :
    Present (gate (setupIDT address tableAddress kernelCodeSegment table).table vector) ↔
      ∃ routine, routineOf vector.toNat = some routine := by
  have hdecodes := decodesTo_setupIDT address tableAddress kernelCodeSegment table vector
  rw [Present, hdecodes.2.2.2]
  cases hroutine : routineOf vector.toNat with
  | none =>
      rw [descriptorOf_eq_unused address kernelCodeSegment hroutine]
      constructor
      · intro h
        exact absurd h (by simp [unusedDescriptor, interruptPresentBit])
      · rintro ⟨routine, h⟩
        exact absurd h (Option.some_ne_none routine).symm
  | some routine =>
      rw [descriptorOf_eq address kernelCodeSegment hroutine]
      exact ⟨fun _ => ⟨routine, rfl⟩, fun _ => gateOf_present vector.toNat⟩

/-- Descriptors of segments and gates are read back as they were encoded, an entry changes its
own vector only, and after the setup the present vectors are those that have a routine, each
with its own one and the kernel's code segment; the vectors from 48 on are not present. -/
theorem descriptors_decode :
    (∀ desc : Gdt.GDTMemorySegmentDescriptor,
      Gdt.descriptorBase (Gdt.encodeGDTMemorySegment desc) = desc.base ∧
        Gdt.descriptorLimit (Gdt.encodeGDTMemorySegment desc) = desc.limit.setWidth 20 ∧
        Gdt.descriptorAccessByte (Gdt.encodeGDTMemorySegment desc) = desc.accessByte ∧
        Gdt.descriptorFlags (Gdt.encodeGDTMemorySegment desc) = desc.flags.setWidth 4) ∧
    (∀ (desc : Gdt.GDTLongSystemSegmentDescriptor) (entries : RecordedArray (BitVec 64))
        (first : Nat),
      let encoded := Gdt.encodeGDTSystemSegment desc entries first
      Gdt.systemDescriptorBase (encoded.get first) (encoded.get (first + 1)) = desc.base ∧
        Gdt.descriptorLimit (encoded.get first) = desc.limit.setWidth 20 ∧
        Gdt.descriptorAccessByte (encoded.get first) = desc.accessByte ∧
        Gdt.descriptorFlags (encoded.get first) = desc.flags.setWidth 4) ∧
    (∀ (entryIndex : BitVec 8) (desc : InterruptDescriptor)
        (table : RecordedArray (BitVec 64)),
      DecodesTo (gate (encodeIDTEntry entryIndex desc table) entryIndex) desc) ∧
    (∀ (entryIndex : BitVec 8) (desc : InterruptDescriptor)
        (table : RecordedArray (BitVec 64)) (k : Nat),
      k ≠ entryIndex.toNat * 2 → k ≠ entryIndex.toNat * 2 + 1 →
        (encodeIDTEntry entryIndex desc table).get k = table.get k) ∧
    (∀ (address : ISR → BitVec 64) (tableAddress : BitVec 64) (kernelCodeSegment : BitVec 16)
        (table : RecordedArray (BitVec 64)) (vector : BitVec 8),
      let g := gate (setupIDT address tableAddress kernelCodeSegment table).table vector
      (Present g ↔ ∃ routine, routineOf vector.toNat = some routine ∧
        gateOffset g = address routine ∧ gateSelector g = kernelCodeSegment ∧
        gateIst g = 0) ∧
      (48 ≤ vector.toNat → ¬Present g)) := by
  refine ⟨Gdt.decode_encodeGDTMemorySegment, Gdt.decode_encodeGDTSystemSegment,
    decodesTo_encodeIDTEntry, ?_, ?_⟩
  · intro entryIndex desc table k hfirst hsecond
    exact get_encodeIDTEntry_of_ne entryIndex desc table hfirst hsecond
  · intro address tableAddress kernelCodeSegment table vector g
    have hpresent := present_setupIDT_iff address tableAddress kernelCodeSegment table vector
    refine ⟨⟨?_, ?_⟩, ?_⟩
    · intro hg
      obtain ⟨routine, hroutine⟩ := hpresent.mp hg
      have hdecodes := decodesTo_setupIDT address tableAddress kernelCodeSegment table vector
      rw [descriptorOf_eq address kernelCodeSegment hroutine] at hdecodes
      obtain ⟨hoffset, hselector, hist, -⟩ := hdecodes
      exact ⟨routine, hroutine, hoffset, hselector, hist⟩
    · rintro ⟨routine, hroutine, -⟩
      exact hpresent.mpr ⟨routine, hroutine⟩
    · intro hunused hg
      obtain ⟨routine, hroutine⟩ := hpresent.mp hg
      rw [routineOf_eq_none hunused] at hroutine
      exact absurd hroutine (Option.some_ne_none routine).symm

end AfterSetup

end Idt
end DexprOS
