import DexprOS.Kernel.X8664.TaskStateSegment
import DexprOS.Library.BitFields

/-!
# The global descriptor table

Creation and encoding of the table, and how the processor reads the encoded descriptors.

Main facts:
* `assemble_segmentPieces`: both encoders assemble the same pieces;
* `decode_encodeGDTMemorySegment`, `decode_encodeGDTSystemSegment`: descriptors are read
  back;
* `encodeCreatedGDT_staysInStorage_iff`: when the encoding stays in its arrays.
-/

namespace DexprOS
namespace Gdt

open BitFields Tss

section Creation

/-- `DEXPROS_X86_64_MAX_GDT_ENTRIES` -/
def maxGdtEntries : Nat := 6 + numMaxTSSes * 2

def accessDataWritableBit : BitVec 8 := 0x2
def accessCodeReadableBit : BitVec 8 := 0x2
def accessExecutableBit : BitVec 8 := 0x8
def accessAvaibleTaskStateSegmentBit : BitVec 8 := 0x9
def accessCodeOrDataSegmentBit : BitVec 8 := 0x10
def accessUserspaceBit : BitVec 8 := 0x60
def accessPresentBit : BitVec 8 := 0x80

def flagLongModeBit : BitVec 8 := 0x2
def flag32BitBit : BitVec 8 := 0x4
def flagPageGranulityBit : BitVec 8 := 0x8

structure GDTMemorySegmentDescriptor where
  base : BitVec 32
  limit : BitVec 32
  accessByte : BitVec 8
  flags : BitVec 8

structure GDTLongSystemSegmentDescriptor where
  base : BitVec 64
  limit : BitVec 32
  accessByte : BitVec 8
  flags : BitVec 8

/-- The table before its encoding.  `taskStateSegments` has `numMaxTSSes` elements, behind
which lies other memory. -/
structure GeneralDescriptorTable where
  nullDescriptor0 : GDTMemorySegmentDescriptor
  kernelCodeSegment : GDTMemorySegmentDescriptor
  kernelDataSegment : GDTMemorySegmentDescriptor
  nullDescriptor1 : GDTMemorySegmentDescriptor
  userDataSegment : GDTMemorySegmentDescriptor
  userCodeSegment : GDTMemorySegmentDescriptor
  taskStateSegments : RecordedArray GDTLongSystemSegmentDescriptor
  numTSSes : BitVec 16

/-- The descriptor of a task state segment. -/
def taskStateSegmentDescriptor (address : BitVec 64) (size : BitVec 16) :
    GDTLongSystemSegmentDescriptor where
  base := address
  limit := size.setWidth 32 - 1
  accessByte := accessAvaibleTaskStateSegmentBit ||| accessPresentBit
  flags := 0

/-- `DexprOS_CreateGDT`; `behind` is what lies behind the array of the table. -/
def createGDT (tssAddresses : Nat → BitVec 64) (tssSizes : Nat → BitVec 16)
    (numTSSes : BitVec 16) (behind : Nat → GDTLongSystemSegmentDescriptor) :
    GeneralDescriptorTable where
  nullDescriptor0 := ⟨0, 0, 0, 0⟩
  kernelCodeSegment :=
    { base := 0
      limit := 0xFFFFF
      accessByte := accessCodeReadableBit ||| accessExecutableBit |||
        accessCodeOrDataSegmentBit ||| accessPresentBit
      flags := flagLongModeBit ||| flagPageGranulityBit }
  kernelDataSegment :=
    { base := 0
      limit := 0xFFFFF
      accessByte := accessDataWritableBit ||| accessCodeOrDataSegmentBit ||| accessPresentBit
      flags := flag32BitBit ||| flagPageGranulityBit }
  nullDescriptor1 := ⟨0, 0, 0, 0⟩
  userDataSegment :=
    { base := 0
      limit := 0xFFFFF
      accessByte := accessDataWritableBit ||| accessCodeOrDataSegmentBit |||
        accessUserspaceBit ||| accessPresentBit
      flags := flag32BitBit ||| flagPageGranulityBit }
  userCodeSegment :=
    { base := 0
      limit := 0xFFFFF
      accessByte := accessCodeReadableBit ||| accessExecutableBit |||
        accessCodeOrDataSegmentBit ||| accessUserspaceBit ||| accessPresentBit
      flags := flagLongModeBit ||| flagPageGranulityBit }
  taskStateSegments :=
    -- the loop's two conditions, `i < numTSSes` and `i < DEXPROS_X86_64_NUM_MAX_TSSes`
    (List.range (min numTSSes.toNat numMaxTSSes)).foldl
      (fun segments i =>
        segments.put i (taskStateSegmentDescriptor (tssAddresses i) (tssSizes i)))
      (.fresh fun i => if i < numMaxTSSes then ⟨0, 0, 0, 0⟩ else behind i)
  numTSSes := numTSSes

end Creation

section Encoding

/-- `DexprOS_EncodeGDTMemorySegment` -/
def encodeGDTMemorySegment (desc : GDTMemorySegmentDescriptor) : BitVec 64 :=
  let base := desc.base.setWidth 64
  let limit := desc.limit.setWidth 64
  let accessByte := desc.accessByte.setWidth 64
  let flags := desc.flags.setWidth 64
  0#64 ||| (limit &&& 0xFFFF#64)
    ||| ((base &&& 0xFFFF#64) <<< 16)
    ||| (((base >>> 16) &&& 0xFF#64) <<< 32)
    ||| (accessByte <<< 40)
    ||| (((limit >>> 16) &&& 0xF#64) <<< 48)
    ||| ((flags &&& 0xF#64) <<< 52)
    ||| (((base >>> 24) &&& 0xFF#64) <<< 56)

/-- `DexprOS_EncodeGDTSystemSegment`; `first` is the index in `entries` of the element that
`pOutEntries2` points to. -/
def encodeGDTSystemSegment (desc : GDTLongSystemSegmentDescriptor)
    (entries : RecordedArray (BitVec 64)) (first : Nat) : RecordedArray (BitVec 64) :=
  let entries := (entries.put first 0).put (first + 1) 0
  let base := desc.base
  let limit := desc.limit.setWidth 64
  let accessByte := desc.accessByte.setWidth 64
  let flags := desc.flags.setWidth 64
  let entries := entries.orAt first (limit &&& 0xFFFF#64)
  let entries := entries.orAt first ((base &&& 0xFFFF#64) <<< 16)
  let entries := entries.orAt first (((base >>> 16) &&& 0xFF#64) <<< 32)
  let entries := entries.orAt first (accessByte <<< 40)
  let entries := entries.orAt first (((limit >>> 16) &&& 0xF#64) <<< 48)
  let entries := entries.orAt first ((flags &&& 0xF#64) <<< 52)
  let entries := entries.orAt first (((base >>> 24) &&& 0xFF#64) <<< 56)
  entries.orAt (first + 1) ((base >>> 32) &&& 0xFFFFFFFF#64)

/-- What `DexprOS_EncodeGDTTable` leaves: the table that it has read and its outputs. -/
structure EncodedGDT where
  taskStateSegments : RecordedArray GDTLongSystemSegmentDescriptor
  entries : RecordedArray (BitVec 64)
  numUsedEntries : BitVec 64
  kernelCodeSegmentOffset : BitVec 16
  kernelDataSegmentOffset : BitVec 64
  userBaseSegmentOffset : BitVec 16
  taskStateSegmentOffsets : RecordedArray (BitVec 16)

/-- One pass of the loop over the task state segments, which reads one of them and writes
its two entries. -/
def encodeTaskStateSegment
    (s : RecordedArray GDTLongSystemSegmentDescriptor × RecordedArray (BitVec 64)) (i : Nat) :
    RecordedArray GDTLongSystemSegmentDescriptor × RecordedArray (BitVec 64) :=
  (s.1.read i, encodeGDTSystemSegment (s.1.get i) s.2 (6 + i * 2))

/-- `DexprOS_EncodeGDTTable` -/
def encodeGDTTable (table : GeneralDescriptorTable) (entries : RecordedArray (BitVec 64))
    (taskStateSegmentOffsets : RecordedArray (BitVec 16)) : EncodedGDT :=
  let entries := entries.fill maxGdtEntries 0
  let entries := entries.put 0 (encodeGDTMemorySegment table.nullDescriptor0)
  let entries := entries.put 1 (encodeGDTMemorySegment table.kernelCodeSegment)
  let entries := entries.put 2 (encodeGDTMemorySegment table.kernelDataSegment)
  let entries := entries.put 3 (encodeGDTMemorySegment table.nullDescriptor1)
  let entries := entries.put 4 (encodeGDTMemorySegment table.userDataSegment)
  let entries := entries.put 5 (encodeGDTMemorySegment table.userCodeSegment)
  let written := (List.range table.numTSSes.toNat).foldl encodeTaskStateSegment
    (table.taskStateSegments, entries)
  { taskStateSegments := written.1
    entries := written.2
    numUsedEntries := 6 + table.numTSSes.setWidth 64 * 2
    kernelCodeSegmentOffset := 8
    kernelDataSegmentOffset := 8 * 2
    userBaseSegmentOffset := 8 * 3
    taskStateSegmentOffsets := (List.range table.numTSSes.toNat).foldl
      (fun offsets i => offsets.put i (BitVec.ofNat 16 (8 * (6 + i * 2))))
      taskStateSegmentOffsets }

end Encoding

section Decoding

/-- The limit of a descriptor, bits 0 to 15 and 48 to 51. -/
def descriptorLimit (entry : BitVec 64) : BitVec 20 :=
  entry.extractLsb' 48 4 ++ entry.extractLsb' 0 16

/-- The base of a descriptor, bits 16 to 39 and 56 to 63. -/
def descriptorBase (entry : BitVec 64) : BitVec 32 :=
  entry.extractLsb' 56 8 ++ entry.extractLsb' 16 24

/-- The access byte of a descriptor, bits 40 to 47. -/
def descriptorAccessByte (entry : BitVec 64) : BitVec 8 :=
  entry.extractLsb' 40 8

/-- The flags of a descriptor, bits 52 to 55. -/
def descriptorFlags (entry : BitVec 64) : BitVec 4 :=
  entry.extractLsb' 52 4

/-- The base of a descriptor of two entries, which goes on in bits 0 to 31 of the second. -/
def systemDescriptorBase (first second : BitVec 64) : BitVec 64 :=
  second.extractLsb' 0 32 ++ descriptorBase first

/-- The fields of an entry in the order of its encoding. -/
def segmentPieces {n : Nat} (base : BitVec n) (limit : BitVec 32) (accessByte flags : BitVec 8) :
    List Piece :=
  [⟨0, 16, limit.extractLsb' 0 16⟩,
    ⟨16, 16, base.extractLsb' 0 16⟩,
    ⟨32, 8, base.extractLsb' 16 8⟩,
    ⟨40, 8, accessByte⟩,
    ⟨48, 4, limit.extractLsb' 16 4⟩,
    ⟨52, 4, flags.extractLsb' 0 4⟩,
    ⟨56, 8, base.extractLsb' 24 8⟩]

variable {n : Nat} (base : BitVec n) (limit : BitVec 32) (accessByte flags : BitVec 8)

theorem segmentPieces_separate :
    Separate (segmentPieces base limit accessByte flags) := by
  simp [Separate, segmentPieces, Piece.Avoids]

/-- A piece of the fields is read back from the entry. -/
theorem extract_segmentPieces
    {p : Piece}
    (hp : p ∈ segmentPieces base limit accessByte flags) (hfit : p.lo + p.len ≤ 64) :
    (assemble 64 (segmentPieces base limit accessByte flags)).extractLsb' p.lo p.len = p.value :=
  extract_assemble (segmentPieces_separate base limit accessByte flags) hp hfit

theorem descriptorLimit_assemble :
    descriptorLimit (assemble 64 (segmentPieces base limit accessByte flags)) =
      limit.setWidth 20 := by
  have hlow := extract_segmentPieces base limit accessByte flags
    (p := ⟨0, 16, limit.extractLsb' 0 16⟩) (by simp [segmentPieces]) (by simp)
  have hhigh := extract_segmentPieces base limit accessByte flags
    (p := ⟨48, 4, limit.extractLsb' 16 4⟩) (by simp [segmentPieces]) (by simp)
  simp only at hlow hhigh
  rw [descriptorLimit, hlow, hhigh, BitVec.setWidth_eq_extractLsb' (by simp)]
  exact BitVec.extractLsb'_append_extractLsb'_eq_extractLsb' rfl

theorem descriptorBase_assemble :
    descriptorBase (assemble 64 (segmentPieces base limit accessByte flags)) =
      base.extractLsb' 0 32 := by
  have hlow := extract_segmentPieces base limit accessByte flags
    (p := ⟨16, 16, base.extractLsb' 0 16⟩) (by simp [segmentPieces]) (by simp)
  have hmiddle := extract_segmentPieces base limit accessByte flags
    (p := ⟨32, 8, base.extractLsb' 16 8⟩) (by simp [segmentPieces]) (by simp)
  have hhigh := extract_segmentPieces base limit accessByte flags
    (p := ⟨56, 8, base.extractLsb' 24 8⟩) (by simp [segmentPieces]) (by simp)
  simp only at hlow hmiddle hhigh
  -- the lower field of the base holds two pieces
  have hfield : (assemble 64 (segmentPieces base limit accessByte flags)).extractLsb' 16 24 =
      base.extractLsb' 0 24 := by
    have hsplit : ∀ {w : Nat} (x : BitVec w) (lo : Nat),
        x.extractLsb' lo (8 + 16) = x.extractLsb' (lo + 16) 8 ++ x.extractLsb' lo 16 :=
      fun x lo => (BitVec.extractLsb'_append_extractLsb'_eq_extractLsb' rfl).symm
    exact (hsplit _ 16).trans ((congrArg₂ _ hmiddle hlow).trans (hsplit base 0).symm)
  rw [descriptorBase, hfield, hhigh]
  exact BitVec.extractLsb'_append_extractLsb'_eq_extractLsb' rfl

theorem descriptorAccessByte_assemble :
    descriptorAccessByte (assemble 64 (segmentPieces base limit accessByte flags)) =
      accessByte :=
  extract_segmentPieces base limit accessByte flags (p := ⟨40, 8, accessByte⟩)
    (by simp [segmentPieces]) (by simp)

theorem descriptorFlags_assemble :
    descriptorFlags (assemble 64 (segmentPieces base limit accessByte flags)) =
      flags.setWidth 4 := by
  have h := extract_segmentPieces base limit accessByte flags
    (p := ⟨52, 4, flags.extractLsb' 0 4⟩) (by simp [segmentPieces]) (by simp)
  rw [BitVec.setWidth_eq_extractLsb' (by simp)]
  exact h

end Decoding

section Encoders

/-- The or that both encoders form is the word of the pieces. -/
theorem assemble_segmentPieces
    {n : Nat} (base : BitVec n) (limit : BitVec 32) (accessByte flags : BitVec 8) :
    assemble 64 (segmentPieces base limit accessByte flags) =
      0#64 ||| (limit.setWidth 64 &&& 0xFFFF#64)
        ||| ((base.setWidth 64 &&& 0xFFFF#64) <<< 16)
        ||| (((base.setWidth 64 >>> 16) &&& 0xFF#64) <<< 32)
        ||| (accessByte.setWidth 64 <<< 40)
        ||| (((limit.setWidth 64 >>> 16) &&& 0xF#64) <<< 48)
        ||| ((flags.setWidth 64 &&& 0xF#64) <<< 52)
        ||| (((base.setWidth 64 >>> 24) &&& 0xFF#64) <<< 56) := by
  rw [mask_eq_place limit 16 0xFFFF#64 rfl (by simp),
    mask_shift_eq_place base 16 16 0xFFFF#64 rfl (by simp),
    shifted_mask_eq_place base 16 8 32 0xFF#64 rfl (by simp),
    shifted_mask_eq_place limit 16 4 48 0xF#64 rfl (by simp),
    mask_shift_eq_place flags 4 52 0xF#64 rfl (by simp),
    shifted_mask_eq_place base 24 8 56 0xFF#64 rfl (by simp)]
  rfl

theorem encodeGDTMemorySegment_eq
    (desc : GDTMemorySegmentDescriptor) :
    encodeGDTMemorySegment desc =
      assemble 64 (segmentPieces desc.base desc.limit desc.accessByte desc.flags) :=
  (assemble_segmentPieces desc.base desc.limit desc.accessByte desc.flags).symm

variable (desc : GDTLongSystemSegmentDescriptor) (entries : RecordedArray (BitVec 64))
variable (first : Nat)

/-- The first entry of a system segment is encoded like a memory segment. -/
theorem get_encodeGDTSystemSegment_first :
    (encodeGDTSystemSegment desc entries first).get first =
      assemble 64 (segmentPieces desc.base desc.limit desc.accessByte desc.flags) := by
  have hne : first ≠ first + 1 := by omega
  have hbase : desc.base.setWidth 64 = desc.base := BitVec.setWidth_eq desc.base
  simp only [encodeGDTSystemSegment, RecordedArray.get_orAt_of_ne hne,
    RecordedArray.get_orAt_self, RecordedArray.get_put_of_ne hne, RecordedArray.get_put_self]
  rw [assemble_segmentPieces, hbase]
  rfl

theorem get_encodeGDTSystemSegment_second :
    (encodeGDTSystemSegment desc entries first).get (first + 1) =
      place 64 0 (desc.base.extractLsb' 32 32) := by
  have hne : first + 1 ≠ first := by omega
  simp only [encodeGDTSystemSegment, RecordedArray.get_orAt_self,
    RecordedArray.get_orAt_of_ne hne, RecordedArray.get_put_self]
  have hplace := shifted_mask_eq_place desc.base 32 32 0 0xFFFFFFFF#64 rfl (by simp)
  simpa using hplace

theorem mem_touched_encodeGDTSystemSegment
    {i : Nat} :
    i ∈ (encodeGDTSystemSegment desc entries first).touched ↔
      (first ≤ i ∧ i < first + 2) ∨ i ∈ entries.touched := by
  have hiff : first ≤ i ∧ i < first + 2 ↔ i = first ∨ i = first + 1 := by omega
  simp only [encodeGDTSystemSegment, RecordedArray.touched_orAt, RecordedArray.touched_put,
    List.mem_cons, hiff]
  tauto

end Encoders

section Roundtrip

/-- A memory segment is read back from its entry. -/
theorem decode_encodeGDTMemorySegment
    (desc : GDTMemorySegmentDescriptor) :
    descriptorBase (encodeGDTMemorySegment desc) = desc.base ∧
      descriptorLimit (encodeGDTMemorySegment desc) = desc.limit.setWidth 20 ∧
      descriptorAccessByte (encodeGDTMemorySegment desc) = desc.accessByte ∧
      descriptorFlags (encodeGDTMemorySegment desc) = desc.flags.setWidth 4 := by
  rw [encodeGDTMemorySegment_eq]
  refine ⟨?_, descriptorLimit_assemble .., descriptorAccessByte_assemble ..,
    descriptorFlags_assemble ..⟩
  rw [descriptorBase_assemble]
  exact BitVec.extractLsb'_eq_self

/-- A system segment is read back from its two entries. -/
theorem decode_encodeGDTSystemSegment
    (desc : GDTLongSystemSegmentDescriptor) (entries : RecordedArray (BitVec 64))
    (first : Nat) :
    let encoded := encodeGDTSystemSegment desc entries first
    systemDescriptorBase (encoded.get first) (encoded.get (first + 1)) = desc.base ∧
      descriptorLimit (encoded.get first) = desc.limit.setWidth 20 ∧
      descriptorAccessByte (encoded.get first) = desc.accessByte ∧
      descriptorFlags (encoded.get first) = desc.flags.setWidth 4 := by
  intro encoded
  have hfirst := get_encodeGDTSystemSegment_first desc entries first
  have hsecond := get_encodeGDTSystemSegment_second desc entries first
  have hhigh : (encoded.get (first + 1)).extractLsb' 0 32 = desc.base.extractLsb' 32 32 := by
    rw [hsecond]
    exact extract_place 0 _ (by simp)
  refine ⟨?_, ?_, ?_, ?_⟩
  · rw [systemDescriptorBase, hhigh, hfirst, descriptorBase_assemble]
    exact (BitVec.extractLsb'_append_extractLsb'_eq_extractLsb' rfl).trans
      BitVec.extractLsb'_eq_self
  · rw [hfirst, descriptorLimit_assemble]
  · rw [hfirst, descriptorAccessByte_assemble]
  · rw [hfirst, descriptorFlags_assemble]

end Roundtrip

section Storage

/-- All that the encoding uses lies in the storage: the elements of `taskStateSegments`, the
encoded entries and those that are reported as used. -/
def EncodedGDT.StaysInStorage (gdt : EncodedGDT) : Prop :=
  gdt.entries.Within maxGdtEntries ∧ gdt.taskStateSegments.Within numMaxTSSes ∧
    gdt.numUsedEntries.toNat ≤ maxGdtEntries

/-- The first `n` passes of the loop read the first `n` segments. -/
theorem mem_touched_segments
    (s : RecordedArray GDTLongSystemSegmentDescriptor × RecordedArray (BitVec 64))
    (n i : Nat) :
    i ∈ ((List.range n).foldl encodeTaskStateSegment s).1.touched ↔
      i < n ∨ i ∈ s.1.touched := by
  induction n with
  | zero => simp
  | succ n ih =>
      have hlt : i < n + 1 ↔ i = n ∨ i < n := by omega
      rw [List.range_succ, List.foldl_append, List.foldl_cons, List.foldl_nil,
        encodeTaskStateSegment, RecordedArray.touched_read, List.mem_cons, ih, hlt, or_assoc]

/-- They write the `2 * n` entries from the seventh on. -/
theorem mem_touched_entries
    (s : RecordedArray GDTLongSystemSegmentDescriptor × RecordedArray (BitVec 64))
    (n i : Nat) :
    i ∈ ((List.range n).foldl encodeTaskStateSegment s).2.touched ↔
      (6 ≤ i ∧ i < 6 + n * 2) ∨ i ∈ s.2.touched := by
  induction n with
  | zero =>
      have hnone : ¬(6 ≤ i ∧ i < 6 + 0 * 2) := by omega
      simp [hnone]
  | succ n ih =>
      have hlt : (6 ≤ i ∧ i < 6 + (n + 1) * 2) ↔
          (6 + n * 2 ≤ i ∧ i < 6 + n * 2 + 2) ∨ (6 ≤ i ∧ i < 6 + n * 2) := by omega
      rw [List.range_succ, List.foldl_append, List.foldl_cons, List.foldl_nil,
        encodeTaskStateSegment, mem_touched_encodeGDTSystemSegment, ih, hlt, or_assoc]

variable (tssAddresses : Nat → BitVec 64) (tssSizes : Nat → BitVec 16) (numTSSes : BitVec 16)
variable (behind : Nat → GDTLongSystemSegmentDescriptor)
variable (entries : Nat → BitVec 64) (offsets : Nat → BitVec 16)

/-- Creation and encoding of a table, as `DexprOS_SetupGDT` chains them. -/
def encodeCreatedGDT : EncodedGDT :=
  encodeGDTTable (createGDT tssAddresses tssSizes numTSSes behind) (.fresh entries)
    (.fresh offsets)

/-- The creation stops at the end of the array, the encoding at the count. -/
theorem mem_touched_taskStateSegments
    (i : Nat) :
    i ∈ (encodeCreatedGDT tssAddresses tssSizes numTSSes behind entries
        offsets).taskStateSegments.touched ↔
      i < numTSSes.toNat := by
  rw [encodeCreatedGDT, encodeGDTTable, mem_touched_segments, createGDT]
  simp only [RecordedArray.mem_touched_foldl_put, RecordedArray.touched_fresh, List.not_mem_nil,
    or_false]
  omega

theorem mem_touched_encoded
    (i : Nat) :
    i ∈ (encodeCreatedGDT tssAddresses tssSizes numTSSes behind entries
        offsets).entries.touched ↔
      i < maxGdtEntries ∨ i < 6 + numTSSes.toNat * 2 := by
  rw [encodeCreatedGDT, encodeGDTTable]
  simp only [mem_touched_entries, RecordedArray.touched_put, List.mem_cons,
    RecordedArray.mem_touched_fill, RecordedArray.touched_fresh, List.not_mem_nil, or_false,
    createGDT]
  have hmax : maxGdtEntries = 8 := rfl
  omega

theorem numUsedEntries_toNat :
    (encodeCreatedGDT tssAddresses tssSizes numTSSes behind entries
        offsets).numUsedEntries.toNat = 6 + numTSSes.toNat * 2 := by
  have hlt := numTSSes.isLt
  simp [encodeCreatedGDT, encodeGDTTable, createGDT]
  omega

/-- The table stays within its storage as long as there are no more task state segments than
`DEXPROS_X86_64_NUM_MAX_TSSes`. -/
theorem encodeCreatedGDT_staysInStorage_iff :
    (encodeCreatedGDT tssAddresses tssSizes numTSSes behind entries
        offsets).StaysInStorage ↔
      numTSSes.toNat ≤ numMaxTSSes := by
  rw [EncodedGDT.StaysInStorage, numUsedEntries_toNat]
  simp only [RecordedArray.Within, mem_touched_taskStateSegments, mem_touched_encoded]
  have hmax : maxGdtEntries = 6 + numMaxTSSes * 2 := rfl
  constructor
  · rintro ⟨-, -, hused⟩
    omega
  · intro hle
    refine ⟨fun i hi => ?_, fun i hi => ?_, ?_⟩
    · omega
    · omega
    · omega

/-- With two task state segments, entries are written that lie behind a table of eight. -/
theorem encodeCreatedGDT_leaves_storage :
    ¬(encodeCreatedGDT (fun _ => 0) (fun _ => 104) 2 (fun _ => ⟨0, 0, 0, 0⟩) (fun _ => 0)
        (fun _ => 0)).StaysInStorage := by
  rintro ⟨hentries, -, -⟩
  have htouched := (mem_touched_encoded (fun _ => 0) (fun _ => 104) 2 (fun _ => ⟨0, 0, 0, 0⟩)
    (fun _ => 0) (fun _ => 0) 8).mpr (Or.inr (by decide))
  exact absurd (hentries 8 htouched) (by decide)

end Storage

end Gdt
end DexprOS
