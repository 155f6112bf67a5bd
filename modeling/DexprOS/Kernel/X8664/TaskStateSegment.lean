import DexprOS.Library.LittleEndian
import DexprOS.Library.RecordedArray
import Mathlib.Tactic.IntervalCases

/-!
# Task state segments

The image that `DexprOS_SetupTaskStateSegments` writes for the processor, and how the
processor reads it.

Main facts:
* `setupOne_word`, `readBytes_image`: the words of the image, and the fields read from them;
* `masked_eq_iff`: when a mask of 16 bits keeps a word;
* `imageOf_setupOne_iff`: when the image is that of the segment.
-/

namespace DexprOS
namespace Tss

open LittleEndian

section Setup

/-- `DEXPROS_X86_64_NUM_MAX_TSSes` -/
def numMaxTSSes : Nat := 1

@[ext] structure TaskStateSegment where
  rsp0 : BitVec 64
  rsp1 : BitVec 64
  rsp2 : BitVec 64
  ist1 : BitVec 64
  ist2 : BitVec 64
  ist3 : BitVec 64
  ist4 : BitVec 64
  ist5 : BitVec 64
  ist6 : BitVec 64
  ist7 : BitVec 64
  iopb : BitVec 16

/-- `g_DexprOS_TSSStorage` and the first elements of the two output arrays. -/
structure TSSStorage where
  words : RecordedArray (BitVec 32)
  loadedTSSAddress : BitVec 64
  loadedTSSSize : BitVec 16

/-- One pass of the loop over the segments. -/
def setupTaskStateSegment (tsses : Nat → TaskStateSegment) (storageAddress : BitVec 64)
    (s : TSSStorage) (i : Nat) : TSSStorage :=
  let tss := tsses i
  let words := s.words
  let words := words.put (i * 26 + 1) ((tss.rsp0 &&& 0xFFFF#64).setWidth 32)
  let words := words.put (i * 26 + 2) (((tss.rsp0 >>> 32) &&& 0xFFFF#64).setWidth 32)
  let words := words.put (i * 26 + 3) ((tss.rsp1 &&& 0xFFFF#64).setWidth 32)
  let words := words.put (i * 26 + 4) (((tss.rsp1 >>> 32) &&& 0xFFFF#64).setWidth 32)
  let words := words.put (i * 26 + 5) ((tss.rsp2 &&& 0xFFFF#64).setWidth 32)
  let words := words.put (i * 26 + 6) (((tss.rsp2 >>> 32) &&& 0xFFFF#64).setWidth 32)
  let words := words.put (i * 26 + 9) ((tss.ist1 &&& 0xFFFF#64).setWidth 32)
  let words := words.put (i * 26 + 10) (((tss.ist1 >>> 32) &&& 0xFFFF#64).setWidth 32)
  let words := words.put (i * 26 + 11) ((tss.ist2 &&& 0xFFFF#64).setWidth 32)
  let words := words.put (i * 26 + 12) (((tss.ist2 >>> 32) &&& 0xFFFF#64).setWidth 32)
  let words := words.put (i * 26 + 13) ((tss.ist3 &&& 0xFFFF#64).setWidth 32)
  let words := words.put (i * 26 + 14) (((tss.ist3 >>> 32) &&& 0xFFFF#64).setWidth 32)
  let words := words.put (i * 26 + 15) ((tss.ist4 &&& 0xFFFF#64).setWidth 32)
  let words := words.put (i * 26 + 16) (((tss.ist4 >>> 32) &&& 0xFFFF#64).setWidth 32)
  let words := words.put (i * 26 + 17) ((tss.ist5 &&& 0xFFFF#64).setWidth 32)
  let words := words.put (i * 26 + 18) (((tss.ist5 >>> 32) &&& 0xFFFF#64).setWidth 32)
  let words := words.put (i * 26 + 19) ((tss.ist6 &&& 0xFFFF#64).setWidth 32)
  let words := words.put (i * 26 + 20) (((tss.ist6 >>> 32) &&& 0xFFFF#64).setWidth 32)
  let words := words.put (i * 26 + 21) ((tss.ist7 &&& 0xFFFF#64).setWidth 32)
  -- the upper half of `ist7` is not shifted down
  let words := words.put (i * 26 + 22) ((tss.ist7 &&& 0xFFFF#64).setWidth 32)
  let words := words.put (i * 26 + 25) (tss.iopb.setWidth 32 <<< 16)
  { words := words
    loadedTSSAddress := storageAddress + BitVec.ofNat 64 (4 * (i * 26))
    loadedTSSSize := 4 * 26 }

/-- `DexprOS_SetupTaskStateSegments` -/
def setupTaskStateSegments (tsses : Nat → TaskStateSegment) (storageAddress : BitVec 64)
    (numTSSes : BitVec 16) (s : TSSStorage) : TSSStorage :=
  (List.range (min numTSSes.toNat numMaxTSSes)).foldl
    (setupTaskStateSegment tsses storageAddress)
    { s with words := s.words.fill (numMaxTSSes * 26) 0 }

end Setup

section Image

/-- The bytes of the storage, of which the first 104 are the image of the first segment. -/
def TSSStorage.image (s : TSSStorage) : Nat → BitVec 8 :=
  byteOfWords s.words.get

/-- The fields of an image at the offsets where the processor reads them. -/
def taskStateSegmentOfImage (image : Nat → BitVec 8) : TaskStateSegment where
  rsp0 := readBytes image 4 8
  rsp1 := readBytes image 12 8
  rsp2 := readBytes image 20 8
  ist1 := readBytes image 36 8
  ist2 := readBytes image 44 8
  ist3 := readBytes image 52 8
  ist4 := readBytes image 60 8
  ist5 := readBytes image 68 8
  ist6 := readBytes image 76 8
  ist7 := readBytes image 84 8
  iopb := readBytes image 102 2

/-- The bytes of an image between its fields. -/
def Reserved (k : Nat) : Prop :=
  k < 4 ∨ (28 ≤ k ∧ k < 36) ∨ (92 ≤ k ∧ k < 102)

/-- The image is that of the segment, with zeros between the fields. -/
def ImageOf (image : Nat → BitVec 8) (tss : TaskStateSegment) : Prop :=
  taskStateSegmentOfImage image = tss ∧ ∀ k, Reserved k → image k = 0

/-- The lower word of a pointer, as it is stored. -/
def lowerWord (pointer : BitVec 64) : BitVec 32 :=
  (pointer &&& 0xFFFF#64).setWidth 32

/-- The upper word of a pointer, as it is stored. -/
def upperWord (pointer : BitVec 64) : BitVec 32 :=
  ((pointer >>> 32) &&& 0xFFFF#64).setWidth 32

/-- The two words that a stack pointer is split into, put together again. -/
def rejoined (pointer : BitVec 64) : BitVec 64 :=
  upperWord pointer ++ lowerWord pointer

/-- What becomes of `ist7`. -/
def rejoinedLast (pointer : BitVec 64) : BitVec 64 :=
  lowerWord pointer ++ lowerWord pointer

/-- What is read back from the image of a segment. -/
def TaskStateSegment.readBack (tss : TaskStateSegment) : TaskStateSegment where
  rsp0 := rejoined tss.rsp0
  rsp1 := rejoined tss.rsp1
  rsp2 := rejoined tss.rsp2
  ist1 := rejoined tss.ist1
  ist2 := rejoined tss.ist2
  ist3 := rejoined tss.ist3
  ist4 := rejoined tss.ist4
  ist5 := rejoined tss.ist5
  ist6 := rejoined tss.ist6
  ist7 := rejoinedLast tss.ist7
  iopb := tss.iopb

variable (tss : TaskStateSegment) (storageAddress : BitVec 64) (s : TSSStorage)

/-- The storage after the setup of one segment. -/
def setupOne : TSSStorage :=
  setupTaskStateSegments (fun _ => tss) storageAddress 1 s

/-- The words of the image of a segment. -/
def imageWord (tss : TaskStateSegment) : Nat → BitVec 32
  | 1 => lowerWord tss.rsp0
  | 2 => upperWord tss.rsp0
  | 3 => lowerWord tss.rsp1
  | 4 => upperWord tss.rsp1
  | 5 => lowerWord tss.rsp2
  | 6 => upperWord tss.rsp2
  | 9 => lowerWord tss.ist1
  | 10 => upperWord tss.ist1
  | 11 => lowerWord tss.ist2
  | 12 => upperWord tss.ist2
  | 13 => lowerWord tss.ist3
  | 14 => upperWord tss.ist3
  | 15 => lowerWord tss.ist4
  | 16 => upperWord tss.ist4
  | 17 => lowerWord tss.ist5
  | 18 => upperWord tss.ist5
  | 19 => lowerWord tss.ist6
  | 20 => upperWord tss.ist6
  | 21 => lowerWord tss.ist7
  | 22 => lowerWord tss.ist7
  | 25 => tss.iopb.setWidth 32 <<< 16
  | _ => 0

/-- The setup of one segment stores the words of its image. -/
theorem setupOne_word
    {k : Nat}
    (hk : k < 26) :
    (setupOne tss storageAddress s).words.get k = imageWord tss k := by
  have hpass : (setupOne tss storageAddress s).words.get =
      (setupTaskStateSegment (fun _ => tss) storageAddress
        { s with words := s.words.fill (numMaxTSSes * 26) 0 } 0).words.get := rfl
  rw [hpass]
  simp only [setupTaskStateSegment, RecordedArray.get_put, RecordedArray.get_fill,
    Nat.zero_mul, Nat.zero_add, numMaxTSSes]
  -- each word is looked up among the stores
  interval_cases k <;> rfl

/-- A field of eight bytes is read from two words. -/
theorem readBytes_image
    {j : Nat}
    (hj : j < 25) :
    readBytes (setupOne tss storageAddress s).image (4 * j) 8 =
      imageWord tss (j + 1) ++ imageWord tss j := by
  rw [← setupOne_word tss storageAddress s (by omega : j + 1 < 26),
    ← setupOne_word tss storageAddress s (by omega : j < 26)]
  exact readBytes_doubleword _ j

theorem readBytes_image_iopb :
    readBytes (setupOne tss storageAddress s).image 102 2 = tss.iopb := by
  have hword := setupOne_word tss storageAddress s (k := 25) (by omega)
  refine (readBytes_upperHalf _ 25).trans ?_
  rw [hword, imageWord]
  refine BitVec.eq_of_getLsbD_eq fun i hi => ?_
  have hlt : 16 + i < 32 := by omega
  simp [hi, hlt]

/-- What the processor reads of the segment's fields. -/
theorem taskStateSegmentOfImage_setupOne :
    taskStateSegmentOfImage (setupOne tss storageAddress s).image = tss.readBack := by
  have hread := fun {j : Nat} => readBytes_image tss storageAddress s (j := j)
  refine TaskStateSegment.ext ?_ ?_ ?_ ?_ ?_ ?_ ?_ ?_ ?_ ?_ ?_
  · exact hread (j := 1) (by omega)
  · exact hread (j := 3) (by omega)
  · exact hread (j := 5) (by omega)
  · exact hread (j := 9) (by omega)
  · exact hread (j := 11) (by omega)
  · exact hread (j := 13) (by omega)
  · exact hread (j := 15) (by omega)
  · exact hread (j := 17) (by omega)
  · exact hread (j := 19) (by omega)
  · exact hread (j := 21) (by omega)
  · exact readBytes_image_iopb tss storageAddress s

/-- The bytes between the fields are zero. -/
theorem image_reserved
    {k : Nat}
    (hk : Reserved k) :
    (setupOne tss storageAddress s).image k = 0 := by
  have hword : k / 4 = 0 ∨ k / 4 = 7 ∨ k / 4 = 8 ∨ k / 4 = 23 ∨ k / 4 = 24 ∨
      (k / 4 = 25 ∧ k % 4 < 2) := by
    rcases hk with h | h | h <;> omega
  have hget := setupOne_word tss storageAddress s (k := k / 4) (by omega)
  rw [TSSStorage.image, byteOfWords, hget]
  rcases hword with h | h | h | h | h | ⟨h, hhalf⟩
  · rw [h]
    exact BitVec.extractLsb'_zero
  · rw [h]
    exact BitVec.extractLsb'_zero
  · rw [h]
    exact BitVec.extractLsb'_zero
  · rw [h]
    exact BitVec.extractLsb'_zero
  · rw [h]
    exact BitVec.extractLsb'_zero
  · rw [h, imageWord]
    refine BitVec.eq_of_getLsbD_eq fun i hi => ?_
    have hlow : 8 * (k % 4) + i < 16 := by omega
    simp [hi, hlow]

end Image

section Kept

/-- The bits of a stack pointer that its masks drop, 16 to 31 and 48 to 63, are zero. -/
def Kept (pointer : BitVec 64) : Prop :=
  pointer.extractLsb' 16 16 = 0 ∧ pointer.extractLsb' 48 16 = 0

/-- The two words of `ist7` are the same number of 16 bits. -/
def KeptLast (pointer : BitVec 64) : Prop :=
  pointer.extractLsb' 16 16 = 0 ∧ pointer.extractLsb' 32 32 = pointer.extractLsb' 0 32

variable {pointer : BitVec 64}

/-- A mask of 16 bits keeps a word when the upper half of the word is zero. -/
theorem masked_eq_iff
    (n : Nat) :
    ((pointer >>> n) &&& 0xFFFF#64).setWidth 32 = pointer.extractLsb' n 32 ↔
      pointer.extractLsb' (n + 16) 16 = 0#16 := by
  have hmask : ∀ i, (0xFFFF#64).getLsbD i = decide (i < 16) := by
    intro i
    have hbits : (65535).testBit i = decide (i < 16) := Nat.testBit_two_pow_sub_one 16 i
    rw [BitVec.getLsbD_ofNat, hbits]
    by_cases hi : i < 16
    · have hlt : i < 64 := by omega
      simp [hi, hlt]
    · simp [hi]
  constructor
  · intro h
    refine BitVec.eq_of_getLsbD_eq fun i hi => ?_
    have hbit := congrArg (fun word => word.getLsbD (16 + i)) h
    have hlt : 16 + i < 32 := by omega
    have hge : ¬16 + i < 16 := by omega
    simp only [BitVec.getLsbD_setWidth, BitVec.getLsbD_and, hmask, hge, decide_false,
      Bool.and_false, BitVec.getLsbD_extractLsb', hlt, decide_true, Bool.true_and] at hbit
    simp [hi, Nat.add_assoc, ← hbit]
  · intro h
    refine BitVec.eq_of_getLsbD_eq fun i hi => ?_
    simp only [BitVec.getLsbD_setWidth, BitVec.getLsbD_and, hmask, BitVec.getLsbD_extractLsb',
      BitVec.getLsbD_ushiftRight, hi, decide_true, Bool.true_and]
    by_cases hlow : i < 16
    · simp [hlow]
    · have hbit := congrArg (fun word => word.getLsbD (i - 16)) h
      have hlt : i - 16 < 16 := by omega
      have hindex : n + 16 + (i - 16) = n + i := by omega
      simp only [BitVec.getLsbD_extractLsb', hlt, decide_true, Bool.true_and, hindex,
        BitVec.getLsbD_zero] at hbit
      simp [hlow, hbit]

theorem lowerWord_eq_iff :
    lowerWord pointer = pointer.extractLsb' 0 32 ↔ pointer.extractLsb' 16 16 = 0#16 := by
  simpa [lowerWord] using @masked_eq_iff pointer 0

theorem upperWord_eq_iff :
    upperWord pointer = pointer.extractLsb' 32 32 ↔ pointer.extractLsb' 48 16 = 0#16 :=
  masked_eq_iff 32

/-- Two words make up a pointer when they are its halves. -/
theorem append_eq_iff
    {upper lower : BitVec 32} :
    upper ++ lower = pointer ↔
      upper = pointer.extractLsb' 32 32 ∧ lower = pointer.extractLsb' 0 32 := by
  constructor
  · intro h
    subst h
    exact ⟨BitVec.extractLsb'_append_eq_left.symm, BitVec.extractLsb'_append_eq_right.symm⟩
  · rintro ⟨rfl, rfl⟩
    exact (BitVec.extractLsb'_append_extractLsb'_eq_extractLsb' rfl).trans
      BitVec.extractLsb'_eq_self

theorem rejoined_eq_iff :
    rejoined pointer = pointer ↔ Kept pointer := by
  rw [rejoined, append_eq_iff, upperWord_eq_iff, lowerWord_eq_iff]
  exact and_comm

theorem rejoinedLast_eq_iff :
    rejoinedLast pointer = pointer ↔ KeptLast pointer := by
  rw [rejoinedLast, append_eq_iff, KeptLast]
  constructor
  · rintro ⟨hupper, hlower⟩
    exact ⟨lowerWord_eq_iff.mp hlower, hupper.symm.trans hlower⟩
  · rintro ⟨hzero, hsame⟩
    have hlower := lowerWord_eq_iff.mpr hzero
    exact ⟨hlower.trans hsame.symm, hlower⟩

/-- All stack pointers of the segment survive their masks. -/
def TaskStateSegment.AllKept (tss : TaskStateSegment) : Prop :=
  (Kept tss.rsp0 ∧ Kept tss.rsp1 ∧ Kept tss.rsp2) ∧
    (Kept tss.ist1 ∧ Kept tss.ist2 ∧ Kept tss.ist3 ∧ Kept tss.ist4 ∧ Kept tss.ist5 ∧
      Kept tss.ist6) ∧
    KeptLast tss.ist7

variable (tss : TaskStateSegment) (storageAddress : BitVec 64) (s : TSSStorage)

theorem readBack_eq_iff :
    tss.readBack = tss ↔ tss.AllKept := by
  rw [TaskStateSegment.ext_iff]
  simp only [TaskStateSegment.readBack, rejoined_eq_iff, rejoinedLast_eq_iff,
    TaskStateSegment.AllKept, and_true, and_assoc]

/-- The image holds the segment exactly when no stack pointer has a bit that is masked out,
and the two halves of `ist7` are equal. -/
theorem imageOf_setupOne_iff :
    ImageOf (setupOne tss storageAddress s).image tss ↔ tss.AllKept := by
  rw [ImageOf, taskStateSegmentOfImage_setupOne, readBack_eq_iff]
  exact and_iff_left fun k hk => image_reserved tss storageAddress s hk

/-- The segment with all fields zero. -/
def emptySegment : TaskStateSegment := ⟨0, 0, 0, 0, 0, 0, 0, 0, 0, 0, 0⟩

/-- The stack pointer `0x10000` is read back as zero. -/
theorem not_imageOf_setupOne :
    ¬ImageOf (setupOne { emptySegment with rsp0 := 0x10000 } 0
        ⟨.fresh fun _ => 0, 0, 0⟩).image
      { emptySegment with rsp0 := 0x10000 } := by
  rintro ⟨hfields, -⟩
  rw [taskStateSegmentOfImage_setupOne] at hfields
  have hrsp0 := congrArg TaskStateSegment.rsp0 hfields
  exact absurd hrsp0 (by decide)

end Kept

end Tss
end DexprOS
