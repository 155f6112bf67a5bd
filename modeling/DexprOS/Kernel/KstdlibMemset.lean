import DexprOS.Library.WordMemory
import DexprOS.Library.Word32
import DexprOS.Kernel.KstdlibString

/-!
# Kernel string.c: memset

The range is filled by single bytes up to an alignment step, by 64-bit words and by the
bytes that are left.  Addresses wrap modulo `2^64`, and the loops run while the pointer is
below its end.

Main facts:
* `byteOf_repeated`: each byte of the 64-bit value is the byte that is set;
* `fillUntil_run`: a loop whose end does not wrap fills all its units;
* `memset_fills`: the three pieces fill exactly the range.
-/

namespace DexprOS
namespace KstdlibString

open Fuel ByteCopy ByteWords

universe u

section Memset

variable {M : Type u} [WordMemory M]

/-- The moving pointer of a loop of `memset` and the memory. -/
structure FillState (M : Type u) where
  pDest : Nat
  mem : M

/-- `for (; pDest < pEnd; pDest += 1) *pDest = value;` on units of `w` bytes. -/
def fillPass (w pEnd value : Nat) (s : FillState M) : Pass (FillState M) (FillState M) :=
  if s.pDest < pEnd then
    .again { pDest := u64 (s.pDest + w), mem := WordMemory.store w s.pDest value s.mem }
  else
    .leave s

def fillUntil (w pDest pEnd value : Nat) (mem : M) (fuel : Nat) : Option (FillState M) :=
  forever (fillPass w pEnd value) fuel ⟨pDest, mem⟩

/-- `valueToSet64`. -/
def repeatedByte (valueToSet : UInt8) : UInt64 :=
  let valueToSet64Single := valueToSet.toUInt64
  valueToSet64Single ||| (valueToSet64Single <<< 8) ||| (valueToSet64Single <<< 16) |||
    (valueToSet64Single <<< 24) ||| (valueToSet64Single <<< 32) |||
    (valueToSet64Single <<< 40) ||| (valueToSet64Single <<< 48) |||
    (valueToSet64Single <<< 56)

/-- `memset` with an `int` for the byte; a loop that does not end returns nothing. -/
def memset (dest : Nat) (ch : Int32) (count : Nat) (mem : M) (fuel : Nat) :
    Option (Nat × M) :=
  if count = 0 ∨ dest = 0 then
    some (dest, mem)
  else do
    let valueToSet : UInt8 := ch.toUInt32.toUInt8
    let bytesToAlignTo8 := dest % 8
    let numBytesToCopy :=
      (if count < bytesToAlignTo8 + 8 then count else bytesToAlignTo8) % 256
    let aligns := bytesToAlignTo8 ≠ 0 ∨ count < bytesToAlignTo8 + 8
    let alignBytes : Option (FillState M) :=
      if aligns then
        fillUntil 1 dest (u64 (dest + numBytesToCopy)) valueToSet.toNat mem fuel
      else some ⟨dest, mem⟩
    let s₁ ← alignBytes
    let copiedBytes := if aligns then numBytesToCopy else 0
    if copiedBytes = count then return (dest, s₁.mem)
    let numFitting8Bytes := (count - copiedBytes) / 8
    let s₂ ← fillUntil 8 s₁.pDest (u64 (s₁.pDest + 8 * numFitting8Bytes))
      (repeatedByte valueToSet).toNat s₁.mem fuel
    let numBytesLeft := count - (copiedBytes + numFitting8Bytes * 8)
    let pCurrentDest := u64 (s₁.pDest + numFitting8Bytes * 8)
    let s₃ ← fillUntil 1 pCurrentDest (u64 (pCurrentDest + numBytesLeft)) valueToSet.toNat
      s₂.mem fuel
    return (dest, s₃.mem)

end Memset

section Bytes

/-- The 64-bit value is the word of eight such bytes. -/
theorem toNat_repeatedByte
    (b : UInt8) :
    (repeatedByte b).toNat = wordAt (fun _ => b) 8 0 := by
  have hall : ∀ n : Fin 256,
      (repeatedByte (UInt8.ofNat n)).toNat = wordAt (fun _ => UInt8.ofNat n) 8 0 := by
    decide +kernel
  have hb := hall ⟨b.toNat, b.toNat_lt⟩
  rwa [UInt8.ofNat_toNat] at hb

/-- Each byte of the 64-bit value is the byte that is set. -/
theorem byteOf_repeated
    (b : UInt8) (i : Nat) (hi : i < 8) :
    byteOf (repeatedByte b).toNat i = b := by
  rw [toNat_repeatedByte, byteOf_wordAt _ _ _ _ hi]

/-- So is the only byte of a byte. -/
theorem byteOf_single
    (b : UInt8) (i : Nat) (hi : i < 1) :
    byteOf b.toNat i = b := by
  cases i with
  | zero => simp [byteOf]
  | succ i => omega

/-- The byte that is set is the argument modulo 256. -/
theorem toNat_valueToSet
    (ch : Int32) :
    (ch.toUInt32.toUInt8.toNat : Int) = ch.toInt % 256 := by
  have hword := Word32.toInt_toInt32 ch.toUInt32
  rw [Int32.toInt32_toUInt32] at hword
  rw [UInt32.toNat_toUInt8, hword]
  split <;> omega

end Bytes

section Loops

variable {M : Type u} [WordMemory M]

/-- A loop over `n` units whose end does not wrap fills all of them. -/
theorem fillUntil_run
    {w : Nat} (hw : 0 < w) (value n : Nat) :
    ∀ (dest fuel : Nat) (mem : M),
      dest + w * n < 2 ^ 64 →
      n < fuel →
      fillUntil w dest (u64 (dest + w * n)) value mem fuel =
        some ⟨dest + w * n, fillUp w value n dest mem⟩ := by
  induction n with
  | zero =>
      intro dest fuel mem hend hfuel
      rcases Nat.exists_eq_add_of_lt hfuel with ⟨m, rfl⟩
      apply forever_leave
      simp [fillPass, fillUp, u64_of_lt (show dest < 2 ^ 64 by omega)]
  | succ n ih =>
      intro dest fuel mem hend hfuel
      rw [Nat.mul_succ] at hend
      rcases Nat.exists_eq_add_of_lt hfuel with ⟨m, rfl⟩
      have hlast : u64 (dest + w * (n + 1)) = dest + w + w * n := by
        rw [Nat.mul_succ, u64_of_lt (by omega)]
        omega
      have hpass : fillPass w (u64 (dest + w * (n + 1))) value ⟨dest, mem⟩ =
          .again ⟨dest + w, WordMemory.store w dest value mem⟩ := by
        rw [fillPass, if_pos (by rw [hlast]; simp only; omega)]
        simp only [u64_of_lt (show dest + w < 2 ^ 64 by omega)]
      have hrest := ih (dest + w) (n + 1 + m) (WordMemory.store w dest value mem) (by omega)
        (by omega)
      rw [u64_of_lt (by omega)] at hrest
      rw [fillUntil, forever_again hpass, hlast, fillUp, Nat.mul_succ,
        show dest + (w * n + w) = dest + w + w * n by omega]
      exact hrest

/-- Number of bytes that `memset` sets before its word loop. -/
def prologueLength (dest count : Nat) : Nat :=
  if count < dest % 8 + 8 then count else dest % 8

/-- The three pieces: prologue, words, remaining bytes. -/
def setPieces (b : UInt8) (dest count : Nat) (mem : M) : M :=
  let p := prologueLength dest count
  let n := (count - p) / 8
  fillUp 1 b.toNat ((count - p) % 8) (dest + p + 8 * n)
    (fillUp 8 (repeatedByte b).toNat n (dest + p) (fillUp 1 b.toNat p dest mem))

/-- `memset` runs through its three pieces. -/
theorem memset_run
    (mem : M) {dest count : Nat} (ch : Int32)
    (hdest : dest ≠ 0)
    (hwrap : dest + count < 2 ^ 64) :
    Returns (memset dest ch count mem)
      (dest, setPieces ch.toUInt32.toUInt8 dest count mem) := by
  refine ⟨count + 1, fun fuel hfuel => ?_⟩
  by_cases hcount : count = 0
  · subst hcount
    simp [memset, setPieces, prologueLength, fillUp]
  rw [memset, if_neg (by omega)]
  by_cases hshort : count < dest % 8 + 8
  · -- the prologue sets everything
    have hbyte : count % 256 = count := by omega
    have hrun := fillUntil_run Nat.one_pos ch.toUInt32.toUInt8.toNat count dest fuel mem
      (by omega) (by omega)
    rw [Nat.one_mul] at hrun
    simp only [hshort, hbyte, hrun, setPieces, prologueLength, fillUp, or_true, if_true,
      Nat.sub_self, Nat.zero_div, Nat.zero_mod]
    rfl
  · -- up to eight bytes, whole words, what is left
    have hcopied : dest % 8 % 256 = dest % 8 := by omega
    have hne : dest % 8 ≠ count := by omega
    have hbyte := @fillUntil_run M _ 1 Nat.one_pos ch.toUInt32.toUInt8.toNat
    have hrun₁ := hbyte (dest % 8) dest fuel mem (by omega) (by omega)
    have hrun₂ := fillUntil_run (w := 8) (by omega) (repeatedByte ch.toUInt32.toUInt8).toNat
      ((count - dest % 8) / 8) (dest + dest % 8) fuel
      (fillUp 1 ch.toUInt32.toUInt8.toNat (dest % 8) dest mem) (by omega) (by omega)
    have hrun₃ := hbyte ((count - dest % 8) % 8) (dest + dest % 8 + 8 * ((count - dest % 8) / 8))
      fuel (fillUp 8 (repeatedByte ch.toUInt32.toUInt8).toNat ((count - dest % 8) / 8)
        (dest + dest % 8) (fillUp 1 ch.toUInt32.toUInt8.toNat (dest % 8) dest mem))
      (by omega) (by omega)
    rw [Nat.one_mul] at hrun₁ hrun₃
    have hfirst : (if dest % 8 ≠ 0 ∨ count < dest % 8 + 8 then
          fillUntil 1 dest (u64 (dest + dest % 8)) ch.toUInt32.toUInt8.toNat mem fuel
        else some ⟨dest, mem⟩) =
        some ⟨dest + dest % 8, fillUp 1 ch.toUInt32.toUInt8.toNat (dest % 8) dest mem⟩ := by
      by_cases haligned : dest % 8 = 0
      · rw [if_neg (by omega), haligned]
        rfl
      · rw [if_pos (Or.inl haligned), hrun₁]
    have hcopied' : (if dest % 8 ≠ 0 ∨ count < dest % 8 + 8 then dest % 8 else 0) =
        dest % 8 := by
      split <;> omega
    have hleft : count - (dest % 8 + (count - dest % 8) / 8 * 8) = (count - dest % 8) % 8 := by
      omega
    have hcurrent : u64 (dest + dest % 8 + (count - dest % 8) / 8 * 8) =
        dest + dest % 8 + 8 * ((count - dest % 8) / 8) := by
      rw [u64_of_lt (by omega), Nat.mul_comm]
    simp only [if_neg hshort, hcopied, hcopied', hfirst, hne, if_false, Option.bind_eq_bind,
      Option.bind_some, hrun₂, hleft, hcurrent, hrun₃, setPieces, prologueLength]
    rfl

end Loops

section Pieces

/-- The pieces tile the range. -/
theorem filled_setPieces
    (mem : Memory) (dest count : Nat) (b : UInt8) :
    Filled mem dest count b (setPieces b dest count mem) := by
  have hlength : prologueLength dest count ≤ count := by
    rw [prologueLength]
    split <;> omega
  have hfirst := filled_fillUp (byteOf_single b) (prologueLength dest count)
    (filled_zero mem dest b)
  have hwords := filled_fillUp (byteOf_repeated b) ((count - prologueLength dest count) / 8)
    hfirst
  have hlast := filled_fillUp (byteOf_single b) ((count - prologueLength dest count) % 8) hwords
  simp only [Nat.zero_add, Nat.one_mul, Nat.add_zero, ← Nat.add_assoc] at hlast
  have hcount : prologueLength dest count + 8 * ((count - prologueLength dest count) / 8) +
      (count - prologueLength dest count) % 8 = count := by
    omega
  rw [hcount] at hlast
  exact hlast

end Pieces

section Result

/-- `memset` sets each byte of the range and no other byte. -/
theorem memset_fills
    (mem : Memory) (dest : Nat) (ch : Int32) (count : Nat)
    (hdest : dest ≠ 0)
    (hwrap : dest + count < 2 ^ 64) :
    ∃ mem', Returns (memset dest ch count mem) (dest, mem') ∧
      (∀ i, i < count → ((mem' (dest + i)).toNat : Int) = ch.toInt % 256) ∧
      (∀ x, x < dest ∨ dest + count ≤ x → mem' x = mem x) := by
  refine ⟨_, memset_run mem ch hdest hwrap, fun i hi => ?_, ?_⟩
  · rw [(filled_setPieces mem dest count _).filled i hi, toNat_valueToSet]
  · exact (filled_setPieces mem dest count _).frame

/-- From an odd address on, with a negative value, through all three pieces. -/
theorem memset_fills_minus_two :
    ∃ mem', Returns (memset 4099 (-2) 29 ((fun _ => 0) : Memory)) (4099, mem') ∧
      (∀ i, i < 29 → ((mem' (4099 + i)).toNat : Int) = (-2 : Int32).toInt % 256) ∧
      (∀ x, x < 4099 ∨ 4099 + 29 ≤ x → mem' x = 0) :=
  memset_fills (fun _ => 0) 4099 (-2) 29 (by decide) (by decide)

end Result

end KstdlibString
end DexprOS
