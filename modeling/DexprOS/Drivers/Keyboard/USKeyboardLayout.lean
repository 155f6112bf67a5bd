import DexprOS.Drivers.Keyboard.PS2KeyboardDriver

/-!
# The US keyboard layout

The conversion table of `USKeyboardLayout.c`.  The source lists an entry for each of the 512
keys; the ones that are not listed here are invalid.

Main facts:
* `keyCodepoint_US`: the layout gives printable ASCII characters and the newline only.
-/

namespace DexprOS
namespace Keyboard

open Kernel

section Table

/-- The entries of `g_conversionTableUS` that are not invalid. -/
def conversionTableUSEntries : List (KeyID × KeyToUnicodeEntry) := [
  (keySpace, ⟨.capsLockUnaffected, 32, 32, 32, 32⟩),
  (keyApostrophe, ⟨.capsLockUnaffected, 39, 34, 39, 34⟩),
  (keyComma, ⟨.capsLockUnaffected, 44, 60, 44, 60⟩),
  (keyMinus, ⟨.capsLockUnaffected, 45, 95, 45, 95⟩),
  (keyPeriod, ⟨.capsLockUnaffected, 46, 62, 46, 62⟩),
  (keySlash, ⟨.capsLockUnaffected, 47, 63, 47, 63⟩),
  (key0, ⟨.capsLockUnaffected, 48, 41, 48, 41⟩),
  (key1, ⟨.capsLockUnaffected, 49, 33, 49, 33⟩),
  (key2, ⟨.capsLockUnaffected, 50, 64, 50, 64⟩),
  (key3, ⟨.capsLockUnaffected, 51, 35, 51, 35⟩),
  (key4, ⟨.capsLockUnaffected, 52, 36, 52, 36⟩),
  (key5, ⟨.capsLockUnaffected, 53, 37, 53, 37⟩),
  (key6, ⟨.capsLockUnaffected, 54, 94, 54, 94⟩),
  (key7, ⟨.capsLockUnaffected, 55, 38, 55, 38⟩),
  (key8, ⟨.capsLockUnaffected, 56, 42, 56, 42⟩),
  (key9, ⟨.capsLockUnaffected, 57, 40, 57, 40⟩),
  (keySemicolon, ⟨.capsLockUnaffected, 59, 58, 59, 58⟩),
  (keyEqual, ⟨.capsLockUnaffected, 61, 43, 61, 43⟩),
  (keyA, ⟨.capsLockAffected, 97, 65, 0, 0⟩),
  (keyB, ⟨.capsLockAffected, 98, 66, 0, 0⟩),
  (keyC, ⟨.capsLockAffected, 99, 67, 0, 0⟩),
  (keyD, ⟨.capsLockAffected, 100, 68, 0, 0⟩),
  (keyE, ⟨.capsLockAffected, 101, 69, 0, 0⟩),
  (keyF, ⟨.capsLockAffected, 102, 70, 0, 0⟩),
  (keyG, ⟨.capsLockAffected, 103, 71, 0, 0⟩),
  (keyH, ⟨.capsLockAffected, 104, 72, 0, 0⟩),
  (keyI, ⟨.capsLockAffected, 105, 73, 0, 0⟩),
  (keyJ, ⟨.capsLockAffected, 106, 74, 0, 0⟩),
  (keyK, ⟨.capsLockAffected, 107, 75, 0, 0⟩),
  (keyL, ⟨.capsLockAffected, 108, 76, 0, 0⟩),
  (keyM, ⟨.capsLockAffected, 109, 77, 0, 0⟩),
  (keyN, ⟨.capsLockAffected, 110, 78, 0, 0⟩),
  (keyO, ⟨.capsLockAffected, 111, 79, 0, 0⟩),
  (keyP, ⟨.capsLockAffected, 112, 80, 0, 0⟩),
  (keyQ, ⟨.capsLockAffected, 113, 81, 0, 0⟩),
  (keyR, ⟨.capsLockAffected, 114, 82, 0, 0⟩),
  (keyS, ⟨.capsLockAffected, 115, 83, 0, 0⟩),
  (keyT, ⟨.capsLockAffected, 116, 84, 0, 0⟩),
  (keyU, ⟨.capsLockAffected, 117, 85, 0, 0⟩),
  (keyV, ⟨.capsLockAffected, 118, 86, 0, 0⟩),
  (keyW, ⟨.capsLockAffected, 119, 87, 0, 0⟩),
  (keyX, ⟨.capsLockAffected, 120, 88, 0, 0⟩),
  (keyY, ⟨.capsLockAffected, 121, 89, 0, 0⟩),
  (keyZ, ⟨.capsLockAffected, 122, 90, 0, 0⟩),
  (keyLeftBracket, ⟨.capsLockUnaffected, 91, 123, 91, 123⟩),
  (keyBackslash, ⟨.capsLockUnaffected, 92, 124, 92, 124⟩),
  (keyRightBracket, ⟨.capsLockUnaffected, 93, 125, 93, 125⟩),
  (keyGraveAccent, ⟨.capsLockUnaffected, 96, 126, 96, 126⟩),
  (keyEnter, ⟨.enter, 10, 10, 10, 10⟩),
  (keyKeypad0, ⟨.numberpad, 48, 48, 48, 48⟩),
  (keyKeypad1, ⟨.numberpad, 49, 49, 49, 49⟩),
  (keyKeypad2, ⟨.numberpad, 50, 50, 50, 50⟩),
  (keyKeypad3, ⟨.numberpad, 51, 51, 51, 51⟩),
  (keyKeypad4, ⟨.numberpad, 52, 52, 52, 52⟩),
  (keyKeypad5, ⟨.numberpad, 53, 53, 53, 53⟩),
  (keyKeypad6, ⟨.numberpad, 54, 54, 54, 54⟩),
  (keyKeypad7, ⟨.numberpad, 55, 55, 55, 55⟩),
  (keyKeypad8, ⟨.numberpad, 56, 56, 56, 56⟩),
  (keyKeypad9, ⟨.numberpad, 57, 57, 57, 57⟩),
  (keyKeypadDecimal, ⟨.numberpad, 46, 46, 46, 46⟩),
  (keyKeypadDevide, ⟨.capsLockUnaffected, 47, 47, 47, 47⟩),
  (keyKeypadMultiply, ⟨.capsLockUnaffected, 42, 42, 42, 42⟩),
  (keyKeypadSubstract, ⟨.capsLockUnaffected, 45, 45, 45, 45⟩),
  (keyKeypadAdd, ⟨.capsLockUnaffected, 43, 43, 43, 43⟩),
  (keyKeypadEnter, ⟨.enter, 10, 10, 10, 10⟩),
  (keyKeypadEqual, ⟨.capsLockUnaffected, 61, 61, 61, 61⟩)]

def invalidKeyToUnicodeEntry : KeyToUnicodeEntry :=
  ⟨.invalid, 0, 0, 0, 0⟩

/-- `g_conversionTableUS`. -/
def conversionTableUS : KeyToUnicodeTable :=
  fun key => (conversionTableUSEntries.lookup key).getD invalidKeyToUnicodeEntry

def getKeyboardLayoutUS : KeyToUnicodeTable :=
  conversionTableUS

end Table

section Codepoints

/-- The characters that can be typed. -/
def Typable (codepoint : UInt32) : Prop :=
  codepoint = 10 ∨ 32 ≤ codepoint ∧ codepoint ≤ 126

instance (codepoint : UInt32) : Decidable (Typable codepoint) :=
  inferInstanceAs (Decidable (_ ∨ _))

/-- For lists of constants, by evaluation. -/
theorem typable_of_all
    {codepoints : List UInt32} (hall : codepoints.all (fun c => decide (Typable c)) = true) :
    ∀ codepoint ∈ codepoints, Typable codepoint :=
  fun codepoint hmem => of_decide_eq_true (List.all_eq_true.mp hall codepoint hmem)

theorem Typable.ne_zero
    {codepoint : UInt32} (hcodepoint : Typable codepoint) :
    codepoint ≠ 0 := by
  rintro rfl
  revert hcodepoint
  decide

/-- Whatever the modifiers are, a key gives one of its entry's codes or none. -/
theorem keyCodepoint_mem
    (s : PS2KeyboardState) (e : KeyToUnicodeEntry) :
    keyCodepoint s e ∈
      [0, e.standardCode, e.upperCaseCode, e.altGrCode, e.altGrUpperCaseCode] := by
  unfold keyCodepoint altGrCodepoint
  rcases e with ⟨conversionType, standardCode, upperCaseCode, altGrCode, altGrUpperCaseCode⟩
  cases conversionType with
  | invalid => simp
  | capsLockAffected =>
      dsimp only
      repeat' split
      all_goals simp
  | capsLockUnaffected =>
      dsimp only
      repeat' split
      all_goals simp
  | numberpad =>
      dsimp only
      repeat' split
      all_goals simp
  | enter => simp

/-- An entry all of whose codes can be typed or are not there. -/
def KeyToUnicodeEntry.Typable (e : KeyToUnicodeEntry) : Prop :=
  ∀ c ∈ [e.standardCode, e.upperCaseCode, e.altGrCode, e.altGrUpperCaseCode],
    c ≠ 0 → Keyboard.Typable c

instance (e : KeyToUnicodeEntry) : Decidable e.Typable :=
  List.decidableBAll _ _

theorem mem_of_lookup
    {key : KeyID} {e : KeyToUnicodeEntry} {entries : List (KeyID × KeyToUnicodeEntry)}
    (he : entries.lookup key = some e) :
    (key, e) ∈ entries := by
  induction entries with
  | nil => cases he
  | cons entry entries ih =>
      rw [List.lookup_cons] at he
      split at he
      · rename_i hkey
        rw [beq_iff_eq.mp hkey, ← Option.some.inj he]
        exact List.mem_cons_self
      · exact List.mem_cons_of_mem _ (ih he)

/-- The table has an entry for the key, or its entry is invalid. -/
theorem conversionTableUS_cases
    (key : KeyID) :
    (key, conversionTableUS key) ∈ conversionTableUSEntries ∨
      conversionTableUS key = invalidKeyToUnicodeEntry := by
  unfold conversionTableUS
  cases he : conversionTableUSEntries.lookup key with
  | none => exact Or.inr rfl
  | some e => exact Or.inl (mem_of_lookup he)

theorem conversionTableUS_typable
    (key : KeyID) :
    (conversionTableUS key).Typable := by
  have hall : ∀ entry ∈ conversionTableUSEntries, entry.2.Typable := by
    decide +kernel
  rcases conversionTableUS_cases key with hmem | hinvalid
  · exact hall _ hmem
  · rw [hinvalid]
    decide

/-- The layout gives nothing but printable ASCII characters and the newline. -/
theorem keyCodepoint_US
    (s : PS2KeyboardState) (key : KeyID)
    (hcodepoint : keyCodepoint s (getKeyboardLayoutUS key) ≠ 0) :
    Typable (keyCodepoint s (getKeyboardLayoutUS key)) := by
  have hmem := List.mem_cons.mp (keyCodepoint_mem s (getKeyboardLayoutUS key))
  exact conversionTableUS_typable key _ (hmem.resolve_left hcodepoint) hcodepoint

end Codepoints

end Keyboard
end DexprOS
