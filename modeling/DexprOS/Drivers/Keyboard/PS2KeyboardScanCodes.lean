import DexprOS.Kernel.KeyboardInput

/-!
# PS/2 scan codes

Scan code set 2 as the driver's header `PS2KeyboardScanCodes.h` lists it: a table of
keys for each prefix, the prefixes that lead from one table to another and the
sequences that stand outside of the tables.
-/

namespace DexprOS
namespace Keyboard

open Kernel

section ScanCodes

inductive PS2KeyboardKeyAction where
  | none
  | released
  | pressed
  | pressedReleased
deriving DecidableEq, Repr

structure PS2KeyboardMapKey where
  keyID : KeyID
  keyAction : PS2KeyboardKeyAction
deriving DecidableEq, Repr

structure PS2KeyboardSpecialSequence where
  key : PS2KeyboardMapKey
  pSequence : List UInt8
  sequenceLength : UInt8

structure PS2KeyboardScanCodes where
  pKeysPerByte : List PS2KeyboardMapKey
  numKeysPerByte : UInt8
  pByteExtendedScanCodes : List PS2KeyboardScanCodes
  pByteExtendCodes : List UInt8
  numByteExtendCodes : UInt8
  pSpecialSequences : List PS2KeyboardSpecialSequence
  numSpecialSequences : UInt8

def scanCode2SingleByteSet : List PS2KeyboardMapKey := [
  ⟨0, .none⟩, ⟨keyF9, .pressed⟩, ⟨keyF7, .pressed⟩, ⟨keyF5, .pressed⟩,
  ⟨keyF3, .pressed⟩, ⟨keyF1, .pressed⟩, ⟨keyF2, .pressed⟩, ⟨keyF12, .pressed⟩,
  ⟨0, .none⟩, ⟨keyF10, .pressed⟩, ⟨keyF8, .pressed⟩, ⟨keyF6, .pressed⟩,
  ⟨keyF4, .pressed⟩, ⟨keyTab, .pressed⟩, ⟨keyGraveAccent, .pressed⟩, ⟨0, .none⟩,
  ⟨0, .none⟩, ⟨keyLeftAlt, .pressed⟩, ⟨keyLeftShift, .pressed⟩, ⟨0, .none⟩,
  ⟨keyLeftControl, .pressed⟩, ⟨keyQ, .pressed⟩, ⟨key1, .pressed⟩, ⟨0, .none⟩,
  ⟨0, .none⟩, ⟨0, .none⟩, ⟨keyZ, .pressed⟩, ⟨keyS, .pressed⟩,
  ⟨keyA, .pressed⟩, ⟨keyW, .pressed⟩, ⟨key2, .pressed⟩, ⟨0, .none⟩,
  ⟨0, .none⟩, ⟨keyC, .pressed⟩, ⟨keyX, .pressed⟩, ⟨keyD, .pressed⟩,
  ⟨keyE, .pressed⟩, ⟨key4, .pressed⟩, ⟨key3, .pressed⟩, ⟨0, .none⟩,
  ⟨0, .none⟩, ⟨keySpace, .pressed⟩, ⟨keyV, .pressed⟩, ⟨keyF, .pressed⟩,
  ⟨keyT, .pressed⟩, ⟨keyR, .pressed⟩, ⟨key5, .pressed⟩, ⟨0, .none⟩,
  ⟨0, .none⟩, ⟨keyN, .pressed⟩, ⟨keyB, .pressed⟩, ⟨keyH, .pressed⟩,
  ⟨keyG, .pressed⟩, ⟨keyY, .pressed⟩, ⟨key6, .pressed⟩, ⟨0, .none⟩,
  ⟨0, .none⟩, ⟨0, .none⟩, ⟨keyM, .pressed⟩, ⟨keyJ, .pressed⟩,
  ⟨keyU, .pressed⟩, ⟨key7, .pressed⟩, ⟨key8, .pressed⟩, ⟨0, .none⟩,
  ⟨0, .none⟩, ⟨keyComma, .pressed⟩, ⟨keyK, .pressed⟩, ⟨keyI, .pressed⟩,
  ⟨keyO, .pressed⟩, ⟨key0, .pressed⟩, ⟨key9, .pressed⟩, ⟨0, .none⟩,
  ⟨0, .none⟩, ⟨keyPeriod, .pressed⟩, ⟨keySlash, .pressed⟩, ⟨keyL, .pressed⟩,
  ⟨keySemicolon, .pressed⟩, ⟨keyP, .pressed⟩, ⟨keyMinus, .pressed⟩, ⟨0, .none⟩,
  ⟨0, .none⟩, ⟨0, .none⟩, ⟨keyApostrophe, .pressed⟩, ⟨0, .none⟩,
  ⟨keyLeftBracket, .pressed⟩, ⟨keyEqual, .pressed⟩, ⟨0, .none⟩, ⟨0, .none⟩,
  ⟨keyCapsLock, .pressed⟩, ⟨keyRightShift, .pressed⟩,
    ⟨keyEnter, .pressed⟩, ⟨keyRightBracket, .pressed⟩,
  ⟨0, .none⟩, ⟨keyBackslash, .pressed⟩, ⟨0, .none⟩, ⟨0, .none⟩,
  ⟨0, .none⟩, ⟨0, .none⟩, ⟨0, .none⟩, ⟨0, .none⟩,
  ⟨0, .none⟩, ⟨0, .none⟩, ⟨keyBackspace, .pressed⟩, ⟨0, .none⟩,
  ⟨0, .none⟩, ⟨keyKeypad1, .pressed⟩, ⟨0, .none⟩, ⟨keyKeypad4, .pressed⟩,
  ⟨keyKeypad7, .pressed⟩, ⟨0, .none⟩, ⟨0, .none⟩, ⟨0, .none⟩,
  ⟨keyKeypad0, .pressed⟩, ⟨keyKeypadDecimal, .pressed⟩,
    ⟨keyKeypad2, .pressed⟩, ⟨keyKeypad5, .pressed⟩,
  ⟨keyKeypad6, .pressed⟩, ⟨keyKeypad8, .pressed⟩, ⟨keyEscape, .pressed⟩, ⟨keyNumLock, .pressed⟩,
  ⟨keyF11, .pressed⟩, ⟨keyKeypadAdd, .pressed⟩,
    ⟨keyKeypad3, .pressed⟩, ⟨keyKeypadSubstract, .pressed⟩,
  ⟨keyKeypadMultiply, .pressed⟩, ⟨keyKeypad9, .pressed⟩,
    ⟨keyScrollLock, .pressed⟩, ⟨keyAltSysrq, .pressed⟩,
  ⟨0, .none⟩, ⟨0, .none⟩, ⟨0, .none⟩, ⟨keyF7, .pressed⟩,
  ⟨keyAltSysrq, .pressed⟩]

def scanCode2SingleByteReleaseSet : List PS2KeyboardMapKey := [
  ⟨0, .none⟩, ⟨keyF9, .released⟩, ⟨keyF7, .released⟩, ⟨keyF5, .released⟩,
  ⟨keyF3, .released⟩, ⟨keyF1, .released⟩, ⟨keyF2, .released⟩, ⟨keyF12, .released⟩,
  ⟨0, .none⟩, ⟨keyF10, .released⟩, ⟨keyF8, .released⟩, ⟨keyF6, .released⟩,
  ⟨keyF4, .released⟩, ⟨keyTab, .released⟩, ⟨keyGraveAccent, .released⟩, ⟨0, .none⟩,
  ⟨0, .none⟩, ⟨keyLeftAlt, .released⟩, ⟨keyLeftShift, .released⟩, ⟨0, .none⟩,
  ⟨keyLeftControl, .released⟩, ⟨keyQ, .released⟩, ⟨key1, .released⟩, ⟨0, .none⟩,
  ⟨0, .none⟩, ⟨0, .none⟩, ⟨keyZ, .released⟩, ⟨keyS, .released⟩,
  ⟨keyA, .released⟩, ⟨keyW, .released⟩, ⟨key2, .released⟩, ⟨0, .none⟩,
  ⟨0, .none⟩, ⟨keyC, .released⟩, ⟨keyX, .released⟩, ⟨keyD, .released⟩,
  ⟨keyE, .released⟩, ⟨key4, .released⟩, ⟨key3, .released⟩, ⟨0, .none⟩,
  ⟨0, .none⟩, ⟨keySpace, .released⟩, ⟨keyV, .released⟩, ⟨keyF, .released⟩,
  ⟨keyT, .released⟩, ⟨keyR, .released⟩, ⟨key5, .released⟩, ⟨0, .none⟩,
  ⟨0, .none⟩, ⟨keyN, .released⟩, ⟨keyB, .released⟩, ⟨keyH, .released⟩,
  ⟨keyG, .released⟩, ⟨keyY, .released⟩, ⟨key6, .released⟩, ⟨0, .none⟩,
  ⟨0, .none⟩, ⟨0, .none⟩, ⟨keyM, .released⟩, ⟨keyJ, .released⟩,
  ⟨keyU, .released⟩, ⟨key7, .released⟩, ⟨key8, .released⟩, ⟨0, .none⟩,
  ⟨0, .none⟩, ⟨keyComma, .released⟩, ⟨keyK, .released⟩, ⟨keyI, .released⟩,
  ⟨keyO, .released⟩, ⟨key0, .released⟩, ⟨key9, .released⟩, ⟨0, .none⟩,
  ⟨0, .none⟩, ⟨keyPeriod, .released⟩, ⟨keySlash, .released⟩, ⟨keyL, .released⟩,
  ⟨keySemicolon, .released⟩, ⟨keyP, .released⟩, ⟨keyMinus, .released⟩, ⟨0, .none⟩,
  ⟨0, .none⟩, ⟨0, .none⟩, ⟨keyApostrophe, .released⟩, ⟨0, .none⟩,
  ⟨keyLeftBracket, .released⟩, ⟨keyEqual, .released⟩, ⟨0, .none⟩, ⟨0, .none⟩,
  ⟨keyCapsLock, .released⟩, ⟨keyRightShift, .released⟩,
    ⟨keyEnter, .released⟩, ⟨keyRightBracket, .released⟩,
  ⟨0, .none⟩, ⟨keyBackslash, .released⟩, ⟨0, .none⟩, ⟨0, .none⟩,
  ⟨0, .none⟩, ⟨0, .none⟩, ⟨0, .none⟩, ⟨0, .none⟩,
  ⟨0, .none⟩, ⟨0, .none⟩, ⟨keyBackspace, .released⟩, ⟨0, .none⟩,
  ⟨0, .none⟩, ⟨keyKeypad1, .released⟩, ⟨0, .none⟩, ⟨keyKeypad4, .released⟩,
  ⟨keyKeypad7, .released⟩, ⟨0, .none⟩, ⟨0, .none⟩, ⟨0, .none⟩,
  ⟨keyKeypad0, .released⟩, ⟨keyKeypadDecimal, .released⟩,
    ⟨keyKeypad2, .released⟩, ⟨keyKeypad5, .released⟩,
  ⟨keyKeypad6, .released⟩, ⟨keyKeypad8, .released⟩,
    ⟨keyEscape, .released⟩, ⟨keyNumLock, .released⟩,
  ⟨keyF11, .released⟩, ⟨keyKeypadAdd, .released⟩,
    ⟨keyKeypad3, .released⟩, ⟨keyKeypadSubstract, .released⟩,
  ⟨keyKeypadMultiply, .released⟩, ⟨keyKeypad9, .released⟩,
    ⟨keyScrollLock, .released⟩, ⟨keyAltSysrq, .released⟩,
  ⟨0, .none⟩, ⟨0, .none⟩, ⟨0, .none⟩, ⟨keyF7, .released⟩,
  ⟨keyAltSysrq, .released⟩]

def scanCode2TwoBytesSet : List PS2KeyboardMapKey := [
  ⟨0, .none⟩, ⟨0, .none⟩, ⟨0, .none⟩, ⟨0, .none⟩,
  ⟨0, .none⟩, ⟨0, .none⟩, ⟨0, .none⟩, ⟨0, .none⟩,
  ⟨0, .none⟩, ⟨0, .none⟩, ⟨0, .none⟩, ⟨0, .none⟩,
  ⟨0, .none⟩, ⟨0, .none⟩, ⟨0, .none⟩, ⟨0, .none⟩,
  ⟨keyMultimediaWwwSearch, .pressed⟩, ⟨keyRightAlt, .pressed⟩, ⟨0, .none⟩, ⟨0, .none⟩,
  ⟨keyRightControl, .pressed⟩, ⟨keyMultimediaPreviousTrack, .pressed⟩, ⟨0, .none⟩, ⟨0, .none⟩,
  ⟨keyMultimediaWwwFavourites, .pressed⟩, ⟨0, .none⟩, ⟨0, .none⟩, ⟨0, .none⟩,
  ⟨0, .none⟩, ⟨0, .none⟩, ⟨0, .none⟩, ⟨keyLeftSuper, .pressed⟩,
  ⟨keyMultimediaWwwRefresh, .pressed⟩, ⟨keyMultimediaVolumeDown, .pressed⟩,
    ⟨0, .none⟩, ⟨keyMultimediaMute, .pressed⟩,
  ⟨0, .none⟩, ⟨0, .none⟩, ⟨0, .none⟩, ⟨keyRightSuper, .pressed⟩,
  ⟨keyMultimediaWwwStop, .pressed⟩, ⟨0, .none⟩, ⟨0, .none⟩, ⟨keyMultimediaCalculator, .pressed⟩,
  ⟨0, .none⟩, ⟨0, .none⟩, ⟨0, .none⟩, ⟨keyMenu, .pressed⟩,
  ⟨keyMultimediaWwwForward, .pressed⟩, ⟨0, .none⟩, ⟨keyMultimediaVolumeUp, .pressed⟩, ⟨0, .none⟩,
  ⟨keyMultimediaPlayPause, .pressed⟩, ⟨0, .none⟩, ⟨0, .none⟩, ⟨keyAcpiPower, .pressed⟩,
  ⟨keyMultimediaWwwBack, .pressed⟩, ⟨0, .none⟩,
    ⟨keyMultimediaWwwHome, .pressed⟩, ⟨keyMultimediaStop, .pressed⟩,
  ⟨0, .none⟩, ⟨0, .none⟩, ⟨0, .none⟩, ⟨keyAcpiSleep, .pressed⟩,
  ⟨keyMultimediaMyComputer, .pressed⟩, ⟨0, .none⟩, ⟨0, .none⟩, ⟨0, .none⟩,
  ⟨0, .none⟩, ⟨0, .none⟩, ⟨0, .none⟩, ⟨0, .none⟩,
  ⟨keyMultimediaEmail, .pressed⟩, ⟨0, .none⟩, ⟨keySlash, .pressed⟩, ⟨0, .none⟩,
  ⟨0, .none⟩, ⟨keyMultimediaNextTrack, .pressed⟩, ⟨0, .none⟩, ⟨0, .none⟩,
  ⟨keyMultimediaMediaSelect, .pressed⟩, ⟨0, .none⟩, ⟨0, .none⟩, ⟨0, .none⟩,
  ⟨0, .none⟩, ⟨0, .none⟩, ⟨0, .none⟩, ⟨0, .none⟩,
  ⟨0, .none⟩, ⟨0, .none⟩, ⟨keyKeypadEnter, .pressed⟩, ⟨0, .none⟩,
  ⟨0, .none⟩, ⟨0, .none⟩, ⟨0, .none⟩, ⟨0, .none⟩,
  ⟨0, .none⟩, ⟨0, .none⟩, ⟨0, .none⟩, ⟨0, .none⟩,
  ⟨0, .none⟩, ⟨0, .none⟩, ⟨keyAcpiWake, .pressed⟩, ⟨0, .none⟩,
  ⟨0, .none⟩, ⟨keyEnd, .pressed⟩, ⟨0, .none⟩, ⟨keyLeft, .pressed⟩,
  ⟨keyHome, .pressed⟩, ⟨0, .none⟩, ⟨0, .none⟩, ⟨0, .none⟩,
  ⟨keyInsert, .pressed⟩, ⟨keyDelete, .pressed⟩, ⟨keyDown, .pressed⟩, ⟨0, .none⟩,
  ⟨keyRight, .pressed⟩, ⟨keyUp, .pressed⟩, ⟨0, .none⟩, ⟨0, .none⟩,
  ⟨0, .none⟩, ⟨0, .none⟩, ⟨keyPageDown, .pressed⟩, ⟨0, .none⟩,
  ⟨0, .none⟩, ⟨keyPageUp, .pressed⟩, ⟨keyControlBreak, .pressed⟩]

def scanCode2TwoBytesReleaseSet : List PS2KeyboardMapKey := [
  ⟨0, .none⟩, ⟨0, .none⟩, ⟨0, .none⟩, ⟨0, .none⟩,
  ⟨0, .none⟩, ⟨0, .none⟩, ⟨0, .none⟩, ⟨0, .none⟩,
  ⟨0, .none⟩, ⟨0, .none⟩, ⟨0, .none⟩, ⟨0, .none⟩,
  ⟨0, .none⟩, ⟨0, .none⟩, ⟨0, .none⟩, ⟨0, .none⟩,
  ⟨keyMultimediaWwwSearch, .released⟩, ⟨keyRightAlt, .released⟩, ⟨0, .none⟩, ⟨0, .none⟩,
  ⟨keyRightControl, .released⟩, ⟨keyMultimediaPreviousTrack, .released⟩, ⟨0, .none⟩, ⟨0, .none⟩,
  ⟨keyMultimediaWwwFavourites, .released⟩, ⟨0, .none⟩, ⟨0, .none⟩, ⟨0, .none⟩,
  ⟨0, .none⟩, ⟨0, .none⟩, ⟨0, .none⟩, ⟨keyLeftSuper, .released⟩,
  ⟨keyMultimediaWwwRefresh, .released⟩, ⟨keyMultimediaVolumeDown, .released⟩,
    ⟨0, .none⟩, ⟨keyMultimediaMute, .released⟩,
  ⟨0, .none⟩, ⟨0, .none⟩, ⟨0, .none⟩, ⟨keyRightSuper, .released⟩,
  ⟨keyMultimediaWwwStop, .released⟩, ⟨0, .none⟩, ⟨0, .none⟩, ⟨keyMultimediaCalculator, .released⟩,
  ⟨0, .none⟩, ⟨0, .none⟩, ⟨0, .none⟩, ⟨keyMenu, .released⟩,
  ⟨keyMultimediaWwwForward, .released⟩, ⟨0, .none⟩,
    ⟨keyMultimediaVolumeUp, .released⟩, ⟨0, .none⟩,
  ⟨keyMultimediaPlayPause, .released⟩, ⟨0, .none⟩, ⟨0, .none⟩, ⟨keyAcpiPower, .released⟩,
  ⟨keyMultimediaWwwBack, .released⟩, ⟨0, .none⟩,
    ⟨keyMultimediaWwwHome, .released⟩, ⟨keyMultimediaStop, .released⟩,
  ⟨0, .none⟩, ⟨0, .none⟩, ⟨0, .none⟩, ⟨keyAcpiSleep, .released⟩,
  ⟨keyMultimediaMyComputer, .released⟩, ⟨0, .none⟩, ⟨0, .none⟩, ⟨0, .none⟩,
  ⟨0, .none⟩, ⟨0, .none⟩, ⟨0, .none⟩, ⟨0, .none⟩,
  ⟨keyMultimediaEmail, .released⟩, ⟨0, .none⟩, ⟨keySlash, .released⟩, ⟨0, .none⟩,
  ⟨0, .none⟩, ⟨keyMultimediaNextTrack, .released⟩, ⟨0, .none⟩, ⟨0, .none⟩,
  ⟨keyMultimediaMediaSelect, .released⟩, ⟨0, .none⟩, ⟨0, .none⟩, ⟨0, .none⟩,
  ⟨0, .none⟩, ⟨0, .none⟩, ⟨0, .none⟩, ⟨0, .none⟩,
  ⟨0, .none⟩, ⟨0, .none⟩, ⟨keyKeypadEnter, .released⟩, ⟨0, .none⟩,
  ⟨0, .none⟩, ⟨0, .none⟩, ⟨0, .none⟩, ⟨0, .none⟩,
  ⟨0, .none⟩, ⟨0, .none⟩, ⟨0, .none⟩, ⟨0, .none⟩,
  ⟨0, .none⟩, ⟨0, .none⟩, ⟨keyAcpiWake, .released⟩, ⟨0, .none⟩,
  ⟨0, .none⟩, ⟨keyEnd, .released⟩, ⟨0, .none⟩, ⟨keyLeft, .released⟩,
  ⟨keyHome, .released⟩, ⟨0, .none⟩, ⟨0, .none⟩, ⟨0, .none⟩,
  ⟨keyInsert, .released⟩, ⟨keyDelete, .released⟩, ⟨keyDown, .released⟩, ⟨0, .none⟩,
  ⟨keyRight, .released⟩, ⟨keyUp, .released⟩, ⟨0, .none⟩, ⟨0, .none⟩,
  ⟨0, .none⟩, ⟨0, .none⟩, ⟨keyPageDown, .released⟩, ⟨0, .none⟩,
  ⟨0, .none⟩, ⟨keyPageUp, .released⟩, ⟨keyControlBreak, .released⟩]

def scanCode2Level2PrtScnReleaseSequence : PS2KeyboardSpecialSequence where
  key := ⟨keyPrintScreen, .released⟩
  pSequence := [0x7C, 0xE0, 0xF0, 0x12]
  sequenceLength := 4

def scanCode2Level1PrtScnPressedSequence : PS2KeyboardSpecialSequence where
  key := ⟨keyPrintScreen, .pressed⟩
  pSequence := [0x12, 0xE0, 0x7C]
  sequenceLength := 3

def scanCode2PauseSequence : PS2KeyboardSpecialSequence where
  key := ⟨keyPause, .pressedReleased⟩
  pSequence := [0xE1, 0x14, 0x77, 0xE1, 0xF0, 0x14, 0xF0, 0x77]
  sequenceLength := 8

/-- The only element of `g_scanCode2Level2SubTables`: codes behind `E0 F0`. -/
def scanCode2Level2SubTable : PS2KeyboardScanCodes where
  pKeysPerByte := scanCode2TwoBytesReleaseSet
  numKeysPerByte := 127
  pByteExtendedScanCodes := []
  pByteExtendCodes := []
  numByteExtendCodes := 0
  pSpecialSequences := [scanCode2Level2PrtScnReleaseSequence]
  numSpecialSequences := 1

/-- First element of `g_scanCode2Level1SubTables`: codes behind `E0`. -/
def scanCode2Level1ExtendedSubTable : PS2KeyboardScanCodes where
  pKeysPerByte := scanCode2TwoBytesSet
  numKeysPerByte := 127
  pByteExtendedScanCodes := [scanCode2Level2SubTable]
  pByteExtendCodes := [0xF0]
  numByteExtendCodes := 1
  pSpecialSequences := [scanCode2Level1PrtScnPressedSequence]
  numSpecialSequences := 1

/-- Second element of `g_scanCode2Level1SubTables`: codes behind `F0`. -/
def scanCode2Level1ReleaseSubTable : PS2KeyboardScanCodes where
  pKeysPerByte := scanCode2SingleByteReleaseSet
  numKeysPerByte := 133
  pByteExtendedScanCodes := []
  pByteExtendCodes := []
  numByteExtendCodes := 0
  pSpecialSequences := []
  numSpecialSequences := 0

def scanCode2SetGlobal : PS2KeyboardScanCodes where
  pKeysPerByte := scanCode2SingleByteSet
  numKeysPerByte := 133
  pByteExtendedScanCodes := [scanCode2Level1ExtendedSubTable, scanCode2Level1ReleaseSubTable]
  pByteExtendCodes := [0xE0, 0xF0]
  numByteExtendCodes := 2
  pSpecialSequences := [scanCode2PauseSequence]
  numSpecialSequences := 1

end ScanCodes

end Keyboard
end DexprOS
