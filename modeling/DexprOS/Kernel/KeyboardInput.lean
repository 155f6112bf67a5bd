import Mathlib.Tactic.Common

/-!
# Keyboard input

Key identifiers and key states of the kernel, from `KeyboardInput.h`.
-/

namespace DexprOS
namespace Kernel

section KeyboardInput

abbrev KeyID := UInt16

inductive KeyState where
  | released
  | pressed
  | repeated
deriving DecidableEq, Repr

def key0 : KeyID := 48
def key1 : KeyID := 49
def key2 : KeyID := 50
def key3 : KeyID := 51
def key4 : KeyID := 52
def key5 : KeyID := 53
def key6 : KeyID := 54
def key7 : KeyID := 55
def key8 : KeyID := 56
def key9 : KeyID := 57
def keyA : KeyID := 65
def keyB : KeyID := 66
def keyC : KeyID := 67
def keyD : KeyID := 68
def keyE : KeyID := 69
def keyF : KeyID := 70
def keyG : KeyID := 71
def keyH : KeyID := 72
def keyI : KeyID := 73
def keyJ : KeyID := 74
def keyK : KeyID := 75
def keyL : KeyID := 76
def keyM : KeyID := 77
def keyN : KeyID := 78
def keyO : KeyID := 79
def keyP : KeyID := 80
def keyQ : KeyID := 81
def keyR : KeyID := 82
def keyS : KeyID := 83
def keyT : KeyID := 84
def keyU : KeyID := 85
def keyV : KeyID := 86
def keyW : KeyID := 87
def keyX : KeyID := 88
def keyY : KeyID := 89
def keyZ : KeyID := 90
def keySpace : KeyID := 32
def keyMinus : KeyID := 45
def keyEqual : KeyID := 61
def keyLeftBracket : KeyID := 91
def keyRightBracket : KeyID := 93
def keySemicolon : KeyID := 59
def keyApostrophe : KeyID := 39
def keyComma : KeyID := 44
def keyPeriod : KeyID := 46
def keySlash : KeyID := 47
def keyBackslash : KeyID := 92
def keyGraveAccent : KeyID := 96
def keyDelete : KeyID := 127
def keyTab : KeyID := 256
def keyCapsLock : KeyID := 257
def keyScrollLock : KeyID := 258
def keyNumLock : KeyID := 259
def keyLeftShift : KeyID := 260
def keyLeftControl : KeyID := 261
def keyLeftSuper : KeyID := 262
def keyLeftAlt : KeyID := 263
def keyMenu : KeyID := 265
def keyEnter : KeyID := 266
def keyBackspace : KeyID := 267
def keyEscape : KeyID := 268
def keyRightAlt : KeyID := 400
def keyRightSuper : KeyID := 401
def keyRightControl : KeyID := 402
def keyRightShift : KeyID := 403
def keyF1 : KeyID := 271
def keyF2 : KeyID := 272
def keyF3 : KeyID := 273
def keyF4 : KeyID := 274
def keyF5 : KeyID := 275
def keyF6 : KeyID := 276
def keyF7 : KeyID := 277
def keyF8 : KeyID := 278
def keyF9 : KeyID := 279
def keyF10 : KeyID := 280
def keyF11 : KeyID := 281
def keyF12 : KeyID := 282
def keyPrintScreen : KeyID := 297
def keyPause : KeyID := 298
def keyHome : KeyID := 299
def keyPageUp : KeyID := 300
def keyPageDown : KeyID := 301
def keyEnd : KeyID := 302
def keyInsert : KeyID := 303
def keyLeft : KeyID := 304
def keyRight : KeyID := 305
def keyUp : KeyID := 306
def keyDown : KeyID := 307
def keyAltSysrq : KeyID := 308
def keyControlBreak : KeyID := 309
def keyKeypad0 : KeyID := 310
def keyKeypad1 : KeyID := 311
def keyKeypad2 : KeyID := 312
def keyKeypad3 : KeyID := 313
def keyKeypad4 : KeyID := 314
def keyKeypad5 : KeyID := 315
def keyKeypad6 : KeyID := 316
def keyKeypad7 : KeyID := 317
def keyKeypad8 : KeyID := 318
def keyKeypad9 : KeyID := 319
def keyKeypadDecimal : KeyID := 320
def keyKeypadDevide : KeyID := 321
def keyKeypadMultiply : KeyID := 322
def keyKeypadSubstract : KeyID := 323
def keyKeypadAdd : KeyID := 324
def keyKeypadEnter : KeyID := 325
def keyKeypadEqual : KeyID := 326
def keyAcpiPower : KeyID := 327
def keyAcpiSleep : KeyID := 328
def keyAcpiWake : KeyID := 329
def keyMultimediaWwwSearch : KeyID := 330
def keyMultimediaWwwFavourites : KeyID := 331
def keyMultimediaWwwRefresh : KeyID := 332
def keyMultimediaWwwStop : KeyID := 333
def keyMultimediaWwwForward : KeyID := 334
def keyMultimediaWwwBack : KeyID := 335
def keyMultimediaWwwHome : KeyID := 336
def keyMultimediaMyComputer : KeyID := 337
def keyMultimediaEmail : KeyID := 338
def keyMultimediaCalculator : KeyID := 339
def keyMultimediaVolumeDown : KeyID := 340
def keyMultimediaVolumeUp : KeyID := 341
def keyMultimediaMute : KeyID := 342
def keyMultimediaPreviousTrack : KeyID := 343
def keyMultimediaNextTrack : KeyID := 344
def keyMultimediaPlayPause : KeyID := 345
def keyMultimediaStop : KeyID := 346
def keyMultimediaMediaSelect : KeyID := 347
def keyMax : KeyID := 512

end KeyboardInput

end Kernel
end DexprOS
