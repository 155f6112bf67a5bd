import DexprOS.Kernel.BuiltInBitmapFont
import DexprOS.Kernel.KeyboardInput
import DexprOS.Library.RingLog

/-!
# The shell

The text console of `Shell.c`: the ring of characters that are displayed, the layout of
its lines on the screen, the command line and the built-in commands.

What the shell does through the graphics driver and the firmware is recorded in the
state as a list of calls.
-/

namespace DexprOS
namespace Shell

open Kernel Graphics

section State

def numMaxDisplayCharacters : Nat := 65536
def numMaxCommandCharacters : Nat := 256

/-- Arguments of the firmware's `ResetSystem`. -/
inductive ResetType where
  | shutdown
  | warm
deriving DecidableEq, Repr

structure ShellState where
  onScreenCharacters : Nat → UInt32
  displayCharacters : Nat → UInt32
  displayRingBufferStart : Nat
  displayRingBufferEnd : Nat
  firstDisplayChar : Nat
  outputCursorX : Int
  outputCursorY : Int
  commandCharacters : Nat → UInt32
  numCommandCharacters : Nat
  commandPromptEnabled : Bool
  currentLine : Nat
  consoleWidth : UInt32
  numLines : Nat
  promptText : List UInt8
  backgroundColor : GrGraphicsColor
  graphics : List GraphicsCall
  resets : List ResetType

/-- The bytes of a text of the source. -/
def text (s : String) : List UInt8 :=
  s.toList.map fun c => c.toNat.toUInt8

def ShellState.call (calls : List GraphicsCall) (s : ShellState) : ShellState :=
  { s with graphics := s.graphics ++ calls }

def createShell (font : BitmapFont) (consoleWidth consoleHeight : UInt32) : ShellState :=
  let numLines := (consoleHeight / builtInBitmapFontGetLineHeight font).toNat
  let backgroundColor : GrGraphicsColor := ⟨0, 128, 128⟩
  { onScreenCharacters := fun _ => 0
    displayCharacters := fun _ => 0
    displayRingBufferStart := 0
    displayRingBufferEnd := 0
    firstDisplayChar := 0
    outputCursorX := 0
    outputCursorY := 0
    commandCharacters := fun _ => 0
    numCommandCharacters := 0
    commandPromptEnabled := false
    currentLine := 0
    consoleWidth := consoleWidth
    numLines := if numLines > 1 then numLines - 1 else 1
    promptText := text "DexprOS # "
    backgroundColor := backgroundColor
    graphics := [.clearScreen backgroundColor, .swapBuffers]
    resets := [] }

end State

section DisplayRing

/-- The step that the three output functions repeat for each character.  They keep the
start and the end of the ring in local variables, and write `firstDisplayChar` at
once. -/
def storeDisplayChar (r : ShellState × Nat × Nat) (character : UInt32) :
    ShellState × Nat × Nat :=
  let bufferStart := r.2.1
  let currentChar := (r.2.2 + 1) % numMaxDisplayCharacters
  ({ r.1 with
      displayCharacters := Function.update r.1.displayCharacters r.2.2 character
      firstDisplayChar :=
        if currentChar = r.1.firstDisplayChar then
          (r.1.firstDisplayChar + 1) % numMaxDisplayCharacters
        else r.1.firstDisplayChar },
    if currentChar = bufferStart then (bufferStart + 1) % numMaxDisplayCharacters
    else bufferStart,
    currentChar)

def storeDisplayChars (characters : List UInt32) (s : ShellState) : ShellState :=
  let r := characters.foldl storeDisplayChar (s, s.displayRingBufferStart, s.displayRingBufferEnd)
  { r.1 with displayRingBufferStart := r.2.1, displayRingBufferEnd := r.2.2 }

def shellPutChar (character : UInt32) (s : ShellState) : ShellState :=
  if character = 0 then s else storeDisplayChars [character] s

/-- `(DexprOS_Shell_Char)` of a `char`, which is signed. -/
def toShellChar (c : UInt8) : UInt32 :=
  c.toInt8.toInt32.toUInt32

/-- The characters of `msg` before its terminator. -/
def messageCharacters (msg : List UInt8) : List UInt32 :=
  (msg.takeWhile (· ≠ 0)).map toShellChar

/-- `msg` is `none` for a null pointer. -/
def shellPuts (msg : Option (List UInt8)) (s : ShellState) : ShellState :=
  match msg with
  | none => s
  | some msg => storeDisplayChars (messageCharacters msg) s

def shellPutsUTF32 (msg : Option (List UInt32)) (s : ShellState) : ShellState :=
  match msg with
  | none => s
  | some msg => storeDisplayChars (msg.takeWhile (· ≠ 0)) s

def shellDeleteLastDisplayChar (s : ShellState) : ShellState :=
  if s.displayRingBufferStart = s.displayRingBufferEnd then s
  else if s.displayRingBufferEnd = 0 then
    { s with displayRingBufferEnd := numMaxDisplayCharacters - 1 }
  else { s with displayRingBufferEnd := s.displayRingBufferEnd - 1 }

end DisplayRing

section Layout

variable (font : BitmapFont)

/-- A glyph does not fit behind the cursor; the width is compared as an `int`. -/
def ShellState.overflows (s : ShellState) (cursorX advanceX : Int) : Bool :=
  cursorX + advanceX > s.consoleWidth.toInt32.toInt

/-- Cursor and calls of `DexprOS_ShellResetText` after one more character. -/
def resetTextStep (s : ShellState) (r : Int × Int × List GraphicsCall) (character : UInt32) :
    Int × Int × List GraphicsCall :=
  let lineHeight : Int := (builtInBitmapFontGetLineHeight font).toNat
  if character = 10 then (0, r.2.1 + lineHeight, r.2.2)
  else
    let metrics := builtInBitmapFontGetGlyphMetrics font character
    let cursor :=
      if s.overflows r.1 metrics.advanceX then (0, r.2.1 + lineHeight) else (r.1, r.2.1)
    let clearRegion : GrImageRegion :=
      { x := Int32.ofInt (cursor.1 + metrics.offsetX)
        y := Int32.ofInt (cursor.2 + metrics.offsetY)
        width := metrics.width
        height := metrics.height }
    (cursor.1 + metrics.advanceX, cursor.2,
      r.2.2 ++ [.clearScreenRegions [clearRegion] s.backgroundColor])

/-- Characters on the screen, up to the first null character. -/
def ShellState.onScreen (s : ShellState) : List UInt32 :=
  ((List.range numMaxDisplayCharacters).map s.onScreenCharacters).takeWhile (· ≠ 0)

def shellResetText (s : ShellState) : ShellState :=
  let r := s.onScreen.foldl (resetTextStep font s) (0, 0, [])
  { s.call r.2.2 with onScreenCharacters := fun _ => 0 }

/-- The characters that the loops from `firstChar` to `endChar` walk over. -/
def displayIndices (firstChar endChar : Nat) : List Nat :=
  Ring.indices numMaxDisplayCharacters firstChar endChar

/-- Lines and cursor of `DexprOS_ShellGetNumOverflowLines` after one more character. -/
def overflowLinesStep (s : ShellState) (r : Nat × Int) (i : Nat) : Nat × Int :=
  let character := s.displayCharacters i
  let advanceX := builtInBitmapFontGetGlyphAdvanceX font character
  if character = 10 then (r.1 + 1, 0)
  else if s.overflows r.2 advanceX then (r.1 + 1, advanceX)
  else (r.1, r.2 + advanceX)

def shellGetNumOverflowLines (s : ShellState) : Nat :=
  let r := (displayIndices s.firstDisplayChar s.displayRingBufferEnd).foldl
    (overflowLinesStep font s) (0, 0)
  if r.1 ≥ s.numLines then r.1 - s.numLines + 1 else 0

/-- The loop of `DexprOS_ShellScrollDisplay` over the indices that are left; it gives
the index at which the loop ends. -/
def scrollDisplayLoop (s : ShellState) (numLines : Nat) : List Nat → Nat → Int → Nat
  | [], _, _ => s.displayRingBufferEnd
  | i :: rest, numPlacedLines, cursorX =>
      if numPlacedLines = numLines then i
      else
        let character := s.displayCharacters i
        if character = 10 then scrollDisplayLoop s numLines rest (numPlacedLines + 1) 0
        else
          let advanceX := builtInBitmapFontGetGlyphAdvanceX font character
          if s.overflows cursorX advanceX then
            scrollDisplayLoop s numLines rest (numPlacedLines + 1) advanceX
          else scrollDisplayLoop s numLines rest numPlacedLines (cursorX + advanceX)

def shellScrollDisplay (numLines : Nat) (s : ShellState) : ShellState :=
  { s with
    firstDisplayChar :=
      scrollDisplayLoop font s numLines
        (displayIndices s.firstDisplayChar s.displayRingBufferEnd) 0 0 }

/-- The loop of `DexprOS_ShellSetText` over the indices that are left. -/
def setTextLoop : List Nat → Nat → ShellState → ShellState
  | [], _, s => s
  | i :: rest, onScreenIndex, s =>
      if s.currentLine = s.numLines then s
      else
        let lineHeight : Int := (builtInBitmapFontGetLineHeight font).toNat
        let character := s.displayCharacters i
        let s' :=
          if onScreenIndex < numMaxDisplayCharacters then
            { s with
              onScreenCharacters :=
                Function.update s.onScreenCharacters onScreenIndex character }
          else s
        let onScreenIndex' :=
          if onScreenIndex < numMaxDisplayCharacters then onScreenIndex + 1 else onScreenIndex
        let newLine (s : ShellState) : ShellState :=
          { s with
            outputCursorX := 0
            outputCursorY := s.outputCursorY + lineHeight
            currentLine := s.currentLine + 1 }
        if character = 10 then setTextLoop rest onScreenIndex' (newLine s')
        else
          let advanceX := builtInBitmapFontGetGlyphAdvanceX font character
          let s' := if s'.overflows s'.outputCursorX advanceX then newLine s' else s'
          let calls :=
            builtInBitmapFontDrawGlyph font character s'.outputCursorX s'.outputCursorY
          setTextLoop rest onScreenIndex'
            { s'.call calls with outputCursorX := s'.outputCursorX + advanceX }

def shellSetText (firstChar endChar : Nat) (s : ShellState) : ShellState :=
  setTextLoop font (displayIndices firstChar endChar) 0
    { s with outputCursorX := 0, outputCursorY := 0, currentLine := 0 }

def shellFlushStdOut (s : ShellState) : ShellState :=
  let numLinesToScroll := shellGetNumOverflowLines font s
  let s := shellResetText font s
  let s := shellScrollDisplay font numLinesToScroll s
  let s := shellSetText font s.firstDisplayChar s.displayRingBufferEnd s
  s.call [.swapBuffers]

end Layout

section Commands

variable (font : BitmapFont)

def shellEcho (arg : List UInt32) (s : ShellState) : ShellState :=
  shellPutChar 10 (arg.foldl (fun s character => shellPutChar character s) s)

def shellClear (_arg : List UInt32) (s : ShellState) : ShellState :=
  let s := shellResetText font { s with commandPromptEnabled := false }
  { s with
    displayRingBufferStart := 0
    displayRingBufferEnd := 0
    firstDisplayChar := 0
    outputCursorX := 0
    outputCursorY := 0
    currentLine := 0
    commandPromptEnabled := true }

def helpMessage : List UInt8 :=
  text ("User help menu:\n\n" ++
    "After typing a command and its space-separated arguments (if any), hit Enter to execute.\n" ++
    "Lines starting with '#' are comments and are not interpreted as commands.\n" ++
    "\n" ++
    "List of all available commands:\n" ++
    "help - prints this message\n" ++
    "version - prints the operating system version\n" ++
    "echo [MESSAGE] - prints a given message on the screen\n" ++
    "clear - clears the screen\n" ++
    "shutdown - powers off the computer\n" ++
    "reboot - reboots the computer\n")

def shellHelp (_arg : List UInt32) (s : ShellState) : ShellState :=
  shellPuts (some helpMessage) s

def shellVersion (_arg : List UInt32) (s : ShellState) : ShellState :=
  shellPuts (some (text "DexprOS version: pre-release 0.1.2\n")) s

def shellShutdown (_arg : List UInt32) (s : ShellState) : ShellState :=
  { s with resets := s.resets ++ [.shutdown] }

def shellReboot (_arg : List UInt32) (s : ShellState) : ShellState :=
  { s with resets := s.resets ++ [.warm] }

/-- `g_DexprOS_ShellBuiltInCommands`. -/
def shellBuiltInCommands : List (List UInt8 × (List UInt32 → ShellState → ShellState)) :=
  [(text "echo", shellEcho), (text "clear", shellClear font), (text "help", shellHelp),
    (text "version", shellVersion), (text "shutdown", shellShutdown),
    (text "reboot", shellReboot)]

/-- The space character. -/
def space : UInt32 := 32

/-- The loop of `DexprOS_ShellCheckSingleCommand`; the text ends with its terminator. -/
def shellCheckSingleCommand : List UInt32 → List UInt8 → Bool
  | [], [] => true
  | [], _ :: _ => false
  | c :: _, [] => c == space
  | c :: cs, t :: ts => if toShellChar t ≠ c then false else shellCheckSingleCommand cs ts

def shellExtractArguments (command : List UInt32) : List UInt32 :=
  (command.dropWhile (· ≠ space)).dropWhile (· = space)

def shellInterpretCommand (command : List UInt32) (s : ShellState) : ShellState :=
  match command.dropWhile (· = space) with
  | [] => s
  | c :: cs =>
      if c = 35 then s
      else
        match (shellBuiltInCommands font).find? fun f => shellCheckSingleCommand (c :: cs) f.1 with
        | some f => f.2 (shellExtractArguments (c :: cs)) s
        | none => shellPuts (some (text "Shell error: unknown command.\n")) s

end Commands

section Events

variable (font : BitmapFont)

def shellActivatePrompt (s : ShellState) : ShellState :=
  let s := { s with commandPromptEnabled := true }
  shellFlushStdOut font (shellPuts (some s.promptText) s)

/-- The command line. -/
def ShellState.command (s : ShellState) : List UInt32 :=
  (List.range s.numCommandCharacters).map s.commandCharacters

/-- What Enter does before the flush. -/
def enterCommand (s : ShellState) : ShellState :=
  let s := shellPutChar 10 s
  let s := shellInterpretCommand font s.command s
  let s := { s with commandCharacters := fun _ => 0, numCommandCharacters := 0 }
  shellPuts (some s.promptText) s

/-- What any other character does before the flush. -/
def typeCharacter (codepoint : UInt32) (s : ShellState) : ShellState :=
  shellPutChar codepoint
    { s with
      commandCharacters :=
        Function.update s.commandCharacters s.numCommandCharacters codepoint
      numCommandCharacters := s.numCommandCharacters + 1 }

/-- What backspace does before the flush. -/
def eraseCharacter (s : ShellState) : ShellState :=
  shellDeleteLastDisplayChar
    { s with
      commandCharacters := Function.update s.commandCharacters (s.numCommandCharacters - 1) 0
      numCommandCharacters := s.numCommandCharacters - 1 }

def shellKeyboardCharacterEvent (codepoint : UInt32) (s : ShellState) : ShellState :=
  if !s.commandPromptEnabled then s
  else if codepoint = 10 then shellFlushStdOut font (enterCommand font s)
  else if s.numCommandCharacters = numMaxCommandCharacters then s
  else shellFlushStdOut font (typeCharacter codepoint s)

/-- The event is a backspace that erases a character of the command line. -/
def erases (keyID : KeyID) (state : KeyState) (s : ShellState) : Bool :=
  s.commandPromptEnabled && keyID == keyBackspace &&
    (state == .pressed || state == .repeated) && s.numCommandCharacters != 0

def shellKeyboardKeyEvent (keyID : KeyID) (state : KeyState) (s : ShellState) : ShellState :=
  if erases keyID state s then shellFlushStdOut font (eraseCharacter s) else s

end Events

end Shell
end DexprOS
