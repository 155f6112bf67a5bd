import DexprOS.Drivers.Keyboard.PS2KeyboardScanCodes
import Mathlib.Logic.Function.Basic

/-!
# The PS/2 keyboard driver

The driver of `PS2KeyboardDriver.c`: its command queue, the interpretation of scan
codes and what they do to the key states, the lock keys and the shell.

`Machine` is the driver's state with what surrounds it: the bytes that went out
through the data port and the calls that were made into the shell.  It also records
the history of the command queue and of the key states, which no function reads.

The controller's status port is polled until a byte can be written; the model starts
after that wait.
-/

namespace DexprOS
namespace Keyboard

open Kernel

section Constants

def keyDetectionError0 : UInt8 := 0x0
def keyDetectionError1 : UInt8 := 0xFF
def selfTestPassed : UInt8 := 0xAA
def selfTestFailed0 : UInt8 := 0xFC
def selfTestFailed1 : UInt8 := 0xFD
def echo : UInt8 := 0xEE
def commandAcknowledged : UInt8 := 0xFA
def resendRequest : UInt8 := 0xFE

def resetCommand : UInt8 := 0xFF
def setScanCodeSetCommand : UInt8 := 0xF0
def setTypematicByteCommand : UInt8 := 0xF3
def enableScanningCommand : UInt8 := 0xF4
def repeatDelay500msRate30Hz : UInt8 := 0x20

def setLedStatesCommand : UInt8 := 0xED
def scrollLockLedBit : UInt8 := 0x1
def numberLockLedBit : UInt8 := 0x2
def capsLockLedBit : UInt8 := 0x4

def maxCmdBufferSize : Nat := 16
def maxCmdResends : Nat := 3

end Constants

section KeyToUnicode

inductive KeyToUnicodeConversionType where
  | invalid
  | capsLockAffected
  | capsLockUnaffected
  | numberpad
  | enter
deriving DecidableEq, Repr

structure KeyToUnicodeEntry where
  conversionType : KeyToUnicodeConversionType
  standardCode : UInt32
  upperCaseCode : UInt32
  altGrCode : UInt32
  altGrUpperCaseCode : UInt32

abbrev KeyToUnicodeTable := KeyID → KeyToUnicodeEntry

end KeyToUnicode

section State

inductive PS2KeyboardListeningMode where
  | tableCharacterLookup
  | byteSequence
deriving DecidableEq, Repr

inductive PS2KeyboardCommandState where
  | free
  | executing
  | waitingForResponse
deriving DecidableEq, Repr

structure PS2KeyboardState where
  commandBuffer : Nat → UInt8
  commandDataBuffer : Nat → UInt8
  commandBufferSize : Nat
  numCommandResends : Nat
  currentCommandState : PS2KeyboardCommandState
  listeningMode : PS2KeyboardListeningMode
  pGlobalScanCodeSetTable : Option PS2KeyboardScanCodes
  pCurrentSubScanCodeSetTable : Option PS2KeyboardScanCodes
  pCurrentSpecialSequence : Option PS2KeyboardSpecialSequence
  specialSequenceByteIndex : Nat
  keyStates : KeyID → KeyState
  capsLockActive : Bool
  numLockActive : Bool
  scrollLockActive : Bool
  capsLockJustActivated : Bool
  numLockJustActivated : Bool
  scrollLockJustActivated : Bool
  anyShiftActive : Bool
  anyControlActive : Bool
  leftAltActive : Bool
  rightAltActive : Bool
  pUnicodeTable : Option KeyToUnicodeTable

/-- `g_PS2KeyboardState`, initialised with zeros. -/
def zeroPS2KeyboardState : PS2KeyboardState where
  commandBuffer := fun _ => 0
  commandDataBuffer := fun _ => 0
  commandBufferSize := 0
  numCommandResends := 0
  currentCommandState := .free
  listeningMode := .tableCharacterLookup
  pGlobalScanCodeSetTable := none
  pCurrentSubScanCodeSetTable := none
  pCurrentSpecialSequence := none
  specialSequenceByteIndex := 0
  keyStates := fun _ => .released
  capsLockActive := false
  numLockActive := false
  scrollLockActive := false
  capsLockJustActivated := false
  numLockJustActivated := false
  scrollLockJustActivated := false
  anyShiftActive := false
  anyControlActive := false
  leftAltActive := false
  rightAltActive := false
  pUnicodeTable := none

structure KeyboardCommand where
  command : UInt8
  data : UInt8
deriving DecidableEq, Repr

/-- A call into the shell. -/
inductive ShellCall where
  | keyEvent (keyID : KeyID) (state : KeyState)
  | characterEvent (codepoint : UInt32)
deriving DecidableEq, Repr

/-- The driver's state, the data port and the shell's calls, with the history: every
pushed command with whether it found room, every command that was written to the port,
every one that left the queue, and every key that changed the key states. -/
structure Machine where
  state : PS2KeyboardState
  dataPort : List UInt8
  shell : List ShellCall
  pushed : List (KeyboardCommand × Bool)
  executed : List KeyboardCommand
  completed : List KeyboardCommand
  applied : List PS2KeyboardMapKey

/-- Commands that `PushPS2KeyboardCommand` took into the queue. -/
def Machine.accepted (m : Machine) : List KeyboardCommand :=
  (m.pushed.filter (·.2)).map (·.1)

/-- Contents of the command buffer, the head first. -/
def PS2KeyboardState.commands (s : PS2KeyboardState) : List KeyboardCommand :=
  (List.range s.commandBufferSize).map fun i =>
    ⟨s.commandBuffer i, s.commandDataBuffer i⟩

end State

section CommandQueue

/-- The commands whose data byte is written behind them. -/
def consumesData (command : UInt8) : Bool :=
  command == setLedStatesCommand || command == setScanCodeSetCommand ||
    command == setTypematicByteCommand || command == 0xFB || command == 0xFC || command == 0xFD

/-- What goes out through the data port for a command. -/
def KeyboardCommand.bytes (c : KeyboardCommand) : List UInt8 :=
  if consumesData c.command then [c.command, c.data] else [c.command]

def PS2KeyboardState.headCommand (s : PS2KeyboardState) : KeyboardCommand :=
  ⟨s.commandBuffer 0, s.commandDataBuffer 0⟩

def executePS2KeyboardCommand (m : Machine) : Machine :=
  { m with
    state := { m.state with currentCommandState := .waitingForResponse }
    dataPort := m.dataPort ++ m.state.headCommand.bytes
    executed := m.executed ++ [m.state.headCommand] }

def PS2KeyboardState.storeCommand (command data : UInt8) (s : PS2KeyboardState) :
    PS2KeyboardState :=
  { s with
    commandBuffer := Function.update s.commandBuffer s.commandBufferSize command
    commandDataBuffer := Function.update s.commandDataBuffer s.commandBufferSize data
    commandBufferSize := s.commandBufferSize + 1 }

def pushPS2KeyboardCommand (command data : UInt8) (m : Machine) : Machine :=
  if m.state.commandBufferSize = maxCmdBufferSize then
    { m with pushed := m.pushed ++ [(⟨command, data⟩, false)] }
  else
    let m' : Machine :=
      { m with
        state := m.state.storeCommand command data
        pushed := m.pushed ++ [(⟨command, data⟩, true)] }
    if m'.state.currentCommandState = .free then executePS2KeyboardCommand m' else m'

/-- One step of the loop that moves the queue forward by one place. -/
def shiftCommand (s : PS2KeyboardState) (i : Nat) : PS2KeyboardState :=
  { s with
    commandBuffer := Function.update s.commandBuffer (i - 1) (s.commandBuffer i)
    commandDataBuffer := Function.update s.commandDataBuffer (i - 1) (s.commandDataBuffer i) }

def PS2KeyboardState.shiftCommands (s : PS2KeyboardState) : PS2KeyboardState :=
  (List.range' 1 (s.commandBufferSize - 1)).foldl shiftCommand s

def PS2KeyboardState.dropCommand (s : PS2KeyboardState) : PS2KeyboardState :=
  if s.commandBufferSize > 0 then { s with commandBufferSize := s.commandBufferSize - 1 } else s

def PS2KeyboardState.freeCommand (s : PS2KeyboardState) : PS2KeyboardState :=
  { s with currentCommandState := .free, numCommandResends := 0 }

def nextPS2KeyboardCommand (m : Machine) : Machine :=
  let m' : Machine :=
    { m with
      state := m.state.freeCommand.shiftCommands.dropCommand
      completed := m.completed ++ m.state.commands.head?.toList }
  if m'.state.commandBufferSize > 0 then executePS2KeyboardCommand m' else m'

def onPS2KeyboardCommandAcknowledged (m : Machine) : Machine :=
  if m.state.currentCommandState = .waitingForResponse then nextPS2KeyboardCommand m else m

def resendPS2KeyboardCommand (m : Machine) : Machine :=
  if m.state.commandBufferSize > 0 ∧ m.state.currentCommandState = .waitingForResponse then
    if m.state.numCommandResends < maxCmdResends then
      let m' := executePS2KeyboardCommand m
      { m' with
        state := { m'.state with numCommandResends := m'.state.numCommandResends + 1 } }
    else nextPS2KeyboardCommand m
  else m

/-- The data byte of `SET_LED_STATES` for the present locks. -/
def indicatorLEDs (s : PS2KeyboardState) : UInt8 :=
  let data : UInt8 := 0
  let data := if s.scrollLockActive then data ||| scrollLockLedBit else data
  let data := if s.numLockActive then data ||| numberLockLedBit else data
  if s.capsLockActive then data ||| capsLockLedBit else data

def updatePS2KeyboardIndicatorLEDs (m : Machine) : Machine :=
  pushPS2KeyboardCommand setLedStatesCommand (indicatorLEDs m.state) m

def initialisePS2Keyboard (m : Machine) : Machine :=
  let m := pushPS2KeyboardCommand setScanCodeSetCommand 2 m
  let m := pushPS2KeyboardCommand setTypematicByteCommand repeatDelay500msRate30Hz m
  let m := pushPS2KeyboardCommand enableScanningCommand 0 m
  updatePS2KeyboardIndicatorLEDs m

def initialisePS2KeyboardDriver (pLayoutTable : Option KeyToUnicodeTable) (m : Machine) :
    Machine :=
  pushPS2KeyboardCommand resetCommand 0
    { m with
      state :=
        { m.state with
          commandBufferSize := 0
          currentCommandState := .free
          listeningMode := .tableCharacterLookup
          pGlobalScanCodeSetTable := some scanCode2SetGlobal
          pCurrentSubScanCodeSetTable := some scanCode2SetGlobal
          pCurrentSpecialSequence := none
          specialSequenceByteIndex := 0
          keyStates := fun key => if key < keyMax then .released else m.state.keyStates key
          capsLockActive := false
          numLockActive := false
          scrollLockActive := false
          capsLockJustActivated := false
          numLockJustActivated := false
          scrollLockJustActivated := false
          anyShiftActive := false
          anyControlActive := false
          leftAltActive := false
          rightAltActive := false
          pUnicodeTable := pLayoutTable } }

/-- The machine when the kernel has initialised the driver. -/
def initialMachine (pLayoutTable : Option KeyToUnicodeTable) : Machine :=
  initialisePS2KeyboardDriver pLayoutTable ⟨zeroPS2KeyboardState, [], [], [], [], [], []⟩

end CommandQueue

section Decoding

inductive PS2KeyboardCodeProcessResult where
  | failure
  | decodedToKey
  | partiallyDecoded
deriving DecidableEq, Repr

/-- The keys that have a state. -/
def isKey (keyID : KeyID) : Bool :=
  0 < keyID && keyID < keyMax

def keyResult (key : PS2KeyboardMapKey) : PS2KeyboardCodeProcessResult :=
  if isKey key.keyID then .decodedToKey else .failure

/-- First table that the code leads to from this one. -/
def PS2KeyboardScanCodes.extended (t : PS2KeyboardScanCodes) (code : UInt8) :
    Option PS2KeyboardScanCodes :=
  (List.range t.numByteExtendCodes.toNat).findSome? fun i =>
    if t.pByteExtendCodes[i]? = some code then t.pByteExtendedScanCodes[i]? else none

/-- First non-empty special sequence of the table that starts with the code. -/
def PS2KeyboardScanCodes.special (t : PS2KeyboardScanCodes) (code : UInt8) :
    Option PS2KeyboardSpecialSequence :=
  (List.range t.numSpecialSequences.toNat).findSome? fun i =>
    t.pSpecialSequences[i]?.filter fun q =>
      0 < q.sequenceLength && q.pSequence[0]? = some code

/-- The table's key for the code; without one the caller's `{0, NONE}` stays. -/
def PS2KeyboardScanCodes.lookup (t : PS2KeyboardScanCodes) (code : UInt8) :
    PS2KeyboardMapKey :=
  if code < t.numKeysPerByte then t.pKeysPerByte[code.toNat]?.getD ⟨0, .none⟩ else ⟨0, .none⟩

def processPS2KCodeByLookup (code : UInt8) (s : PS2KeyboardState) :
    PS2KeyboardState × PS2KeyboardCodeProcessResult × PS2KeyboardMapKey :=
  match s.pCurrentSubScanCodeSetTable with
  | none => (s, .failure, ⟨0, .none⟩)
  | some t =>
      match t.extended code with
      | some t' =>
          ({ s with pCurrentSubScanCodeSetTable := some t' }, .partiallyDecoded, ⟨0, .none⟩)
      | none =>
          match t.special code with
          | some q =>
              if q.sequenceLength > 1 then
                ({ s with
                    listeningMode := .byteSequence
                    pCurrentSpecialSequence := some q
                    specialSequenceByteIndex := 1 }, .partiallyDecoded, ⟨0, .none⟩)
              else (s, keyResult q.key, q.key)
          | none => (s, keyResult (t.lookup code), t.lookup code)

def processPS2KByteSequenceCode (code : UInt8) (s : PS2KeyboardState) :
    PS2KeyboardState × PS2KeyboardCodeProcessResult × PS2KeyboardMapKey :=
  match s.pCurrentSpecialSequence with
  | none => (s, .failure, ⟨0, .none⟩)
  | some q =>
      let seqIndex := s.specialSequenceByteIndex
      if q.pSequence[seqIndex]? ≠ some code then (s, .failure, ⟨0, .none⟩)
      else if seqIndex + 1 = q.sequenceLength.toNat then (s, keyResult q.key, q.key)
      else
        ({ s with specialSequenceByteIndex := s.specialSequenceByteIndex + 1 },
          .partiallyDecoded, ⟨0, .none⟩)

/-- The decoding half of the interrupt handler: the next state, and the key unless
the code is rejected.  A code that is part of a longer one gives key 0. -/
def decodeCode (code : UInt8) (s : PS2KeyboardState) :
    PS2KeyboardState × Option PS2KeyboardMapKey :=
  let r :=
    match s.listeningMode with
    | .tableCharacterLookup => processPS2KCodeByLookup code s
    | .byteSequence => processPS2KByteSequenceCode code s
  let s' :=
    if r.2.1 = .decodedToKey ∨ r.2.1 = .failure then
      { r.1 with
        listeningMode := .tableCharacterLookup
        pCurrentSubScanCodeSetTable := r.1.pGlobalScanCodeSetTable }
    else r.1
  (s', if r.2.1 = .failure then none else some r.2.2)

end Decoding

section KeyStates

/-- The keys that switch a lock. -/
inductive PS2KLock where
  | caps
  | num
  | scroll
deriving DecidableEq, Repr

def PS2KLock.key : PS2KLock → KeyID
  | caps => keyCapsLock
  | num => keyNumLock
  | scroll => keyScrollLock

def PS2KeyboardState.lockActive (s : PS2KeyboardState) : PS2KLock → Bool
  | .caps => s.capsLockActive
  | .num => s.numLockActive
  | .scroll => s.scrollLockActive

def PS2KeyboardState.lockJustActivated (s : PS2KeyboardState) : PS2KLock → Bool
  | .caps => s.capsLockJustActivated
  | .num => s.numLockJustActivated
  | .scroll => s.scrollLockJustActivated

def PS2KeyboardState.setLockActive (s : PS2KeyboardState) (b : Bool) :
    PS2KLock → PS2KeyboardState
  | .caps => { s with capsLockActive := b }
  | .num => { s with numLockActive := b }
  | .scroll => { s with scrollLockActive := b }

def PS2KeyboardState.setLockJustActivated (s : PS2KeyboardState) (b : Bool) :
    PS2KLock → PS2KeyboardState
  | .caps => { s with capsLockJustActivated := b }
  | .num => { s with numLockJustActivated := b }
  | .scroll => { s with scrollLockJustActivated := b }

/-- The common body of the three `SwitchPS2K*Lock` functions. -/
def switchPS2KLock (l : PS2KLock) (m : Machine) : Machine :=
  if m.state.lockActive l then
    if m.state.keyStates l.key = .released then
      if !m.state.lockJustActivated l then
        updatePS2KeyboardIndicatorLEDs { m with state := m.state.setLockActive false l }
      else { m with state := m.state.setLockJustActivated false l }
    else m
  else
    if m.state.keyStates l.key = .pressed then
      updatePS2KeyboardIndicatorLEDs
        { m with state := (m.state.setLockActive true l).setLockJustActivated true l }
    else m

def switchPS2KCapsLock : Machine → Machine :=
  switchPS2KLock .caps

def switchPS2KNumLock : Machine → Machine :=
  switchPS2KLock .num

def switchPS2KScrollLock : Machine → Machine :=
  switchPS2KLock .scroll

/-- What a key's action makes of its state. -/
def keyStateAfter (old : KeyState) : PS2KeyboardKeyAction → KeyState
  | .pressed =>
      match old with
      | .pressed => .repeated
      | .released => .pressed
      | .repeated => .repeated
  | .released => .released
  | .pressedReleased => .released
  | .none => old

def updatePS2KeyboardKeyState (key : PS2KeyboardMapKey) (s : PS2KeyboardState) :
    PS2KeyboardState :=
  { s with
    keyStates :=
      Function.update s.keyStates key.keyID
        (keyStateAfter (s.keyStates key.keyID) key.keyAction) }

def updatePS2KeyboardModifierState (keyID : KeyID) (m : Machine) : Machine :=
  if keyID = keyCapsLock then switchPS2KCapsLock m
  else if keyID = keyNumLock then switchPS2KNumLock m
  else if keyID = keyScrollLock then switchPS2KScrollLock m
  else if keyID = keyLeftShift ∨ keyID = keyRightShift then
    { m with
      state :=
        { m.state with
          anyShiftActive :=
            m.state.keyStates keyLeftShift ≠ .released ∨
              m.state.keyStates keyRightShift ≠ .released } }
  else if keyID = keyLeftControl ∨ keyID = keyRightControl then
    { m with
      state :=
        { m.state with
          anyControlActive :=
            m.state.keyStates keyLeftControl ≠ .released ∨
              m.state.keyStates keyRightControl ≠ .released } }
  else if keyID = keyLeftAlt then
    { m with
      state := { m.state with leftAltActive := m.state.keyStates keyLeftAlt ≠ .released } }
  else if keyID = keyRightAlt then
    { m with
      state := { m.state with rightAltActive := m.state.keyStates keyRightAlt ≠ .released } }
  else m

/-- Codepoint of an entry's two alternatives with and without AltGr. -/
def altGrCodepoint (s : PS2KeyboardState) (plain altGr : UInt32) : UInt32 :=
  if s.rightAltActive then altGr else plain

/-- Codepoint of a key that is held down; 0 if it gives none. -/
def keyCodepoint (s : PS2KeyboardState) (e : KeyToUnicodeEntry) : UInt32 :=
  let upper := altGrCodepoint s e.upperCaseCode e.altGrUpperCaseCode
  let lower := altGrCodepoint s e.standardCode e.altGrCode
  let shortcut := s.anyControlActive || s.leftAltActive
  match e.conversionType with
  | .invalid => 0
  | .capsLockAffected =>
      if shortcut then 0 else if xor s.anyShiftActive s.capsLockActive then upper else lower
  | .capsLockUnaffected =>
      if shortcut then 0 else if s.anyShiftActive then upper else lower
  | .numberpad =>
      if shortcut then 0 else if s.numLockActive then e.standardCode else 0
  | .enter => e.standardCode

def processKeyToUnicodeCharacter (keyID : KeyID) (m : Machine) : Machine :=
  match m.state.pUnicodeTable with
  | none => m
  | some table =>
      if keyID = 0 ∨ keyID > keyMax then m
      else if m.state.keyStates keyID = .pressed ∨ m.state.keyStates keyID = .repeated then
        let codepoint := keyCodepoint m.state (table keyID)
        if codepoint ≠ 0 then { m with shell := m.shell ++ [.characterEvent codepoint] } else m
      else m

/-- What the handler does with a decoded key, key 0 included. -/
def applyKey (key : PS2KeyboardMapKey) (m : Machine) : Machine :=
  let m :=
    { m with
      state := updatePS2KeyboardKeyState key m.state
      applied := m.applied ++ [key] }
  let m := updatePS2KeyboardModifierState key.keyID m
  let m := { m with shell := m.shell ++ [.keyEvent key.keyID (m.state.keyStates key.keyID)] }
  processKeyToUnicodeCharacter key.keyID m

end KeyStates

section Interrupt

/-- Bytes that the handler does not take for scan codes. -/
def isResponse (code : UInt8) : Bool :=
  code == keyDetectionError0 || code == keyDetectionError1 || code == selfTestPassed ||
    code == selfTestFailed0 || code == selfTestFailed1 || code == echo ||
    code == commandAcknowledged || code == resendRequest

def processPS2KeyboardInterrupt (code : UInt8) (m : Machine) : Machine :=
  if code = keyDetectionError0 ∨ code = keyDetectionError1 then m
  else if code = selfTestPassed then initialisePS2Keyboard m
  else if code = selfTestFailed0 ∨ code = selfTestFailed1 then initialisePS2Keyboard m
  else if code = echo then m
  else if code = commandAcknowledged then onPS2KeyboardCommandAcknowledged m
  else if code = resendRequest then resendPS2KeyboardCommand m
  else
    let r := decodeCode code m.state
    let m := { m with state := r.1 }
    match r.2 with
    | none => m
    | some key => applyKey key m

/-- The machine after an interrupt for each of the bytes. -/
def runInterrupts (bytes : List UInt8) (m : Machine) : Machine :=
  bytes.foldl (fun m code => processPS2KeyboardInterrupt code m) m

end Interrupt

end Keyboard
end DexprOS
