import DexprOS.Library.Dialogue

/-!
# The PS/2 controller's driver

`PS2ControllerDriver.c` as a program that reads and writes ports.

Main facts:
* `safe_initialisePS2Controller`: the initialisation keeps to the handshake of the controller;
* `initialisePS2Controller_handshake`: so it does whatever the controller replies.
-/

namespace DexprOS
namespace PS2Controller

open Conversation Fuel

section Driver

inductive PortCall where
  | inb (port : UInt16)
  | outb (value : UInt8) (port : UInt16)
deriving DecidableEq, Repr

abbrev Driver := Dialogue PortCall UInt8 Empty

def inb (port : UInt16) : Driver UInt8 :=
  .ask (.inb port)

def outb (value : UInt8) (port : UInt16) : Driver Unit := do
  let _ ← (.ask (.outb value port) : Driver UInt8)
  return ()

def dataPort : UInt16 := 0x60
/-- `DEXPROS_PS2C_COMMAND_PORT`, which is also the status port. -/
def commandPort : UInt16 := 0x64

def enablePort1Command : UInt8 := 0xAE
def disablePort1Command : UInt8 := 0xAD
def enablePort2Command : UInt8 := 0xA8
def disablePort2Command : UInt8 := 0xA7
def testPort1Command : UInt8 := 0xAB
def testPort2Command : UInt8 := 0xA9
def selftestCommand : UInt8 := 0xAA
def selftestPassed : UInt8 := 0x55
def portTestPassed : UInt8 := 0x0
def readConfigByteCommand : UInt8 := 0x20
def writeConfigByteCommand : UInt8 := 0x60
def dataReadReadyBit : UInt8 := 0x1
def writeWaitBit : UInt8 := 0x2
def configPort1InterruptBit : UInt8 := 0x1
def configPort2InterruptBit : UInt8 := 0x2
def configPort2ClockDisabledBit : UInt8 := 0x20
def configPortTranslationBit : UInt8 := 0x40

/-- The loops that read the status until it is right. -/
def awaitStatus (wait : UInt8 → Bool) (fuel : Nat) : Driver Unit :=
  .loop (fun _ => do
    let statusByte ← inb commandPort
    return if wait statusByte then .again () else .leave ()) fuel ()

def mustWait (statusByte : UInt8) : Bool :=
  statusByte &&& writeWaitBit == writeWaitBit

def notReady (statusByte : UInt8) : Bool :=
  statusByte &&& dataReadReadyBit != dataReadReadyBit

/-- A command that is answered with a byte, as the functions below write it out. -/
def ask (command : UInt8) (fuel : Nat) : Driver UInt8 := do
  awaitStatus mustWait fuel
  outb command commandPort
  awaitStatus notReady fuel
  inb dataPort

/-- `ReadConfigurationByte` -/
def readConfigurationByte (fuel : Nat) : Driver UInt8 :=
  ask readConfigByteCommand fuel

/-- `WriteConfigurationByte` -/
def writeConfigurationByte (value : UInt8) (fuel : Nat) : Driver Unit := do
  awaitStatus mustWait fuel
  outb writeConfigByteCommand commandPort
  awaitStatus mustWait fuel
  outb value dataPort

/-- The text that `DexprOS_KernelPanic` shows; it does not return. -/
abbrev Panic := String

def selfTestFailed : Panic := "Boot error: PS/2 controller self-test failed"

def noWorkingPorts : Panic := "Boot: couldn't initialise PS/2 controller: no working ports"

/-- `PerformPS2SelfTest`; whether the test has passed. -/
def performPS2SelfTest (fuel : Nat) : Driver Bool := do
  let selfTestResult ← ask selftestCommand fuel
  return selfTestResult == selftestPassed

/-- The test of one port in `TestPS2Ports`. -/
def testPS2Port (command : UInt8) (fuel : Nat) : Driver Bool := do
  let portTestResult ← ask command fuel
  return portTestResult == portTestPassed

/-- `TestPS2Ports` -/
def testPS2Ports (hasSecondPort : Bool) (fuel : Nat) : Driver (Bool × Bool) := do
  let firstPortWorking ← testPS2Port testPort1Command fuel
  if hasSecondPort then
    let secondPortWorking ← testPS2Port testPort2Command fuel
    return (firstPortWorking, secondPortWorking)
  else
    return (firstPortWorking, false)

/-- `WritePS2Command` -/
def writePS2Command (command : UInt8) (fuel : Nat) : Driver Unit := do
  awaitStatus mustWait fuel
  outb command commandPort

structure PS2ControllerInitResult where
  hasKeyboard : Bool
  hasMouse : Bool
deriving DecidableEq, Repr

def bitIf (b : Bool) (bit : UInt8) : UInt8 :=
  if b then bit else 0

/-- The second channel is there if its clock can be switched on. -/
def querySecondPort (hasSecondPort : Bool) (fuel : Nat) : Driver Bool := do
  if hasSecondPort then
    writePS2Command enablePort2Command fuel
    let configByte ← readConfigurationByte fuel
    if configByte &&& configPort2ClockDisabledBit == 0 then
      writePS2Command disablePort2Command fuel
      return true
    else
      return false
  else
    return false

def writePS2CommandIf (b : Bool) (command : UInt8) (fuel : Nat) : Driver Unit :=
  if b then writePS2Command command fuel else return ()

/-- The end of the initialisation: the working ports are enabled. -/
def enablePorts (firstPortWorking secondPortWorking : Bool) (fuel : Nat) : Driver Unit := do
  writePS2CommandIf firstPortWorking enablePort1Command fuel
  writePS2CommandIf secondPortWorking enablePort2Command fuel
  let configByte ← readConfigurationByte fuel
  writeConfigurationByte
    (configByte ||| bitIf firstPortWorking configPort1InterruptBit |||
      bitIf secondPortWorking configPort2InterruptBit) fuel

/-- `DexprOS_InitialisePS2Controller` -/
def initialisePS2Controller (fuel : Nat) : Driver (Except Panic PS2ControllerInitResult) := do
  writePS2Command disablePort1Command fuel
  writePS2Command disablePort2Command fuel
  let _ ← inb dataPort
  let configByte ← readConfigurationByte fuel
  let hasSecondPort :=
    configByte &&& configPort2ClockDisabledBit == configPort2ClockDisabledBit
  let configByte := configByte &&& ~~~configPort1InterruptBit &&& ~~~configPort2InterruptBit &&&
    ~~~configPortTranslationBit
  writeConfigurationByte configByte fuel
  if !(← performPS2SelfTest fuel) then
    return .error selfTestFailed
  writeConfigurationByte configByte fuel
  let hasSecondPort ← querySecondPort hasSecondPort fuel
  let (firstPortWorking, secondPortWorking) ← testPS2Ports hasSecondPort fuel
  if !firstPortWorking && !secondPortWorking then
    return .error noWorkingPorts
  enablePorts firstPortWorking secondPortWorking fuel
  return .ok ⟨firstPortWorking, secondPortWorking⟩

end Driver

section Handshake

/-- What the driver knows of the controller from what it read and wrote. -/
structure Handshake where
  writable : Bool
  readable : Bool
  discarded : Bool
deriving DecidableEq, Repr

def Handshake.start : Handshake :=
  ⟨false, false, false⟩

/-- The ports of the controller are written only if the last status said that it takes a byte,
and no byte was written since.  The data port is read only if the last status said that there is
a byte, but for the first time, which empties it. -/
def Handshake.Permits (w : Handshake) : PortCall → Prop
  | .inb port => port = commandPort ∨ port = dataPort ∧ (w.readable = true ∨ w.discarded = false)
  | .outb _ port => (port = commandPort ∨ port = dataPort) ∧ w.writable = true

def Handshake.next (w : Handshake) : PortCall → UInt8 → Handshake
  | .inb port, reply =>
      if port = commandPort then
        { w with writable := !mustWait reply, readable := !notReady reply }
      else { w with readable := false, discarded := true }
  | .outb _ _, _ => { w with writable := false, readable := false }

/-- The handshake, with a controller that may reply what it likes. -/
def handshake : Contract PortCall UInt8 Empty Handshake where
  allowsCall := Handshake.Permits
  allowsNote := fun _ n => n.elim
  expects := fun _ _ => True
  apply := Handshake.next

variable {w : Handshake} {d : Bool} {fuel : Nat} {port : UInt16}

/-- The loops leave with what the last status said. -/
theorem safe_awaitStatus
    {wait : UInt8 → Bool} {post : Handshake → Prop}
    (hpost : ∀ status, wait status = false → post ⟨!mustWait status, !notReady status, d⟩)
    (hw : w.discarded = d) :
    handshake.Safe (fun _ => post) (awaitStatus wait fuel) w := by
  refine safe_loop (fun _ w => w.discarded = d) (fun _ w hw => ?_) fuel hw
  refine (safe_ask (fun status w => w = ⟨!mustWait status, !notReady status, d⟩) (Or.inl rfl)
    fun status _ => ?_).bind ?_
  · subst hw
    rfl
  · rintro status w rfl
    refine safe_pure ?_
    cases hwait : wait status with
    | true => rfl
    | false => exact hpost status hwait

theorem safe_awaitWritable
    (hw : w.discarded = d) :
    handshake.Safe (fun _ w => w.discarded = d ∧ w.writable = true)
      (awaitStatus mustWait fuel) w := by
  refine safe_awaitStatus ?_ hw
  intro status hstatus
  simp [hstatus]

theorem safe_awaitReadable
    (hw : w.discarded = d) :
    handshake.Safe (fun _ w => w.discarded = d ∧ w.readable = true)
      (awaitStatus notReady fuel) w := by
  refine safe_awaitStatus ?_ hw
  intro status hstatus
  simp [hstatus]

theorem safe_outb
    (value : UInt8) (hport : port = commandPort ∨ port = dataPort)
    (hw : w.discarded = d ∧ w.writable = true) :
    handshake.Safe (fun _ w => w.discarded = d) (outb value port) w := by
  have hask : handshake.Safe (fun _ w => w.discarded = d) (.ask (.outb value port)) w :=
    safe_ask _ ⟨hport, hw.2⟩ fun _ _ => hw.1
  exact hask.bind fun _ _ hw => safe_pure hw

theorem safe_inb
    (hw : w.readable = true ∨ w.discarded = false) :
    handshake.Safe (fun _ w => w.discarded = true) (inb dataPort) w :=
  safe_ask (fun _ (w : Handshake) => w.discarded = true) (Or.inr ⟨rfl, hw⟩) fun _ _ => rfl

theorem safe_writePS2Command
    (command : UInt8) (hw : w.discarded = d) :
    handshake.Safe (fun _ w => w.discarded = d) (writePS2Command command fuel) w :=
  (safe_awaitWritable hw).bind fun _ _ hw => safe_outb command (Or.inl rfl) hw

theorem safe_asking
    (command : UInt8) (hw : w.discarded = d) :
    handshake.Safe (fun _ w => w.discarded = true) (ask command fuel) w :=
  (safe_awaitWritable hw).bind fun _ _ hw => (safe_outb command (Or.inl rfl) hw).bind
    fun _ _ hw => (safe_awaitReadable hw).bind fun _ _ hw => safe_inb (Or.inl hw.2)

theorem safe_writeConfigurationByte
    (value : UInt8) (hw : w.discarded = d) :
    handshake.Safe (fun _ w => w.discarded = d) (writeConfigurationByte value fuel) w :=
  (safe_awaitWritable hw).bind fun _ _ hw => (safe_outb _ (Or.inl rfl) hw).bind
    fun _ _ hw => (safe_awaitWritable hw).bind fun _ _ hw => safe_outb value (Or.inr rfl) hw

theorem safe_querySecondPort
    (hasSecondPort : Bool) (hw : w.discarded = true) :
    handshake.Safe (fun _ w => w.discarded = true) (querySecondPort hasSecondPort fuel) w := by
  cases hasSecondPort with
  | false => exact safe_pure hw
  | true =>
      refine (safe_writePS2Command _ hw).bind fun _ w hw => ?_
      refine (safe_asking readConfigByteCommand hw).bind fun configByte w hw => ?_
      split
      · exact (safe_writePS2Command _ hw).bind fun _ _ hw => safe_pure hw
      · exact safe_pure hw

theorem safe_testPS2Ports
    (hasSecondPort : Bool) (hw : w.discarded = true) :
    handshake.Safe (fun _ w => w.discarded = true) (testPS2Ports hasSecondPort fuel) w := by
  have htest : ∀ command {w : Handshake}, w.discarded = true →
      handshake.Safe (fun _ w => w.discarded = true) (testPS2Port command fuel) w :=
    fun command _ hw => (safe_asking command hw).bind fun _ _ hw => safe_pure hw
  refine (htest testPort1Command hw).bind fun firstPortWorking w hw => ?_
  cases hasSecondPort with
  | false => exact safe_pure hw
  | true => exact (htest testPort2Command hw).bind fun _ _ hw => safe_pure hw

theorem safe_writePS2CommandIf
    (b : Bool) (command : UInt8) (hw : w.discarded = d) :
    handshake.Safe (fun _ w => w.discarded = d) (writePS2CommandIf b command fuel) w := by
  cases b with
  | false => exact safe_pure hw
  | true => exact safe_writePS2Command command hw

theorem safe_enablePorts
    (firstPortWorking secondPortWorking : Bool) (hw : w.discarded = true) :
    handshake.Safe (fun _ w => w.discarded = true)
      (enablePorts firstPortWorking secondPortWorking fuel) w := by
  refine (safe_writePS2CommandIf firstPortWorking enablePort1Command hw).bind fun _ w hw => ?_
  refine (safe_writePS2CommandIf secondPortWorking enablePort2Command hw).bind fun _ w hw => ?_
  refine (safe_asking readConfigByteCommand hw).bind fun configByte w hw => ?_
  exact safe_writeConfigurationByte _ hw

theorem safe_initialisePS2Controller :
    handshake.Safe (fun _ w => w.discarded = true) (initialisePS2Controller fuel) .start := by
  refine (safe_writePS2Command (d := false) _ rfl).bind fun _ w hw => ?_
  refine (safe_writePS2Command _ hw).bind fun _ w hw => ?_
  refine (safe_inb (Or.inr hw)).bind fun _ w hw => ?_
  refine (safe_asking readConfigByteCommand hw).bind fun configByte w hw => ?_
  refine (safe_writeConfigurationByte _ hw).bind fun _ w hw => ?_
  have htest : handshake.Safe (fun _ w => w.discarded = true) (performPS2SelfTest fuel) w :=
    (safe_asking selftestCommand hw).bind fun _ _ hw => safe_pure hw
  refine htest.bind fun passed w hw => ?_
  cases passed with
  | false => exact safe_pure hw
  | true =>
      refine (safe_writeConfigurationByte _ hw).bind fun _ w hw => ?_
      refine (safe_querySecondPort _ hw).bind fun hasSecondPort w hw => ?_
      refine (safe_testPS2Ports hasSecondPort hw).bind fun working w hw => ?_
      obtain ⟨firstPortWorking, secondPortWorking⟩ := working
      dsimp only
      split
      · exact safe_pure hw
      · refine (safe_enablePorts _ _ hw).bind fun _ w hw => ?_
        exact safe_pure hw

/-- Whatever the controller replies and however long it takes, the driver writes a byte only after
the controller said that it takes one, and reads a byte only after the controller said that there
is one, but for the first read, with which it empties the port; and it touches no other port. -/
theorem initialisePS2Controller_handshake
    (fuel : Nat) (replies : List UInt8) (before rest : List (Event PortCall UInt8 Empty))
    (c : PortCall) (reply : UInt8)
    (htrace : (initialisePS2Controller fuel).trace replies = before ++ .called c reply :: rest) :
    (before.foldl handshake.after .start).Permits c :=
  safe_initialisePS2Controller.allows_of_trace_eq htrace fun e _ => by
    cases e with
    | called c reply => trivial
    | noted n => trivial

/-- The controller lets the driver wait for its first write, then the data port is emptied, and
the configuration byte is asked for. -/
theorem initialisePS2Controller_handshake_emptied :
    let before : List (Event PortCall UInt8 Empty) :=
      [.called (.inb commandPort) 2, .called (.inb commandPort) 0,
        .called (.outb disablePort1Command commandPort) 0, .called (.inb commandPort) 0,
        .called (.outb disablePort2Command commandPort) 0]
    let behind : List (Event PortCall UInt8 Empty) :=
      [.called (.inb dataPort) 0xFA, .called (.inb commandPort) 2, .called (.inb commandPort) 0]
    (before.foldl handshake.after .start).Permits (.inb dataPort) ∧
      ((before ++ behind).foldl handshake.after .start).Permits
        (.outb readConfigByteCommand commandPort) :=
  ⟨initialisePS2Controller_handshake 2 [2, 0, 0, 0, 0, 0xFA] _ [] _ 0xFA rfl,
    initialisePS2Controller_handshake 2 [2, 0, 0, 0, 0, 0xFA, 2, 0, 0] _ [] _ 0 rfl⟩

end Handshake

end PS2Controller
end DexprOS
