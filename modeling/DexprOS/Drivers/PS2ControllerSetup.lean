import DexprOS.Drivers.PS2ControllerDriver
import DexprOS.Library.ServedDialogue
import Mathlib.Data.Nat.Find
import Mathlib.Logic.Function.Iterate
import Mathlib.Tactic.IntervalCases

/-!
# The PS/2 controller, set up

The driver against a controller that takes commands at its own pace.  The devices behind the
controller send nothing while it is set up; a byte that was there before is discarded.

Main facts:
* `yields_awaitStatus`: the loops end if the controller gets on again and again;
* `SettlesTo.write`: what the controller settles to does not depend on its pace;
* `initialisePS2Controller_yields`: the result, and the configuration at the end.
-/

namespace DexprOS
namespace PS2Controller

open Conversation Fuel

section Controller

/-- What is fixed in a controller: whether there is a second channel, and what its tests give. -/
structure Hardware where
  dual : Bool
  selfTest : UInt8
  resetConfig : UInt8
  firstTest : UInt8
  secondTest : UInt8

inductive Input where
  | command (value : UInt8)
  | data (value : UInt8)
deriving DecidableEq, Repr

structure Registers where
  config : UInt8
  awaitsConfig : Bool
  output : Option UInt8
deriving DecidableEq, Repr

/-- The controller, with the byte that it has not taken yet and the one that it works on. -/
structure Controller where
  registers : Registers
  input : Option Input
  working : Option Input
deriving DecidableEq, Repr

variable (hw : Hardware)

/-- What a byte does.  Commands for the second channel do nothing if there is none. -/
def perform (r : Registers) : Input → Registers
  | .data value =>
      if r.awaitsConfig then { r with config := value, awaitsConfig := false } else r
  | .command value =>
      if value = readConfigByteCommand then { r with output := some r.config }
      else if value = writeConfigByteCommand then { r with awaitsConfig := true }
      else if value = selftestCommand then
        { r with output := some hw.selfTest, config := hw.resetConfig }
      else if value = testPort1Command then { r with output := some hw.firstTest }
      else if value = disablePort1Command then { r with config := r.config ||| 0x10 }
      else if value = enablePort1Command then { r with config := r.config &&& ~~~0x10 }
      else if hw.dual then
        if value = testPort2Command then { r with output := some hw.secondTest }
        else if value = disablePort2Command then { r with config := r.config ||| 0x20 }
        else if value = enablePort2Command then { r with config := r.config &&& ~~~0x20 }
        else r
      else r

/-- The controller works on a byte, or takes the next one. -/
def tick (c : Controller) : Controller :=
  match c.working, c.input with
  | some i, input => ⟨perform hw c.registers i, input, none⟩
  | none, some i => ⟨c.registers, none, some i⟩
  | none, none => c

/-- How far the controller gets before each access to a port, and the bits of the status that say
something else. -/
structure Pace where
  ticks : Nat → Nat
  others : Nat → UInt8

variable (pace : Pace)

def Controller.status (c : Controller) (others : UInt8) : UInt8 :=
  (if c.registers.output.isSome then dataReadReadyBit else 0) |||
    (if c.input.isSome then writeWaitBit else 0) ||| (others &&& 0xFC)

def Controller.discard (c : Controller) : Controller :=
  { c with registers := { c.registers with output := none } }

/-- The controller on its ports, with the number of accesses so far. -/
def ports : PortCall → Controller × Nat → UInt8 × (Controller × Nat)
  | .inb port, (c, n) =>
      let c := (tick hw)^[pace.ticks n] c
      if port = dataPort then (c.registers.output.getD 0, (c.discard, n + 1))
      else (c.status (pace.others n), (c, n + 1))
  | .outb value port, (c, n) =>
      let c := (tick hw)^[pace.ticks n] c
      let i := if port = dataPort then Input.data value else .command value
      (0, ({ c with input := some i }, n + 1))

/-- The controller gets on again and again. -/
def Pace.Fair (pace : Pace) : Prop :=
  ∀ n, ∃ d, 0 < pace.ticks (n + d)

end Controller

section Settling

variable {hw : Hardware} {pace : Pace} {c : Controller} {k r : Registers} {i : Input}

/-- The bytes that the controller still has to work on. -/
def Controller.queue (c : Controller) : List Input :=
  c.working.toList ++ c.input.toList

/-- The registers when the controller has worked on all bytes. -/
def settled (hw : Hardware) (c : Controller) : Registers :=
  c.queue.foldl (perform hw) c.registers

/-- There is nothing to read before the last byte has been worked on. -/
def Orderly (hw : Hardware) : List Input → Registers → Prop
  | [], _ => True
  | i :: is, r => r.output = none ∧ Orderly hw is (perform hw r i)

/-- The controller settles to these registers. -/
structure SettlesTo (hw : Hardware) (k : Registers) (c : Controller) : Prop where
  settled : settled hw c = k
  orderly : Orderly hw c.queue c.registers

theorem settled_tick
    (c : Controller) :
    settled hw (tick hw c) = settled hw c := by
  obtain ⟨registers, input, working⟩ := c
  cases working with
  | none => cases input <;> rfl
  | some i => rfl

theorem SettlesTo.tick
    (hc : SettlesTo hw k c) :
    SettlesTo hw k (tick hw c) := by
  refine ⟨(settled_tick c).trans hc.settled, ?_⟩
  have horderly := hc.orderly
  obtain ⟨registers, input, working⟩ := c
  cases working with
  | none => cases input <;> exact horderly
  | some i => exact horderly.2

theorem orderly_append
    {is : List Input} (hr : Orderly hw is r) (hout : (is.foldl (perform hw) r).output = none) :
    Orderly hw (is ++ [i]) r := by
  induction is generalizing r with
  | nil => exact ⟨hout, trivial⟩
  | cons j is ih => exact ⟨hr.1, ih hr.2 hout⟩

/-- A byte is worked on behind everything that came before. -/
theorem SettlesTo.write
    (hc : SettlesTo hw k c) (hinput : c.input = none) (hout : k.output = none) (i : Input) :
    SettlesTo hw (perform hw k i) { c with input := some i } := by
  have hqueue : Controller.queue { c with input := some i } = c.queue ++ [i] := by
    simp [Controller.queue, hinput]
  constructor
  · rw [DexprOS.PS2Controller.settled, hqueue, List.foldl_append]
    exact congrArg (fun r => perform hw r i) hc.settled
  · rw [hqueue]
    refine orderly_append hc.orderly ?_
    exact (congrArg Registers.output hc.settled).trans hout

/-- While there is something to read, the controller has settled. -/
theorem SettlesTo.of_output
    (hc : SettlesTo hw k c) (hout : c.registers.output ≠ none) :
    c = ⟨k, none, none⟩ := by
  obtain ⟨registers, input, working⟩ := c
  have horderly := hc.orderly
  have hsettled := hc.settled
  cases working with
  | none =>
      cases input with
      | none => exact congrArg (fun r => (⟨r, none, none⟩ : Controller)) hsettled
      | some i => exact absurd horderly.1 hout
  | some i => exact absurd horderly.1 hout

theorem settlesTo_quiet
    (k : Registers) :
    SettlesTo hw k ⟨k, none, none⟩ :=
  ⟨rfl, trivial⟩

theorem tick_quiet
    (k : Registers) :
    tick hw ⟨k, none, none⟩ = ⟨k, none, none⟩ :=
  rfl

/-- A property that every tick keeps. -/
theorem ticks_of_tick
    {P : Controller → Prop} (hP : ∀ c, P c → P (tick hw c)) (hc : P c) (n : Nat) :
    P ((tick hw)^[n] c) := by
  induction n with
  | zero => exact hc
  | succ n ih =>
      rw [Function.iterate_succ_apply']
      exact hP _ ih

theorem input_tick
    (hc : c.input = none) :
    (tick hw c).input = none := by
  obtain ⟨registers, input, working⟩ := c
  obtain rfl : input = none := hc
  cases working <;> rfl

/-- Ticks until the controller has worked on all bytes. -/
def Controller.outstanding (c : Controller) : Nat :=
  c.working.toList.length + 2 * c.input.toList.length

theorem outstanding_tick
    (c : Controller) :
    (tick hw c).outstanding = c.outstanding - 1 := by
  obtain ⟨registers, input, working⟩ := c
  cases working with
  | none => cases input <;> rfl
  | some i => simp [tick, Controller.outstanding]

theorem outstanding_ticks
    (n : Nat) (c : Controller) :
    ((tick hw)^[n] c).outstanding = c.outstanding - n := by
  induction n with
  | zero => rfl
  | succ n ih => rw [Function.iterate_succ_apply', outstanding_tick, ih, Nat.sub_sub]

theorem eq_quiet_of_outstanding
    (hc : SettlesTo hw k c) (hzero : c.outstanding = 0) :
    c = ⟨k, none, none⟩ := by
  obtain ⟨registers, input, working⟩ := c
  cases working with
  | none =>
      cases input with
      | none => exact congrArg (fun r => (⟨r, none, none⟩ : Controller)) hc.settled
      | some i => simp [Controller.outstanding] at hzero
  | some i => simp [Controller.outstanding] at hzero

end Settling

section Runs

variable {hw : Hardware} {pace : Pace} {c : Controller} {k : Registers} {n : Nat}

/-- Bits that a mask leaves out do not matter. -/
theorem or_and_of_and_eq_zero
    {x y bit : UInt8} (hy : y &&& bit = 0) :
    (x ||| y) &&& bit = x &&& bit := by
  refine UInt8.eq_of_toBitVec_eq (BitVec.eq_of_getLsbD_eq fun i _ => ?_)
  have hbit := congrArg (fun v : UInt8 => v.toBitVec.getLsbD i) hy
  simp only [UInt8.toBitVec_and, UInt8.toBitVec_or, BitVec.getLsbD_and, BitVec.getLsbD_or] at hbit ⊢
  rw [Bool.and_or_distrib_right, hbit]
  simp

theorem others_and
    {bit : UInt8} (hbit : 0xFC &&& bit = 0) (others : UInt8) :
    others &&& 0xFC &&& bit = 0 := by
  rw [UInt8.and_assoc, hbit, UInt8.and_zero]

theorem mustWait_status
    (c : Controller) (others : UInt8) :
    mustWait (c.status others) = c.input.isSome := by
  rw [mustWait, Controller.status, or_and_of_and_eq_zero (others_and rfl others)]
  cases c.registers.output.isSome <;> cases c.input.isSome <;> rfl

theorem notReady_status
    (c : Controller) (others : UInt8) :
    notReady (c.status others) = c.registers.output.isNone := by
  rw [notReady, Controller.status, or_and_of_and_eq_zero (others_and rfl others)]
  rw [← Option.not_isSome]
  cases c.registers.output.isSome <;> cases c.input.isSome <;> rfl

/-- The controller gets on after so many accesses. -/
theorem Pace.Fair.exists_distance
    (hpace : pace.Fair) :
    ∃ distance : Nat → Nat, ∀ n, pace.ticks n = 0 → distance (n + 1) < distance n := by
  classical
  refine ⟨fun n => Nat.find (hpace n), fun n hn => ?_⟩
  have hfound := Nat.find_spec (hpace n)
  have hpos : Nat.find (hpace n) ≠ 0 := by
    intro hzero
    rw [hzero, Nat.add_zero, hn] at hfound
    exact absurd hfound (Nat.lt_irrefl 0)
  have hnext : Nat.find (hpace (n + 1)) ≤ Nat.find (hpace n) - 1 := by
    refine Nat.find_le ?_
    rwa [Nat.add_assoc, Nat.add_sub_cancel' (by omega)]
  exact Nat.lt_of_le_of_lt hnext (Nat.sub_one_lt hpos)

/-- The loops end when the controller has got on, if it gets on again and again. -/
theorem yields_awaitStatus
    (hpace : pace.Fair) {wait : UInt8 → Bool} {P : Controller → Prop}
    (hP : ∀ c, P c → P (tick hw c))
    (hwait : ∀ c others, P c → wait (c.status others) = true → 0 < c.outstanding) (hc : P c) :
    Yields (ports hw pace) (awaitStatus wait)
      (fun _ s => P s.1 ∧ ∃ others, wait (s.1.status others) = false) (c, n) := by
  obtain ⟨distance, hdistance⟩ := hpace.exists_distance
  refine yields_loop (Prod.lex Nat.lt_wfRel Nat.lt_wfRel).wf
    (fun _ s => (s.1.outstanding, distance s.2)) (fun _ s => P s.1) ?_ hc
  rintro - ⟨c, n⟩ hc
  have hticks : P ((tick hw)^[pace.ticks n] c) := ticks_of_tick hP hc _
  have hserve : (do
        let statusByte ← inb commandPort
        return if wait statusByte then .again () else .leave () : Driver (Pass Unit Unit)).serve
      (ports hw pace) (c, n) =
        some (if wait (((tick hw)^[pace.ticks n] c).status (pace.others n)) then .again ()
          else .leave (), ((tick hw)^[pace.ticks n] c, n + 1)) := rfl
  rw [PassYields, hserve]
  cases hstatus : wait (((tick hw)^[pace.ticks n] c).status (pace.others n)) with
  | false => exact ⟨hticks, _, hstatus⟩
  | true =>
      refine ⟨hticks, ?_⟩
      have hpos := hwait _ _ hticks hstatus
      rw [outstanding_ticks] at hpos
      by_cases hzero : pace.ticks n = 0
      · rw [hzero]
        exact Prod.Lex.right _ (hdistance n hzero)
      · refine Prod.Lex.left _ _ ?_
        show ((tick hw)^[pace.ticks n] c).outstanding < c.outstanding
        rw [outstanding_ticks]
        omega

variable {s : Controller × Nat}

theorem outstanding_of_input
    (hc : c.input.isSome = true) :
    0 < c.outstanding := by
  obtain ⟨i, hi⟩ := Option.isSome_iff_exists.mp hc
  simp [Controller.outstanding, hi]

theorem yields_awaitWritable
    (hpace : pace.Fair) {P : Controller → Prop} (hP : ∀ c, P c → P (tick hw c)) (hs : P s.1) :
    Yields (ports hw pace) (awaitStatus mustWait) (fun _ s => P s.1 ∧ s.1.input = none) s := by
  have hwait : ∀ c others, P c → mustWait (c.status others) = true → 0 < c.outstanding := by
    intro c others _ hc
    rw [mustWait_status] at hc
    exact outstanding_of_input hc
  refine (yields_awaitStatus hpace hP hwait hs).mono ?_
  rintro - s ⟨hs, others, hstatus⟩
  rw [mustWait_status, Option.isSome_eq_false_iff, Option.isNone_iff_eq_none] at hstatus
  exact ⟨hs, hstatus⟩

/-- When there is something to read, the controller has settled. -/
theorem yields_awaitReadable
    (hpace : pace.Fair) (hout : k.output ≠ none) (hs : SettlesTo hw k s.1) :
    Yields (ports hw pace) (awaitStatus notReady) (fun _ s => s.1 = ⟨k, none, none⟩) s := by
  have hwait : ∀ c others, SettlesTo hw k c → notReady (c.status others) = true →
      0 < c.outstanding := by
    intro c others hc hstatus
    rw [notReady_status, Option.isNone_iff_eq_none] at hstatus
    by_contra hzero
    rw [eq_quiet_of_outstanding hc (by omega)] at hstatus
    exact hout hstatus
  refine (yields_awaitStatus hpace (fun _ hc => hc.tick) hwait hs).mono ?_
  rintro - s ⟨hs, others, hstatus⟩
  rw [notReady_status, Option.isNone_eq_false_iff] at hstatus
  exact hs.of_output (Option.isSome_iff_ne_none.mp hstatus)

/-- A byte is written when the controller takes it. -/
theorem yields_outb
    {P Q : Controller → Prop} (hP : ∀ c, P c → P (tick hw c)) {value : UInt8} {port : UInt16}
    (hQ : ∀ c, P c → c.input = none →
      Q { c with input := some (if port = dataPort then .data value else .command value) })
    (hs : P s.1 ∧ s.1.input = none) :
    Yields (ports hw pace) (fun _ => outb value port) (fun _ s => Q s.1) s := by
  obtain ⟨c, n⟩ := s
  have hask : Yields (ports hw pace) (fun _ => (.ask (.outb value port) : Driver UInt8))
      (fun _ s => Q s.1) (c, n) := by
    refine yields_ask (hQ _ (ticks_of_tick hP hs.1 _) ?_)
    exact ticks_of_tick (P := fun c => c.input = none) (fun _ hc => input_tick hc) hs.2 _
  exact hask.bind fun _ _ hs => yields_pure hs

theorem yields_command
    (hout : k.output = none) (command : UInt8)
    (hs : SettlesTo hw k s.1 ∧ s.1.input = none) :
    Yields (ports hw pace) (fun _ => outb command commandPort)
      (fun _ s => SettlesTo hw (perform hw k (.command command)) s.1) s :=
  yields_outb (fun _ hc => hc.tick) (fun _ hc hinput => hc.write hinput hout _) hs

theorem yields_writePS2Command
    (hpace : pace.Fair) (hout : k.output = none) (command : UInt8) (hs : SettlesTo hw k s.1) :
    Yields (ports hw pace) (writePS2Command command)
      (fun _ s => SettlesTo hw (perform hw k (.command command)) s.1) s :=
  (yields_awaitWritable hpace (fun _ hc => hc.tick) hs).bind
    fun _ _ hs => yields_command hout command hs

theorem yields_writeConfigurationByte
    (hpace : pace.Fair) (hout : k.output = none) (value : UInt8) (hs : SettlesTo hw k s.1) :
    Yields (ports hw pace) (writeConfigurationByte value)
      (fun _ s => SettlesTo hw { k with config := value, awaitsConfig := false } s.1) s := by
  refine (yields_awaitWritable hpace (fun _ hc => hc.tick) hs).bind fun _ s hs => ?_
  refine (yields_command hout writeConfigByteCommand hs).bind fun _ s hs => ?_
  refine (yields_awaitWritable hpace (fun _ hc => hc.tick) hs).bind fun _ s hs => ?_
  refine yields_outb (fun _ hc => hc.tick) (fun c hc hinput => ?_) hs
  exact hc.write hinput hout (.data value)

/-- A command that is answered with a byte. -/
theorem yields_asking
    (hpace : pace.Fair) (hout : k.output = none) (command reply : UInt8)
    (hreply : (perform hw k (.command command)).output = some reply)
    (hs : SettlesTo hw k s.1) :
    Yields (ports hw pace) (ask command)
      (fun result s => result = reply ∧
        SettlesTo hw { perform hw k (.command command) with output := none } s.1) s := by
  refine (yields_awaitWritable hpace (fun _ hc => hc.tick) hs).bind fun _ s hs => ?_
  refine (yields_command hout command hs).bind fun _ s hs => ?_
  have hsome : (perform hw k (.command command)).output ≠ none := by simp [hreply]
  refine (yields_awaitReadable hpace hsome hs).bind fun _ s hs => ?_
  obtain ⟨c, n⟩ := s
  obtain rfl : c = ⟨perform hw k (.command command), none, none⟩ := hs
  refine yields_ask ?_
  have hquiet : (tick hw)^[pace.ticks n] ⟨perform hw k (.command command), none, none⟩ =
      ⟨perform hw k (.command command), none, none⟩ := Function.iterate_fixed (tick_quiet _) _
  have hport : ports hw pace (.inb dataPort)
      (⟨perform hw k (.command command), none, none⟩, n) =
        (reply,
          (⟨{ perform hw k (.command command) with output := none }, none, none⟩, n + 1)) := by
    simp only [ports, hquiet, if_pos, hreply, Option.getD_some, Controller.discard]
  rw [hport]
  exact ⟨rfl, settlesTo_quiet _⟩

end Runs

section Draining

variable {hw : Hardware} {pace : Pace} {c : Controller} {k r : Registers} {i : Input}
variable {s : Controller × Nat}

/-- The commands that come before the contents of the data port are discarded. -/
def Input.Disables (i : Input) : Prop :=
  i = .command disablePort1Command ∨ i = .command disablePort2Command

/-- Without what there is to read, the controller settles to these registers. -/
structure Drains (hw : Hardware) (k : Registers) (c : Controller) : Prop where
  disables : ∀ i ∈ c.queue, i.Disables
  settled : settled hw c.discard = k

/-- Disabling a port does not look at what there is to read. -/
theorem perform_of_disables
    (hw : Hardware) (hi : i.Disables) (r : Registers) (output : Option UInt8) :
    perform hw { r with output := output } i = { perform hw r i with output := output } := by
  rcases hi with rfl | rfl
  · rfl
  · cases hdual : hw.dual <;>
      simp [perform, hdual, disablePort2Command, readConfigByteCommand, writeConfigByteCommand,
        selftestCommand, testPort1Command, disablePort1Command, enablePort1Command,
        testPort2Command]

theorem output_of_disables
    (hi : i.Disables) (hr : r.output = none) :
    (perform hw r i).output = none := by
  have hperform := perform_of_disables hw hi r none
  rw [← hr] at hperform
  rw [hperform, hr]

theorem Drains.tick
    (hc : Drains hw k c) :
    Drains hw k (tick hw c) := by
  obtain ⟨hdisables, hsettled⟩ := hc
  obtain ⟨registers, input, working⟩ := c
  cases working with
  | none => cases input <;> exact ⟨hdisables, hsettled⟩
  | some i =>
      refine ⟨fun j hj => hdisables j (List.mem_cons_of_mem i hj), Eq.trans ?_ hsettled⟩
      have hperform := perform_of_disables hw (hdisables i List.mem_cons_self) registers none
      exact congrArg (List.foldl (perform hw) · input.toList) hperform.symm

theorem Drains.write
    (hc : Drains hw k c) (hinput : c.input = none) (hi : i.Disables) :
    Drains hw (perform hw k i) { c with input := some i } := by
  have hqueue : Controller.queue { c with input := some i } = c.queue ++ [i] := by
    simp [Controller.queue, hinput]
  constructor
  · intro j hj
    rw [hqueue] at hj
    rcases List.mem_append.mp hj with hj | hj
    · exact hc.disables j hj
    · rwa [List.mem_singleton.mp hj]
  · rw [← hc.settled]
    refine Eq.trans (congrArg (List.foldl (perform hw) c.discard.registers) hqueue) ?_
    rw [List.foldl_append]
    rfl

theorem orderly_of_disables
    {is : List Input} (his : ∀ i ∈ is, i.Disables) (hr : r.output = none) :
    Orderly hw is r := by
  induction is generalizing r with
  | nil => trivial
  | cons i is ih =>
      refine ⟨hr, ih (fun j hj => his j (List.mem_cons_of_mem i hj)) ?_⟩
      exact output_of_disables (his i List.mem_cons_self) hr

theorem Drains.discard
    (hc : Drains hw k c) :
    SettlesTo hw k c.discard :=
  ⟨hc.settled, orderly_of_disables hc.disables rfl⟩

theorem yields_disable
    (hpace : pace.Fair) {command : UInt8} (hi : (Input.command command).Disables)
    (hs : Drains hw k s.1) :
    Yields (ports hw pace) (writePS2Command command)
      (fun _ s => Drains hw (perform hw k (.command command)) s.1) s :=
  (yields_awaitWritable hpace (fun _ hc => hc.tick) hs).bind fun _ _ hs =>
    yields_outb (fun _ hc => hc.tick) (fun _ hc hinput => hc.write hinput hi) hs

/-- The contents of the data port are discarded. -/
theorem yields_discard
    (hs : Drains hw k s.1) :
    Yields (ports hw pace) (fun _ => inb dataPort) (fun _ s => SettlesTo hw k s.1) s := by
  obtain ⟨c, n⟩ := s
  refine yields_ask ?_
  exact (ticks_of_tick (fun _ hc => Drains.tick hc) hs (pace.ticks n)).discard

end Draining

section Initialisation

variable {hw : Hardware} {pace : Pace} {s : Controller × Nat} {config : UInt8}

/-- Registers with nothing to read. -/
def idle (config : UInt8) : Registers :=
  ⟨config, false, none⟩

/-- Whether the second port works. -/
def Hardware.secondWorks (hw : Hardware) : Bool :=
  hw.dual && hw.secondTest == portTestPassed

def Hardware.firstWorks (hw : Hardware) : Bool :=
  hw.firstTest == portTestPassed

theorem perform_secondPort
    (hw : Hardware) (k : Registers) {command : UInt8}
    (hcommand : command = testPort2Command ∨ command = disablePort2Command ∨
      command = enablePort2Command) :
    perform hw k (.command command) =
      if hw.dual then
        if command = testPort2Command then { k with output := some hw.secondTest }
        else if command = disablePort2Command then { k with config := k.config ||| 0x20 }
        else { k with config := k.config &&& ~~~0x20 }
      else k := by
  rcases hcommand with rfl | rfl | rfl <;> rfl

theorem yields_readConfigurationByte
    (hpace : pace.Fair) (hs : SettlesTo hw (idle config) s.1) :
    Yields (ports hw pace) readConfigurationByte
      (fun result s => result = config ∧ SettlesTo hw (idle config) s.1) s :=
  yields_asking hpace rfl readConfigByteCommand config rfl hs

theorem yields_performPS2SelfTest
    (hpace : pace.Fair) (hs : SettlesTo hw (idle config) s.1) :
    Yields (ports hw pace) performPS2SelfTest
      (fun passed s => passed = (hw.selfTest == selftestPassed) ∧
        SettlesTo hw (idle hw.resetConfig) s.1) s := by
  refine (yields_asking hpace rfl selftestCommand hw.selfTest rfl hs).bind fun _ s hs => ?_
  obtain ⟨rfl, hs⟩ := hs
  exact yields_pure ⟨rfl, hs⟩

theorem yields_writeIdle
    (hpace : pace.Fair) (value : UInt8) (hs : SettlesTo hw (idle config) s.1) :
    Yields (ports hw pace) (writeConfigurationByte value)
      (fun _ s => SettlesTo hw (idle value) s.1) s :=
  yields_writeConfigurationByte hpace rfl value hs

theorem yields_testFirst
    (hpace : pace.Fair) (hs : SettlesTo hw (idle config) s.1) :
    Yields (ports hw pace) (testPS2Port testPort1Command)
      (fun working s => working = hw.firstWorks ∧ SettlesTo hw (idle config) s.1) s := by
  refine (yields_asking hpace rfl testPort1Command hw.firstTest rfl hs).bind fun _ s hs => ?_
  obtain ⟨rfl, hs⟩ := hs
  exact yields_pure ⟨rfl, hs⟩

theorem yields_testSecond
    (hpace : pace.Fair) (hdual : hw.dual = true) (hs : SettlesTo hw (idle config) s.1) :
    Yields (ports hw pace) (testPS2Port testPort2Command)
      (fun working s => working = hw.secondWorks ∧ SettlesTo hw (idle config) s.1) s := by
  have hperform : perform hw (idle config) (.command testPort2Command) =
      { idle config with output := some hw.secondTest } := by
    rw [perform_secondPort hw _ (Or.inl rfl), if_pos hdual, if_pos rfl]
  have hasking := yields_asking hpace rfl testPort2Command hw.secondTest (by rw [hperform]) hs
  rw [hperform] at hasking
  refine hasking.bind fun _ s hs => ?_
  obtain ⟨rfl, hs⟩ := hs
  exact yields_pure ⟨by rw [Hardware.secondWorks, hdual, Bool.true_and], hs⟩

/-- The ports are tested, the second one if there is one. -/
theorem yields_testPS2Ports
    (hpace : pace.Fair) (hs : SettlesTo hw (idle config) s.1) :
    Yields (ports hw pace) (testPS2Ports hw.dual)
      (fun working s => working = (hw.firstWorks, hw.secondWorks) ∧
        SettlesTo hw (idle config) s.1) s := by
  refine (yields_testFirst hpace hs).bind fun _ s hs => ?_
  obtain ⟨rfl, hs⟩ := hs
  cases hdual : hw.dual with
  | false =>
      refine yields_pure ⟨?_, hs⟩
      rw [Hardware.secondWorks, hdual, Bool.false_and]
  | true =>
      refine (yields_testSecond hpace hdual hs).bind fun _ s hs => ?_
      obtain ⟨rfl, hs⟩ := hs
      exact yields_pure ⟨rfl, hs⟩

theorem and_not_and
    (x bit : UInt8) :
    x &&& ~~~bit &&& bit = 0 := by
  rw [UInt8.and_assoc, UInt8.and_comm (~~~bit), UInt8.and_not_self, UInt8.and_zero]

theorem or_and_bit
    (x bit : UInt8) :
    (x ||| bit) &&& bit = bit := by
  refine UInt8.eq_of_toBitVec_eq (BitVec.eq_of_getLsbD_eq fun i _ => ?_)
  rw [UInt8.toBitVec_and, UInt8.toBitVec_or, BitVec.getLsbD_and, BitVec.getLsbD_or]
  cases x.toBitVec.getLsbD i <;> cases bit.toBitVec.getLsbD i <;> rfl

/-- A bit that was set is set again. -/
theorem and_not_or
    {x bit : UInt8} (hx : x &&& bit = bit) :
    x &&& ~~~bit ||| bit = x := by
  refine UInt8.eq_of_toBitVec_eq (BitVec.eq_of_getLsbD_eq fun i hi => ?_)
  have hbit := congrArg (fun v : UInt8 => v.toBitVec.getLsbD i) hx
  simp only [UInt8.toBitVec_and, UInt8.toBitVec_or, UInt8.toBitVec_not, BitVec.getLsbD_and,
    BitVec.getLsbD_or, BitVec.getLsbD_not] at hbit ⊢
  cases hxi : x.toBitVec.getLsbD i <;> cases hbi : bit.toBitVec.getLsbD i <;> simp_all

/-- The second channel is found if it is there. -/
theorem yields_querySecondPort
    (hpace : pace.Fair)
    (hdual : hw.dual = true → config &&& configPort2ClockDisabledBit = configPort2ClockDisabledBit)
    (hs : SettlesTo hw (idle config) s.1) :
    Yields (ports hw pace)
      (querySecondPort (config &&& configPort2ClockDisabledBit == configPort2ClockDisabledBit))
      (fun result s => result = hw.dual ∧ SettlesTo hw (idle config) s.1) s := by
  by_cases hclock : config &&& configPort2ClockDisabledBit = configPort2ClockDisabledBit
  · rw [beq_iff_eq.mpr hclock]
    refine (yields_writePS2Command hpace rfl enablePort2Command hs).bind fun _ s hs => ?_
    rw [perform_secondPort hw _ (Or.inr (Or.inr rfl))] at hs
    cases h : hw.dual with
    | false =>
        rw [h, if_neg Bool.false_ne_true] at hs
        refine (yields_readConfigurationByte hpace hs).bind fun _ s hs => ?_
        obtain ⟨rfl, hs⟩ := hs
        rw [hclock]
        exact yields_pure ⟨rfl, hs⟩
    | true =>
        rw [h, if_pos rfl] at hs
        refine (yields_readConfigurationByte hpace hs).bind fun _ s hs => ?_
        obtain ⟨rfl, hs⟩ := hs
        have hon : config &&& ~~~0x20 &&& configPort2ClockDisabledBit = 0 :=
          and_not_and config configPort2ClockDisabledBit
        rw [idle, hon]
        refine (yields_writePS2Command hpace rfl disablePort2Command hs).bind fun _ s hs => ?_
        rw [perform_secondPort hw _ (Or.inr (Or.inl rfl)), h, if_pos rfl] at hs
        have hoff : config &&& ~~~0x20 ||| 0x20 = config := and_not_or hclock
        refine yields_pure ⟨rfl, ?_⟩
        rw [← hoff]
        exact hs
  · have hnot : hw.dual = false := by
      cases h : hw.dual with
      | false => rfl
      | true => exact absurd (hdual h) hclock
    rw [beq_eq_false_iff_ne.mpr hclock]
    exact yields_pure ⟨hnot.symm, hs⟩

/-- A configuration in which the working ports are enabled. -/
def enabledConfig (hw : Hardware) (config : UInt8) : UInt8 :=
  config &&& ~~~bitIf hw.firstWorks 0x10 &&& ~~~bitIf hw.secondWorks 0x20 |||
    bitIf hw.firstWorks configPort1InterruptBit ||| bitIf hw.secondWorks configPort2InterruptBit

theorem and_not_bitIf
    (b : Bool) (x bit : UInt8) :
    x &&& ~~~bitIf b bit = if b then x &&& ~~~bit else x := by
  cases b with
  | false => simp [bitIf]
  | true => rfl

theorem yields_enableFirst
    (hpace : pace.Fair) (hs : SettlesTo hw (idle config) s.1) :
    Yields (ports hw pace) (writePS2CommandIf hw.firstWorks enablePort1Command)
      (fun _ s => SettlesTo hw (idle (config &&& ~~~bitIf hw.firstWorks 0x10)) s.1) s := by
  rw [and_not_bitIf]
  cases hw.firstWorks with
  | false => exact yields_pure hs
  | true => exact yields_writePS2Command hpace rfl enablePort1Command hs

theorem yields_enableSecond
    (hpace : pace.Fair) (hs : SettlesTo hw (idle config) s.1) :
    Yields (ports hw pace) (writePS2CommandIf hw.secondWorks enablePort2Command)
      (fun _ s => SettlesTo hw (idle (config &&& ~~~bitIf hw.secondWorks 0x20)) s.1) s := by
  rw [and_not_bitIf]
  cases hsecond : hw.secondWorks with
  | false => exact yields_pure hs
  | true =>
      have hdual : hw.dual = true := by
        rw [Hardware.secondWorks, Bool.and_eq_true] at hsecond
        exact hsecond.1
      refine (yields_writePS2Command hpace rfl enablePort2Command hs).mono fun _ s hs => ?_
      rw [perform_secondPort hw _ (Or.inr (Or.inr rfl)), if_pos hdual] at hs
      exact hs

theorem yields_enablePorts
    (hpace : pace.Fair) (hs : SettlesTo hw (idle config) s.1) :
    Yields (ports hw pace) (enablePorts hw.firstWorks hw.secondWorks)
      (fun _ s => SettlesTo hw (idle (enabledConfig hw config)) s.1) s := by
  refine (yields_enableFirst hpace hs).bind fun _ s hs => ?_
  refine (yields_enableSecond hpace hs).bind fun _ s hs => ?_
  refine (yields_readConfigurationByte hpace hs).bind fun _ s hs => ?_
  obtain ⟨rfl, hs⟩ := hs
  exact yields_writeIdle hpace _ hs

/-- The configuration behind the two commands that disable the ports. -/
def disabledConfig (hw : Hardware) (config : UInt8) : UInt8 :=
  config ||| 0x10 ||| bitIf hw.dual 0x20

/-- The configuration while the ports are tested. -/
def quietConfig (hw : Hardware) (config : UInt8) : UInt8 :=
  disabledConfig hw config &&& ~~~configPort1InterruptBit &&& ~~~configPort2InterruptBit &&&
    ~~~configPortTranslationBit

/-- What the driver returns. -/
def initResult (hw : Hardware) : Except Panic PS2ControllerInitResult :=
  if hw.selfTest ≠ selftestPassed then .error selfTestFailed
  else if !hw.firstWorks && !hw.secondWorks then .error noWorkingPorts
  else .ok ⟨hw.firstWorks, hw.secondWorks⟩

theorem perform_disable
    (r : Registers) :
    perform hw (perform hw r (.command disablePort1Command)) (.command disablePort2Command) =
      { r with config := disabledConfig hw r.config } := by
  rw [perform_secondPort hw _ (Or.inr (Or.inl rfl))]
  cases hdual : hw.dual with
  | false => simp [disabledConfig, bitIf, hdual, perform, disablePort1Command,
      readConfigByteCommand, writeConfigByteCommand, selftestCommand, testPort1Command]
  | true => simp [disabledConfig, bitIf, hdual, perform, disablePort1Command, testPort2Command,
      disablePort2Command, readConfigByteCommand, writeConfigByteCommand, selftestCommand,
      testPort1Command]

theorem quietConfig_and
    (hw : Hardware) (config : UInt8) :
    quietConfig hw config &&& configPort2ClockDisabledBit =
      disabledConfig hw config &&& configPort2ClockDisabledBit := by
  rw [quietConfig, UInt8.and_assoc, UInt8.and_assoc, UInt8.and_assoc]
  rfl

/-- The second channel has its bit set in the configuration that the driver reads. -/
theorem disabledConfig_and
    (config : UInt8) (hdual : hw.dual = true) :
    disabledConfig hw config &&& configPort2ClockDisabledBit = configPort2ClockDisabledBit := by
  rw [disabledConfig, hdual]
  exact or_and_bit _ configPort2ClockDisabledBit

/-- The registers when the initialisation has been worked on: the working ports are enabled with
their interrupts, the translation is off, and nothing else has changed. -/
structure Enabled (hw : Hardware) (config : UInt8) (r : Registers) : Prop where
  firstInterrupt : r.config.toBitVec.getLsbD 0 = hw.firstWorks
  secondInterrupt : r.config.toBitVec.getLsbD 1 = hw.secondWorks
  firstClock : r.config.toBitVec.getLsbD 4 = !hw.firstWorks
  secondClock : r.config.toBitVec.getLsbD 5 =
    if hw.dual then !hw.secondWorks else config.toBitVec.getLsbD 5
  translation : r.config.toBitVec.getLsbD 6 = false
  others : ∀ i ∈ [2, 3, 7], r.config.toBitVec.getLsbD i = config.toBitVec.getLsbD i
  awaitsConfig : r.awaitsConfig = false
  output : r.output = none

theorem getLsbD_bitIf
    (b : Bool) (bit : UInt8) (i : Nat) :
    (bitIf b bit).toBitVec.getLsbD i = (b && bit.toBitVec.getLsbD i) := by
  cases b with
  | false => simp [bitIf]
  | true => simp [bitIf]

/-- A bit of the configuration at the end. -/
theorem getLsbD_enabledConfig
    (hw : Hardware) (config : UInt8) {i : Nat} (hi : i < 8) :
    (enabledConfig hw (quietConfig hw config)).toBitVec.getLsbD i =
      ((config.toBitVec.getLsbD i || decide (i = 4) || hw.dual && decide (i = 5)) &&
          !decide (i = 0) && !decide (i = 1) && !decide (i = 6) &&
          !(hw.firstWorks && decide (i = 4)) && !(hw.secondWorks && decide (i = 5)) ||
        hw.firstWorks && decide (i = 0) || hw.secondWorks && decide (i = 1)) := by
  have h0 : configPort1InterruptBit.toBitVec.getLsbD i = decide (i = 0) := by
    interval_cases i <;> rfl
  have h1 : configPort2InterruptBit.toBitVec.getLsbD i = decide (i = 1) := by
    interval_cases i <;> rfl
  have h4 : (0x10 : UInt8).toBitVec.getLsbD i = decide (i = 4) := by
    interval_cases i <;> rfl
  have h5 : (0x20 : UInt8).toBitVec.getLsbD i = decide (i = 5) := by
    interval_cases i <;> rfl
  have h6 : configPortTranslationBit.toBitVec.getLsbD i = decide (i = 6) := by
    interval_cases i <;> rfl
  simp only [enabledConfig, quietConfig, disabledConfig, UInt8.toBitVec_or, UInt8.toBitVec_and,
    UInt8.toBitVec_not, BitVec.getLsbD_or, BitVec.getLsbD_and, BitVec.getLsbD_not, hi,
    decide_true, Bool.true_and, getLsbD_bitIf, h0, h1, h4, h5, h6]

theorem enabled_enabledConfig
    (hw : Hardware) (config : UInt8) :
    Enabled hw config (idle (enabledConfig hw (quietConfig hw config))) where
  firstInterrupt := by
    rw [idle, getLsbD_enabledConfig hw config (by decide)]
    simp
  secondInterrupt := by
    rw [idle, getLsbD_enabledConfig hw config (by decide)]
    simp
  firstClock := by
    rw [idle, getLsbD_enabledConfig hw config (by decide)]
    simp
  secondClock := by
    rw [idle, getLsbD_enabledConfig hw config (by decide)]
    cases hdual : hw.dual with
    | false => simp [Hardware.secondWorks, hdual]
    | true => simp
  translation := by
    rw [idle, getLsbD_enabledConfig hw config (by decide)]
    simp
  others := by
    intro i hi
    have hlt : i < 8 := by
      revert i
      decide
    rw [idle, getLsbD_enabledConfig hw config hlt]
    simp only [List.mem_cons, List.not_mem_nil, or_false] at hi
    rcases hi with rfl | rfl | rfl <;> simp
  awaitsConfig := rfl
  output := rfl

/-- Whatever the firmware left in the configuration and in the output of an idle controller, and
however slow the controller is, the driver ends if the controller gets on again and again; its
result says which ports work, or which panic it ends in, and the working ports are enabled. -/
theorem initialisePS2Controller_yields
    (hpace : pace.Fair) (hw : Hardware) (config : UInt8) (awaitsConfig : Bool)
    (output : Option UInt8) (n : Nat) :
    Yields (ports hw pace) initialisePS2Controller
      (fun result s => result = initResult hw ∧
        ∀ ready, result = .ok ready → Enabled hw config (settled hw s.1))
      (⟨⟨config, awaitsConfig, output⟩, none, none⟩, n) := by
  have hstart : Drains hw ⟨config, awaitsConfig, none⟩
      ⟨⟨config, awaitsConfig, output⟩, none, none⟩ := ⟨fun _ hi => absurd hi List.not_mem_nil, rfl⟩
  refine (yields_disable hpace (Or.inl rfl) hstart).bind fun _ s hs => ?_
  refine (yields_disable hpace (Or.inr rfl) hs).bind fun _ s hs => ?_
  rw [perform_disable] at hs
  refine (yields_discard hs).bind fun _ s hs => ?_
  refine (yields_asking hpace rfl readConfigByteCommand (disabledConfig hw config) rfl hs).bind
    fun _ s hs => ?_
  obtain ⟨rfl, hs⟩ := hs
  refine (yields_writeConfigurationByte hpace rfl (quietConfig hw config) hs).bind fun _ s hs => ?_
  refine (yields_performPS2SelfTest hpace hs).bind fun passed s hs => ?_
  obtain ⟨rfl, hs⟩ := hs
  rw [initResult]
  by_cases htest : hw.selfTest = selftestPassed
  · rw [beq_iff_eq.mpr htest, if_neg (not_not.mpr htest)]
    refine (yields_writeIdle hpace (quietConfig hw config) hs).bind fun _ s hs => ?_
    have hquery := yields_querySecondPort hpace (fun hdual =>
      (quietConfig_and hw config).trans (disabledConfig_and config hdual)) hs
    rw [quietConfig_and] at hquery
    refine hquery.bind fun _ s hs => ?_
    obtain ⟨rfl, hs⟩ := hs
    refine (yields_testPS2Ports hpace hs).bind fun _ s hs => ?_
    obtain ⟨rfl, hs⟩ := hs
    dsimp only
    split
    · exact yields_pure ⟨rfl, fun ready h => by cases h⟩
    · refine (yields_enablePorts hpace hs).bind fun _ s hs => ?_
      refine yields_pure ⟨rfl, fun _ _ => ?_⟩
      rw [hs.settled]
      exact enabled_enabledConfig hw config
  · rw [beq_eq_false_iff_ne.mpr htest, if_pos htest]
    exact yields_pure ⟨rfl, fun ready h => by cases h⟩

/-- A controller with a keyboard, and no second channel. -/
def keyboardController : Hardware where
  dual := false
  selfTest := 0x55
  resetConfig := 0
  firstTest := 0
  secondTest := 0xFF

/-- A controller that gets on by one step before each access. -/
def steadyPace : Pace where
  ticks := fun _ => 1
  others := fun _ => 0xFF

theorem initialisePS2Controller_yields_keyboard :
    ∃ s, Returns (fun fuel => (initialisePS2Controller fuel).serve
          (ports keyboardController steadyPace) (⟨⟨0x47, false, some 0x1C⟩, none, none⟩, 0))
        (.ok ⟨true, false⟩, s) ∧
      (settled keyboardController s.1).config.toBitVec.getLsbD 6 = false := by
  have hpace : steadyPace.Fair := fun n => ⟨0, Nat.one_pos⟩
  obtain ⟨result, s, hreturns, hresult, henabled⟩ :=
    initialisePS2Controller_yields hpace keyboardController 0x47 false (some 0x1C) 0
  obtain rfl : result = .ok ⟨true, false⟩ := hresult
  exact ⟨s, hreturns, (henabled _ rfl).translation⟩

end Initialisation

end PS2Controller
end DexprOS
