import DexprOS.Drivers.Keyboard.PS2KeyboardCommands

/-!
# The keyboard's lock indicators

Whenever a lock changes, the driver pushes a `SET_LED_STATES` command for all three
locks.  The last such push therefore always carries the present locks; whether they
reach the keyboard depends on the room in the queue.

Main facts:
* `ledsCurrent_run`: the last pushed indicator command encodes the present locks;
* `runInterrupts_indicators`: if that command found room, it is also the last one
  written by the time the queue is empty.
-/

namespace DexprOS
namespace Keyboard

open Kernel Retransmit

section Indicators

/-- Indicator commands that the driver tried to push. -/
def Machine.ledPushes (m : Machine) : List (KeyboardCommand × Bool) :=
  m.pushed.filter fun p => p.1.command = setLedStatesCommand

/-- Indicator commands that were written to the data port. -/
def Machine.ledWrites (m : Machine) : List KeyboardCommand :=
  m.executed.filter fun c => c.command = setLedStatesCommand

/-- The data byte of an indicator command shows exactly the present locks. -/
def EncodesLocks (data : UInt8) (s : PS2KeyboardState) : Prop :=
  (data &&& scrollLockLedBit ≠ 0 ↔ s.scrollLockActive = true) ∧
    (data &&& numberLockLedBit ≠ 0 ↔ s.numLockActive = true) ∧
    (data &&& capsLockLedBit ≠ 0 ↔ s.capsLockActive = true) ∧
    data < 8

instance (data : UInt8) (s : PS2KeyboardState) : Decidable (EncodesLocks data s) :=
  inferInstanceAs (Decidable (_ ∧ _))

theorem encodesLocks_indicatorLEDs
    (s : PS2KeyboardState) :
    EncodesLocks (indicatorLEDs s) s := by
  have hbits : ∀ scroll num caps : Bool,
      let data := indicatorLEDs
        { zeroPS2KeyboardState with
          scrollLockActive := scroll, numLockActive := num, capsLockActive := caps }
      (data &&& scrollLockLedBit ≠ 0 ↔ scroll = true) ∧
        (data &&& numberLockLedBit ≠ 0 ↔ num = true) ∧
        (data &&& capsLockLedBit ≠ 0 ↔ caps = true) ∧ data < 8 := by
    decide
  exact hbits s.scrollLockActive s.numLockActive s.capsLockActive

/-- The last indicator command that was pushed shows the present locks. -/
def LedsCurrent (m : Machine) : Prop :=
  ∀ p ∈ m.ledPushes.getLast?, p.1.data = indicatorLEDs m.state

theorem LedsCurrent.of_eq
    {m m' : Machine}
    (h : LedsCurrent m)
    (hpushed : m'.pushed = m.pushed)
    (hleds : indicatorLEDs m'.state = indicatorLEDs m.state) :
    LedsCurrent m' := by
  rw [LedsCurrent, Machine.ledPushes, hpushed, hleds]
  exact h

/-- Pushing another command does not count. -/
theorem LedsCurrent.push
    {m : Machine}
    (h : LedsCurrent m)
    {command : UInt8}
    (hcommand : command ≠ setLedStatesCommand)
    (data : UInt8) :
    LedsCurrent (pushPS2KeyboardCommand command data m) := by
  rw [LedsCurrent, Machine.ledPushes, push_pushed, indicatorLEDs_push, List.filter_append,
    List.filter_cons_of_neg (by simpa using hcommand), List.filter_nil, List.append_nil]
  exact h

/-- Updating the indicators restores the law, whatever held before. -/
theorem ledsCurrent_update
    (m : Machine) :
    LedsCurrent (updatePS2KeyboardIndicatorLEDs m) := by
  rw [updatePS2KeyboardIndicatorLEDs, LedsCurrent, Machine.ledPushes, push_pushed,
    indicatorLEDs_push, List.filter_append]
  simp

theorem ledsCurrent_initialise
    (m : Machine) :
    LedsCurrent (initialisePS2Keyboard m) :=
  ledsCurrent_update _

theorem LedsCurrent.acknowledged
    {m : Machine}
    (h : LedsCurrent m) :
    LedsCurrent (onPS2KeyboardCommandAcknowledged m) :=
  h.of_eq (acknowledged_pushed m)
    (congrArg (fun m : Machine => indicatorLEDs m.state) (acknowledged_keyView m) :)

theorem LedsCurrent.resend
    {m : Machine}
    (h : LedsCurrent m) :
    LedsCurrent (resendPS2KeyboardCommand m) :=
  h.of_eq (resend_pushed m)
    (congrArg (fun m : Machine => indicatorLEDs m.state) (resend_keyView m) :)

/-- A lock that changes updates the indicators. -/
theorem LedsCurrent.switchLock
    {m : Machine}
    (h : LedsCurrent m)
    (l : PS2KLock) :
    LedsCurrent (switchPS2KLock l m) := by
  unfold switchPS2KLock
  repeat' split
  · exact ledsCurrent_update _
  · refine h.of_eq rfl ?_
    cases l <;> rfl
  · exact h
  · exact ledsCurrent_update _
  · exact h

theorem LedsCurrent.modifierState
    {m : Machine}
    (h : LedsCurrent m)
    (keyID : KeyID) :
    LedsCurrent (updatePS2KeyboardModifierState keyID m) := by
  unfold updatePS2KeyboardModifierState
  repeat' split
  · exact h.switchLock .caps
  · exact h.switchLock .num
  · exact h.switchLock .scroll
  all_goals exact h.of_eq rfl rfl

theorem LedsCurrent.applyKey
    {m : Machine}
    (h : LedsCurrent m)
    (key : PS2KeyboardMapKey) :
    LedsCurrent (applyKey key m) := by
  have hkey : LedsCurrent
      { m with
        state := updatePS2KeyboardKeyState key m.state
        applied := m.applied ++ [key] } :=
    h.of_eq rfl rfl
  obtain ⟨shell, hshell⟩ := applyKey_eq key m
  rw [hshell]
  exact (hkey.modifierState key.keyID).of_eq rfl rfl

theorem LedsCurrent.interrupt
    {m : Machine}
    (h : LedsCurrent m)
    (code : UInt8) :
    LedsCurrent (processPS2KeyboardInterrupt code m) := by
  unfold processPS2KeyboardInterrupt
  split
  · exact h
  split
  · exact ledsCurrent_initialise m
  split
  · exact ledsCurrent_initialise m
  split
  · exact h
  split
  · exact h.acknowledged
  split
  · exact h.resend
  have hdecode : LedsCurrent { m with state := (decodeCode code m.state).1 } := by
    obtain ⟨mode, table, sequence, index, hs⟩ := decodeCode_frame code m.state
    exact h.of_eq rfl (congrArg indicatorLEDs hs :)
  dsimp only
  split
  · exact hdecode
  · exact hdecode.applyKey _

/-- The law holds in every run. -/
theorem ledsCurrent_run
    (pLayoutTable : Option KeyToUnicodeTable) (bytes : List UInt8) :
    LedsCurrent (runInterrupts bytes (initialMachine pLayoutTable)) := by
  have hrun (m : Machine) (h : LedsCurrent m) : LedsCurrent (runInterrupts bytes m) := by
    induction bytes generalizing m with
    | nil =>
        exact h
    | cons code bytes ih =>
        exact ih _ (h.interrupt code)
  refine hrun _ ?_
  unfold initialMachine initialisePS2KeyboardDriver
  exact LedsCurrent.push (by simp [LedsCurrent, Machine.ledPushes]) (by decide) _

/-- The last element of a kind survives a filter that keeps it. -/
theorem getLast?_filter_filter
    {α : Type} {l : List α} {p q : α → Bool} {a : α}
    (hlast : (l.filter p).getLast? = some a) (hkeep : q a = true) :
    ((l.filter q).filter p).getLast? = some a := by
  obtain ⟨init, hinit⟩ := List.getLast?_eq_some_iff.mp hlast
  have hcomm : (l.filter q).filter p = (l.filter p).filter q := by
    simp [List.filter_filter, Bool.and_comm]
  rw [hcomm, hinit, List.filter_append]
  simp [hkeep]

/-- Lock indicators go stale only through a full queue.  After any sequence of
interrupts, if the last indicator command that was pushed found room, then with an
empty queue it is the last one that was written, and it encodes the present locks. -/
theorem runInterrupts_indicators
    {pLayoutTable : Option KeyToUnicodeTable} {bytes : List UInt8} {c : KeyboardCommand}
    (hlast : (runInterrupts bytes (initialMachine pLayoutTable)).ledPushes.getLast? =
      some (c, true))
    (hidle : (runInterrupts bytes (initialMachine pLayoutTable)).state.commandBufferSize = 0) :
    (runInterrupts bytes (initialMachine pLayoutTable)).ledWrites.getLast? = some c ∧
      EncodesLocks c.data (runInterrupts bytes (initialMachine pLayoutTable)).state := by
  have hqueue := (queueInvariant_initial pLayoutTable).run bytes
  have hcurrent := ledsCurrent_run pLayoutTable bytes (c, true) hlast
  obtain ⟨m, hm⟩ : ∃ m, m = runInterrupts bytes (initialMachine pLayoutTable) := ⟨_, rfl⟩
  rw [← hm] at hlast hidle hqueue hcurrent ⊢
  have haccepted : (m.accepted.filter fun c => c.command = setLedStatesCommand).getLast? =
      some c := by
    have hkept := getLast?_filter_filter hlast (rfl : (c, true).2 = true)
    rw [Machine.accepted, List.filter_map, List.getLast?_map]
    exact congrArg (Option.map Prod.fst) hkept
  refine ⟨?_, hcurrent ▸ encodesLocks_indicatorLEDs m.state⟩
  obtain ⟨times, hlength, hbounds, hsent⟩ := hqueue.consistent.sent_issued
  have hpending : m.queue.pending = [] := commands_eq_nil.mpr hidle
  have hissued : m.queue.issued = m.accepted := by
    have hsplit := hqueue.consistent.accepted_eq_issued
    rw [hpending, List.tail_nil, List.append_nil] at hsplit
    exact hsplit.symm
  rw [hissued] at hsent hlength
  have hexecuted : m.executed = repeats m.accepted times := hsent
  rw [Machine.ledWrites, hexecuted,
    repeats_filter_getLast? hlength (fun n hn => (hbounds n hn).1), haccepted]

/-- Caps Lock is pressed when the reset command has been acknowledged. -/
theorem runInterrupts_indicators_caps_lock :
    (runInterrupts [0xFA, 0x58, 0xFA] (initialMachine none)).ledPushes.getLast? =
        some (⟨0xED, 4⟩, true) ∧
      (runInterrupts [0xFA, 0x58, 0xFA] (initialMachine none)).state.commandBufferSize = 0 ∧
      (runInterrupts [0xFA, 0x58, 0xFA] (initialMachine none)).ledWrites.getLast? =
        some ⟨0xED, 4⟩ ∧
      EncodesLocks 4 (runInterrupts [0xFA, 0x58, 0xFA] (initialMachine none)).state := by
  have hlast : (runInterrupts [0xFA, 0x58, 0xFA] (initialMachine none)).ledPushes.getLast? =
      some (⟨0xED, 4⟩, true) := by
    decide
  have hidle : (runInterrupts [0xFA, 0x58, 0xFA]
      (initialMachine none)).state.commandBufferSize = 0 := by
    decide
  exact ⟨hlast, hidle, runInterrupts_indicators hlast hidle⟩

/-- Four self-test reports fill the queue behind the reset command with commands whose
indicators are off; Caps Lock finds no room any more, and sixteen acknowledgements
later its light is still off. -/
theorem runInterrupts_indicators_full_queue :
    let bytes : List UInt8 :=
      List.replicate 4 selfTestPassed ++ 0x58 :: List.replicate 16 commandAcknowledged
    let m := runInterrupts bytes (initialMachine none)
    resendRequest ∉ bytes ∧ m.ledPushes ≠ [] ∧ m.state.commandBufferSize = 0 ∧
      m.ledWrites.getLast? = some ⟨setLedStatesCommand, 0⟩ ∧ ¬ EncodesLocks 0 m.state := by
  decide +kernel

end Indicators

end Keyboard
end DexprOS
