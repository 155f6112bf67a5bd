import DexprOS.Drivers.Keyboard.PS2KeyboardDriver
import DexprOS.Library.RetransmitQueue

/-!
# The keyboard's command queue

The shifting array of the driver is a retransmitting queue: pushes, acknowledgements
and refusals of the code are the operations of `Retransmit.Queue`, and nothing else
that an interrupt does touches the queue.

Main facts:
* `push_queue`, `acknowledged_queue`, `resend_queue`: the array operations refine the
  operations of the queue;
* `interrupt_cases`: what one interrupt can do to the queue;
* `push_accepted`: a command is taken exactly while fewer than sixteen are in the queue;
* `interrupt_pushes`: the commands that an interrupt tries to push, and those that fit;
* `QueueInvariant` holds after every sequence of interrupts;
* `runInterrupts_fifo`: the bytes at the data port are the accepted commands in
  order, each written between one and four times.
-/

namespace DexprOS
namespace Keyboard

open Kernel Retransmit

section Commands

@[simp] theorem length_commands
    (s : PS2KeyboardState) :
    s.commands.length = s.commandBufferSize := by
  simp [PS2KeyboardState.commands]

theorem commands_eq_nil
    {s : PS2KeyboardState} :
    s.commands = [] ↔ s.commandBufferSize = 0 := by
  rw [← List.length_eq_zero_iff, length_commands]

theorem commands_eq_cons
    {s : PS2KeyboardState}
    (hsize : 0 < s.commandBufferSize) :
    s.commands = s.headCommand :: s.commands.tail := by
  obtain ⟨n, hn⟩ := Nat.exists_eq_add_of_le' hsize
  simp [PS2KeyboardState.commands, PS2KeyboardState.headCommand, hn, List.range_succ_eq_map]

@[simp] theorem storeCommand_size
    (command data : UInt8) (s : PS2KeyboardState) :
    (s.storeCommand command data).commandBufferSize = s.commandBufferSize + 1 := by
  rfl

@[simp] theorem storeCommand_state
    (command data : UInt8) (s : PS2KeyboardState) :
    (s.storeCommand command data).currentCommandState = s.currentCommandState := by
  rfl

@[simp] theorem storeCommand_resends
    (command data : UInt8) (s : PS2KeyboardState) :
    (s.storeCommand command data).numCommandResends = s.numCommandResends := by
  rfl

/-- Storing a command behind the last one appends it. -/
@[simp] theorem storeCommand_commands
    (command data : UInt8) (s : PS2KeyboardState) :
    (s.storeCommand command data).commands = s.commands ++ [⟨command, data⟩] := by
  simp only [PS2KeyboardState.commands, PS2KeyboardState.storeCommand, List.range_succ,
    List.map_append, List.map_cons, List.map_nil, Function.update_self]
  congr 1
  refine List.map_congr_left fun i hi => ?_
  have hne : i ≠ s.commandBufferSize := Nat.ne_of_lt (List.mem_range.mp hi)
  simp [hne]

/-- The loop moves the commands behind the first one a place forward. -/
theorem shiftCommand_foldl
    (s : PS2KeyboardState) (n : Nat) :
    (List.range' 1 n).foldl shiftCommand s =
      { s with
        commandBuffer := fun i => if i < n then s.commandBuffer (i + 1) else s.commandBuffer i
        commandDataBuffer :=
          fun i => if i < n then s.commandDataBuffer (i + 1) else s.commandDataBuffer i } := by
  induction n with
  | zero =>
      simp
  | succ n ih =>
      rw [List.range'_1_concat, List.foldl_append, ih, Nat.add_comm 1 n]
      have hstep (buffer : Nat → UInt8) :
          Function.update (fun i => if i < n then buffer (i + 1) else buffer i) n
              (buffer (n + 1)) =
            fun i => if i < n + 1 then buffer (i + 1) else buffer i := by
        funext i
        rcases Nat.lt_trichotomy i n with hi | hi | hi
        · simp [Nat.ne_of_lt hi, hi, Nat.lt_succ_of_lt hi]
        · simp [hi]
        · rw [Function.update_of_ne (Nat.ne_of_gt hi), if_neg (Nat.not_lt_of_gt hi),
            if_neg (show ¬ i < n + 1 by omega)]
      simp only [List.foldl_cons, List.foldl_nil, shiftCommand, Nat.add_sub_cancel,
        if_neg (Nat.not_lt_of_le (Nat.le_add_right n 1)), hstep]

@[simp] theorem freeCommand_commands
    (s : PS2KeyboardState) :
    s.freeCommand.commands = s.commands := by
  rfl

@[simp] theorem freeCommand_resends
    (s : PS2KeyboardState) :
    s.freeCommand.numCommandResends = 0 := by
  rfl

@[simp] theorem freeCommand_state
    (s : PS2KeyboardState) :
    s.freeCommand.currentCommandState = .free := by
  rfl

/-- Contents of the buffer when its head has been dropped. -/
@[simp] theorem dropCommand_commands
    (s : PS2KeyboardState) :
    s.shiftCommands.dropCommand.commands = s.commands.tail := by
  rw [PS2KeyboardState.shiftCommands, shiftCommand_foldl]
  by_cases hsize : s.commandBufferSize = 0
  · simp [PS2KeyboardState.dropCommand, PS2KeyboardState.commands, hsize]
  · obtain ⟨n, hn⟩ := Nat.exists_eq_succ_of_ne_zero hsize
    simp only [PS2KeyboardState.dropCommand, PS2KeyboardState.commands, hn, Nat.succ_eq_add_one,
      Nat.add_sub_cancel, gt_iff_lt, Nat.zero_lt_succ, if_true, List.range_succ_eq_map,
      List.map_cons, List.tail_cons, List.map_map]
    refine List.map_congr_left fun i hi => ?_
    simp [List.mem_range.mp hi]

@[simp] theorem dropCommand_resends
    (s : PS2KeyboardState) :
    s.shiftCommands.dropCommand.numCommandResends = s.numCommandResends := by
  rw [PS2KeyboardState.shiftCommands, shiftCommand_foldl, PS2KeyboardState.dropCommand]
  split <;> rfl

@[simp] theorem dropCommand_state
    (s : PS2KeyboardState) :
    s.shiftCommands.dropCommand.currentCommandState = s.currentCommandState := by
  rw [PS2KeyboardState.shiftCommands, shiftCommand_foldl, PS2KeyboardState.dropCommand]
  split <;> rfl

end Commands

section Refinement

/-- The command queue with its history. -/
def Machine.queue (m : Machine) : Queue KeyboardCommand where
  pending := m.state.commands
  resends := m.state.numCommandResends
  accepted := m.accepted
  removed := m.completed
  sent := m.executed

/-- A command is in flight exactly while the queue is not empty, and the data port
has received the bytes of the executed commands. -/
structure QueueInvariant (m : Machine) : Prop where
  waiting :
    m.state.currentCommandState =
      if m.state.commandBufferSize = 0 then .free else .waitingForResponse
  port : m.dataPort = m.executed.flatMap KeyboardCommand.bytes
  consistent : m.queue.Consistent maxCmdBufferSize maxCmdResends

theorem QueueInvariant.size_le
    {m : Machine}
    (h : QueueInvariant m) :
    m.state.commandBufferSize ≤ maxCmdBufferSize := by
  simpa [Machine.queue] using h.consistent.fits

theorem QueueInvariant.free_iff
    {m : Machine}
    (h : QueueInvariant m) :
    m.state.currentCommandState = .free ↔ m.state.commandBufferSize = 0 := by
  rw [h.waiting]
  split <;> simp [*]

theorem QueueInvariant.waiting_iff
    {m : Machine}
    (h : QueueInvariant m) :
    m.state.currentCommandState = .waitingForResponse ↔ 0 < m.state.commandBufferSize := by
  rw [h.waiting]
  split <;> simp [*, Nat.pos_iff_ne_zero]

section Execute

variable (m : Machine)

@[simp] theorem execute_commands :
    (executePS2KeyboardCommand m).state.commands = m.state.commands := by
  rfl

@[simp] theorem execute_size :
    (executePS2KeyboardCommand m).state.commandBufferSize = m.state.commandBufferSize := by
  rfl

@[simp] theorem execute_resends :
    (executePS2KeyboardCommand m).state.numCommandResends = m.state.numCommandResends := by
  rfl

@[simp] theorem execute_state :
    (executePS2KeyboardCommand m).state.currentCommandState = .waitingForResponse := by
  rfl

@[simp] theorem execute_pushed :
    (executePS2KeyboardCommand m).pushed = m.pushed := by
  rfl

@[simp] theorem execute_completed :
    (executePS2KeyboardCommand m).completed = m.completed := by
  rfl

@[simp] theorem execute_executed :
    (executePS2KeyboardCommand m).executed = m.executed ++ [m.state.headCommand] := by
  rfl

@[simp] theorem execute_dataPort :
    (executePS2KeyboardCommand m).dataPort = m.dataPort ++ m.state.headCommand.bytes := by
  rfl

end Execute

theorem head?_eq_some
    {s : PS2KeyboardState}
    (hsize : 0 < s.commandBufferSize) :
    s.commands.head? = some s.headCommand := by
  rw [commands_eq_cons hsize]
  rfl

/-- Pushing a command is a push of the queue. -/
theorem push_queue
    {m : Machine}
    (h : QueueInvariant m)
    (command data : UInt8) :
    (pushPS2KeyboardCommand command data m).queue =
      m.queue.push maxCmdBufferSize ⟨command, data⟩ := by
  unfold pushPS2KeyboardCommand Queue.push
  have hlength : m.queue.pending.length = m.state.commandBufferSize := length_commands _
  rw [hlength]
  split
  · simp [Machine.queue, Machine.accepted]
  · simp only [storeCommand_state]
    split
    · rename_i hfree
      have hempty : m.state.commands = [] := commands_eq_nil.mpr (h.free_iff.mp hfree)
      have hhead : (m.state.storeCommand command data).headCommand = ⟨command, data⟩ := by
        have := head?_eq_some (s := m.state.storeCommand command data) (by simp)
        simpa [hempty, eq_comm] using this
      ext1 <;> simp [Machine.queue, hempty, hhead, Machine.accepted]
    · rename_i hbusy
      have hsize : m.state.commands.isEmpty = false := by
        simpa [commands_eq_nil] using mt h.free_iff.mpr hbusy
      ext1 <;> simp [Machine.queue, Machine.accepted, hsize]

/-- Leaving the queue is a step of the queue. -/
theorem next_queue
    {m : Machine}
    (hsize : 0 < m.state.commandBufferSize) :
    (nextPS2KeyboardCommand m).queue = m.queue.next := by
  have hcons := commands_eq_cons hsize
  obtain ⟨rest, hrest⟩ : ∃ rest, m.state.commands.tail = rest := ⟨_, rfl⟩
  rw [hrest] at hcons
  have hpending : m.queue.pending = m.state.headCommand :: rest := hcons
  have hdropped : m.state.freeCommand.shiftCommands.dropCommand.commands = rest := by
    rw [dropCommand_commands, freeCommand_commands, hrest]
  unfold nextPS2KeyboardCommand Queue.next
  simp only [hpending, hcons, List.head?_cons, Option.toList_some]
  split
  · rename_i hmore
    have hhead := head?_eq_some hmore
    rw [hdropped] at hhead
    ext1 <;> simp [Machine.queue, Machine.accepted, hhead, hdropped]
  · rename_i hlast
    have hempty : rest = [] := by
      rw [← hdropped]
      exact commands_eq_nil.mpr (Nat.eq_zero_of_not_pos hlast)
    ext1 <;> simp [Machine.queue, Machine.accepted, hempty, hdropped]

/-- An acknowledgement is a step of the queue; an idle queue ignores it. -/
theorem acknowledged_queue
    {m : Machine}
    (h : QueueInvariant m) :
    (onPS2KeyboardCommandAcknowledged m).queue = m.queue.next := by
  unfold onPS2KeyboardCommandAcknowledged
  split
  · rename_i hwaiting
    exact next_queue (h.waiting_iff.mp hwaiting)
  · rename_i hidle
    have hempty : m.queue.pending = [] := by
      have := mt h.waiting_iff.mpr hidle
      exact commands_eq_nil.mpr (by omega)
    simp [Queue.next, hempty]

/-- A refusal is a refusal of the queue. -/
theorem resend_queue
    {m : Machine}
    (h : QueueInvariant m) :
    (resendPS2KeyboardCommand m).queue = m.queue.resend maxCmdResends := by
  unfold resendPS2KeyboardCommand Queue.resend
  by_cases hsize : 0 < m.state.commandBufferSize
  · have hpending : m.queue.pending = m.state.headCommand :: m.state.commands.tail :=
      commands_eq_cons hsize
    rw [if_pos ⟨hsize, h.waiting_iff.mpr hsize⟩, hpending]
    dsimp only
    have hresends : m.queue.resends = m.state.numCommandResends := rfl
    rw [hresends]
    split
    · rw [← hpending]
      rfl
    · exact next_queue hsize
  · have hempty : m.queue.pending = [] := commands_eq_nil.mpr (by omega)
    rw [if_neg (fun h => hsize h.1), hempty]

end Refinement

section Invariant

theorem QueueInvariant.push
    {m : Machine}
    (h : QueueInvariant m)
    (command data : UInt8) :
    QueueInvariant (pushPS2KeyboardCommand command data m) where
  waiting := by
    have hwaiting := h.waiting
    unfold pushPS2KeyboardCommand
    split
    · exact hwaiting
    · dsimp only
      split
      · simp
      · rename_i hbusy
        have hsize := mt h.free_iff.mpr hbusy
        simpa [hsize] using hwaiting
  port := by
    have hport := h.port
    unfold pushPS2KeyboardCommand
    split
    · exact hport
    · dsimp only
      split
      · simp [hport]
      · exact hport
  consistent := by
    rw [push_queue h]
    exact h.consistent.push _

theorem QueueInvariant.next
    {m : Machine}
    (h : QueueInvariant m)
    (hsize : 0 < m.state.commandBufferSize) :
    QueueInvariant (nextPS2KeyboardCommand m) where
  waiting := by
    unfold nextPS2KeyboardCommand
    dsimp only
    split
    · rename_i hmore
      rw [execute_state, execute_size, if_neg (Nat.pos_iff_ne_zero.mp hmore)]
    · rename_i hlast
      rw [if_pos (Nat.eq_zero_of_not_pos hlast)]
      simp
  port := by
    have hport := h.port
    unfold nextPS2KeyboardCommand
    dsimp only
    split
    · simp [hport]
    · exact hport
  consistent := by
    rw [next_queue hsize]
    exact h.consistent.next

theorem QueueInvariant.acknowledged
    {m : Machine}
    (h : QueueInvariant m) :
    QueueInvariant (onPS2KeyboardCommandAcknowledged m) := by
  unfold onPS2KeyboardCommandAcknowledged
  split
  · rename_i hwaiting
    exact h.next (h.waiting_iff.mp hwaiting)
  · exact h

theorem QueueInvariant.resend
    {m : Machine}
    (h : QueueInvariant m) :
    QueueInvariant (resendPS2KeyboardCommand m) := by
  have hqueue := resend_queue h
  unfold resendPS2KeyboardCommand at hqueue ⊢
  split
  · rename_i hhead
    split
    · rename_i hmore
      refine ⟨by simp [Nat.pos_iff_ne_zero.mp hhead.1], by simp [h.port], ?_⟩
      rw [if_pos hhead, if_pos hmore] at hqueue
      rw [hqueue]
      exact h.consistent.resend
    · exact h.next hhead.1
  · exact h

end Invariant

section KeyView

/-- The driver's state without the command queue. -/
def PS2KeyboardState.keyView (s : PS2KeyboardState) : PS2KeyboardState :=
  { s with
    commandBuffer := fun _ => 0
    commandDataBuffer := fun _ => 0
    commandBufferSize := 0
    numCommandResends := 0
    currentCommandState := .free }

/-- The machine without the command queue and its history. -/
def Machine.keyView (m : Machine) : Machine :=
  { m with
    state := m.state.keyView
    dataPort := []
    pushed := []
    executed := []
    completed := [] }

theorem push_keyView
    (command data : UInt8) (m : Machine) :
    (pushPS2KeyboardCommand command data m).keyView = m.keyView := by
  unfold pushPS2KeyboardCommand
  dsimp only
  repeat' split
  all_goals rfl

theorem next_keyView
    (m : Machine) :
    (nextPS2KeyboardCommand m).keyView = m.keyView := by
  have hdropped : m.state.freeCommand.shiftCommands.dropCommand.keyView = m.state.keyView := by
    rw [PS2KeyboardState.shiftCommands, shiftCommand_foldl, PS2KeyboardState.dropCommand]
    split <;> rfl
  have hstate (s : PS2KeyboardState) (hs : s.keyView = m.state.keyView) :
      Machine.keyView { m with state := s } = m.keyView := by
    simp only [Machine.keyView, hs]
  unfold nextPS2KeyboardCommand
  dsimp only
  split
  · exact hstate _ hdropped
  · exact hstate _ hdropped

theorem acknowledged_keyView
    (m : Machine) :
    (onPS2KeyboardCommandAcknowledged m).keyView = m.keyView := by
  unfold onPS2KeyboardCommandAcknowledged
  split
  · exact next_keyView m
  · rfl

theorem resend_keyView
    (m : Machine) :
    (resendPS2KeyboardCommand m).keyView = m.keyView := by
  unfold resendPS2KeyboardCommand
  dsimp only
  repeat' split
  · rfl
  · exact next_keyView m
  · rfl

theorem initialisePS2Keyboard_keyView
    (m : Machine) :
    (initialisePS2Keyboard m).keyView = m.keyView := by
  simp [initialisePS2Keyboard, updatePS2KeyboardIndicatorLEDs, push_keyView]

theorem indicatorLEDs_push
    (command data : UInt8) (m : Machine) :
    indicatorLEDs (pushPS2KeyboardCommand command data m).state = indicatorLEDs m.state :=
  (congrArg (fun m : Machine => indicatorLEDs m.state) (push_keyView command data m) :)

end KeyView

section CommandView

/-- The driver's state reduced to the command queue. -/
def PS2KeyboardState.commandView (s : PS2KeyboardState) : PS2KeyboardState :=
  { zeroPS2KeyboardState with
    commandBuffer := s.commandBuffer
    commandDataBuffer := s.commandDataBuffer
    commandBufferSize := s.commandBufferSize
    numCommandResends := s.numCommandResends
    currentCommandState := s.currentCommandState }

/-- The machine reduced to the command queue and its history. -/
def Machine.commandView (m : Machine) : Machine :=
  { m with state := m.state.commandView, shell := [], applied := [] }

/-- Commands pushed one after another. -/
def pushCommands (cs : List KeyboardCommand) (m : Machine) : Machine :=
  cs.foldl (fun m c => pushPS2KeyboardCommand c.command c.data m) m

/-- What `InitialisePS2Keyboard` pushes. -/
def initialisationCommands (s : PS2KeyboardState) : List KeyboardCommand :=
  [⟨setScanCodeSetCommand, 2⟩, ⟨setTypematicByteCommand, repeatDelay500msRate30Hz⟩,
    ⟨enableScanningCommand, 0⟩, ⟨setLedStatesCommand, indicatorLEDs s⟩]

theorem initialisePS2Keyboard_eq
    (m : Machine) :
    initialisePS2Keyboard m = pushCommands (initialisationCommands m.state) m := by
  simp only [initialisePS2Keyboard, updatePS2KeyboardIndicatorLEDs, indicatorLEDs_push]
  rfl

/-- A push works on the command queue alone. -/
theorem push_commandView
    (command data : UInt8) (m : Machine) :
    (pushPS2KeyboardCommand command data m).commandView =
      pushPS2KeyboardCommand command data m.commandView := by
  unfold pushPS2KeyboardCommand
  have hsize : m.commandView.state.commandBufferSize = m.state.commandBufferSize := rfl
  have hstate : m.commandView.state.currentCommandState = m.state.currentCommandState := rfl
  simp only [hsize, storeCommand_state, hstate]
  split
  · rfl
  · split <;> rfl

/-- Decoding moves the decoder and nothing else of the driver. -/
theorem decodeCode_frame
    (code : UInt8) (s : PS2KeyboardState) :
    ∃ mode table sequence index,
      (decodeCode code s).1 =
        { s with
          listeningMode := mode
          pCurrentSubScanCodeSetTable := table
          pCurrentSpecialSequence := sequence
          specialSequenceByteIndex := index } := by
  have hlookup : ∃ mode table sequence index, (processPS2KCodeByLookup code s).1 =
      { s with
        listeningMode := mode
        pCurrentSubScanCodeSetTable := table
        pCurrentSpecialSequence := sequence
        specialSequenceByteIndex := index } := by
    unfold processPS2KCodeByLookup
    repeat' split
    all_goals exact ⟨_, _, _, _, rfl⟩
  have hsequence : ∃ mode table sequence index, (processPS2KByteSequenceCode code s).1 =
      { s with
        listeningMode := mode
        pCurrentSubScanCodeSetTable := table
        pCurrentSpecialSequence := sequence
        specialSequenceByteIndex := index } := by
    unfold processPS2KByteSequenceCode
    dsimp only
    repeat' split
    all_goals exact ⟨_, _, _, _, rfl⟩
  unfold decodeCode
  cases s.listeningMode with
  | tableCharacterLookup =>
      obtain ⟨mode, table, sequence, index, hs⟩ := hlookup
      dsimp only
      rw [hs]
      split
      · exact ⟨_, _, _, _, rfl⟩
      · exact ⟨_, _, _, _, rfl⟩
  | byteSequence =>
      obtain ⟨mode, table, sequence, index, hs⟩ := hsequence
      dsimp only
      rw [hs]
      split
      · exact ⟨_, _, _, _, rfl⟩
      · exact ⟨_, _, _, _, rfl⟩

theorem decodeCode_commandView
    (code : UInt8) (s : PS2KeyboardState) :
    (decodeCode code s).1.commandView = s.commandView := by
  obtain ⟨mode, table, sequence, index, hs⟩ := decodeCode_frame code s
  rw [hs]
  rfl

theorem QueueInvariant.of_commandView
    {m m' : Machine}
    (h : QueueInvariant m)
    (hview : m'.commandView = m.commandView) :
    QueueInvariant m' := by
  have hqueue : m'.commandView.queue = m.commandView.queue := by rw [hview]
  have hstate : m'.state.currentCommandState = m.state.currentCommandState :=
    (congrArg (fun m : Machine => m.state.currentCommandState) hview :)
  have hsize : m'.state.commandBufferSize = m.state.commandBufferSize :=
    (congrArg (fun m : Machine => m.state.commandBufferSize) hview :)
  have hport : m'.dataPort = m.dataPort := (congrArg (fun m : Machine => m.dataPort) hview :)
  have hexecuted : m'.executed = m.executed := (congrArg (fun m : Machine => m.executed) hview :)
  refine ⟨?_, ?_, ?_⟩
  · rw [hstate, hsize]
    exact h.waiting
  · rw [hport, hexecuted]
    exact h.port
  · exact hqueue ▸ h.consistent

theorem pushCommands_commandView
    (cs : List KeyboardCommand) (m : Machine) :
    (pushCommands cs m).commandView = pushCommands cs m.commandView := by
  induction cs generalizing m with
  | nil =>
      rfl
  | cons c cs ih =>
      rw [pushCommands, List.foldl_cons, ← pushCommands, ih, push_commandView]
      rfl

theorem QueueInvariant.pushCommands
    {m : Machine}
    (h : QueueInvariant m)
    (cs : List KeyboardCommand) :
    QueueInvariant (pushCommands cs m) := by
  induction cs generalizing m with
  | nil =>
      exact h
  | cons c cs ih =>
      exact ih (h.push c.command c.data)

/-- Switching a lock pushes its indicator command or leaves the queue alone. -/
theorem switchPS2KLock_commandView
    (l : PS2KLock) (m : Machine) :
    ∃ cs, (switchPS2KLock l m).commandView = (pushCommands cs m).commandView := by
  have hflag (s : PS2KeyboardState) (b : Bool) :
      (s.setLockActive b l).commandView = s.commandView := by
    cases l <;> rfl
  have hjust (s : PS2KeyboardState) (b : Bool) :
      (s.setLockJustActivated b l).commandView = s.commandView := by
    cases l <;> rfl
  have hpush (s : PS2KeyboardState) (hs : s.commandView = m.state.commandView) :
      ∃ cs, (updatePS2KeyboardIndicatorLEDs { m with state := s }).commandView =
        (pushCommands cs m).commandView := by
    refine ⟨[⟨setLedStatesCommand, indicatorLEDs s⟩], ?_⟩
    rw [pushCommands_commandView, updatePS2KeyboardIndicatorLEDs, push_commandView]
    simp only [Machine.commandView, hs]
    rfl
  unfold switchPS2KLock
  repeat' split
  · exact hpush _ (hflag _ _)
  · refine ⟨[], ?_⟩
    simp only [Machine.commandView, hjust]
    rfl
  · exact ⟨[], rfl⟩
  · exact hpush _ ((hjust _ _).trans (hflag _ _))
  · exact ⟨[], rfl⟩

theorem modifierState_commandView
    (keyID : KeyID) (m : Machine) :
    ∃ cs, (updatePS2KeyboardModifierState keyID m).commandView =
      (pushCommands cs m).commandView := by
  unfold updatePS2KeyboardModifierState
  repeat' split
  · exact switchPS2KLock_commandView .caps m
  · exact switchPS2KLock_commandView .num m
  · exact switchPS2KLock_commandView .scroll m
  all_goals exact ⟨[], rfl⟩

/-- Behind the modifiers, applying a key reports to the shell and changes nothing else. -/
theorem applyKey_eq
    (key : PS2KeyboardMapKey) (m : Machine) :
    ∃ shell, applyKey key m =
      { updatePS2KeyboardModifierState key.keyID
          { m with
            state := updatePS2KeyboardKeyState key m.state
            applied := m.applied ++ [key] } with
        shell := shell } := by
  unfold applyKey processKeyToUnicodeCharacter
  dsimp only
  repeat' split
  all_goals exact ⟨_, rfl⟩

/-- A decoded key at most pushes commands. -/
theorem applyKey_commandView
    (key : PS2KeyboardMapKey) (m : Machine) :
    ∃ cs, (applyKey key m).commandView = (pushCommands cs m).commandView := by
  obtain ⟨cs, hcs⟩ := modifierState_commandView key.keyID
    { m with
      state := updatePS2KeyboardKeyState key m.state
      applied := m.applied ++ [key] }
  obtain ⟨shell, hshell⟩ := applyKey_eq key m
  refine ⟨cs, ?_⟩
  rw [hshell]
  refine hcs.trans ?_
  rw [pushCommands_commandView, pushCommands_commandView]
  rfl

/-- What one interrupt can do to the command queue. -/
theorem interrupt_cases
    (code : UInt8) (m : Machine) :
    (code = commandAcknowledged ∧
        processPS2KeyboardInterrupt code m = onPS2KeyboardCommandAcknowledged m) ∨
      (code = resendRequest ∧
        processPS2KeyboardInterrupt code m = resendPS2KeyboardCommand m) ∨
      (code ≠ commandAcknowledged ∧ code ≠ resendRequest ∧
        ∃ cs, (processPS2KeyboardInterrupt code m).commandView =
          (pushCommands cs m).commandView) := by
  by_cases hack : code = commandAcknowledged
  · subst hack
    exact Or.inl ⟨rfl, rfl⟩
  by_cases hresend : code = resendRequest
  · subst hresend
    exact Or.inr (Or.inl ⟨rfl, rfl⟩)
  refine Or.inr (Or.inr ⟨hack, hresend, ?_⟩)
  unfold processPS2KeyboardInterrupt
  split
  · exact ⟨[], rfl⟩
  split
  · exact ⟨_, congrArg _ (initialisePS2Keyboard_eq m)⟩
  split
  · exact ⟨_, congrArg _ (initialisePS2Keyboard_eq m)⟩
  split
  · exact ⟨[], rfl⟩
  dsimp only
  have hdecode : Machine.commandView { m with state := (decodeCode code m.state).1 } =
      m.commandView := by
    simp only [Machine.commandView, decodeCode_commandView]
  split
  · exact ⟨[], hdecode⟩
  · rename_i key _
    obtain ⟨cs, hcs⟩ := applyKey_commandView key { m with state := (decodeCode code m.state).1 }
    refine ⟨cs, hcs.trans ?_⟩
    rw [pushCommands_commandView, hdecode, ← pushCommands_commandView]

end CommandView

section Runs

theorem pushCommands_queue
    {m : Machine}
    (h : QueueInvariant m)
    (cs : List KeyboardCommand) :
    (pushCommands cs m).queue = m.queue.pushAll maxCmdBufferSize cs := by
  induction cs generalizing m with
  | nil =>
      rfl
  | cons c cs ih =>
      rw [pushCommands, List.foldl_cons, ← pushCommands, ih (h.push _ _), push_queue h]
      rfl

/-- One interrupt is an acknowledgement, a refusal or some pushes of the queue. -/
theorem interrupt_queue
    {m : Machine}
    (h : QueueInvariant m)
    (code : UInt8) :
    (code = commandAcknowledged ∧
        (processPS2KeyboardInterrupt code m).queue = m.queue.next) ∨
      (code = resendRequest ∧
        (processPS2KeyboardInterrupt code m).queue = m.queue.resend maxCmdResends) ∨
      (code ≠ commandAcknowledged ∧ code ≠ resendRequest ∧
        ∃ cs, (processPS2KeyboardInterrupt code m).queue =
          m.queue.pushAll maxCmdBufferSize cs) := by
  rcases interrupt_cases code m with ⟨hcode, hm⟩ | ⟨hcode, hm⟩ | ⟨hack, hresend, cs, hm⟩
  · exact Or.inl ⟨hcode, by rw [hm, acknowledged_queue h]⟩
  · exact Or.inr (Or.inl ⟨hcode, by rw [hm, resend_queue h]⟩)
  · refine Or.inr (Or.inr ⟨hack, hresend, cs, ?_⟩)
    rw [← pushCommands_queue h]
    exact (congrArg Machine.queue hm :)

theorem QueueInvariant.interrupt
    {m : Machine}
    (h : QueueInvariant m)
    (code : UInt8) :
    QueueInvariant (processPS2KeyboardInterrupt code m) := by
  rcases interrupt_cases code m with ⟨-, hm⟩ | ⟨-, hm⟩ | ⟨-, -, cs, hm⟩
  · exact hm ▸ h.acknowledged
  · exact hm ▸ h.resend
  · exact (h.pushCommands cs).of_commandView hm

theorem queueInvariant_initial
    (pLayoutTable : Option KeyToUnicodeTable) :
    QueueInvariant (initialMachine pLayoutTable) := by
  unfold initialMachine initialisePS2KeyboardDriver
  exact QueueInvariant.push ⟨rfl, rfl, Queue.Consistent.empty⟩ _ _

theorem QueueInvariant.run
    {m : Machine}
    (h : QueueInvariant m)
    (bytes : List UInt8) :
    QueueInvariant (runInterrupts bytes m) := by
  induction bytes generalizing m with
  | nil =>
      exact h
  | cons code bytes ih =>
      exact ih (h.interrupt code)

theorem next_pushed
    (m : Machine) :
    (nextPS2KeyboardCommand m).pushed = m.pushed := by
  unfold nextPS2KeyboardCommand
  dsimp only
  split <;> rfl

theorem acknowledged_pushed
    (m : Machine) :
    (onPS2KeyboardCommandAcknowledged m).pushed = m.pushed := by
  unfold onPS2KeyboardCommandAcknowledged
  split
  · exact next_pushed m
  · rfl

theorem resend_pushed
    (m : Machine) :
    (resendPS2KeyboardCommand m).pushed = m.pushed := by
  unfold resendPS2KeyboardCommand
  split
  · split
    · rfl
    · exact next_pushed m
  · rfl

/-- Every push is recorded, with whether there was room. -/
theorem push_pushed
    (command data : UInt8) (m : Machine) :
    (pushPS2KeyboardCommand command data m).pushed =
      m.pushed ++ [(⟨command, data⟩, decide (m.state.commandBufferSize ≠ maxCmdBufferSize))] := by
  unfold pushPS2KeyboardCommand
  split
  · rename_i hfull
    simp [hfull]
  · rename_i hroom
    dsimp only
    split <;> simp [hroom]

theorem pushCommands_pushed
    (cs : List KeyboardCommand) (m : Machine) :
    (pushCommands cs m).pushed.map (·.1) = m.pushed.map (·.1) ++ cs := by
  induction cs generalizing m with
  | nil =>
      exact (List.append_nil _).symm
  | cons c cs ih =>
      rw [pushCommands, List.foldl_cons, ← pushCommands, ih, push_pushed, List.map_append,
        List.append_assoc]
      rfl

/-- Of commands pushed one after another those are accepted that come while fewer than 16 are
queued; they are put behind the queued ones. -/
theorem pushCommands_accepted
    {m : Machine}
    (h : QueueInvariant m)
    (cs : List KeyboardCommand) :
    (pushCommands cs m).accepted =
        m.accepted ++ cs.take (maxCmdBufferSize - m.state.commandBufferSize) ∧
      (pushCommands cs m).state.commands =
        m.state.commands ++ cs.take (maxCmdBufferSize - m.state.commandBufferSize) := by
  have hlength : m.queue.pending.length = m.state.commandBufferSize := length_commands _
  have hroom := Queue.pushAll_room h.consistent.fits cs
  rw [← pushCommands_queue h, hlength] at hroom
  exact hroom

/-- A push is accepted exactly while fewer than 16 commands are queued. -/
theorem push_accepted
    {m : Machine}
    (h : QueueInvariant m)
    (c : KeyboardCommand) :
    let m' := pushPS2KeyboardCommand c.command c.data m
    m'.pushed = m.pushed ++ [(c, decide (m.state.commandBufferSize < 16))] ∧
      m'.accepted = m.accepted ++ (if m.state.commandBufferSize < 16 then [c] else []) ∧
      m'.state.commands =
        m.state.commands ++ (if m.state.commandBufferSize < 16 then [c] else []) := by
  intro m'
  have hle := h.size_le
  have htake : [c].take (maxCmdBufferSize - m.state.commandBufferSize) =
      if m.state.commandBufferSize < 16 then [c] else [] := by
    split
    · rename_i hroom
      exact List.take_of_length_le (Nat.sub_pos_of_lt hroom)
    · rename_i hfull
      have hnone : maxCmdBufferSize - m.state.commandBufferSize = 0 :=
        Nat.sub_eq_zero_of_le (Nat.le_of_not_lt hfull)
      rw [hnone, List.take_zero]
  have hflag : decide (m.state.commandBufferSize ≠ maxCmdBufferSize) =
      decide (m.state.commandBufferSize < 16) :=
    decide_eq_decide.mpr ⟨Nat.lt_of_le_of_ne hle, Nat.ne_of_lt⟩
  have haccepted := pushCommands_accepted h [c]
  rw [htake] at haccepted
  exact ⟨(push_pushed c.command c.data m).trans (by rw [hflag]), haccepted⟩

/-- What one interrupt pushes, and what of it is accepted. -/
theorem interrupt_pushes
    {m : Machine}
    (h : QueueInvariant m)
    (code : UInt8) :
    let m' := processPS2KeyboardInterrupt code m
    ∃ cs, m'.pushed.map (·.1) = m.pushed.map (·.1) ++ cs ∧
      m'.accepted = m.accepted ++ cs.take (16 - m.state.commandBufferSize) ∧
      (code ∈ [selfTestPassed, selfTestFailed0, selfTestFailed1] →
        cs = initialisationCommands m.state) := by
  intro m'
  have hunchanged (hpushed : m'.pushed = m.pushed)
      (hcode : code ∉ [selfTestPassed, selfTestFailed0, selfTestFailed1]) :
      ∃ cs, m'.pushed.map (·.1) = m.pushed.map (·.1) ++ cs ∧
        m'.accepted = m.accepted ++ cs.take (16 - m.state.commandBufferSize) ∧
        (code ∈ [selfTestPassed, selfTestFailed0, selfTestFailed1] →
          cs = initialisationCommands m.state) := by
    refine ⟨[], ?_, ?_, fun hmem => absurd hmem hcode⟩
    · rw [hpushed, List.append_nil]
    · rw [Machine.accepted, Machine.accepted, hpushed, List.take_nil, List.append_nil]
  have hall (cs : List KeyboardCommand)
      (hview : m'.commandView = (pushCommands cs m).commandView) :
      m'.pushed.map (·.1) = m.pushed.map (·.1) ++ cs ∧
        m'.accepted = m.accepted ++ cs.take (16 - m.state.commandBufferSize) := by
    have hpushed : m'.pushed = (pushCommands cs m).pushed :=
      (congrArg Machine.pushed hview :)
    refine ⟨?_, ?_⟩
    · rw [hpushed, pushCommands_pushed]
    · rw [Machine.accepted, hpushed]
      exact (pushCommands_accepted h cs).1
  by_cases hinit : code ∈ [selfTestPassed, selfTestFailed0, selfTestFailed1]
  · have hm : m' = pushCommands (initialisationCommands m.state) m := by
      rw [← initialisePS2Keyboard_eq]
      simp only [List.mem_cons, List.not_mem_nil, or_false] at hinit
      rcases hinit with rfl | rfl | rfl <;> rfl
    obtain ⟨hpushed, haccepted⟩ := hall _ (congrArg Machine.commandView hm)
    exact ⟨_, hpushed, haccepted, fun _ => rfl⟩
  · rcases interrupt_cases code m with ⟨-, hm⟩ | ⟨-, hm⟩ | ⟨-, -, cs, hm⟩
    · exact hunchanged ((congrArg Machine.pushed hm).trans (acknowledged_pushed m)) hinit
    · exact hunchanged ((congrArg Machine.pushed hm).trans (resend_pushed m)) hinit
    · obtain ⟨hpushed, haccepted⟩ := hall cs hm
      exact ⟨cs, hpushed, haccepted, fun hmem => absurd hmem hinit⟩

/-- One interrupt, together with the bytes received since the present head of the
queue got there. -/
def traceHead (r : Machine × List UInt8) (code : UInt8) : Machine × List UInt8 :=
  let m' := processPS2KeyboardInterrupt code r.1
  (m', if r.1.state.commandBufferSize = 0 ∨ m'.completed ≠ r.1.completed then []
    else r.2 ++ [code])

/-- Bytes that the driver has received while the present head was the head. -/
def sinceHead (pLayoutTable : Option KeyToUnicodeTable) (bytes : List UInt8) : List UInt8 :=
  (bytes.foldl traceHead (initialMachine pLayoutTable, [])).2

theorem traceHead_machine
    (bytes : List UInt8) (r : Machine × List UInt8) :
    (bytes.foldl traceHead r).1 = runInterrupts bytes r.1 := by
  induction bytes generalizing r with
  | nil =>
      rfl
  | cons code bytes ih =>
      exact ih _

theorem completed_of_queue
    {m : Machine} {q : Queue KeyboardCommand}
    (hq : m.queue = q) :
    m.completed = q.removed ∧ m.state.numCommandResends = q.resends :=
  ⟨congrArg Queue.removed hq, congrArg Queue.resends hq⟩

/-- What an interrupt means for the head: it goes on waiting, perhaps sent once more,
or it leaves on an acknowledgement or on a refusal too many. -/
theorem interrupt_head
    {m : Machine}
    (h : QueueInvariant m)
    (hsize : 0 < m.state.commandBufferSize)
    (code : UInt8) :
    (processPS2KeyboardInterrupt code m).completed = m.completed ∧
        (processPS2KeyboardInterrupt code m).state.numCommandResends =
          m.state.numCommandResends + [code].count resendRequest ∨
      (code = commandAcknowledged ∨
          code = resendRequest ∧ m.state.numCommandResends = maxCmdResends) ∧
        (processPS2KeyboardInterrupt code m).completed =
          m.completed ++ [m.state.headCommand] ∧
        (processPS2KeyboardInterrupt code m).state.numCommandResends = 0 := by
  have hpending : m.queue.pending = m.state.headCommand :: m.state.commands.tail :=
    commands_eq_cons hsize
  rcases interrupt_queue h code with ⟨hcode, hq⟩ | ⟨hcode, hq⟩ | ⟨-, hresend, cs, hq⟩
  · obtain ⟨hremoved, hresends⟩ := Queue.next_removed hpending
    rw [(completed_of_queue hq).1, (completed_of_queue hq).2]
    exact Or.inr ⟨Or.inl hcode, hremoved, hresends⟩
  · rw [(completed_of_queue hq).1, (completed_of_queue hq).2]
    rcases Queue.resend_removed maxCmdResends hpending with
      ⟨-, hremoved, hresends⟩ | ⟨hlimit, hremoved, hresends⟩
    · refine Or.inl ⟨hremoved, hresends.trans ?_⟩
      simp [hcode, Machine.queue]
    · have hbounded := h.consistent.bounded
      exact Or.inr ⟨Or.inr ⟨hcode, Nat.le_antisymm hbounded hlimit⟩, hremoved, hresends⟩
  · obtain ⟨hremoved, hresends⟩ := Queue.pushAll_removed maxCmdBufferSize cs m.queue
    rw [(completed_of_queue hq).1, (completed_of_queue hq).2]
    refine Or.inl ⟨hremoved, hresends.trans ?_⟩
    simp [hresend, Machine.queue]

/-- Without a head nothing leaves the queue and nothing is retransmitted. -/
theorem interrupt_idle
    {m : Machine}
    (h : QueueInvariant m)
    (hsize : m.state.commandBufferSize = 0)
    (code : UInt8) :
    (processPS2KeyboardInterrupt code m).completed = m.completed ∧
      (processPS2KeyboardInterrupt code m).state.numCommandResends = 0 := by
  have hpending : m.queue.pending = [] := commands_eq_nil.mpr hsize
  have hidle : m.queue.resends = 0 := h.consistent.idle hpending
  obtain ⟨hnext, hresend⟩ := Queue.answer_idle maxCmdResends hpending
  rcases interrupt_queue h code with ⟨-, hq⟩ | ⟨-, hq⟩ | ⟨-, -, cs, hq⟩
  · rw [hnext] at hq
    exact ⟨(completed_of_queue hq).1, (completed_of_queue hq).2.trans hidle⟩
  · rw [hresend] at hq
    exact ⟨(completed_of_queue hq).1, (completed_of_queue hq).2.trans hidle⟩
  · obtain ⟨hremoved, hresends⟩ := Queue.pushAll_removed maxCmdBufferSize cs m.queue
    exact ⟨(completed_of_queue hq).1.trans hremoved,
      (completed_of_queue hq).2.trans (hresends.trans hidle)⟩

/-- The counter of retransmissions counts the refusals of the head. -/
theorem traceHead_resends
    {r : Machine × List UInt8}
    (h : QueueInvariant r.1)
    (hcount : r.2.count resendRequest = r.1.state.numCommandResends)
    (code : UInt8) :
    (traceHead r code).2.count resendRequest =
      (traceHead r code).1.state.numCommandResends := by
  unfold traceHead
  dsimp only
  by_cases hsize : r.1.state.commandBufferSize = 0
  · rw [if_pos (Or.inl hsize), (interrupt_idle h hsize code).2]
    rfl
  · rcases interrupt_head h (Nat.pos_of_ne_zero hsize) code with
      ⟨hstay, hresends⟩ | ⟨-, hleft, hresends⟩
    · rw [if_neg (by simp [hsize, hstay]), List.count_append, hcount, hresends]
    · rw [if_pos (Or.inr (by simp [hleft])), hresends]
      rfl

theorem sinceHead_count
    (pLayoutTable : Option KeyToUnicodeTable) (bytes : List UInt8) :
    (sinceHead pLayoutTable bytes).count resendRequest =
      (runInterrupts bytes (initialMachine pLayoutTable)).state.numCommandResends := by
  have hrun (r : Machine × List UInt8) (h : QueueInvariant r.1)
      (hcount : r.2.count resendRequest = r.1.state.numCommandResends) :
      (bytes.foldl traceHead r).2.count resendRequest =
        (bytes.foldl traceHead r).1.state.numCommandResends := by
    induction bytes generalizing r with
    | nil =>
        exact hcount
    | cons code bytes ih =>
        exact ih _ (h.interrupt code) (traceHead_resends h hcount code)
  have := hrun (initialMachine pLayoutTable, []) (queueInvariant_initial _) rfl
  rwa [traceHead_machine] at this

/-- The keyboard's command queue is a FIFO.  After any sequence of interrupts the
state matches the queue, what went out through the data port is the accepted commands
in order, each between one and four times and those behind the head not yet.  A push
is accepted, and put behind the queued commands, exactly while fewer than 16 are
queued; so are the pushes of an interrupt one after another, which are the four of the
initialisation for each report of a self test.  An interrupt takes a command off the
queue only as an acknowledgement or as the fourth refusal of that command. -/
theorem runInterrupts_fifo
    (pLayoutTable : Option KeyToUnicodeTable) (bytes : List UInt8) :
    let m := runInterrupts bytes (initialMachine pLayoutTable)
    m.state.commandBufferSize ≤ 16 ∧
      m.state.numCommandResends ≤ 3 ∧
      m.state.currentCommandState =
        (if m.state.commandBufferSize > 0 then .waitingForResponse else .free) ∧
      m.accepted = m.completed ++ m.state.commands ∧
      m.dataPort = m.executed.flatMap KeyboardCommand.bytes ∧
      (∃ issued times,
        m.accepted = issued ++ m.state.commands.tail ∧
          times.length = issued.length ∧ (∀ n ∈ times, 1 ≤ n ∧ n ≤ 4) ∧
          m.executed = repeats issued times) ∧
      (∀ c : KeyboardCommand,
        let m' := pushPS2KeyboardCommand c.command c.data m
        m'.pushed = m.pushed ++ [(c, decide (m.state.commandBufferSize < 16))] ∧
          m'.accepted = m.accepted ++ (if m.state.commandBufferSize < 16 then [c] else []) ∧
          m'.state.commands =
            m.state.commands ++ (if m.state.commandBufferSize < 16 then [c] else [])) ∧
      ∀ code,
        let m' := processPS2KeyboardInterrupt code m
        (∃ cs, m'.pushed.map (·.1) = m.pushed.map (·.1) ++ cs ∧
          m'.accepted = m.accepted ++ cs.take (16 - m.state.commandBufferSize) ∧
          (code ∈ [selfTestPassed, selfTestFailed0, selfTestFailed1] →
            cs = initialisationCommands m.state)) ∧
        (m'.completed = m.completed ∨
          m.state.commandBufferSize > 0 ∧
            m'.completed = m.completed ++ [m.state.headCommand] ∧
            (code = commandAcknowledged ∨
              code = resendRequest ∧
                (sinceHead pLayoutTable bytes ++ [code]).count resendRequest = 4)) := by
  intro m
  have h : QueueInvariant m := (queueInvariant_initial pLayoutTable).run bytes
  refine ⟨h.size_le, h.consistent.bounded, ?_, h.consistent.fifo, h.port, ?_, push_accepted h,
    fun code => ⟨interrupt_pushes h code, ?_⟩⟩
  · rw [h.waiting]
    by_cases hsize : m.state.commandBufferSize = 0
    · simp [hsize]
    · simp [hsize, Nat.pos_of_ne_zero hsize]
  · obtain ⟨times, hlength, hbounds, hsent⟩ := h.consistent.sent_issued
    exact ⟨m.queue.issued, times, h.consistent.accepted_eq_issued, hlength, hbounds, hsent⟩
  · by_cases hsize : m.state.commandBufferSize = 0
    · exact Or.inl (interrupt_idle h hsize code).1
    · have hpos := Nat.pos_of_ne_zero hsize
      rcases interrupt_head h hpos code with ⟨hstay, -⟩ | ⟨hcode, hleft, -⟩
      · exact Or.inl hstay
      · refine Or.inr ⟨hpos, hleft, hcode.imp_right fun hfourth => ⟨hfourth.1, ?_⟩⟩
        rw [List.count_append, sinceHead_count, hfourth.2, hfourth.1]
        rfl

/-- The keyboard refuses the reset command once, reports its self test and acknowledges: the
reset command is written twice and leaves, and of the four pushed commands the first is
written. -/
theorem runInterrupts_fifo_resent :
    let m := runInterrupts [resendRequest, selfTestPassed, commandAcknowledged]
      (initialMachine none)
    m.completed = [⟨resetCommand, 0⟩] ∧
      m.state.commands = [⟨0xF0, 2⟩, ⟨0xF3, 0x20⟩, ⟨0xF4, 0⟩, ⟨0xED, 0⟩] ∧
      m.accepted = [⟨resetCommand, 0⟩, ⟨0xF0, 2⟩, ⟨0xF3, 0x20⟩, ⟨0xF4, 0⟩, ⟨0xED, 0⟩] ∧
      m.dataPort = [0xFF, 0xFF, 0xF0, 2] ∧
      (pushPS2KeyboardCommand 0xEE 0 m).accepted = m.accepted ++ [⟨0xEE, 0⟩] := by
  intro m
  have hcompleted : m.completed = [⟨resetCommand, 0⟩] := by
    decide
  have hcommands : m.state.commands = [⟨0xF0, 2⟩, ⟨0xF3, 0x20⟩, ⟨0xF4, 0⟩, ⟨0xED, 0⟩] := by
    decide
  have hexecuted : m.executed = [⟨resetCommand, 0⟩, ⟨resetCommand, 0⟩, ⟨0xF0, 2⟩] := by
    decide
  have hsize : m.state.commandBufferSize = 4 := by
    decide
  obtain ⟨-, -, -, hfifo, hport, -, hpush, -⟩ :=
    runInterrupts_fifo none [resendRequest, selfTestPassed, commandAcknowledged]
  refine ⟨hcompleted, hcommands, ?_, ?_, ?_⟩
  · exact hfifo.trans (by rw [hcompleted, hcommands]; rfl)
  · exact hport.trans (by rw [hexecuted]; rfl)
  · exact (hpush ⟨0xEE, 0⟩).2.1.trans (by rw [if_pos (by rw [hsize]; decide)])

end Runs

end Keyboard
end DexprOS
