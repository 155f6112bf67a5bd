import DexprOS.Drivers.Keyboard.PS2KeyboardCommands

/-!
# Driver and keyboard

The keyboard receives the bytes of the data port in order and answers each of them, in
order and with any delay, with an acknowledgement or a request to resend.  The driver
gets the answers one by one, with other bytes of the keyboard in between.

The driver takes one answer for a whole command.  That is right for commands of one
byte; a command with a data byte gets two answers.

Main facts:
* `outstanding_step`: as long as no answer meets a command with a data byte at the
  head, the only answers on their way are those to the head;
* `calmRun_attributed`: in such runs every answer is attributed to its own command;
* `attributed_fails_at_data_command`: where such a command has just been written, the
  keyboard's next answer can complete it with its data byte unanswered.
-/

namespace DexprOS
namespace Keyboard

open Kernel Retransmit

section Link

/-- The driver, the keyboard's answers so far (one for each received byte), and how
many of them the driver has got. -/
structure Link where
  driver : Machine
  answers : List UInt8
  delivered : Nat

inductive LinkEvent where
  | answer (a : UInt8)
  | deliver
  | other (b : UInt8)
deriving DecidableEq, Repr

/-- One event, if it can happen: the keyboard answers its next byte, the driver gets
the next answer, or it gets a byte that is no answer. -/
def Link.step (s : Link) : LinkEvent → Option Link
  | .answer a =>
      if (a = commandAcknowledged ∨ a = resendRequest) ∧
          s.answers.length < s.driver.dataPort.length then
        some { s with answers := s.answers ++ [a] }
      else none
  | .deliver =>
      s.answers[s.delivered]?.map fun a =>
        { s with
          driver := processPS2KeyboardInterrupt a s.driver
          delivered := s.delivered + 1 }
  | .other b =>
      if b ≠ commandAcknowledged ∧ b ≠ resendRequest then
        some { s with driver := processPS2KeyboardInterrupt b s.driver }
      else none

def Link.run (es : List LinkEvent) (s : Link) : Option Link :=
  es.foldlM Link.step s

def initialLink (pLayoutTable : Option KeyToUnicodeTable) : Link :=
  ⟨initialMachine pLayoutTable, [], 0⟩

/-- The keyboard has acknowledged every byte of the head's last transmission, which
is the end of what went out through the data port. -/
def Link.HeadAcknowledged (s : Link) : Prop :=
  ∀ i < s.driver.state.headCommand.bytes.length,
    s.answers[s.driver.dataPort.length - s.driver.state.headCommand.bytes.length + i]? =
      some commandAcknowledged

/-- Where the transmissions of the head start in the bytes of the data port. -/
def Link.headStart (s : Link) : Nat :=
  s.driver.dataPort.length -
    (s.driver.state.numCommandResends + 1) * s.driver.state.headCommand.bytes.length

/-- The next answer, if there is one, completes a command only if all of its bytes
have been acknowledged, and makes the driver retransmit a command only if it is the
answer to one of that command's bytes. -/
def Link.Attributed (s : Link) : Prop :=
  ∀ a ∈ s.answers[s.delivered]?,
    let m' := processPS2KeyboardInterrupt a s.driver
    (a = commandAcknowledged → m'.completed ≠ s.driver.completed → s.HeadAcknowledged) ∧
      (a = resendRequest → m'.completed = s.driver.completed →
        m'.executed ≠ s.driver.executed → s.headStart ≤ s.delivered)

/-- The head of the queue, if there is one, has no data byte. -/
def Link.SingleByteHead (s : Link) : Prop :=
  ∀ c ∈ s.driver.state.commands.head?, consumesData c.command = false

/-- Runs in which an answer reaches the driver only while the head of its queue is a
command without a data byte. -/
inductive CalmRun (pLayoutTable : Option KeyToUnicodeTable) : Link → Prop where
  | start : CalmRun pLayoutTable (initialLink pLayoutTable)
  | step {s s' : Link} {e : LinkEvent} :
      CalmRun pLayoutTable s →
      (e = .deliver → s.SingleByteHead) →
      s.step e = some s' →
      CalmRun pLayoutTable s'

end Link

section Outstanding

/-- Bytes of the head, which is in flight. -/
def headBytes (q : Queue KeyboardCommand) : Nat :=
  (q.pending.head?.toList.flatMap KeyboardCommand.bytes).length

/-- Bytes of everything that was sent. -/
def sentBytes (q : Queue KeyboardCommand) : Nat :=
  (q.sent.flatMap KeyboardCommand.bytes).length

theorem sentBytes_queue
    {m : Machine}
    (h : QueueInvariant m) :
    m.dataPort.length = sentBytes m.queue :=
  congrArg List.length h.port

/-- The driver has got every answer except those to the head's last transmission. -/
structure Outstanding (s : Link) : Prop where
  queue : QueueInvariant s.driver
  answered : s.answers.length ≤ s.driver.dataPort.length
  kinds : ∀ a ∈ s.answers, a = commandAcknowledged ∨ a = resendRequest
  awaited : s.delivered + headBytes s.driver.queue = sentBytes s.driver.queue

/-- Pushing sends a command only into an empty queue. -/
theorem push_awaited
    {q : Queue KeyboardCommand} {n : Nat}
    (h : n + headBytes q = sentBytes q)
    (c : KeyboardCommand) :
    n + headBytes (q.push maxCmdBufferSize c) = sentBytes (q.push maxCmdBufferSize c) := by
  unfold Queue.push
  split
  · exact h
  · unfold headBytes sentBytes at h ⊢
    cases hpending : q.pending with
    | nil =>
        simp only [hpending, List.head?_nil, Option.toList_none, List.flatMap_nil,
          List.length_nil, Nat.add_zero] at h
        simp [h]
    | cons b rest =>
        rw [hpending] at h
        simpa using h

theorem pushAll_awaited
    {q : Queue KeyboardCommand} {n : Nat}
    (h : n + headBytes q = sentBytes q)
    (cs : List KeyboardCommand) :
    n + headBytes (q.pushAll maxCmdBufferSize cs) =
      sentBytes (q.pushAll maxCmdBufferSize cs) := by
  induction cs generalizing q with
  | nil =>
      exact h
  | cons c cs ih =>
      exact ih (push_awaited h c)

/-- The next head is sent as soon as this one has left. -/
theorem next_awaited
    {q : Queue KeyboardCommand} {a : KeyboardCommand} {rest : List KeyboardCommand}
    (hpending : q.pending = a :: rest) :
    sentBytes q + headBytes q.next = sentBytes q.next := by
  simp [Queue.next, hpending, headBytes, sentBytes, List.flatMap_append]

theorem resend_awaited
    {q : Queue KeyboardCommand} {a : KeyboardCommand} {rest : List KeyboardCommand}
    (limit : Nat)
    (hpending : q.pending = a :: rest) :
    sentBytes q + headBytes (q.resend limit) = sentBytes (q.resend limit) := by
  unfold Queue.resend
  rw [hpending]
  dsimp only
  split
  · simp [headBytes, sentBytes, List.flatMap_append]
  · exact next_awaited hpending

/-- Bytes that went out stay out. -/
theorem interrupt_dataPort
    {m : Machine}
    (h : QueueInvariant m)
    (code : UInt8) :
    m.dataPort <+: (processPS2KeyboardInterrupt code m).dataPort := by
  have hsent : m.queue.sent <+: (processPS2KeyboardInterrupt code m).queue.sent := by
    rcases interrupt_queue h code with ⟨-, hq⟩ | ⟨-, hq⟩ | ⟨-, -, cs, hq⟩
    · exact hq ▸ Queue.next_sent _
    · exact hq ▸ Queue.resend_sent _ _
    · exact hq ▸ Queue.pushAll_sent _ _ _
  obtain ⟨t, ht⟩ := hsent
  rw [h.port, (h.interrupt code).port]
  exact ⟨t.flatMap KeyboardCommand.bytes, by rw [← List.flatMap_append]; exact congrArg _ ht⟩

theorem Outstanding.other
    {s : Link}
    (h : Outstanding s)
    {b : UInt8}
    (hack : b ≠ commandAcknowledged) (hresend : b ≠ resendRequest) :
    Outstanding { s with driver := processPS2KeyboardInterrupt b s.driver } := by
  obtain ⟨cs, hq⟩ : ∃ cs, (processPS2KeyboardInterrupt b s.driver).queue =
      s.driver.queue.pushAll maxCmdBufferSize cs := by
    rcases interrupt_queue h.queue b with ⟨hb, -⟩ | ⟨hb, -⟩ | ⟨-, -, hq⟩
    · exact absurd hb hack
    · exact absurd hb hresend
    · exact hq
  have hawaited := pushAll_awaited h.awaited cs
  rw [← hq] at hawaited
  exact ⟨h.queue.interrupt b,
    Nat.le_trans h.answered (interrupt_dataPort h.queue b).length_le, h.kinds, hawaited⟩

/-- An answer that reaches the driver is the answer to a head of one byte. -/
theorem Outstanding.delivered_eq
    {s : Link}
    (h : Outstanding s)
    (hcalm : s.SingleByteHead)
    {a : UInt8}
    (ha : s.answers[s.delivered]? = some a) :
    ∃ rest, s.driver.queue.pending = s.driver.state.headCommand :: rest ∧
      s.driver.state.headCommand.bytes.length = 1 ∧
      s.delivered + 1 = s.driver.dataPort.length := by
  have hlt : s.delivered < s.answers.length := List.getElem?_eq_some_iff.mp ha |>.1
  have hanswered := h.answered
  have hawaited := h.awaited
  have hport := sentBytes_queue h.queue
  by_cases hsize : s.driver.state.commandBufferSize = 0
  · have hpending : s.driver.queue.pending = [] := commands_eq_nil.mpr hsize
    have hnone : headBytes s.driver.queue = 0 := by simp [headBytes, hpending]
    omega
  · have hcons := commands_eq_cons (Nat.pos_of_ne_zero hsize)
    have hsingle : s.driver.state.headCommand.bytes.length = 1 := by
      have hcommand := hcalm s.driver.state.headCommand (by rw [hcons]; rfl)
      simp [KeyboardCommand.bytes, hcommand]
    have hpending : s.driver.queue.pending =
        s.driver.state.headCommand :: s.driver.state.commands.tail := hcons
    have hone : headBytes s.driver.queue = 1 := by simp [headBytes, hpending, hsingle]
    exact ⟨_, hpending, hsingle, by omega⟩

theorem Outstanding.deliver
    {s : Link}
    (h : Outstanding s)
    (hcalm : s.SingleByteHead)
    {a : UInt8}
    (ha : s.answers[s.delivered]? = some a) :
    Outstanding
      { s with
        driver := processPS2KeyboardInterrupt a s.driver
        delivered := s.delivered + 1 } := by
  obtain ⟨rest, hpending, -, hlast⟩ := h.delivered_eq hcalm ha
  have hport := sentBytes_queue h.queue
  have hanswered := Nat.le_trans h.answered (interrupt_dataPort h.queue a).length_le
  refine ⟨h.queue.interrupt a, hanswered, h.kinds, ?_⟩
  have hdelivered : s.delivered + 1 = sentBytes s.driver.queue := hlast.trans hport
  dsimp only
  rw [hdelivered]
  rcases interrupt_queue h.queue a with ⟨-, hq⟩ | ⟨-, hq⟩ | ⟨hack, hresend, -⟩
  · rw [hq]
    exact next_awaited hpending
  · rw [hq]
    exact resend_awaited _ hpending
  · rcases h.kinds a (List.mem_of_getElem? ha) with ha | ha
    · exact absurd ha hack
    · exact absurd ha hresend

/-- Every event keeps the law, if no answer meets a command with a data byte. -/
theorem outstanding_step
    {s s' : Link} {e : LinkEvent}
    (h : Outstanding s)
    (hcalm : e = .deliver → s.SingleByteHead)
    (hstep : s.step e = some s') :
    Outstanding s' := by
  cases e with
  | answer a =>
      simp only [Link.step, Option.ite_none_right_eq_some, Option.some.injEq] at hstep
      obtain ⟨⟨ha, hroom⟩, rfl⟩ := hstep
      refine ⟨h.queue, by simp; omega, ?_, h.awaited⟩
      intro b hb
      rcases List.mem_append.mp hb with hb | hb
      · exact h.kinds b hb
      · exact List.mem_singleton.mp hb ▸ ha
  | deliver =>
      simp only [Link.step, Option.map_eq_some_iff] at hstep
      obtain ⟨a, ha, rfl⟩ := hstep
      exact h.deliver (hcalm rfl) ha
  | other b =>
      simp only [Link.step, Option.ite_none_right_eq_some, Option.some.injEq] at hstep
      obtain ⟨⟨hack, hresend⟩, rfl⟩ := hstep
      exact h.other hack hresend

theorem outstanding_initial
    (pLayoutTable : Option KeyToUnicodeTable) :
    Outstanding (initialLink pLayoutTable) :=
  ⟨queueInvariant_initial pLayoutTable, Nat.zero_le _, by simp [initialLink], by rfl⟩

theorem calmRun_outstanding
    {pLayoutTable : Option KeyToUnicodeTable} {s : Link}
    (hrun : CalmRun pLayoutTable s) :
    Outstanding s := by
  induction hrun with
  | start =>
      exact outstanding_initial pLayoutTable
  | step _ hcalm hstep ih =>
      exact outstanding_step ih hcalm hstep

/-- In a calm run every answer that meets a head without a data byte is attributed to
its own command: an acknowledgement completes a command whose only byte was
acknowledged, and a refusal makes the driver retransmit the command that was refused. -/
theorem calmRun_attributed
    {pLayoutTable : Option KeyToUnicodeTable} {s : Link}
    (hrun : CalmRun pLayoutTable s)
    (hcalm : s.SingleByteHead) :
    s.Attributed := by
  intro a ha
  obtain ⟨rest, -, hsingle, hlast⟩ := (calmRun_outstanding hrun).delivered_eq hcalm ha
  refine ⟨?_, ?_⟩
  · rintro rfl _ i hi
    have hindex : s.driver.dataPort.length - s.driver.state.headCommand.bytes.length + i =
        s.delivered := by
      omega
    rw [hindex]
    exact ha
  · intro _ _ _
    rw [Link.headStart, hsingle]
    omega

end Outstanding

section DataCommands

/-- The condition cannot be left out: whenever a calm run has just written a command
with a data byte, the keyboard's next answer can complete it too early. -/
theorem attributed_fails_at_data_command
    {pLayoutTable : Option KeyToUnicodeTable} {s : Link}
    (hrun : CalmRun pLayoutTable s)
    (hdata : ∃ c ∈ s.driver.state.commands.head?, consumesData c.command = true)
    (hunanswered : s.answers.length = s.delivered) :
    ∃ s', s.step (.answer commandAcknowledged) = some s' ∧ ¬ s'.Attributed := by
  obtain ⟨c, hc, hconsumes⟩ := hdata
  have h := calmRun_outstanding hrun
  have hsize : 0 < s.driver.state.commandBufferSize := by
    by_contra hempty
    rw [commands_eq_nil.mpr (Nat.eq_zero_of_not_pos hempty)] at hc
    exact absurd hc (by simp)
  have hhead : s.driver.state.headCommand = c := by
    rw [commands_eq_cons hsize] at hc
    exact Option.some.inj hc
  have hbytes : s.driver.state.headCommand.bytes.length = 2 := by
    simp [KeyboardCommand.bytes, hhead, hconsumes]
  have hpending : s.driver.queue.pending =
      s.driver.state.headCommand :: s.driver.state.commands.tail :=
    commands_eq_cons hsize
  have hlast : s.delivered + 2 = s.driver.dataPort.length := by
    have hawaited := h.awaited
    rw [← sentBytes_queue h.queue] at hawaited
    simpa [headBytes, hpending, hbytes] using hawaited
  refine ⟨{ s with answers := s.answers ++ [commandAcknowledged] }, ?_, fun hattributed => ?_⟩
  · simp only [Link.step, true_or, true_and]
    rw [if_pos (by omega)]
  · have hnext : (s.answers ++ [commandAcknowledged])[s.delivered]? =
        some commandAcknowledged := by
      simp [← hunanswered]
    have hleft : (processPS2KeyboardInterrupt commandAcknowledged s.driver).completed =
        s.driver.completed ++ [s.driver.state.headCommand] := by
      rcases interrupt_queue h.queue commandAcknowledged with ⟨-, hq⟩ | ⟨hcode, -⟩ | ⟨hcode, -⟩
      · exact (congrArg Queue.removed hq).trans (Queue.next_removed hpending).1
      · exact absurd hcode (by decide)
      · exact absurd rfl hcode
    have hacknowledged := (hattributed _ hnext).1 rfl (by simp [hleft])
    have hsecond := hacknowledged 1 (by simp [hbytes])
    have hindex : s.driver.dataPort.length - s.driver.state.headCommand.bytes.length + 1 =
        (s.answers ++ [commandAcknowledged]).length := by
      simp
      omega
    simp only [hindex, List.getElem?_length] at hsecond
    exact absurd hsecond (by simp)

/-- The reset command is acknowledged. -/
theorem calmRun_attributed_reset :
    (Link.mk (initialMachine none) [commandAcknowledged] 0).Attributed := by
  have hanswer : (initialLink none).step (.answer commandAcknowledged) =
      some (Link.mk (initialMachine none) [commandAcknowledged] 0) := by
    rfl
  exact calmRun_attributed (CalmRun.step CalmRun.start (by simp) hanswer)
    (by unfold Link.SingleByteHead; decide)

/-- Caps Lock is pressed before the reset command is answered.  The acknowledgement of
the reset command sends the indicator command with its data byte; the keyboard
acknowledges the command byte, and that completes the command in the driver, although
the data byte has not been answered. -/
theorem attributed_fails_caps_lock :
    ∃ s, Link.run
        [.other 0x58, .answer commandAcknowledged, .deliver, .answer commandAcknowledged]
        (initialLink none) = some s ∧ ¬ s.Attributed := by
  refine ⟨_, rfl, fun h => ?_⟩
  have hcompleted := (h commandAcknowledged rfl).1 rfl (by decide +kernel)
  exact absurd (hcompleted 1 (by decide +kernel)) (by decide +kernel)

end DataCommands

end Keyboard
end DexprOS
