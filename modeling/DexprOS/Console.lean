import DexprOS.Drivers.Keyboard.PS2KeyboardCharacters
import DexprOS.Drivers.Keyboard.USKeyboardLayout
import DexprOS.ShellCommands
import DexprOS.ShellPrompt

/-!
# The console

The keyboard driver and the shell that it calls, as `efi_main` connects them: the driver
has the US layout, the shell is `g_shell`, and a keyboard interrupt may arrive between any
two calls that the main program makes into the shell.  Each of these calls is one step: an
interrupt that arrives inside of one, as while `DexprOS_ShellActivatePrompt` prints the
prompt, is not modelled.

Main facts:
* `shell_before_prompt`: keys that are typed before the prompt is there do nothing;
* `console_promptLine`: what is on the prompt line, for any bytes of the keyboard;
* `console_resets`: the machine is only reset by a line that says so.
-/

namespace DexprOS
namespace Shell

open Kernel Keyboard

section Console

/-- The keyboard driver with the shell that it calls. -/
structure Console where
  keyboard : Machine
  shell : ShellState

/-- The event that a call of the driver is for the shell. -/
def callEvent : Keyboard.ShellCall → KeyboardEvent
  | .keyEvent keyID state => .key keyID state
  | .characterEvent codepoint => .character codepoint

variable (font : BitmapFont)

/-- `DexprOS_HandleInterrupt_ISA_Keyboard` up to its end of interrupt.  The driver's calls
into the shell do not come back to the driver, so they may be made when it is done. -/
def Console.interrupt (code : UInt8) (c : Console) : Console :=
  let m := processPS2KeyboardInterrupt code c.keyboard
  { keyboard := m
    shell := runKeyboard font ((m.shell.drop c.keyboard.shell.length).map callEvent) c.shell }

/-- What happens next: the main program calls the shell, or the keyboard interrupts. -/
inductive ConsoleStep where
  | call (op : ShellOp)
  | interrupt (code : UInt8)

def ConsoleStep.run : ConsoleStep → Console → Console
  | call op, c => { c with shell := op.run font c.shell }
  | interrupt code, c => c.interrupt font code

def runConsole (steps : List ConsoleStep) (c : Console) : Console :=
  steps.foldl (fun c step => step.run font c) c

/-- The bytes of the interrupts. -/
def interruptBytes (steps : List ConsoleStep) : List UInt8 :=
  steps.filterMap fun step =>
    match step with
    | .call _ => none
    | .interrupt code => some code

/-- What the main program calls. -/
def programCalls (steps : List ConsoleStep) : List ShellOp :=
  steps.filterMap fun step =>
    match step with
    | .call op => some op
    | .interrupt _ => none

/-- The console when interrupts are enabled. -/
def initialConsole (consoleWidth consoleHeight : UInt32) : Console where
  keyboard := initialMachine (some getKeyboardLayoutUS)
  shell := createShell font consoleWidth consoleHeight

end Console

section Keyboard

/-- An interrupt adds calls behind the ones that were made. -/
theorem interrupt_shell_append
    (code : UInt8) (m : Machine) :
    m.shell <+: (processPS2KeyboardInterrupt code m).shell := by
  cases hcode : isResponse code with
  | true =>
      have hshell : (processPS2KeyboardInterrupt code m).shell = m.shell :=
        (congrArg Machine.shell (interrupt_response hcode m) :)
      simp [hshell]
  | false =>
      rw [interrupt_code hcode]
      cases (decodeCode code m.state).2 with
      | none => exact List.prefix_rfl
      | some key =>
          rw [(applyKey_shell key _).1]
          exact List.prefix_append _ _

theorem runInterrupts_shell_append
    (bytes : List UInt8) (m : Machine) :
    m.shell <+: (runInterrupts bytes m).shell :=
  List.foldlRecOn (motive := fun (m' : Machine) => m.shell <+: m'.shell) bytes _
    List.prefix_rfl fun _ hm code _ => hm.trans (interrupt_shell_append code _)

variable (font : BitmapFont)

theorem runKeyboard_append
    (events events' : List KeyboardEvent) (s : ShellState) :
    runKeyboard font (events ++ events') s =
      runKeyboard font events' (runKeyboard font events s) := by
  unfold runKeyboard
  rw [List.foldl_append]

/-- The driver does not see what the main program does. -/
theorem runConsole_keyboard
    (steps : List ConsoleStep) (c : Console) :
    (runConsole font steps c).keyboard = runInterrupts (interruptBytes steps) c.keyboard := by
  induction steps generalizing c with
  | nil => rfl
  | cons step steps ih =>
      rw [runConsole, List.foldl_cons, ← runConsole, ih]
      cases step with
      | call op => rfl
      | interrupt code => rfl

/-- The events of the calls that a run of interrupts adds. -/
def addedEvents (bytes : List UInt8) (m : Machine) : List KeyboardEvent :=
  ((runInterrupts bytes m).shell.drop m.shell.length).map callEvent

theorem addedEvents_cons
    (code : UInt8) (bytes : List UInt8) (m : Machine) :
    addedEvents (code :: bytes) m =
      addedEvents [code] m ++ addedEvents bytes (processPS2KeyboardInterrupt code m) := by
  have hfirst := interrupt_shell_append code m
  have hrest := runInterrupts_shell_append bytes (processPS2KeyboardInterrupt code m)
  obtain ⟨calls, hcalls⟩ := hfirst
  obtain ⟨calls', hcalls'⟩ := hrest
  have hrun : runInterrupts (code :: bytes) m =
      runInterrupts bytes (processPS2KeyboardInterrupt code m) := by
    rfl
  have hone : runInterrupts [code] m = processPS2KeyboardInterrupt code m := by
    rfl
  unfold addedEvents
  rw [hrun, hone, ← hcalls', List.drop_left, ← hcalls, List.drop_left, List.append_assoc,
    List.drop_left, List.map_append]

/-- A run of interrupts alone is a run of the events that it adds. -/
theorem runConsole_interrupts
    (bytes : List UInt8) (c : Console) :
    (runConsole font (bytes.map .interrupt) c).shell =
      runKeyboard font (addedEvents bytes c.keyboard) c.shell := by
  induction bytes generalizing c with
  | nil =>
      simp [runConsole, addedEvents, runInterrupts, runKeyboard]
  | cons code bytes ih =>
      rw [List.map_cons, runConsole, List.foldl_cons, ← runConsole, ih, addedEvents_cons,
        runKeyboard_append]
      rfl

end Keyboard

section BeforePrompt

variable (font : BitmapFont)

/-- The main program's calls before the prompt: it prints, or draws what it printed. -/
def ShellOp.Prints : ShellOp → Prop
  | putChar _ => True
  | puts _ => True
  | putsUTF32 _ => True
  | flushStdOut => True
  | _ => False

theorem ShellOp.Prints.prompt
    {op : ShellOp} (hop : op.Prints) (s : ShellState) :
    (op.run font s).prompt = s.prompt := by
  cases op with
  | putChar character => exact prompt_shellPutChar character s
  | puts msg => exact prompt_shellPuts msg s
  | putsUTF32 msg => exact prompt_shellPutsUTF32 msg s
  | flushStdOut => exact prompt_flush font s
  | activatePrompt => exact hop.elim
  | keyboardCharacterEvent codepoint => exact hop.elim
  | keyboardKeyEvent keyID state => exact hop.elim
  | interpretCommand command => exact hop.elim

/-- Without a prompt the shell ignores the keyboard. -/
theorem runKeyboard_disabled
    (events : List KeyboardEvent) {s : ShellState} (hdisabled : s.commandPromptEnabled = false) :
    runKeyboard font events s = s := by
  induction events with
  | nil => rfl
  | cons event events ih =>
      have hevent : event.run font s = s := by
        cases event with
        | character codepoint =>
            simp [KeyboardEvent.run, shellKeyboardCharacterEvent, hdisabled]
        | key keyID state =>
            simp [KeyboardEvent.run, shellKeyboardKeyEvent, erases, hdisabled]
      rw [runKeyboard, List.foldl_cons, hevent]
      exact ih

/-- Keys that are typed before the prompt is there do nothing, wherever their interrupts
arrive between the calls of the main program. -/
theorem shell_before_prompt
    (steps : List ConsoleStep) (hsteps : ∀ op ∈ programCalls steps, op.Prints) (c : Console)
    (hdisabled : c.shell.commandPromptEnabled = false) :
    (runConsole font steps c).shell = runShellOps font (programCalls steps) c.shell ∧
      (runConsole font steps c).shell.prompt = c.shell.prompt := by
  induction steps generalizing c with
  | nil => exact ⟨rfl, rfl⟩
  | cons step steps ih =>
      rw [runConsole, List.foldl_cons, ← runConsole]
      cases step with
      | call op =>
          have hop := hsteps op List.mem_cons_self
          have hprompt := hop.prompt font c.shell
          have hdisabled' := (prompt_eq_iff.mp hprompt).2.2.1.trans hdisabled
          obtain ⟨hshell, hkept⟩ := ih
            (fun op' hop' => hsteps op' (List.mem_cons_of_mem _ hop'))
            { c with shell := op.run font c.shell } hdisabled'
          exact ⟨hshell, hkept.trans hprompt⟩
      | interrupt code =>
          have hsame : (c.interrupt font code).shell = c.shell :=
            runKeyboard_disabled font _ hdisabled
          obtain ⟨hshell, hkept⟩ := ih hsteps (c.interrupt font code) (hsame ▸ hdisabled)
          rw [hsame] at hshell hkept
          exact ⟨hshell, hkept⟩

end BeforePrompt

section Events

variable {table : Option KeyToUnicodeTable} {m : Machine}

/-- What the shell does with an event: it inserts a character, or erases one. -/
def KeyboardEvent.edits : KeyboardEvent → Option KeyboardEvent
  | character codepoint => some (.character codepoint)
  | key keyID state =>
      if keyID = keyBackspace ∧ state ≠ .released then some (.key keyBackspace .pressed) else none

/-- An event does what its edit does; the others do nothing. -/
theorem run_edits
    (font : BitmapFont) (event : KeyboardEvent) (s : ShellState) :
    event.run font s = (event.edits.elim s fun edit => edit.run font s) := by
  cases event with
  | character codepoint => rfl
  | key keyID state =>
      by_cases hkey : keyID = keyBackspace ∧ state ≠ .released
      · have hedits : (KeyboardEvent.key keyID state).edits = some (.key keyBackspace .pressed) :=
          if_pos hkey
        rw [hedits, Option.elim_some]
        rcases hkey with ⟨rfl, hstate⟩
        cases state with
        | released => exact absurd rfl hstate
        | pressed => rfl
        | repeated => simp [KeyboardEvent.run, shellKeyboardKeyEvent, erases]
      · have hedits : (KeyboardEvent.key keyID state).edits = none :=
          if_neg hkey
        have herases : erases keyID state s = false := by
          rw [not_and, not_not] at hkey
          by_cases hbackspace : keyID = keyBackspace
          · simp [erases, hkey hbackspace]
          · simp [erases, hbackspace]
        simp [hedits, KeyboardEvent.run, shellKeyboardKeyEvent, herases]

theorem runKeyboard_edits
    (font : BitmapFont) (events : List KeyboardEvent) (s : ShellState) :
    runKeyboard font (events.filterMap KeyboardEvent.edits) s = runKeyboard font events s := by
  induction events generalizing s with
  | nil => rfl
  | cons event events ih =>
      have hevent := run_edits font event s
      cases hedits : event.edits with
      | none =>
          rw [hedits, Option.elim_none] at hevent
          rw [List.filterMap_cons_none hedits, ih, runKeyboard, runKeyboard, List.foldl_cons,
            hevent]
      | some edit =>
          rw [hedits, Option.elim_some] at hevent
          rw [List.filterMap_cons_some hedits, runKeyboard, List.foldl_cons, ← hevent,
            ← runKeyboard, ih]
          rfl

/-- An edit changes a line like its event; without an edit the line stays. -/
theorem KeyboardEvent.edit_edits
    (line : List UInt32) (event : KeyboardEvent) :
    (∀ edit, event.edits = some edit →
        edit.isEnter = event.isEnter ∧ edit.edit line = event.edit line) ∧
      (event.edits = none → event.isEnter = false ∧ event.edit line = line) := by
  cases event with
  | character codepoint => simp [KeyboardEvent.edits]
  | key keyID state =>
      unfold KeyboardEvent.edits
      cases state <;> by_cases hkey : keyID = keyBackspace <;>
        simp [KeyboardEvent.isEnter, KeyboardEvent.edit, hkey]

/-- The typed line is that of the edits. -/
theorem typedLine_edits
    (events : List KeyboardEvent) :
    typedLine (events.filterMap KeyboardEvent.edits) = typedLine events := by
  induction events using List.reverseRecOn with
  | nil => rfl
  | append_singleton events event ih =>
      obtain ⟨hsame, hnone⟩ := event.edit_edits (typedLine events)
      rw [List.filterMap_append, typedLine_concat]
      cases hedits : event.edits with
      | none =>
          rw [List.filterMap_cons_none hedits, List.filterMap_nil, List.append_nil, ih,
            (hnone hedits).1, (hnone hedits).2, if_neg Bool.false_ne_true]
      | some edit =>
          rw [List.filterMap_cons_some hedits, List.filterMap_nil, typedLine_concat, ih,
            (hsame edit hedits).1, (hsame edit hedits).2]

/-- The calls that do not count edit nothing. -/
theorem filterMap_edits_isReal
    (calls : List Keyboard.ShellCall) :
    ((calls.filter Keyboard.ShellCall.isReal).map callEvent).filterMap KeyboardEvent.edits =
      (calls.map callEvent).filterMap KeyboardEvent.edits := by
  induction calls with
  | nil => rfl
  | cons call calls ih =>
      cases hreal : call.isReal with
      | true =>
          rw [List.filter_cons_of_pos hreal, List.map_cons, List.map_cons, List.filterMap_cons,
            List.filterMap_cons, ih]
      | false =>
          have hedits : (callEvent call).edits = none := by
            cases call with
            | characterEvent codepoint => cases hreal
            | keyEvent keyID state =>
                have hzero : keyID = 0 := by
                  simpa [Keyboard.ShellCall.isReal] using hreal
                simp [callEvent, KeyboardEvent.edits, hzero, keyBackspace]
          rw [List.filter_cons_of_neg (by simp [hreal]), ih, List.map_cons,
            List.filterMap_cons_none hedits]

/-- Applied keys stay applied. -/
theorem runInterrupts_applied_append
    (bytes : List UInt8) (m : Machine) :
    m.applied <+: (runInterrupts bytes m).applied := by
  refine List.foldlRecOn (motive := fun (m' : Machine) => m.applied <+: m'.applied) bytes _
    List.prefix_rfl fun m' hm code _ => hm.trans ?_
  cases hcode : isResponse code with
  | true =>
      have happlied := (SameDecoder.of_keyView (interrupt_response hcode m')).2
      simp [happlied]
  | false =>
      rw [interrupt_code hcode]
      cases (decodeCode code m'.state).2 with
      | none => exact List.prefix_rfl
      | some key =>
          rw [(applyKey_sameDecoder key _).2]
          exact List.prefix_append _ _

/-- The keys that a run of interrupts applies. -/
def addedKeys (bytes : List UInt8) (m : Machine) : List PS2KeyboardMapKey :=
  (runInterrupts bytes m).appliedKeys.drop m.appliedKeys.length

theorem appliedKeys_run
    (bytes : List UInt8) (m : Machine) :
    (runInterrupts bytes m).appliedKeys = m.appliedKeys ++ addedKeys bytes m := by
  obtain ⟨keys, hkeys⟩ := runInterrupts_applied_append bytes m
  unfold addedKeys Machine.appliedKeys
  rw [← hkeys, List.filter_append, List.drop_left]

/-- What a run edits is what its keys report. -/
theorem addedEvents_edits
    (hm : CallsInvariant table m) (bytes : List UInt8) :
    (addedEvents bytes m).filterMap KeyboardEvent.edits =
      ((callsFrom table m.appliedKeys (addedKeys bytes m)).map callEvent).filterMap
        KeyboardEvent.edits := by
  have hrun : CallsInvariant table (runInterrupts bytes m) :=
    List.foldlRecOn bytes _ hm fun _ hm code _ => hm.interrupt code
  obtain ⟨calls, hcalls⟩ := runInterrupts_shell_append bytes m
  have hreal := hrun.calls
  rw [← hcalls, List.filter_append, hm.calls, appliedKeys_run, callsFrom_append,
    List.nil_append] at hreal
  unfold addedEvents
  rw [← hcalls, List.drop_left, ← filterMap_edits_isReal, List.append_cancel_left hreal]

end Events

section Typable

theorem characterCalls_typable
    {mods : Modifiers} {keyID : KeyID} {state : KeyState} {codepoint : UInt32}
    (hcall : Keyboard.ShellCall.characterEvent codepoint ∈
      characterCalls (some getKeyboardLayoutUS) mods keyID state) :
    Typable codepoint := by
  -- the modifiers are those of some state of the driver
  obtain ⟨s, rfl⟩ : ∃ s : PS2KeyboardState, s.modifiers = mods :=
    ⟨{ zeroPS2KeyboardState with
        anyShiftActive := mods.shift
        anyControlActive := mods.control
        leftAltActive := mods.leftAlt
        rightAltActive := mods.rightAlt
        capsLockActive := mods.capsLock
        numLockActive := mods.numLock }, rfl⟩
  unfold characterCalls at hcall
  dsimp only at hcall
  rw [← keyCodepoint_eq] at hcall
  split at hcall
  · cases hcall
  · rename_i hnone
    rw [not_or] at hnone
    simp only [List.mem_singleton, Keyboard.ShellCall.characterEvent.injEq] at hcall
    rw [hcall]
    exact keyCodepoint_US s keyID hnone.2

/-- Whatever keys are applied, the shell gets printable ASCII characters and newlines. -/
theorem callsFrom_typable
    (before keys : List PS2KeyboardMapKey) {codepoint : UInt32}
    (hcall : Keyboard.ShellCall.characterEvent codepoint ∈
      callsFrom (some getKeyboardLayoutUS) before keys) :
    Typable codepoint := by
  induction keys generalizing before with
  | nil => cases hcall
  | cons key keys ih =>
      unfold callsFrom callsOf at hcall
      rcases List.mem_append.mp hcall with hkey | hrest
      · rcases List.mem_cons.mp hkey with hevent | hcharacter
        · cases hevent
        · exact characterCalls_typable hcharacter
      · exact ih _ hrest

variable {m : Machine}

theorem addedEvents_typable
    (hm : CallsInvariant (some getKeyboardLayoutUS) m) (bytes : List UInt8) {codepoint : UInt32}
    (hevent : KeyboardEvent.character codepoint ∈ addedEvents bytes m) :
    Typable codepoint := by
  have hedit : KeyboardEvent.character codepoint ∈
      (addedEvents bytes m).filterMap KeyboardEvent.edits :=
    List.mem_filterMap.mpr ⟨_, hevent, rfl⟩
  rw [addedEvents_edits hm, List.mem_filterMap] at hedit
  obtain ⟨event, hmem, hedits⟩ := hedit
  obtain ⟨call, hcall, rfl⟩ := List.mem_map.mp hmem
  cases call with
  | keyEvent keyID state =>
      unfold callEvent KeyboardEvent.edits at hedits
      dsimp only at hedits
      split at hedits <;> cases hedits
  | characterEvent codepoint' =>
      cases hedits
      exact callsFrom_typable _ _ hcall

theorem addedEvents_nonNull
    (hm : CallsInvariant (some getKeyboardLayoutUS) m) (bytes : List UInt8) :
    ∀ event ∈ addedEvents bytes m, event.NonNull := by
  intro event hevent
  cases event with
  | character codepoint => exact (addedEvents_typable hm bytes hevent).ne_zero
  | key keyID state => exact trivial

/-- The characters of a line are those of some events. -/
theorem mem_typedLine
    (events : List KeyboardEvent) {codepoint : UInt32} (hmem : codepoint ∈ typedLine events) :
    KeyboardEvent.character codepoint ∈ events ∧ codepoint ≠ 10 := by
  induction events using List.reverseRecOn with
  | nil => cases hmem
  | append_singleton events event ih =>
      rw [typedLine_concat] at hmem
      have hold (hmem : codepoint ∈ typedLine events) :
          KeyboardEvent.character codepoint ∈ events ++ [event] ∧ codepoint ≠ 10 :=
        (ih hmem).imp (List.mem_append_left _) id
      split at hmem
      · cases hmem
      · rename_i henter
        cases event with
        | character codepoint' =>
            unfold KeyboardEvent.edit at hmem
            dsimp only at hmem
            split at hmem
            · rcases List.mem_append.mp hmem with hline | hnew
              · exact hold hline
              · obtain rfl := List.mem_singleton.mp hnew
                refine ⟨List.mem_append_right _ (List.mem_singleton_self _), ?_⟩
                simpa [KeyboardEvent.isEnter] using henter
            · exact hold hmem
        | key keyID state =>
            unfold KeyboardEvent.edit at hmem
            dsimp only at hmem
            split at hmem
            · exact hold (List.dropLast_subset _ hmem)
            · exact hold hmem

end Typable

section Prompt

variable (font : BitmapFont)

/-- The console at the prompt, and what the keyboard sends from then on. -/
def promptConsole (consoleWidth consoleHeight : UInt32) (steps : List ConsoleStep) : Console :=
  runConsole font (steps ++ [.call .activatePrompt])
    (initialConsole font consoleWidth consoleHeight)

theorem runConsole_append
    (steps steps' : List ConsoleStep) (c : Console) :
    runConsole font (steps ++ steps') c = runConsole font steps' (runConsole font steps c) := by
  unfold runConsole
  rw [List.foldl_append]

/-- In every run of the console the driver's calls are those of the applied keys. -/
theorem runConsole_callsInvariant
    (consoleWidth consoleHeight : UInt32) (steps : List ConsoleStep) :
    CallsInvariant (some getKeyboardLayoutUS)
      (runConsole font steps (initialConsole font consoleWidth consoleHeight)).keyboard := by
  rw [runConsole_keyboard]
  exact callsInvariant_run _ _

theorem promptConsole_keyboard
    (consoleWidth consoleHeight : UInt32) (steps : List ConsoleStep) :
    CallsInvariant (some getKeyboardLayoutUS)
      (promptConsole font consoleWidth consoleHeight steps).keyboard :=
  runConsole_callsInvariant font consoleWidth consoleHeight _

theorem promptConsole_shell
    (consoleWidth consoleHeight : UInt32) {steps : List ConsoleStep}
    (hsteps : ∀ op ∈ programCalls steps, op.Prints) :
    (promptConsole font consoleWidth consoleHeight steps).shell =
        shellActivatePrompt font (runShellOps font (programCalls steps)
          (createShell font consoleWidth consoleHeight)) ∧
      PromptLine [] (promptConsole font consoleWidth consoleHeight steps).shell := by
  have hbefore := shell_before_prompt font steps hsteps
    (initialConsole font consoleWidth consoleHeight) rfl
  have hshell : (promptConsole font consoleWidth consoleHeight steps).shell =
      shellActivatePrompt font (runShellOps font (programCalls steps)
        (createShell font consoleWidth consoleHeight)) := by
    rw [promptConsole, runConsole_append, ← show _ = runShellOps font (programCalls steps)
      (createShell font consoleWidth consoleHeight) from hbefore.1]
    rfl
  refine ⟨hshell, ?_⟩
  rw [hshell]
  refine promptLine_activatePrompt font
    ((configured_createShell font consoleWidth consoleHeight).runOps font _) ?_
  rw [← show _ = runShellOps font (programCalls steps)
    (createShell font consoleWidth consoleHeight) from hbefore.1]
  exact (prompt_eq_iff.mp hbefore.2).2.1

/-- The console from power-on to any later moment.  While the main program prints, keyboard
interrupts may arrive anywhere and do not change what is printed.  Once the prompt is there,
whatever bytes the keyboard delivers, the text ends with the prompt and the command line; the
command line is what the keys that were applied since then leave of an empty line; it has at
most 256 characters, all of them printable ASCII; and the next Enter executes it. -/
theorem console_promptLine
    (consoleWidth consoleHeight : UInt32) (steps : List ConsoleStep)
    (hsteps : ∀ op ∈ programCalls steps, op.Prints) (bytes : List UInt8) :
    let atPrompt := promptConsole font consoleWidth consoleHeight steps
    let c := runConsole font (bytes.map .interrupt) atPrompt
    let events := (callsFrom (some getKeyboardLayoutUS) atPrompt.keyboard.appliedKeys
      (addedKeys bytes atPrompt.keyboard)).map callEvent
    atPrompt.shell = shellActivatePrompt font (runShellOps font (programCalls steps)
        (createShell font consoleWidth consoleHeight)) ∧
      promptCharacters ++ c.shell.command <:+ c.shell.log ∧
      c.shell.command = typedLine (events.filterMap KeyboardEvent.edits) ∧
      c.shell.command.length ≤ 256 ∧
      (∀ codepoint ∈ c.shell.command, 32 ≤ codepoint ∧ codepoint ≤ 126) ∧
      shellKeyboardCharacterEvent font 10 c.shell =
        shellFlushStdOut font (shellPuts (some (text "DexprOS # "))
          { shellInterpretCommand font c.shell.command (shellPutChar 10 c.shell) with
            commandCharacters := fun _ => 0
            numCommandCharacters := 0 }) := by
  intro atPrompt c events
  have hkeyboard := promptConsole_keyboard font consoleWidth consoleHeight steps
  obtain ⟨hshell, hprompt⟩ := promptConsole_shell font consoleWidth consoleHeight hsteps
  have hnonNull := addedEvents_nonNull hkeyboard bytes
  have hc : PromptLine (typedLine (addedEvents bytes atPrompt.keyboard)) c.shell := by
    rw [show c.shell = _ from runConsole_interrupts font bytes atPrompt]
    exact hprompt.runKeyboard font _ hnonNull
  refine ⟨hshell, ?_, ?_, ?_, fun codepoint hmem => ?_, ?_⟩
  · rw [hc.command]
    exact hc.shown
  · rw [hc.command, ← addedEvents_edits hkeyboard, typedLine_edits]
  · rw [hc.command]
    exact hc.fits
  · rw [hc.command] at hmem
    obtain ⟨hevent, hne⟩ := mem_typedLine _ hmem
    exact (addedEvents_typable hkeyboard bytes hevent).resolve_left hne
  · rw [hc.command]
    exact hc.enter font

/-- A key is pressed while the welcome is printed, and another one at the prompt. -/
theorem console_promptLine_typed :
    let c := runConsole blankFont [.interrupt 0x32, .interrupt 0xF0, .interrupt 0x32]
      (promptConsole blankFont 900 600
        [.call (.puts (some (text "Welcome"))), .interrupt 0x1C, .call .flushStdOut])
    promptCharacters ++ c.shell.command <:+ c.shell.log ∧ c.shell.command = [98] := by
  let steps : List ConsoleStep :=
    [.call (.puts (some (text "Welcome"))), .interrupt 0x1C, .call .flushStdOut]
  have hsteps : ∀ op ∈ programCalls steps, op.Prints := by
    simp [steps, programCalls, ShellOp.Prints]
  obtain ⟨-, hshown, hcommand, -⟩ :=
    console_promptLine blankFont 900 600 steps hsteps [0x32, 0xF0, 0x32]
  exact ⟨hshown, hcommand.trans (by decide +kernel)⟩

end Prompt

section Resets

/-- The lines that the events enter, when `line` is on the prompt line already. -/
def enteredFrom (line : List UInt32) : List KeyboardEvent → List (List UInt32)
  | [] => []
  | event :: events =>
      if event.isEnter then line :: enteredFrom [] events else enteredFrom (event.edit line) events

/-- What a command line does to the machine. -/
def lineResets (line : List UInt32) : List ResetType :=
  let name := Words.firstWord space (line.dropWhile (· = space))
  if name = (text "shutdown").map toShellChar then [.shutdown]
  else if name = (text "reboot").map toShellChar then [.warm]
  else []

variable (font : BitmapFont)

theorem resets_storeDisplayChars
    (characters : List UInt32) (s : ShellState) :
    (storeDisplayChars characters s).resets = s.resets := by
  rw [storeDisplayChars_eq_foldl]
  exact List.foldlRecOn (motive := fun (t : ShellState) => t.resets = s.resets) characters _
    rfl fun _ ht _ _ => ht

theorem resets_shellPutChar
    (c : UInt32) (s : ShellState) :
    (shellPutChar c s).resets = s.resets := by
  unfold shellPutChar
  split
  · rfl
  · exact resets_storeDisplayChars [c] s

theorem resets_shellPuts
    (msg : Option (List UInt8)) (s : ShellState) :
    (shellPuts msg s).resets = s.resets := by
  cases msg with
  | none => rfl
  | some msg => exact resets_storeDisplayChars _ s

theorem resets_flush
    (s : ShellState) :
    (shellFlushStdOut font s).resets = s.resets :=
  shellFlushStdOut_keeps font ShellState.resets (fun _ _ _ _ _ _ => rfl) (fun _ _ => rfl) s

theorem resets_shellDeleteLastDisplayChar
    (s : ShellState) :
    (shellDeleteLastDisplayChar s).resets = s.resets := by
  unfold shellDeleteLastDisplayChar
  repeat' split
  all_goals rfl

theorem resets_shellEcho
    (arg : List UInt32) (s : ShellState) :
    (shellEcho arg s).resets = s.resets := by
  unfold shellEcho
  rw [resets_shellPutChar]
  exact List.foldlRecOn (motive := fun (t : ShellState) => t.resets = s.resets) arg _
    rfl fun t ht c _ => (resets_shellPutChar c t).trans ht

/-- Of the built-in commands, two reset the machine, once. -/
theorem resets_builtInCommand
    {f : List UInt8 × (List UInt32 → ShellState → ShellState)}
    (hf : f ∈ shellBuiltInCommands font) (arg : List UInt32) (s : ShellState) :
    (f.2 arg s).resets = s.resets ++
      if f.1 = text "shutdown" then [.shutdown]
      else if f.1 = text "reboot" then [.warm]
      else [] := by
  simp only [shellBuiltInCommands, List.mem_cons, List.not_mem_nil, or_false] at hf
  have hother {name : List UInt8} {t : ShellState} (ht : t.resets = s.resets)
      (hshutdown : name ≠ text "shutdown") (hreboot : name ≠ text "reboot") :
      t.resets = s.resets ++
        if name = text "shutdown" then [.shutdown]
        else if name = text "reboot" then [.warm]
        else [] := by
    rw [ht, if_neg hshutdown, if_neg hreboot, List.append_nil]
  have hclear : (shellClear font arg s).resets = s.resets := rfl
  rcases hf with rfl | rfl | rfl | rfl | rfl | rfl <;> dsimp only
  · exact hother (resets_shellEcho arg s) (by decide +kernel) (by decide +kernel)
  · exact hother hclear (by decide +kernel) (by decide +kernel)
  · unfold shellHelp
    exact hother (resets_shellPuts _ s) (by decide +kernel) (by decide +kernel)
  · unfold shellVersion
    exact hother (resets_shellPuts _ s) (by decide +kernel) (by decide +kernel)
  · rw [if_pos rfl, shellShutdown]
  · have hne : text "reboot" ≠ text "shutdown" := by decide +kernel
    rw [if_neg hne, if_pos rfl, shellReboot]

/-- A line runs no more than the command that its first word names. -/
theorem resets_shellInterpretCommand
    (command : List UInt32) (s : ShellState) :
    (shellInterpretCommand font command s).resets = s.resets ++ lineResets command := by
  have hnone (name : List UInt32) (hshutdown : name ≠ (text "shutdown").map toShellChar)
      (hreboot : name ≠ (text "reboot").map toShellChar) :
      (if name = (text "shutdown").map toShellChar then [ResetType.shutdown]
        else if name = (text "reboot").map toShellChar then [.warm] else []) = [] := by
    rw [if_neg hshutdown, if_neg hreboot]
  have hmem (commandText : List UInt8) (hcommand : commandText ∈ shellCommandTexts) :
      ∃ f ∈ shellBuiltInCommands font, f.1 = commandText := by
    rw [← shellBuiltInCommands_texts font] at hcommand
    exact List.mem_map.mp hcommand
  have hshutdown : text "shutdown" ∈ shellCommandTexts := by
    simp [shellCommandTexts]
  have hreboot : text "reboot" ∈ shellCommandTexts := by
    simp [shellCommandTexts]
  unfold shellInterpretCommand lineResets
  cases hline : command.dropWhile (· = space) with
  | nil =>
      dsimp only
      rw [hnone _ (by decide +kernel) (by decide +kernel), List.append_nil]
  | cons c cs =>
      dsimp only
      by_cases hcomment : c = 35
      · have hname (name : List UInt32) (hhead : name.head? ≠ some 35) :
            Words.firstWord space (c :: cs) ≠ name := by
          rintro rfl
          refine hhead ?_
          unfold Words.firstWord
          rw [hcomment, List.takeWhile_cons_of_pos (by decide), List.head?_cons]
        rw [if_pos hcomment, hnone _ (hname _ (by decide +kernel)) (hname _ (by decide +kernel)),
          List.append_nil]
      · rw [if_neg hcomment]
        cases hfind : (shellBuiltInCommands font).find?
            fun f => shellCheckSingleCommand (c :: cs) f.1 with
        | some f =>
            have hf := List.mem_of_find?_eq_some hfind
            have hcheck := List.find?_some hfind
            have htext : f.1 ∈ shellCommandTexts := by
              rw [← shellBuiltInCommands_texts font]
              exact List.mem_map_of_mem hf
            have hname := (shellCheckSingleCommand_iff
              (shellCommandTexts_plain htext).2 (c :: cs)).mp hcheck
            have heq (commandText : List UInt8) (hcommand : commandText ∈ shellCommandTexts) :
                f.1.map toShellChar = commandText.map toShellChar ↔ f.1 = commandText :=
              ⟨shellCommandTexts_injective htext hcommand, fun h => by rw [h]⟩
            dsimp only
            rw [resets_builtInCommand font hf, hname]
            simp only [heq _ hshutdown, heq _ hreboot]
        | none =>
            have hother (commandText : List UInt8) (hcommand : commandText ∈ shellCommandTexts) :
                Words.firstWord space (c :: cs) ≠ commandText.map toShellChar := by
              obtain ⟨f, hf, rfl⟩ := hmem commandText hcommand
              intro hname
              have hcheck := (shellCheckSingleCommand_iff
                (shellCommandTexts_plain hcommand).2 (c :: cs)).mpr hname
              exact List.find?_eq_none.mp hfind f hf hcheck
            dsimp only
            rw [resets_shellPuts, hnone _ (hother _ hshutdown) (hother _ hreboot),
              List.append_nil]

variable {line : List UInt32} {s : ShellState}

/-- The step lemma: only Enter resets the machine. -/
theorem resets_keyboardEvent
    (hs : PromptLine line s) (event : KeyboardEvent) :
    (event.run font s).resets =
      s.resets ++ if event.isEnter then lineResets line else [] := by
  cases event with
  | character codepoint =>
      by_cases henter : codepoint = 10
      · subst henter
        have hrun : (KeyboardEvent.character 10).run font s =
            shellKeyboardCharacterEvent font 10 s := rfl
        rw [hrun, hs.enter, resets_flush, resets_shellPuts]
        dsimp only
        rw [resets_shellInterpretCommand, resets_shellPutChar]
        rfl
      · have hisEnter : (KeyboardEvent.character codepoint).isEnter = false :=
          beq_eq_false_iff_ne.mpr henter
        rw [hisEnter, if_neg Bool.false_ne_true, List.append_nil]
        unfold KeyboardEvent.run shellKeyboardCharacterEvent
        dsimp only
        rw [hs.enabled, Bool.not_true, if_neg Bool.false_ne_true, if_neg henter]
        split
        · rfl
        · rw [resets_flush, Shell.typeCharacter, resets_shellPutChar]
  | key keyID state =>
      have hisEnter : (KeyboardEvent.key keyID state).isEnter = false := rfl
      rw [hisEnter, if_neg Bool.false_ne_true, List.append_nil]
      unfold KeyboardEvent.run shellKeyboardKeyEvent
      dsimp only
      split
      · rw [resets_flush, Shell.eraseCharacter, resets_shellDeleteLastDisplayChar]
      · rfl

/-- The run lemma. -/
theorem resets_runKeyboard
    (hs : PromptLine line s) (events : List KeyboardEvent)
    (hevents : ∀ event ∈ events, event.NonNull) :
    (runKeyboard font events s).resets =
      s.resets ++ (enteredFrom line events).flatMap lineResets := by
  induction events generalizing line s with
  | nil => simp [runKeyboard, enteredFrom]
  | cons event events ih =>
      have hnext := hs.run font (hevents event List.mem_cons_self)
      rw [runKeyboard, List.foldl_cons, ← runKeyboard,
        ih hnext fun e he => hevents e (List.mem_cons_of_mem _ he),
        resets_keyboardEvent font hs event, enteredFrom, List.append_assoc]
      cases event.isEnter with
      | true => simp
      | false => simp

theorem enteredFrom_edits
    (line : List UInt32) (events : List KeyboardEvent) :
    enteredFrom line (events.filterMap KeyboardEvent.edits) = enteredFrom line events := by
  induction events generalizing line with
  | nil => rfl
  | cons event events ih =>
      obtain ⟨hsame, hnone⟩ := event.edit_edits line
      cases hedits : event.edits with
      | none =>
          rw [List.filterMap_cons_none hedits, ih, enteredFrom, (hnone hedits).1, (hnone hedits).2,
            if_neg Bool.false_ne_true]
      | some edit =>
          rw [List.filterMap_cons_some hedits, enteredFrom, enteredFrom, ih, ih,
            (hsame edit hedits).1, (hsame edit hedits).2]

theorem resets_runShellOps
    {ops : List ShellOp} (hops : ∀ op ∈ ops, op.Prints) (s : ShellState) :
    (runShellOps font ops s).resets = s.resets := by
  refine List.foldlRecOn (motive := fun (t : ShellState) => t.resets = s.resets) ops _ rfl
    fun t ht op hop => Eq.trans ?_ ht
  cases op with
  | putChar character => exact resets_shellPutChar character t
  | puts msg => exact resets_shellPuts msg t
  | putsUTF32 msg =>
      cases msg with
      | none => rfl
      | some msg => exact resets_storeDisplayChars _ t
  | flushStdOut => exact resets_flush font t
  | activatePrompt => exact (hops _ hop).elim
  | keyboardCharacterEvent codepoint => exact (hops _ hop).elim
  | keyboardKeyEvent keyID state => exact (hops _ hop).elim
  | interpretCommand command => exact (hops _ hop).elim

/-- The machine is powered off and restarted by command lines alone.  In every run of the
console, whatever bytes the keyboard delivers before and behind the prompt, the resets that
were asked for are those of the lines that were entered, in order: one for each line whose
first word is `shutdown` or `reboot`, and none for any other line or key. -/
theorem console_resets
    (consoleWidth consoleHeight : UInt32) (steps : List ConsoleStep)
    (hsteps : ∀ op ∈ programCalls steps, op.Prints) (bytes : List UInt8) :
    let atPrompt := promptConsole font consoleWidth consoleHeight steps
    let c := runConsole font (bytes.map .interrupt) atPrompt
    let events := (callsFrom (some getKeyboardLayoutUS) atPrompt.keyboard.appliedKeys
      (addedKeys bytes atPrompt.keyboard)).map callEvent
    c.shell.resets =
      (enteredFrom [] (events.filterMap KeyboardEvent.edits)).flatMap lineResets := by
  intro atPrompt c events
  have hkeyboard := promptConsole_keyboard font consoleWidth consoleHeight steps
  obtain ⟨hshell, hprompt⟩ := promptConsole_shell font consoleWidth consoleHeight hsteps
  have hbefore : atPrompt.shell.resets = [] := by
    rw [show atPrompt.shell = _ from hshell, shellActivatePrompt, resets_flush, resets_shellPuts]
    exact resets_runShellOps font hsteps _
  rw [show c.shell = _ from runConsole_interrupts font bytes atPrompt,
    resets_runKeyboard font hprompt _ (addedEvents_nonNull hkeyboard bytes), hbefore,
    List.nil_append, ← addedEvents_edits hkeyboard, enteredFrom_edits]

/-- `reboot` is typed, and Enter. -/
theorem console_resets_reboot :
    (runConsole blankFont
      ([0x2D, 0xF0, 0x2D, 0x24, 0xF0, 0x24, 0x32, 0xF0, 0x32, 0x44, 0xF0, 0x44, 0x44, 0xF0, 0x44,
        0x2C, 0xF0, 0x2C, 0x5A].map .interrupt)
      (promptConsole blankFont 900 600
        [.call (.puts (some (text "Welcome")))])).shell.resets = [.warm] := by
  let steps : List ConsoleStep := [.call (.puts (some (text "Welcome")))]
  have hsteps : ∀ op ∈ programCalls steps, op.Prints := by
    simp [steps, programCalls, ShellOp.Prints]
  refine (console_resets blankFont 900 600 steps hsteps _).trans ?_
  decide +kernel

end Resets

end Shell
end DexprOS
