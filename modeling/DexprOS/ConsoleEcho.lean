import DexprOS.ConsoleTyping

/-!
# Echo at the console

What the keystrokes of an `echo` line print, from the first character on the prompt line to the
next prompt.  The lines are those of the command grammar: spaces in front, any number of spaces
behind the name, or no argument at all.

Main facts:
* `PromptLine.typed`: a line that fits is printed as it is typed;
* `PromptLine.echo`: what Enter prints behind it;
* `console_echo`: from the keyboard to the text on the display.
-/

namespace DexprOS
namespace Shell

open Kernel Keyboard

section Echo

variable (font : BitmapFont) {line arg : List UInt32} {s : ShellState}

/-- The line calls `echo` with this argument. -/
def EchoLine (arg line : List UInt32) : Prop :=
  CommandLine (text "echo") arg (line.dropWhile (· = space))

theorem messageCharacters_echo :
    messageCharacters (text "echo") = [101, 99, 104, 111] := by
  decide +kernel

theorem EchoLine.arg_subset
    (hline : EchoLine arg line) :
    arg ⊆ line := by
  have hrest : line.dropWhile (· = space) ⊆ line :=
    (List.dropWhile_sublist _).subset
  refine List.Subset.trans ?_ hrest
  rcases hline with ⟨-, rfl⟩ | ⟨k, hinput, -⟩
  · exact List.nil_subset _
  · rw [hinput]
    exact List.subset_append_right _ _

theorem EchoLine.shellInterpretCommand_eq
    (hline : EchoLine arg line) (s : ShellState) :
    shellInterpretCommand font line s = shellEcho arg s := by
  have hcommand : text "echo" ∈ shellCommandTexts := by
    simp [shellCommandTexts]
  obtain ⟨hcheck, harg⟩ := (commandLine_iff hcommand arg _).mp hline
  obtain ⟨rest, hrest⟩ : ∃ rest, line.dropWhile (· = space) = 101 :: rest := by
    unfold EchoLine CommandLine at hline
    rw [messageCharacters_echo] at hline
    rcases hline with ⟨hinput, -⟩ | ⟨k, hinput, -⟩
    · exact ⟨_, hinput⟩
    · exact ⟨_, hinput⟩
  unfold shellInterpretCommand
  rw [hrest] at hcheck harg ⊢
  dsimp only
  rw [if_neg (by decide), harg]
  simp only [shellBuiltInCommands, List.find?_cons, hcheck]

theorem log_putsPrompt
    (hrange : s.IndicesInRange) :
    (shellPuts (some (text "DexprOS # ")) s).log = promptCharacters.foldl appendToLog s.log :=
  log_storeAll hrange promptCharacters

/-- The command line is not part of the text. -/
theorem log_line
    (commandCharacters : Nat → UInt32) (numCommandCharacters : Nat) (s : ShellState) :
    ShellState.log
      { s with
        commandCharacters := commandCharacters
        numCommandCharacters := numCommandCharacters } = s.log :=
  rfl

/-- What Enter prints behind an `echo` line: the text, and the next prompt. -/
theorem PromptLine.echo
    (hs : PromptLine line s) (hline : EchoLine arg line)
    (hnonNull : ∀ codepoint ∈ line, codepoint ≠ 0) :
    (shellKeyboardCharacterEvent font 10 s).log =
      ([10] ++ arg ++ [10] ++ promptCharacters).foldl appendToLog s.log := by
  have hrange := (hs.toConfigured.putChar 10).toIndicesInRange
  have hecho : shellEcho arg (shellPutChar 10 s) =
      shellPutChar 10 (storeDisplayChars arg (shellPutChar 10 s)) := by
    rw [shellEcho, ← storeDisplayChars_eq_shellPutChar fun c hc => hnonNull c (hline.arg_subset hc)]
  -- all that is printed, one text after another
  have hstored := IndicesInRange_storeAll hrange arg
  have hlast := IndicesInRange_putChar hstored 10
  have hnewline : ¬ ((10 : UInt32) = 0) := by decide
  rw [hs.enter, log_flush, hline.shellInterpretCommand_eq font, hecho, log_putsPrompt,
    log_line, log_putChar hstored, log_storeAll hrange, log_putChar hs.toIndicesInRange,
    if_neg hnewline, if_neg hnewline, List.foldl_append, List.foldl_append,
    List.foldl_append, List.foldl_cons, List.foldl_nil, List.foldl_cons, List.foldl_nil]
  · exact ⟨hlast.start_lt, hlast.end_lt, hlast.first_lt⟩

/-- A line that fits is typed as it is. -/
theorem typedLine_characters
    {characters : List UInt32} (hcharacters : ∀ codepoint ∈ characters, codepoint ≠ 10)
    (hfits : characters.length ≤ numMaxCommandCharacters) :
    typedLine (characters.map .character) = characters := by
  induction characters using List.reverseRecOn with
  | nil => rfl
  | append_singleton characters codepoint ih =>
      rw [List.length_append, List.length_singleton] at hfits
      have hlast : (KeyboardEvent.character codepoint).isEnter = false :=
        beq_eq_false_iff_ne.mpr (hcharacters codepoint (by simp))
      rw [List.map_append, List.map_singleton, typedLine_concat, hlast,
        if_neg Bool.false_ne_true,
        ih (fun other hother => hcharacters other (List.mem_append_left _ hother)) (by omega)]
      exact if_pos (by omega)

/-- A character for which the line has room is printed. -/
theorem PromptLine.log_characterEvent
    (hs : PromptLine line s) {codepoint : UInt32} (hcodepoint : codepoint ≠ 0)
    (henter : codepoint ≠ 10) (hroom : line.length < numMaxCommandCharacters) :
    (shellKeyboardCharacterEvent font codepoint s).log = appendToLog s.log codepoint := by
  unfold shellKeyboardCharacterEvent
  rw [hs.enabled, hs.numCommandCharacters, Bool.not_true, if_neg Bool.false_ne_true,
    if_neg henter, if_neg (Nat.ne_of_lt hroom), log_flush,
    log_typeCharacter hs.toConfigured hcodepoint]

/-- A line that fits is put on the prompt line, and printed. -/
theorem PromptLine.typed
    (hs : PromptLine [] s) {characters : List UInt32}
    (hcharacters : ∀ codepoint ∈ characters, codepoint ≠ 0 ∧ codepoint ≠ 10)
    (hfits : characters.length ≤ numMaxCommandCharacters) :
    PromptLine characters (Shell.runKeyboard font (characters.map .character) s) ∧
      (Shell.runKeyboard font (characters.map .character) s).log =
        characters.foldl appendToLog s.log := by
  have hline {front : List UInt32} (hfront : front <+: characters) :
      PromptLine front (Shell.runKeyboard font (front.map .character) s) := by
    have hnonNull : ∀ event ∈ front.map KeyboardEvent.character, event.NonNull := by
      intro event hevent
      obtain ⟨codepoint, hmem, rfl⟩ := List.mem_map.mp hevent
      exact (hcharacters codepoint (hfront.subset hmem)).1
    have htyped := hs.runKeyboard font _ hnonNull
    rwa [typedLine_characters (fun c hc => (hcharacters c (hfront.subset hc)).2)
      (hfront.length_le.trans hfits)] at htyped
  refine ⟨hline List.prefix_rfl, ?_⟩
  induction characters using List.reverseRecOn with
  | nil => rfl
  | append_singleton characters codepoint ih =>
      rw [List.length_append, List.length_singleton] at hfits
      obtain ⟨hcodepoint, henter⟩ := hcharacters codepoint (by simp)
      have hbefore := ih (fun c hc => hcharacters c (List.mem_append_left _ hc)) (by omega)
        fun hfront => hline (hfront.trans (List.prefix_append _ _))
      have hlast := (hline (List.prefix_append characters [codepoint])).log_characterEvent font
        hcodepoint henter (by omega)
      have hrun (t : ShellState) :
          Shell.runKeyboard font ([codepoint].map .character) t =
            shellKeyboardCharacterEvent font codepoint t := rfl
      rw [List.map_append, runKeyboard_append, hrun, hlast, hbefore, List.foldl_append,
        List.foldl_cons, List.foldl_nil]

/-- The console when the keyboard has sent these bytes to the prompt. -/
def typedConsole (consoleWidth consoleHeight : UInt32) (steps : List ConsoleStep)
    (before : List UInt8) : Console :=
  runConsole font (before.map .interrupt) (promptConsole font consoleWidth consoleHeight steps)

theorem typedConsole_keyboard
    (consoleWidth consoleHeight : UInt32) (steps : List ConsoleStep) (before : List UInt8) :
    CallsInvariant (some getKeyboardLayoutUS)
      (typedConsole font consoleWidth consoleHeight steps before).keyboard := by
  rw [typedConsole, promptConsole, ← runConsole_append]
  exact runConsole_callsInvariant font consoleWidth consoleHeight _

theorem typedConsole_shell
    (consoleWidth consoleHeight : UInt32) {steps : List ConsoleStep}
    (hsteps : ∀ op ∈ programCalls steps, op.Prints) (before : List UInt8) :
    PromptLine (typedConsole font consoleWidth consoleHeight steps before).shell.command
      (typedConsole font consoleWidth consoleHeight steps before).shell := by
  have hprompt := (promptConsole_shell font consoleWidth consoleHeight hsteps).2
  have hkeyboard := promptConsole_keyboard font consoleWidth consoleHeight steps
  have hline := hprompt.runKeyboard font _ (addedEvents_nonNull hkeyboard before)
  rw [← runConsole_interrupts font before] at hline
  exact hline.command ▸ hline

/-- From the keyboard to the text on the display.  Let the command line be empty at the prompt,
with no key held down, whatever has been typed before.  When the keystrokes for an `echo` line
that fits and for Enter have come in, the line, the text on a line of its own and the next
prompt have been printed behind what was printed before, and the command line is empty. -/
theorem console_echo
    (consoleWidth consoleHeight : UInt32) (steps : List ConsoleStep)
    (hsteps : ∀ op ∈ programCalls steps, op.Prints) (before : List UInt8)
    (hrest : (typedConsole font consoleWidth consoleHeight steps before).AtRest)
    (hempty : (typedConsole font consoleWidth consoleHeight steps before).shell.command = [])
    (line arg : List UInt32) (hline : EchoLine arg line)
    (hprintable : ∀ codepoint ∈ line, 32 ≤ codepoint ∧ codepoint ≤ 126)
    (hfits : line.length ≤ numMaxCommandCharacters) (bytes : List UInt8)
    (hbytes : (bytes.filter fun b => !isResponse b) = typeText
      ((typedConsole font consoleWidth consoleHeight steps before).keyboard.state.lockActive .caps)
      (line ++ [10])) :
    let c := typedConsole font consoleWidth consoleHeight steps before
    let c' := runConsole font (bytes.map .interrupt) c
    c'.shell.log =
        (line ++ [10] ++ arg ++ [10] ++ promptCharacters).foldl appendToLog c.shell.log ∧
      c'.shell.command = [] := by
  intro c c'
  have hkeyboard : CallsInvariant (some getKeyboardLayoutUS) c.keyboard :=
    typedConsole_keyboard font consoleWidth consoleHeight steps before
  have hprompt : PromptLine [] c.shell :=
    hempty ▸ typedConsole_shell font consoleWidth consoleHeight hsteps before
  have htypable : ∀ codepoint ∈ line ++ [10], Typable codepoint := by
    intro codepoint hmem
    rcases List.mem_append.mp hmem with hleft | hright
    · exact Or.inr (hprintable codepoint hleft)
    · exact Or.inl (List.mem_singleton.mp hright)
  have hcharacters : ∀ codepoint ∈ line, codepoint ≠ 0 ∧ codepoint ≠ 10 := by
    intro codepoint hmem
    refine ⟨(htypable codepoint (List.mem_append_left _ hmem)).ne_zero, ?_⟩
    rintro rfl
    exact absurd (hprintable 10 hmem).1 (by decide)
  -- the line is on the prompt when Enter comes
  obtain ⟨htyped, hlog⟩ := hprompt.typed font hcharacters hfits
  have hshell : c'.shell = shellKeyboardCharacterEvent font 10
      (runKeyboard font (line.map .character) c.shell) := by
    rw [hkeyboard.lockActive_eq] at hbytes
    have hrun := shell_typeText font hkeyboard hrest htypable hbytes
    rw [List.map_append, runKeyboard_append] at hrun
    exact hrun
  rw [hshell]
  refine ⟨?_, ?_⟩
  · rw [htyped.echo font hline fun codepoint hmem => (hcharacters codepoint hmem).1, hlog,
      ← List.foldl_append]
    simp only [List.append_assoc]
  · have henter : (KeyboardEvent.character 10).NonNull := (by decide : (10 : UInt32) ≠ 0)
    exact (htyped.run font henter).command

/-- Behind an a that has been erased again, ` echo  hi ` is typed, and Enter. -/
theorem console_echo_hi :
    let c := typedConsole blankFont 900 600 [] [0x1C, 0xF0, 0x1C, 0x66, 0xF0, 0x66]
    let c' := runConsole blankFont
      ((typeText false [32, 101, 99, 104, 111, 32, 32, 104, 105, 32, 10]).map .interrupt) c
    c'.shell.log =
        ([32, 101, 99, 104, 111, 32, 32, 104, 105, 32] ++ [10] ++ [104, 105, 32] ++ [10] ++
          promptCharacters).foldl appendToLog c.shell.log ∧
      c'.shell.command = [] := by
  have hline : EchoLine [104, 105, 32] [32, 101, 99, 104, 111, 32, 32, 104, 105, 32] :=
    Or.inr ⟨1, by decide +kernel, by decide⟩
  have hrest : (typedConsole blankFont 900 600 [] [0x1C, 0xF0, 0x1C, 0x66, 0xF0, 0x66]).AtRest :=
    (atRest_keystrokes blankFont (atRest_promptConsole blankFont 900 600)
      [strokeA none 0, ⟨.single 0x66 (by decide +kernel), none, 0, by decide +kernel⟩]
      (by decide +kernel)).1
  have hempty : (typedConsole blankFont 900 600 []
      [0x1C, 0xF0, 0x1C, 0x66, 0xF0, 0x66]).shell.command = [] := by
    decide +kernel
  exact console_echo blankFont 900 600 [] (by simp [programCalls]) _ hrest hempty _ _ hline
    (by simp) (by decide) _ (by decide +kernel)

end Echo

end Shell
end DexprOS
