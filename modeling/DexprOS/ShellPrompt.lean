import DexprOS.ShellWindow
import Mathlib.Data.List.DropRight

/-!
# The prompt line

The command line and the display ring are edited side by side.  Once the prompt is
active they agree: the ring ends with the prompt and the command line, and the command
line is what the events since the last Enter leave of an empty line.

Main facts:
* `prompt_flush`, `prompt_interpretCommand`: what is printed does not touch the command
  line, and no command turns the prompt off;
* `PromptLine.run`: the step lemma;
* `keyboardRun_promptLine`: every run of keyboard events, and what its next Enter
  executes.
-/

namespace DexprOS
namespace Shell

open Kernel

section Prompt

/-- The command line of a state, its prompt, and whether keyboard events are taken. -/
def ShellState.prompt (s : ShellState) : (Nat → UInt32) × Nat × Bool × List UInt8 :=
  (s.commandCharacters, s.numCommandCharacters, s.commandPromptEnabled, s.promptText)

theorem prompt_eq_iff
    {s t : ShellState} :
    t.prompt = s.prompt ↔
      t.commandCharacters = s.commandCharacters ∧
        t.numCommandCharacters = s.numCommandCharacters ∧
        t.commandPromptEnabled = s.commandPromptEnabled ∧
        t.promptText = s.promptText := by
  simp only [ShellState.prompt, Prod.mk.injEq]

theorem command_congr
    {s t : ShellState}
    (hprompt : t.prompt = s.prompt) :
    t.command = s.command := by
  obtain ⟨hcharacters, hnum, -, -⟩ := prompt_eq_iff.mp hprompt
  unfold ShellState.command
  rw [hcharacters, hnum]

@[simp] theorem length_command
    (s : ShellState) :
    s.command.length = s.numCommandCharacters := by
  unfold ShellState.command
  rw [List.length_map, List.length_range]

theorem prompt_storeDisplayChars
    (characters : List UInt32) (s : ShellState) :
    (storeDisplayChars characters s).prompt = s.prompt := by
  rw [storeDisplayChars_eq_foldl]
  exact List.foldlRecOn (motive := fun (t : ShellState) => t.prompt = s.prompt) characters _
    rfl fun _ ht _ _ => ht

theorem prompt_shellPutChar
    (c : UInt32) (s : ShellState) :
    (shellPutChar c s).prompt = s.prompt := by
  unfold shellPutChar
  split
  · rfl
  · exact prompt_storeDisplayChars [c] s

theorem prompt_shellPuts
    (msg : Option (List UInt8)) (s : ShellState) :
    (shellPuts msg s).prompt = s.prompt := by
  cases msg with
  | none => rfl
  | some msg => exact prompt_storeDisplayChars _ s

theorem prompt_shellPutsUTF32
    (msg : Option (List UInt32)) (s : ShellState) :
    (shellPutsUTF32 msg s).prompt = s.prompt := by
  cases msg with
  | none => rfl
  | some msg => exact prompt_storeDisplayChars _ s

theorem prompt_shellDeleteLastDisplayChar
    (s : ShellState) :
    (shellDeleteLastDisplayChar s).prompt = s.prompt := by
  unfold shellDeleteLastDisplayChar
  repeat' split
  all_goals rfl

variable (font : BitmapFont)

theorem prompt_flush
    (s : ShellState) :
    (shellFlushStdOut font s).prompt = s.prompt :=
  shellFlushStdOut_keeps font ShellState.prompt (fun _ _ _ _ _ _ => rfl) (fun _ _ => rfl) s

/-- Clearing turns the prompt off and on again. -/
theorem prompt_clear
    {s : ShellState}
    (henabled : s.commandPromptEnabled = true) (arg : List UInt32) :
    (shellClear font arg s).prompt = s.prompt :=
  prompt_eq_iff.mpr ⟨rfl, rfl, henabled.symm, rfl⟩

theorem prompt_interpretCommand
    {s : ShellState}
    (henabled : s.commandPromptEnabled = true) (command : List UInt32) :
    (shellInterpretCommand font command s).prompt = s.prompt := by
  let Kept (t : ShellState) : Prop := t.prompt = s.prompt
  have hclear (arg : List UInt32) (t : ShellState) (ht : Kept t) :
      Kept (shellClear font arg t) := by
    have ht' : t.commandPromptEnabled = true :=
      (prompt_eq_iff.mp ht).2.2.1.trans henabled
    exact (prompt_clear font ht' arg).trans ht
  exact shellInterpretCommand_rule (P := Kept) font
    (fun c t ht => (prompt_shellPutChar c t).trans ht)
    (fun msg t ht => (prompt_shellPuts msg t).trans ht) hclear (fun _ _ ht => ht) command rfl

theorem log_flush
    (s : ShellState) :
    (shellFlushStdOut font s).log = s.log := by
  unfold ShellState.log
  rw [displayCharacters_flush, displayRingBufferStart_flush, displayRingBufferEnd_flush]

end Prompt

section Configured

/-- What holds of a shell whether its prompt is active or not. -/
structure Configured (s : ShellState) : Prop extends s.IndicesInRange where
  promptText : s.promptText = text "DexprOS # "

theorem configured_createShell
    (font : BitmapFont) (consoleWidth consoleHeight : UInt32) :
    Configured (createShell font consoleWidth consoleHeight) :=
  ⟨IndicesInRange_createShell font consoleWidth consoleHeight, rfl⟩

variable {s : ShellState}

theorem Configured.store
    (hs : Configured s) (characters : List UInt32) :
    Configured (storeDisplayChars characters s) where
  toIndicesInRange := IndicesInRange_storeAll hs.toIndicesInRange characters
  promptText :=
    (prompt_eq_iff.mp (prompt_storeDisplayChars characters s)).2.2.2.trans hs.promptText

theorem Configured.putChar
    (hs : Configured s) (c : UInt32) :
    Configured (shellPutChar c s) := by
  unfold shellPutChar
  split
  · exact hs
  · exact hs.store [c]

theorem Configured.puts
    (hs : Configured s) (msg : Option (List UInt8)) :
    Configured (shellPuts msg s) := by
  cases msg with
  | none => exact hs
  | some msg => exact hs.store _

theorem Configured.delete
    (hs : Configured s) :
    Configured (shellDeleteLastDisplayChar s) where
  toIndicesInRange := IndicesInRange_delete hs.toIndicesInRange
  promptText := (prompt_eq_iff.mp (prompt_shellDeleteLastDisplayChar s)).2.2.2.trans hs.promptText

theorem Configured.line
    (hs : Configured s) (commandCharacters : Nat → UInt32) (numCommandCharacters : Nat) :
    Configured
      { s with
        commandCharacters := commandCharacters
        numCommandCharacters := numCommandCharacters } :=
  ⟨⟨hs.start_lt, hs.end_lt, hs.first_lt⟩, hs.promptText⟩

theorem Configured.enable
    (hs : Configured s) :
    Configured { s with commandPromptEnabled := true } :=
  ⟨⟨hs.start_lt, hs.end_lt, hs.first_lt⟩, hs.promptText⟩

variable (font : BitmapFont)

theorem IndicesInRange_flush
    (hrange : s.IndicesInRange) :
    (shellFlushStdOut font s).IndicesInRange := by
  have hring := ring_eq_iff.mp (ring_shellFlushStdOut font s)
  refine ⟨?_, ?_, ?_⟩
  · rw [hring.2.1]
    exact hrange.start_lt
  · rw [hring.2.2.1]
    exact hrange.end_lt
  · rw [hring.2.2.2]
    obtain hmem | hend := scrollDisplayLoop_mem font (shellResetText font s)
      (shellGetNumOverflowLines font s)
      (displayIndices s.firstDisplayChar s.displayRingBufferEnd) 0 0
    · exact Ring.indices_lt hrange.end_lt hmem
    · show scrollDisplayLoop font _ _ _ 0 0 < _
      exact hend.trans_lt hrange.end_lt

theorem Configured.flush
    (hs : Configured s) :
    Configured (shellFlushStdOut font s) where
  toIndicesInRange := IndicesInRange_flush font hs.toIndicesInRange
  promptText := (prompt_eq_iff.mp (prompt_flush font s)).2.2.2.trans hs.promptText

theorem Configured.clear
    (hs : Configured s) (arg : List UInt32) :
    Configured (shellClear font arg s) :=
  ⟨IndicesInRange_clear font arg s, hs.promptText⟩

theorem Configured.interpretCommand
    (hs : Configured s) (command : List UInt32) :
    Configured (shellInterpretCommand font command s) :=
  shellInterpretCommand_rule font
    (fun c _ hs => hs.putChar c) (fun msg _ hs => hs.puts msg) (fun arg _ hs => hs.clear font arg)
    (fun _ _ hs => ⟨⟨hs.start_lt, hs.end_lt, hs.first_lt⟩, hs.promptText⟩) command hs

theorem Configured.typeCharacter
    (hs : Configured s) (codepoint : UInt32) :
    Configured (typeCharacter codepoint s) :=
  (hs.line _ _).putChar codepoint

theorem Configured.eraseCharacter
    (hs : Configured s) :
    Configured (eraseCharacter s) :=
  (hs.line _ _).delete

/-- Every operation keeps the indices in range and the prompt text. -/
theorem Configured.run
    (hs : Configured s) (op : ShellOp) :
    Configured (op.run font s) :=
  ShellOp.run_of_rule font
    (ShellOp.rule font hs (fun characters _ hs => hs.store characters)
      (fun arg _ hs => hs.clear font arg)
      (fun _ _ hs => ⟨⟨hs.start_lt, hs.end_lt, hs.first_lt⟩, hs.promptText⟩)
      (fun _ _ _ _ hs => ⟨⟨hs.start_lt, hs.end_lt, hs.first_lt⟩, hs.promptText⟩)
      fun _ _ _ _ => hs.eraseCharacter)
    fun _ _ ht => ht.flush font

def runShellOps (ops : List ShellOp) (s : ShellState) : ShellState :=
  ops.foldl (fun s op => op.run font s) s

theorem Configured.runOps
    (hs : Configured s) (ops : List ShellOp) :
    Configured (runShellOps font ops s) :=
  List.foldlRecOn ops _ hs fun _ hs op _ => hs.run font op

end Configured

section Line

/-- An event of the keyboard. -/
inductive KeyboardEvent where
  | character (codepoint : UInt32)
  | key (keyID : KeyID) (state : KeyState)

/-- The codepoint of a character event is not zero. -/
def KeyboardEvent.NonNull : KeyboardEvent → Prop
  | character codepoint => codepoint ≠ 0
  | key _ _ => True

def KeyboardEvent.isEnter : KeyboardEvent → Bool
  | character codepoint => codepoint == 10
  | key _ _ => false

/-- What an event other than Enter does to a line of text. -/
def KeyboardEvent.edit (line : List UInt32) : KeyboardEvent → List UInt32
  | character codepoint =>
      if line.length < numMaxCommandCharacters then line ++ [codepoint] else line
  | key keyID state =>
      if keyID = keyBackspace ∧ (state = .pressed ∨ state = .repeated) then line.dropLast
      else line

/-- The line that the events since the last Enter leave of an empty one. -/
def typedLine (events : List KeyboardEvent) : List UInt32 :=
  (events.rtakeWhile fun event => !event.isEnter).foldl KeyboardEvent.edit []

theorem typedLine_concat
    (events : List KeyboardEvent) (event : KeyboardEvent) :
    typedLine (events ++ [event]) =
      if event.isEnter then [] else event.edit (typedLine events) := by
  unfold typedLine
  rw [List.rtakeWhile_concat]
  cases hevent : event.isEnter with
  | true =>
      rfl
  | false =>
      simp only [Bool.not_false, if_true, List.foldl_append, List.foldl_cons, List.foldl_nil,
        Bool.false_eq_true, if_false]

/-- The characters of the prompt. -/
def promptCharacters : List UInt32 :=
  messageCharacters (text "DexprOS # ")

theorem length_promptCharacters :
    promptCharacters.length = 10 := by
  decide +kernel

end Line

section Invariant

variable (font : BitmapFont) {line : List UInt32} {s : ShellState}

theorem map_range_update
    (f : Nat → UInt32) {n i : Nat} (hi : n ≤ i) (c : UInt32) :
    (List.range n).map (Function.update f i c) = (List.range n).map f := by
  refine List.map_congr_left fun j hj => Function.update_of_ne ?_ c f
  have hj := List.mem_range.mp hj
  omega

theorem map_range_succ_update
    (f : Nat → UInt32) (n : Nat) (c : UInt32) :
    (List.range (n + 1)).map (Function.update f n c) = (List.range n).map f ++ [c] := by
  rw [List.range_succ, List.map_append, map_range_update f le_rfl, List.map_singleton,
    Function.update_self]

theorem map_range_pred_update
    (f : Nat → UInt32) (n : Nat) (c : UInt32) :
    (List.range (n - 1)).map (Function.update f (n - 1) c) =
      ((List.range n).map f).dropLast := by
  rw [map_range_update f le_rfl]
  cases n with
  | zero =>
      rfl
  | succ n =>
      rw [List.range_succ, List.map_append, List.map_singleton, List.dropLast_concat,
        Nat.add_sub_cancel]

/-- The state shows a prompt with `line` behind it, and holds that line. -/
structure PromptLine (line : List UInt32) (s : ShellState) : Prop extends Configured s where
  enabled : s.commandPromptEnabled = true
  command : s.command = line
  fits : line.length ≤ numMaxCommandCharacters
  shown : promptCharacters ++ line <:+ s.log

/-- What is drawn on the screen does not matter. -/
theorem PromptLine.flush
    (hs : PromptLine line s) :
    PromptLine line (shellFlushStdOut font s) where
  toConfigured := hs.toConfigured.flush font
  enabled := (prompt_eq_iff.mp (prompt_flush font s)).2.2.1.trans hs.enabled
  command := (command_congr (prompt_flush font s)).trans hs.command
  fits := hs.fits
  shown := (log_flush font s).symm ▸ hs.shown

/-- The prompt is printed behind an empty line, whatever was printed before. -/
theorem PromptLine.puts
    (hs : Configured s) (henabled : s.commandPromptEnabled = true)
    (hline : s.numCommandCharacters = 0) :
    PromptLine [] (shellPuts (some s.promptText) s) := by
  have hprompt := prompt_shellPuts (some s.promptText) s
  have hlog : (shellPuts (some s.promptText) s).log =
      promptCharacters.foldl appendToLog s.log := by
    rw [hs.promptText]
    exact log_storeAll hs.toIndicesInRange promptCharacters
  have hshown : [] ++ promptCharacters <:+ promptCharacters.foldl appendToLog s.log :=
    Ring.suffix_foldl_append promptCharacters List.nil_suffix
      (by rw [length_promptCharacters]; decide)
  refine ⟨hs.puts _, (prompt_eq_iff.mp hprompt).2.2.1.trans henabled, ?_, Nat.zero_le _, ?_⟩
  · rw [command_congr hprompt, ← List.length_eq_zero_iff, length_command, hline]
  · rw [hlog, List.append_nil]
    exact hshown

/-- A typed character is printed. -/
theorem log_typeCharacter
    (hs : Configured s) {codepoint : UInt32} (hcodepoint : codepoint ≠ 0) :
    (typeCharacter codepoint s).log = appendToLog s.log codepoint :=
  (log_putChar (hs.line _ _).toIndicesInRange codepoint).trans (if_neg hcodepoint)

/-- A typed character goes to the end of the line and of the ring. -/
theorem PromptLine.typeCharacter
    (hs : PromptLine line s) {codepoint : UInt32} (hcodepoint : codepoint ≠ 0)
    (hroom : line.length < numMaxCommandCharacters) :
    PromptLine (line ++ [codepoint]) (typeCharacter codepoint s) := by
  let t : ShellState :=
    { s with
      commandCharacters := Function.update s.commandCharacters s.numCommandCharacters codepoint
      numCommandCharacters := s.numCommandCharacters + 1 }
  have hcommand : t.command = line ++ [codepoint] := by
    rw [← hs.command]
    exact map_range_succ_update _ _ _
  have hprompt := prompt_shellPutChar codepoint t
  refine ⟨hs.toConfigured.typeCharacter codepoint,
    (prompt_eq_iff.mp hprompt).2.2.1.trans hs.enabled,
    (command_congr hprompt).trans hcommand, ?_, ?_⟩
  · rw [List.length_append, List.length_singleton]
    exact hroom
  · rw [log_typeCharacter hs.toConfigured hcodepoint, ← List.append_assoc]
    refine Ring.suffix_append hs.shown ?_ codepoint
    -- the ring has room for the prompt and the longest line
    have hmax : 10 + numMaxCommandCharacters ≤ numMaxDisplayCharacters - 1 := by decide
    rw [List.length_append, length_promptCharacters]
    omega

/-- The last character of the line is the last one of the ring. -/
theorem PromptLine.eraseCharacter
    (hs : PromptLine line s) (hne : line ≠ []) :
    PromptLine line.dropLast (eraseCharacter s) := by
  let t : ShellState :=
    { s with
      commandCharacters := Function.update s.commandCharacters (s.numCommandCharacters - 1) 0
      numCommandCharacters := s.numCommandCharacters - 1 }
  have hcommand : t.command = line.dropLast := by
    rw [← hs.command]
    exact map_range_pred_update _ _ _
  have hlog : (shellDeleteLastDisplayChar t).log = s.log.dropLast :=
    log_delete (hs.toConfigured.line _ _).toIndicesInRange
  have hprompt := prompt_shellDeleteLastDisplayChar t
  refine ⟨hs.toConfigured.eraseCharacter,
    (prompt_eq_iff.mp hprompt).2.2.1.trans hs.enabled,
    (command_congr hprompt).trans hcommand, ?_, ?_⟩
  · rw [List.length_dropLast]
    exact (Nat.sub_le _ _).trans hs.fits
  · show _ <:+ (shellDeleteLastDisplayChar t).log
    obtain ⟨older, holder⟩ := hs.shown
    rw [hlog, ← holder, List.dropLast_append_of_ne_nil (List.append_ne_nil_of_right_ne_nil _ hne),
      List.dropLast_append_of_ne_nil hne]
    exact List.suffix_append _ _

/-- Enter runs the command, whose output stands before the next prompt. -/
theorem PromptLine.enterCommand
    (hs : PromptLine line s) :
    PromptLine [] (enterCommand font s) := by
  have hputChar := prompt_eq_iff.mp (prompt_shellPutChar 10 s)
  have henabled := hputChar.2.2.1.trans hs.enabled
  have hcommand := prompt_eq_iff.mp
    (prompt_interpretCommand font henabled (shellPutChar 10 s).command)
  refine PromptLine.puts ?_ (hcommand.2.2.1.trans henabled) rfl
  exact ((hs.toConfigured.putChar 10).interpretCommand font _).line _ _

end Invariant

section Run

variable (font : BitmapFont) {line : List UInt32} {s : ShellState}

def KeyboardEvent.run : KeyboardEvent → ShellState → ShellState
  | character codepoint => shellKeyboardCharacterEvent font codepoint
  | key keyID state => shellKeyboardKeyEvent font keyID state

theorem PromptLine.numCommandCharacters
    (hs : PromptLine line s) :
    s.numCommandCharacters = line.length := by
  rw [← length_command, hs.command]

theorem PromptLine.characterEvent
    (hs : PromptLine line s) {codepoint : UInt32}
    (hcodepoint : codepoint ≠ 0) (henter : codepoint ≠ 10) :
    PromptLine ((KeyboardEvent.character codepoint).edit line)
      (shellKeyboardCharacterEvent font codepoint s) := by
  unfold shellKeyboardCharacterEvent KeyboardEvent.edit
  dsimp only
  rw [hs.enabled, hs.numCommandCharacters, Bool.not_true, if_neg Bool.false_ne_true,
    if_neg henter]
  by_cases hroom : line.length < numMaxCommandCharacters
  · rw [if_pos hroom, if_neg (Nat.ne_of_lt hroom)]
    exact (hs.typeCharacter hcodepoint hroom).flush font
  · rw [if_neg hroom, if_pos (Nat.le_antisymm hs.fits (Nat.not_lt.mp hroom))]
    exact hs

theorem PromptLine.keyEvent
    (hs : PromptLine line s) (keyID : KeyID) (state : KeyState) :
    PromptLine ((KeyboardEvent.key keyID state).edit line)
      (shellKeyboardKeyEvent font keyID state s) := by
  have herases : erases keyID state s = true ↔
      (keyID = keyBackspace ∧ (state = .pressed ∨ state = .repeated)) ∧ line ≠ [] := by
    unfold erases
    rw [hs.enabled, hs.numCommandCharacters]
    simp only [Bool.true_and, Bool.and_eq_true, Bool.or_eq_true, beq_iff_eq, bne_iff_ne,
      ne_eq, List.length_eq_zero_iff]
  unfold shellKeyboardKeyEvent KeyboardEvent.edit
  dsimp only
  by_cases hkey : keyID = keyBackspace ∧ (state = .pressed ∨ state = .repeated)
  · rw [if_pos hkey]
    by_cases hempty : line = []
    · subst hempty
      rw [if_neg fun h => (herases.mp h).2 rfl]
      exact hs
    · rw [if_pos (herases.mpr ⟨hkey, hempty⟩)]
      exact (hs.eraseCharacter hempty).flush font
  · rw [if_neg hkey, if_neg fun h => hkey (herases.mp h).1]
    exact hs

/-- The step lemma. -/
theorem PromptLine.run
    (hs : PromptLine line s) {event : KeyboardEvent} (hevent : event.NonNull) :
    PromptLine (if event.isEnter then [] else event.edit line) (event.run font s) := by
  cases event with
  | character codepoint =>
      by_cases henter : codepoint = 10
      · subst henter
        show PromptLine [] (shellKeyboardCharacterEvent font 10 s)
        unfold shellKeyboardCharacterEvent
        rw [hs.enabled, Bool.not_true, if_neg Bool.false_ne_true, if_pos rfl]
        exact (hs.enterCommand font).flush font
      · have hisEnter : (KeyboardEvent.character codepoint).isEnter = false :=
          beq_eq_false_iff_ne.mpr henter
        rw [hisEnter, if_neg Bool.false_ne_true]
        exact hs.characterEvent font hevent henter
  | key keyID state =>
      exact hs.keyEvent font keyID state

def runKeyboard (events : List KeyboardEvent) (s : ShellState) : ShellState :=
  events.foldl (fun s event => event.run font s) s

/-- The run lemma. -/
theorem PromptLine.runKeyboard
    (hs : PromptLine [] s) (events : List KeyboardEvent)
    (hevents : ∀ event ∈ events, event.NonNull) :
    PromptLine (typedLine events) (runKeyboard font events s) := by
  induction events using List.reverseRecOn with
  | nil =>
      exact hs
  | append_singleton events event ih =>
      rw [typedLine_concat, Shell.runKeyboard, List.foldl_append, List.foldl_cons,
        List.foldl_nil]
      have hbefore := ih fun e he => hevents e (List.mem_append_left _ he)
      exact hbefore.run font (hevents event (List.mem_append_right _ (List.mem_singleton_self _)))

/-- What Enter does when the prompt shows `line`. -/
theorem PromptLine.enter
    (hs : PromptLine line s) :
    shellKeyboardCharacterEvent font 10 s =
      shellFlushStdOut font (shellPuts (some (text "DexprOS # "))
        { shellInterpretCommand font line (shellPutChar 10 s) with
          commandCharacters := fun _ => 0
          numCommandCharacters := 0 }) := by
  have hcommand : (shellPutChar 10 s).command = line :=
    (command_congr (prompt_shellPutChar 10 s)).trans hs.command
  have htext : (shellInterpretCommand font line (shellPutChar 10 s)).promptText =
      text "DexprOS # " :=
    ((hs.toConfigured.putChar 10).interpretCommand font line).promptText
  unfold shellKeyboardCharacterEvent Shell.enterCommand
  dsimp only
  rw [hs.enabled, Bool.not_true, if_neg Bool.false_ne_true, if_pos rfl, hcommand, htext]

theorem promptLine_activatePrompt
    (hs : Configured s) (hline : s.numCommandCharacters = 0) :
    PromptLine [] (shellActivatePrompt font s) := by
  unfold shellActivatePrompt
  exact (PromptLine.puts hs.enable rfl hline).flush font

/-- Until a prompt is activated nothing is typed. -/
theorem numCommandCharacters_before_prompt
    (consoleWidth consoleHeight : UInt32) (ops : List ShellOp)
    (hops : ∀ op ∈ ops,
      op ≠ .activatePrompt ∧ ∀ command, op ≠ .interpretCommand command) :
    (runShellOps font ops (createShell font consoleWidth consoleHeight)).numCommandCharacters =
      0 := by
  let Idle (t : ShellState) : Prop :=
    t.prompt = (createShell font consoleWidth consoleHeight).prompt
  suffices hidle : Idle (runShellOps font ops (createShell font consoleWidth consoleHeight)) from
    (prompt_eq_iff.mp hidle).2.1
  refine List.foldlRecOn (motive := Idle) ops _ rfl fun t ht op hop => ?_
  have hdisabled : t.commandPromptEnabled = false := (prompt_eq_iff.mp ht).2.2.1
  cases op with
  | putChar character => exact (prompt_shellPutChar character t).trans ht
  | puts msg => exact (prompt_shellPuts msg t).trans ht
  | putsUTF32 msg => exact (prompt_shellPutsUTF32 msg t).trans ht
  | flushStdOut => exact (prompt_flush font t).trans ht
  | activatePrompt => exact absurd rfl (hops _ hop).1
  | keyboardCharacterEvent codepoint =>
      show Idle (shellKeyboardCharacterEvent font codepoint t)
      unfold shellKeyboardCharacterEvent
      rw [hdisabled]
      exact ht
  | keyboardKeyEvent keyID state =>
      show Idle (shellKeyboardKeyEvent font keyID state t)
      unfold shellKeyboardKeyEvent erases
      rw [hdisabled]
      exact ht
  | interpretCommand command => exact absurd rfl ((hops _ hop).2 command)

/-- The prompt is activated behind an empty line, whatever the shell did before.  After
every run of keyboard events the ring ends with the prompt and the command line, the
command line is the typed line, and the next Enter executes that line. -/
theorem keyboardRun_promptLine
    (consoleWidth consoleHeight : UInt32) (ops : List ShellOp)
    (hline : (runShellOps font ops
      (createShell font consoleWidth consoleHeight)).numCommandCharacters = 0)
    (events : List KeyboardEvent) (hevents : ∀ event ∈ events, event.NonNull) :
    let s := runKeyboard font events (shellActivatePrompt font
      (runShellOps font ops (createShell font consoleWidth consoleHeight)))
    s.numCommandCharacters ≤ 256 ∧
      promptCharacters ++ s.command <:+ s.log ∧
      s.command = typedLine events ∧
      shellKeyboardCharacterEvent font 10 s =
        shellFlushStdOut font (shellPuts (some (text "DexprOS # "))
          { shellInterpretCommand font (typedLine events) (shellPutChar 10 s) with
            commandCharacters := fun _ => 0
            numCommandCharacters := 0 }) := by
  intro s
  have hconfigured := (configured_createShell font consoleWidth consoleHeight).runOps font ops
  have hs : PromptLine (typedLine events) s :=
    (promptLine_activatePrompt font hconfigured hline).runKeyboard font events hevents
  refine ⟨?_, ?_, hs.command, hs.enter font⟩
  · rw [hs.numCommandCharacters]
    exact hs.fits
  · rw [hs.command]
    exact hs.shown

/-- Two characters are typed, and the second is erased. -/
theorem keyboardRun_promptLine_erased :
    let s := runKeyboard blankFont
      [.character 97, .character 98, .key keyBackspace .repeated, .key keyEnter .pressed]
      (shellActivatePrompt blankFont (createShell blankFont 900 600))
    s.numCommandCharacters ≤ 256 ∧
      promptCharacters ++ s.command <:+ s.log ∧
      s.command = [97] ∧
      shellKeyboardCharacterEvent blankFont 10 s =
        shellFlushStdOut blankFont (shellPuts (some (text "DexprOS # "))
          { shellInterpretCommand blankFont [97] (shellPutChar 10 s) with
            commandCharacters := fun _ => 0
            numCommandCharacters := 0 }) := by
  let events : List KeyboardEvent :=
    [.character 97, .character 98, .key keyBackspace .repeated, .key keyEnter .pressed]
  have htyped : typedLine events = [97] := by decide +kernel
  have hevents : ∀ event ∈ events, event.NonNull := by
    simp [events, KeyboardEvent.NonNull]
  have h := keyboardRun_promptLine blankFont 900 600 [] rfl events hevents
  rw [htyped] at h
  exact h

end Run

end Shell
end DexprOS
