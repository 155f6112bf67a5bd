import DexprOS.Library.FirstWord
import DexprOS.ShellLog
import Mathlib.Data.List.Nodup

/-!
# The grammar of the command line

The interpreter walks over the command line with a pointer and a number of characters that
are left, and over the text of a command up to its terminator.  All of its reads are checked
here, and it is run on a list of the calls that it makes as well as on the shell.

Main facts:
* `checkSingleCommandLoop_eq`, `shellExtractArgumentsAt_eq`: no read is out of range;
* `shellCheckSingleCommand_iff`: a command is recognized by the first word of the line;
* `shellInterpretCommandAt_shell`: the unchecked interpreter is the checked one;
* `shellInterpretCommand_grammar`: which command runs, and with which argument.
-/

namespace DexprOS
namespace Shell

open Kernel Words

section Pointers

/-- Character `i` of a text that ends with its terminator. -/
def readCommandText (commandText : List UInt8) (i : Nat) : Option UInt8 :=
  (commandText ++ [0])[i]?

/-- The loop of `DexprOS_ShellCheckSingleCommand` from index `i` on, with the number of
characters that are left. -/
def checkSingleCommandLoop (input : List UInt32) (pCommand : Nat) (commandText : List UInt8) :
    Nat → Nat → Option Bool
  | 0, i => do
      let cmdCharacter ← readCommandText commandText i
      if cmdCharacter ≠ 0 then some false else some true
  | left + 1, i => do
      let cmdCharacter ← readCommandText commandText i
      if cmdCharacter = 0 then do
        let c ← input[pCommand + i]?
        if c = space then some true else some false
      else do
        let c ← input[pCommand + i]?
        if toShellChar cmdCharacter ≠ c then some false
        else checkSingleCommandLoop input pCommand commandText left (i + 1)

def shellCheckSingleCommandAt (input : List UInt32) (pCommand cmdLength : Nat)
    (commandText : List UInt8) : Option Bool :=
  checkSingleCommandLoop input pCommand commandText cmdLength 0

def shellExtractArgumentsAt (input : List UInt32) (pCommand cmdLength : Nat) : Option Slice := do
  let behindName ← skip input (· ≠ space) pCommand cmdLength
  skip input (· = space) behindName.pointer behindName.length

variable {σ : Type}

/-- The loop over the commands that are left.  The command that is run reads its argument. -/
def runSingleCommandAt (puts : List UInt8 → σ → σ) (input : List UInt32)
    (pCommand cmdLength : Nat) :
    List (List UInt8 × (List UInt32 → σ → σ)) → σ → Option σ
  | [], s => some (puts (text "Shell error: unknown command.\n") s)
  | (commandText, commandFunc) :: commands, s => do
      let isCommand ← shellCheckSingleCommandAt input pCommand cmdLength commandText
      if isCommand then do
        let arguments ← shellExtractArgumentsAt input pCommand cmdLength
        let arg ← readSlice input arguments.pointer arguments.length
        some (commandFunc arg s)
      else runSingleCommandAt puts input pCommand cmdLength commands s

/-- `DexprOS_ShellInterpretCommand` on any kind of state. -/
def shellInterpretCommandAt (puts : List UInt8 → σ → σ)
    (commands : List (List UInt8 × (List UInt32 → σ → σ))) (input : List UInt32) (s : σ) :
    Option σ := do
  let command ← skip input (· = space) 0 input.length
  if command.length = 0 then some s
  else do
    let c ← input[command.pointer]?
    if c = 35 then some s
    else runSingleCommandAt puts input command.pointer command.length commands s

end Pointers

section Reads

/-- A text is read up to its terminator. -/
theorem readCommandText_eq
    {commandText : List UInt8} {i : Nat} (hi : i ≤ commandText.length) :
    (commandText.drop i = [] ∧ readCommandText commandText i = some 0) ∨
      ∃ t, i < commandText.length ∧ t ∈ commandText ∧
        commandText.drop i = t :: commandText.drop (i + 1) ∧
        readCommandText commandText i = some t := by
  unfold readCommandText
  rcases Nat.lt_or_eq_of_le hi with hlt | rfl
  · refine Or.inr ⟨commandText[i], hlt, List.getElem_mem hlt, List.drop_eq_getElem_cons hlt, ?_⟩
    rw [List.getElem?_append_left hlt, List.getElem?_eq_getElem hlt]
  · refine Or.inl ⟨List.drop_length, ?_⟩
    rw [List.getElem?_append_right (Nat.le_refl _), Nat.sub_self]
    rfl

theorem checkSingleCommandLoop_eq
    (input : List UInt32) (pCommand : Nat) {commandText : List UInt8}
    (hterminated : 0 ∉ commandText) :
    ∀ left i, pCommand + i + left = input.length → i ≤ commandText.length →
      checkSingleCommandLoop input pCommand commandText left i =
        some (shellCheckSingleCommand (input.drop (pCommand + i)) (commandText.drop i)) := by
  intro left
  induction left with
  | zero =>
      intro i hrest hi
      have hnil : input.drop (pCommand + i) = [] :=
        List.drop_eq_nil_of_le (Nat.le_of_eq hrest.symm)
      rw [hnil]
      rcases readCommandText_eq hi with ⟨hdrop, hread⟩ | ⟨t, -, ht, hdrop, hread⟩
      · rw [hdrop]
        simp [checkSingleCommandLoop, shellCheckSingleCommand, hread]
      · rw [hdrop]
        simp [checkSingleCommandLoop, shellCheckSingleCommand, hread,
          ne_of_mem_of_not_mem ht hterminated]
  | succ left ih =>
      intro i hrest hi
      rcases drop_of_isRest hrest with ⟨c, hc, hline⟩
      rw [hline]
      rcases readCommandText_eq hi with ⟨hdrop, hread⟩ | ⟨t, hlt, ht, hdrop, hread⟩
      · rw [hdrop]
        by_cases hspace : c = space
        · simp [checkSingleCommandLoop, shellCheckSingleCommand, hread, hc, hspace]
        · simp [checkSingleCommandLoop, shellCheckSingleCommand, hread, hc, hspace]
      · have hnext := ih (i + 1) (by omega) hlt
        rw [← Nat.add_assoc] at hnext
        rw [hdrop]
        by_cases hne : toShellChar t = c
        · simpa [checkSingleCommandLoop, shellCheckSingleCommand, hread, hc, hne,
            ne_of_mem_of_not_mem ht hterminated] using hnext
        · simp [checkSingleCommandLoop, shellCheckSingleCommand, hread, hc, hne,
            ne_of_mem_of_not_mem ht hterminated]

theorem shellCheckSingleCommandAt_eq
    {input : List UInt32} {pCommand cmdLength : Nat} (hrest : pCommand + cmdLength = input.length)
    {commandText : List UInt8} (hterminated : 0 ∉ commandText) :
    shellCheckSingleCommandAt input pCommand cmdLength commandText =
      some (shellCheckSingleCommand (input.drop pCommand) commandText) :=
  checkSingleCommandLoop_eq input pCommand hterminated cmdLength 0 hrest (Nat.zero_le _)

theorem shellExtractArgumentsAt_eq
    {input : List UInt32} {pCommand cmdLength : Nat} (hrest : pCommand + cmdLength = input.length) :
    ∃ arguments : Slice, shellExtractArgumentsAt input pCommand cmdLength = some arguments ∧
      readSlice input arguments.pointer arguments.length =
        some (shellExtractArguments (input.drop pCommand)) := by
  rcases skip_eq input (· ≠ space) pCommand cmdLength hrest with
    ⟨behindName, hname, hnameRest, hnameLine⟩
  rcases skip_eq input (· = space) behindName.pointer behindName.length hnameRest with
    ⟨arguments, harguments, hargumentsRest, hargumentsLine⟩
  refine ⟨arguments, ?_, ?_⟩
  · rw [shellExtractArgumentsAt, hname]
    exact harguments
  · rw [readSlice_eq input _ _ hargumentsRest, hargumentsLine, hnameLine]
    rfl

variable {σ : Type} (puts : List UInt8 → σ → σ)
variable {commands : List (List UInt8 × (List UInt32 → σ → σ))}

/-- What the interpreter does with a line that has no leading spaces. -/
def dispatchCommand (commands : List (List UInt8 × (List UInt32 → σ → σ)))
    (command : List UInt32) (s : σ) : σ :=
  match commands.find? fun f => shellCheckSingleCommand command f.1 with
  | some f => f.2 (shellExtractArguments command) s
  | none => puts (text "Shell error: unknown command.\n") s

theorem runSingleCommandAt_eq
    {input : List UInt32} {pCommand cmdLength : Nat} (hrest : pCommand + cmdLength = input.length)
    (hterminated : ∀ f ∈ commands, 0 ∉ f.1) (s : σ) :
    runSingleCommandAt puts input pCommand cmdLength commands s =
      some (dispatchCommand puts commands (input.drop pCommand) s) := by
  induction commands with
  | nil =>
      rfl
  | cons f commands ih =>
      have hcheck := shellCheckSingleCommandAt_eq hrest (hterminated f List.mem_cons_self)
      have hcommands := ih fun f hf => hterminated f (List.mem_cons_of_mem _ hf)
      rcases shellExtractArgumentsAt_eq hrest with ⟨arguments, harguments, hread⟩
      cases hmatches : shellCheckSingleCommand (input.drop pCommand) f.1 with
      | true =>
          simp [runSingleCommandAt, dispatchCommand, hcheck, hmatches, harguments, hread]
      | false =>
          simpa [runSingleCommandAt, dispatchCommand, hcheck, hmatches] using hcommands

/-- The interpreter reads no character that the line does not have. -/
theorem shellInterpretCommandAt_eq
    (hterminated : ∀ f ∈ commands, 0 ∉ f.1) (input : List UInt32) (s : σ) :
    shellInterpretCommandAt puts commands input s =
      some (match input.dropWhile (· = space) with
        | [] => s
        | c :: cs => if c = 35 then s else dispatchCommand puts commands (c :: cs) s) := by
  rcases skip_eq input (· = space) 0 input.length (Nat.zero_add _) with
    ⟨⟨pCommand, cmdLength⟩, hskip, hrest, hline⟩
  have hrun := runSingleCommandAt_eq puts hrest hterminated s
  dsimp only at hline hrun
  rw [List.drop_zero] at hline
  rw [← hline]
  cases cmdLength with
  | zero =>
      have hnil : input.drop pCommand = [] := List.drop_eq_nil_of_le (Nat.le_of_eq hrest.symm)
      simp [shellInterpretCommandAt, hskip, hnil]
  | succ cmdLength =>
      rcases drop_of_isRest hrest with ⟨c, hc, hdrop⟩
      rw [hdrop] at hrun ⊢
      by_cases hcomment : c = 35
      · simp [shellInterpretCommandAt, hskip, hc, hcomment]
      · simpa [shellInterpretCommandAt, hskip, hc, hcomment] using hrun

end Reads

section Grammar

/-- What the interpreter calls. -/
inductive ShellCall where
  | run (commandText : List UInt8) (arg : List UInt32)
  | puts (msg : List UInt8)
deriving DecidableEq

def shellCommandTexts : List (List UInt8) :=
  [text "echo", text "clear", text "help", text "version", text "shutdown", text "reboot"]

theorem shellBuiltInCommands_texts
    (font : BitmapFont) :
    (shellBuiltInCommands font).map Prod.fst = shellCommandTexts := by
  rfl

def recordPuts (msg : List UInt8) (calls : List ShellCall) : List ShellCall :=
  calls ++ [.puts msg]

/-- The built-in commands, recorded instead of run. -/
def recordedCommands (font : BitmapFont) :
    List (List UInt8 × (List UInt32 → List ShellCall → List ShellCall)) :=
  (shellBuiltInCommands font).map fun f => (f.1, fun arg calls => calls ++ [.run f.1 arg])

/-- A line without leading spaces calls this command with this argument. -/
def CommandLine (commandText : List UInt8) (arg input : List UInt32) : Prop :=
  (input = messageCharacters commandText ∧ arg = []) ∨
    ∃ k, input = messageCharacters commandText ++ List.replicate (k + 1) space ++ arg ∧
      arg.head? ≠ some space

/-- A command is recognized by the first word of the line. -/
theorem shellCheckSingleCommand_iff
    {commandText : List UInt8} (hspace : space ∉ commandText.map toShellChar)
    (input : List UInt32) :
    shellCheckSingleCommand input commandText = true ↔
      firstWord space input = commandText.map toShellChar := by
  unfold firstWord
  induction commandText generalizing input with
  | nil =>
      cases input with
      | nil =>
          simp [shellCheckSingleCommand]
      | cons c cs =>
          simp [shellCheckSingleCommand, List.takeWhile_cons]
  | cons t ts ih =>
      rw [List.map_cons, List.mem_cons, not_or] at hspace
      cases input with
      | nil =>
          simp [shellCheckSingleCommand]
      | cons c cs =>
          by_cases hc : toShellChar t = c
          · have hkept : c ≠ space := fun h => hspace.1 (h.symm.trans hc.symm)
            simpa [shellCheckSingleCommand, hc, hkept] using ih hspace.2 cs
          · by_cases hkept : c = space
            · simp [shellCheckSingleCommand, hkept, Ne.symm hspace.1]
            · simp [shellCheckSingleCommand, hc, hkept, Ne.symm hc]

theorem shellCommandTexts_plain
    {commandText : List UInt8} (hcommand : commandText ∈ shellCommandTexts) :
    0 ∉ commandText ∧ space ∉ commandText.map toShellChar := by
  have hplain : shellCommandTexts.all fun commandText =>
      !commandText.contains 0 && !(commandText.map toShellChar).contains space := by
    decide +kernel
  have hall := List.all_eq_true.mp hplain commandText hcommand
  simpa using hall

theorem messageCharacters_of_plain
    {commandText : List UInt8} (hterminated : 0 ∉ commandText) :
    messageCharacters commandText = commandText.map toShellChar := by
  unfold messageCharacters
  rw [List.takeWhile_eq_self_iff.mpr]
  intro c hc
  simpa using ne_of_mem_of_not_mem hc hterminated

/-- No two commands have the same name. -/
theorem shellCommandTexts_injective
    {commandText commandText' : List UInt8} (hcommand : commandText ∈ shellCommandTexts)
    (hcommand' : commandText' ∈ shellCommandTexts)
    (heq : commandText.map toShellChar = commandText'.map toShellChar) :
    commandText = commandText' := by
  have hnodup : (shellCommandTexts.map fun commandText => commandText.map toShellChar).Nodup := by
    decide +kernel
  exact List.inj_on_of_nodup_map hnodup hcommand hcommand' heq

theorem commandLine_iff
    {commandText : List UInt8} (hcommand : commandText ∈ shellCommandTexts)
    (arg input : List UInt32) :
    CommandLine commandText arg input ↔
      shellCheckSingleCommand input commandText = true ∧ shellExtractArguments input = arg := by
  rcases shellCommandTexts_plain hcommand with ⟨hterminated, hspace⟩
  rw [shellCheckSingleCommand_iff hspace]
  unfold CommandLine
  rw [messageCharacters_of_plain hterminated]
  exact (firstWord_behindWord_iff hspace).symm

/-- The interpreter of the shell, with its reads checked. -/
theorem shellInterpretCommandAt_shell
    (font : BitmapFont) (input : List UInt32) (s : ShellState) :
    shellInterpretCommandAt (fun msg => shellPuts (some msg)) (shellBuiltInCommands font) input s =
      some (shellInterpretCommand font input s) := by
  rw [shellInterpretCommandAt_eq]
  · unfold shellInterpretCommand dispatchCommand
    cases input.dropWhile (· = space) with
    | nil =>
        rfl
    | cons c cs =>
        dsimp only
        cases (shellBuiltInCommands font).find? fun f => shellCheckSingleCommand (c :: cs) f.1 with
        | none =>
            rfl
        | some f =>
            rfl
  · intro f hf
    have htext : f.1 ∈ (shellBuiltInCommands font).map Prod.fst := List.mem_map_of_mem hf
    exact (shellCommandTexts_plain htext).1

theorem commandLine_unique
    {commandText commandText' : List UInt8} (hcommand : commandText ∈ shellCommandTexts)
    (hcommand' : commandText' ∈ shellCommandTexts) {arg arg' input : List UInt32}
    (hline : CommandLine commandText arg input) (hline' : CommandLine commandText' arg' input) :
    commandText = commandText' ∧ arg = arg' := by
  rw [commandLine_iff hcommand, shellCheckSingleCommand_iff (shellCommandTexts_plain hcommand).2]
    at hline
  rw [commandLine_iff hcommand', shellCheckSingleCommand_iff (shellCommandTexts_plain hcommand').2]
    at hline'
  refine ⟨shellCommandTexts_injective hcommand hcommand' ?_, hline.2.symm.trans hline'.2⟩
  exact hline.1.symm.trans hline'.1

/-- A line without leading spaces runs the command that it calls, or there is none. -/
theorem dispatchCommand_recorded
    (font : BitmapFont) (input : List UInt32) :
    (∃ commandText ∈ shellCommandTexts, ∃ arg, CommandLine commandText arg input ∧
        dispatchCommand recordPuts (recordedCommands font) input [] = [.run commandText arg]) ∨
      (∀ commandText ∈ shellCommandTexts, ∀ arg, ¬ CommandLine commandText arg input) ∧
        dispatchCommand recordPuts (recordedCommands font) input [] =
          [.puts (text "Shell error: unknown command.\n")] := by
  unfold dispatchCommand recordedCommands
  rw [List.find?_map]
  cases hfind : (shellBuiltInCommands font).find?
      ((fun f => shellCheckSingleCommand input f.1) ∘
        fun f => (f.1, fun arg calls => calls ++ [ShellCall.run f.1 arg])) with
  | none =>
      refine Or.inr ⟨fun commandText hcommand arg hline => ?_, rfl⟩
      rw [commandLine_iff hcommand] at hline
      rw [← shellBuiltInCommands_texts font] at hcommand
      rcases List.mem_map.mp hcommand with ⟨f, hf, rfl⟩
      exact List.find?_eq_none.mp hfind f hf hline.1
  | some f =>
      have hcommand : f.1 ∈ shellCommandTexts :=
        List.mem_map_of_mem (List.mem_of_find?_eq_some hfind)
      have hmatches := List.find?_some hfind
      exact Or.inl ⟨f.1, hcommand, shellExtractArguments input,
        (commandLine_iff hcommand _ input).mpr ⟨hmatches, rfl⟩, rfl⟩

/-- The calls that are made for a line without leading spaces. -/
structure DispatchCalls (input : List UInt32) (calls : List ShellCall) : Prop where
  length_le : calls.length ≤ 1
  run_iff : ∀ commandText arg, .run commandText arg ∈ calls ↔
    commandText ∈ shellCommandTexts ∧ CommandLine commandText arg input
  puts_iff : ∀ msg, .puts msg ∈ calls ↔ msg = text "Shell error: unknown command.\n" ∧
    ∀ commandText ∈ shellCommandTexts, ∀ arg, ¬ CommandLine commandText arg input

theorem dispatchCommand_calls
    (font : BitmapFont) (input : List UInt32) :
    DispatchCalls input (dispatchCommand recordPuts (recordedCommands font) input []) := by
  rcases dispatchCommand_recorded font input with
    ⟨commandText, hcommand, arg, hline, hcalls⟩ | ⟨hnone, hcalls⟩
  · rw [hcalls]
    refine ⟨Nat.le_refl 1, fun commandText' arg' => ?_, fun msg => ?_⟩
    · rw [List.mem_singleton, ShellCall.run.injEq]
      constructor
      · rintro ⟨rfl, rfl⟩
        exact ⟨hcommand, hline⟩
      · rintro ⟨hcommand', hline'⟩
        exact commandLine_unique hcommand' hcommand hline' hline
    · refine iff_of_false (by simp) ?_
      rintro ⟨-, hnone⟩
      exact hnone commandText hcommand arg hline
  · rw [hcalls]
    refine ⟨Nat.le_refl 1, fun commandText arg => ?_, fun msg => ?_⟩
    · refine iff_of_false (by simp) ?_
      rintro ⟨hcommand, hline⟩
      exact hnone commandText hcommand arg hline
    · rw [List.mem_singleton, ShellCall.puts.injEq]
      exact ⟨fun hmsg => ⟨hmsg, hnone⟩, fun hmsg => hmsg.1⟩

/-- No line makes the interpreter read out of range.  A line of spaces and a comment call
nothing; of any other line, the part behind the leading spaces decides which command runs,
with which argument, and that no other one does. -/
theorem shellInterpretCommand_grammar
    (font : BitmapFont) (input : List UInt32) :
    let command := input.dropWhile (· = space)
    (∀ s, shellInterpretCommandAt (fun msg => shellPuts (some msg)) (shellBuiltInCommands font)
        input s = some (shellInterpretCommand font input s)) ∧
      ∃ calls, shellInterpretCommandAt recordPuts (recordedCommands font) input [] = some calls ∧
        if command = [] ∨ command.head? = some 35 then calls = []
        else DispatchCalls command calls := by
  refine ⟨shellInterpretCommandAt_shell font input, _, shellInterpretCommandAt_eq recordPuts
    (fun f hf => ?_) input [], ?_⟩
  · have htext : f.1 ∈ (recordedCommands font).map Prod.fst := List.mem_map_of_mem hf
    exact (shellCommandTexts_plain htext).1
  · cases input.dropWhile (· = space) with
    | nil =>
        simp
    | cons c cs =>
        by_cases hcomment : c = 35
        · simp [hcomment]
        · simpa [hcomment] using dispatchCommand_calls font (c :: cs)

end Grammar

end Shell
end DexprOS
