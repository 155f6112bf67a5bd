import DexprOS.Console
import DexprOS.ShellBounds
import DexprOS.ShellScrolling

/-!
# The table indices of the console

Every function of the shell that uses a table, with a trace of the indices: those that store
to the ring of displayed characters, the command interpreter and the commands, which read the
command line in place, and the events of the keyboard.

Main facts:
* `result_tracedShellInterpretCommand`: reading the command line in place is reading a copy;
* `Plain.event`, `Plain.run`: the step lemmas;
* `tracedRunConsole_inBounds`: no run of the console leaves a table.
-/

namespace DexprOS
namespace Shell

open Kernel Keyboard Traced

section Accesses

/-- A table of the console and the index used for it. -/
inductive ShellAccess where
  | table (made : TableAccess)
  | commandCharacter (i : Nat)
deriving DecidableEq, Repr

def ShellAccess.InBounds : ShellAccess → Prop
  | table made => made.InBounds
  | commandCharacter i => i < numMaxCommandCharacters

@[simp] theorem inBounds_table_iff
    {made : TableAccess} :
    (ShellAccess.table made).InBounds ↔ made.InBounds :=
  Iff.rfl

@[simp] theorem inBounds_commandCharacter_iff
    {i : Nat} :
    (ShellAccess.commandCharacter i).InBounds ↔ i < numMaxCommandCharacters :=
  Iff.rfl

/-- The shell, with the indices that it uses. -/
abbrev TracedShell : Type :=
  Traced ShellAccess ShellState

end Accesses

section Output

def tracedStoreDisplayChar (r : ShellState × Nat × Nat) (character : UInt32) :
    Traced ShellAccess (ShellState × Nat × Nat) :=
  access (.table (.displayCharacter r.2.2)) (storeDisplayChar r character)

def tracedStoreDisplayChars (characters : List UInt32) (s : ShellState) : TracedShell := do
  let r ← characters.foldlM tracedStoreDisplayChar
    (s, s.displayRingBufferStart, s.displayRingBufferEnd)
  pure { r.1 with displayRingBufferStart := r.2.1, displayRingBufferEnd := r.2.2 }

def tracedShellPutChar (character : UInt32) (s : ShellState) : TracedShell :=
  if character = 0 then pure s else tracedStoreDisplayChars [character] s

def tracedShellPuts (msg : Option (List UInt8)) (s : ShellState) : TracedShell :=
  match msg with
  | none => pure s
  | some msg => tracedStoreDisplayChars (messageCharacters msg) s

def tracedShellPutsUTF32 (msg : Option (List UInt32)) (s : ShellState) : TracedShell :=
  match msg with
  | none => pure s
  | some msg => tracedStoreDisplayChars (msg.takeWhile (· ≠ 0)) s

@[simp] theorem result_tracedStoreDisplayChars
    (characters : List UInt32) (s : ShellState) :
    (tracedStoreDisplayChars characters s).result = storeDisplayChars characters s := by
  rw [tracedStoreDisplayChars, result_bind,
    result_foldlM (g := storeDisplayChar) fun _ _ => rfl]
  rfl

@[simp] theorem result_tracedShellPutChar
    (character : UInt32) (s : ShellState) :
    (tracedShellPutChar character s).result = shellPutChar character s := by
  unfold tracedShellPutChar shellPutChar
  split
  · rfl
  · exact result_tracedStoreDisplayChars _ _

@[simp] theorem result_tracedShellPuts
    (msg : Option (List UInt8)) (s : ShellState) :
    (tracedShellPuts msg s).result = shellPuts msg s := by
  cases msg with
  | none => rfl
  | some msg => exact result_tracedStoreDisplayChars _ _

@[simp] theorem result_tracedShellPutsUTF32
    (msg : Option (List UInt32)) (s : ShellState) :
    (tracedShellPutsUTF32 msg s).result = shellPutsUTF32 msg s := by
  cases msg with
  | none => rfl
  | some msg => exact result_tracedStoreDisplayChars _ _

/-- The end of the ring stays inside of the table. -/
theorem within_tracedStoreDisplayChars
    {s : ShellState} (hs : s.IndicesInRange) (characters : List UInt32) :
    (tracedStoreDisplayChars characters s).Within ShellAccess.InBounds := by
  have hstep : ∀ c ∈ characters, ∀ r : ShellState × Nat × Nat, r.2.2 < numMaxDisplayCharacters →
      (tracedStoreDisplayChar r c).Within ShellAccess.InBounds ∧
        (tracedStoreDisplayChar r c).result.2.2 < numMaxDisplayCharacters :=
    fun c _ r hr => ⟨by simpa [tracedStoreDisplayChar] using hr, Nat.mod_lt _ (by decide)⟩
  have hloop := within_foldlM hstep
    (b := (s, s.displayRingBufferStart, s.displayRingBufferEnd)) hs.end_lt
  rw [tracedStoreDisplayChars, within_bind_iff]
  exact ⟨hloop.1, within_pure _⟩

theorem within_tracedShellPutChar
    {s : ShellState} (hs : s.IndicesInRange) (character : UInt32) :
    (tracedShellPutChar character s).Within ShellAccess.InBounds := by
  unfold tracedShellPutChar
  split
  · exact within_pure s
  · exact within_tracedStoreDisplayChars hs _

theorem within_tracedShellPuts
    {s : ShellState} (hs : s.IndicesInRange) (msg : Option (List UInt8)) :
    (tracedShellPuts msg s).Within ShellAccess.InBounds := by
  cases msg with
  | none => exact within_pure s
  | some msg => exact within_tracedStoreDisplayChars hs _

theorem within_tracedShellPutsUTF32
    {s : ShellState} (hs : s.IndicesInRange) (msg : Option (List UInt32)) :
    (tracedShellPutsUTF32 msg s).Within ShellAccess.InBounds := by
  cases msg with
  | none => exact within_pure s
  | some msg => exact within_tracedStoreDisplayChars hs _

end Output

section Line

/-- A character of the command line is read. -/
def readCommand (s : ShellState) (i : Nat) : Traced ShellAccess UInt32 :=
  access (.commandCharacter i) (s.commandCharacters i)

/-- The loops that skip characters of the command line; `indices` is what is left of it. -/
def tracedSkip (p : UInt32 → Bool) (s : ShellState) :
    List Nat → Traced ShellAccess (List Nat)
  | [] => pure []
  | i :: rest => do
      let c ← readCommand s i
      if p c then tracedSkip p s rest else pure (i :: rest)

def tracedShellCheckSingleCommand (s : ShellState) :
    List Nat → List UInt8 → Traced ShellAccess Bool
  | [], [] => pure true
  | [], _ :: _ => pure false
  | i :: _, [] => do
      let c ← readCommand s i
      pure (c == space)
  | i :: rest, t :: ts => do
      let c ← readCommand s i
      if toShellChar t ≠ c then pure false else tracedShellCheckSingleCommand s rest ts

def tracedShellExtractArguments (s : ShellState) (line : List Nat) :
    Traced ShellAccess (List Nat) := do
  let behind ← tracedSkip (fun c => decide (c ≠ space)) s line
  tracedSkip (fun c => decide (c = space)) s behind

variable (s : ShellState)

@[simp] theorem result_readCommand
    (i : Nat) :
    (readCommand s i).result = s.commandCharacters i :=
  (rfl)

@[simp] theorem within_readCommand_iff
    (i : Nat) :
    (readCommand s i).Within ShellAccess.InBounds ↔ i < numMaxCommandCharacters :=
  within_access_iff _ _

/-- Skipping leaves an end of the indices. -/
theorem result_tracedSkip
    (p : UInt32 → Bool) (line : List Nat) :
    (tracedSkip p s line).result <:+ line ∧
      (tracedSkip p s line).result.map s.commandCharacters =
        (line.map s.commandCharacters).dropWhile p := by
  induction line with
  | nil => simp [tracedSkip]
  | cons i rest ih =>
      cases hp : p (s.commandCharacters i) with
      | true =>
          simp only [tracedSkip, result_bind, result_readCommand, hp, if_true, List.map_cons,
            List.dropWhile_cons_of_pos]
          exact ⟨ih.1.trans (List.suffix_cons i rest), ih.2⟩
      | false => simp [tracedSkip, hp]

theorem within_tracedSkip
    (p : UInt32 → Bool) {line : List Nat} (hline : ∀ i ∈ line, i < numMaxCommandCharacters) :
    (tracedSkip p s line).Within ShellAccess.InBounds := by
  induction line with
  | nil => simp [tracedSkip]
  | cons i rest ih =>
      obtain ⟨hi, hrest⟩ := List.forall_mem_cons.mp hline
      simp only [tracedSkip, within_bind_iff, within_readCommand_iff]
      refine ⟨hi, ?_⟩
      split
      · exact ih hrest
      · exact within_pure _

theorem result_tracedShellCheckSingleCommand
    (line : List Nat) (commandText : List UInt8) :
    (tracedShellCheckSingleCommand s line commandText).result =
      shellCheckSingleCommand (line.map s.commandCharacters) commandText := by
  induction line generalizing commandText with
  | nil => cases commandText <;> rfl
  | cons i rest ih =>
      cases commandText with
      | nil => rfl
      | cons t ts =>
          simp only [tracedShellCheckSingleCommand, shellCheckSingleCommand, List.map_cons,
            result_bind, result_readCommand]
          split
          · rfl
          · exact ih ts

theorem within_tracedShellCheckSingleCommand
    {line : List Nat} (hline : ∀ i ∈ line, i < numMaxCommandCharacters)
    (commandText : List UInt8) :
    (tracedShellCheckSingleCommand s line commandText).Within ShellAccess.InBounds := by
  induction line generalizing commandText with
  | nil => cases commandText <;> exact within_pure _
  | cons i rest ih =>
      obtain ⟨hi, hrest⟩ := List.forall_mem_cons.mp hline
      cases commandText with
      | nil => simpa [tracedShellCheckSingleCommand] using hi
      | cons t ts =>
          simp only [tracedShellCheckSingleCommand, within_bind_iff, within_readCommand_iff]
          refine ⟨hi, ?_⟩
          split
          · exact within_pure _
          · exact ih hrest ts

theorem result_tracedShellExtractArguments
    (line : List Nat) :
    (tracedShellExtractArguments s line).result <:+ line ∧
      (tracedShellExtractArguments s line).result.map s.commandCharacters =
        shellExtractArguments (line.map s.commandCharacters) := by
  obtain ⟨hname, hnameText⟩ := result_tracedSkip s (fun c => decide (c ≠ space)) line
  obtain ⟨hspaces, hspacesText⟩ := result_tracedSkip s (fun c => decide (c = space))
    (tracedSkip (fun c => decide (c ≠ space)) s line).result
  rw [tracedShellExtractArguments, result_bind]
  refine ⟨hspaces.trans hname, ?_⟩
  rw [hspacesText, hnameText]
  rfl

theorem within_tracedShellExtractArguments
    {line : List Nat} (hline : ∀ i ∈ line, i < numMaxCommandCharacters) :
    (tracedShellExtractArguments s line).Within ShellAccess.InBounds := by
  have hbehind := (result_tracedSkip s (fun c => decide (c ≠ space)) line).1
  rw [tracedShellExtractArguments, within_bind_iff]
  exact ⟨within_tracedSkip s _ hline,
    within_tracedSkip s _ fun i hi => hline i (hbehind.subset hi)⟩

end Line

section Plain

/-- The indices are in range, and no table holds the character behind the font's table. -/
structure PlainShell (s : ShellState) : Prop extends s.IndicesInRange where
  room : s.numCommandCharacters ≤ numMaxCommandCharacters
  display : ∀ i, s.displayCharacters i ≠ 127
  onScreen : ∀ i, s.onScreenCharacters i ≠ 127
  command : ∀ i, s.commandCharacters i ≠ 127

variable {s t : ShellState}

theorem null_ne :
    (0 : UInt32) ≠ 127 := by
  decide

theorem plainShell_createShell
    (font : BitmapFont) (consoleWidth consoleHeight : UInt32) :
    PlainShell (createShell font consoleWidth consoleHeight) where
  toIndicesInRange := IndicesInRange_createShell font consoleWidth consoleHeight
  room := Nat.zero_le _
  display := fun _ => null_ne
  onScreen := fun _ => null_ne
  command := fun _ => null_ne

theorem update_ne
    {f : Nat → UInt32} (hf : ∀ i, f i ≠ 127) (k : Nat) {c : UInt32} (hc : c ≠ 127) :
    ∀ i, Function.update f k c i ≠ 127 := by
  intro i
  by_cases hi : i = k
  · rw [hi, Function.update_self]
    exact hc
  · rw [Function.update_of_ne hi]
    exact hf i

theorem PlainShell.store
    (hs : PlainShell s) {characters : List UInt32} (hplain : ∀ c ∈ characters, c ≠ 127) :
    PlainShell (storeDisplayChars characters s) := by
  rw [storeDisplayChars_eq_foldl]
  refine List.foldlRecOn (motive := PlainShell) characters _ hs fun t ht c hc => ?_
  exact ⟨IndicesInRange_store ht.toIndicesInRange c, ht.room,
    update_ne ht.display _ (hplain c hc), ht.onScreen, ht.command⟩

theorem PlainShell.line
    (hs : PlainShell s) {commandCharacters : Nat → UInt32} {numCommandCharacters : Nat}
    (hroom : numCommandCharacters ≤ numMaxCommandCharacters)
    (hplain : ∀ i, commandCharacters i ≠ 127) :
    PlainShell
      { s with
        commandCharacters := commandCharacters
        numCommandCharacters := numCommandCharacters } :=
  ⟨⟨hs.start_lt, hs.end_lt, hs.first_lt⟩, hroom, hs.display, hs.onScreen, hplain⟩

theorem PlainShell.enable
    (hs : PlainShell s) (enabled : Bool) :
    PlainShell { s with commandPromptEnabled := enabled } :=
  ⟨⟨hs.start_lt, hs.end_lt, hs.first_lt⟩, hs.room, hs.display, hs.onScreen, hs.command⟩

theorem PlainShell.delete
    (hs : PlainShell s) :
    PlainShell (shellDeleteLastDisplayChar s) := by
  have hrange := IndicesInRange_delete hs.toIndicesInRange
  by_cases hempty : s.displayRingBufferStart = s.displayRingBufferEnd
  · rw [shellDeleteLastDisplayChar, if_pos hempty]
    exact hs
  · rw [shellDeleteLastDisplayChar_of_ne hempty] at hrange ⊢
    exact ⟨hrange, hs.room, hs.display, hs.onScreen, hs.command⟩

theorem PlainShell.window
    (hs : PlainShell s) :
    127 ∉ s.window := by
  intro hmem
  obtain ⟨i, -, hi⟩ := List.mem_map.mp hmem
  exact hs.display i hi

theorem PlainShell.onScreen_text
    (hs : PlainShell s) :
    127 ∉ s.onScreen := by
  intro hmem
  obtain ⟨i, -, hi⟩ := List.mem_map.mp ((List.takeWhile_sublist _).subset hmem)
  exact hs.onScreen i hi

/-- Setting the text copies displayed characters. -/
theorem onScreenCharacters_setText_ne
    (font : BitmapFont) (hs : PlainShell s) (hcells : s.onScreenCharacters = fun _ => 0) :
    ∀ i, (shellSetText font s.firstDisplayChar s.displayRingBufferEnd s).onScreenCharacters i ≠
      127 := by
  intro i
  have hlength := length_window_lt s
  rw [length_window] at hlength
  have hshown := (setTextLoop_shown font
    (displayIndices s.firstDisplayChar s.displayRingBufferEnd) 0
    { s with outputCursorX := 0, outputCursorY := 0, currentLine := 0 } (by omega)
    (Nat.zero_le s.numLines)).2
  rw [shellSetText, hshown, storeText_apply, if_pos (Nat.zero_le i), hcells]
  dsimp only
  cases hc : (shownCharacters font s.consoleWidth (s.numLines - 0) 0
      ((displayIndices s.firstDisplayChar s.displayRingBufferEnd).map
        s.displayCharacters))[i - 0]? with
  | none => decide
  | some c =>
      have hmem := (shownCharacters_sublist font s.consoleWidth (s.numLines - 0) 0 _).subset
        (List.mem_of_getElem? hc)
      rintro rfl
      exact hs.window hmem

theorem PlainShell.resetText
    (font : BitmapFont) (hs : PlainShell s) :
    PlainShell (shellResetText font s) :=
  ⟨⟨hs.start_lt, hs.end_lt, hs.first_lt⟩, hs.room, hs.display, fun _ => null_ne, hs.command⟩

theorem PlainShell.scrollDisplay
    (font : BitmapFont) (hs : PlainShell s) (numLines : Nat) :
    PlainShell (shellScrollDisplay font numLines s) := by
  have hrange := IndicesInRange_scrollDisplay font hs.toIndicesInRange numLines
  obtain ⟨first, -, hscroll⟩ := shellScrollDisplay_eq font numLines s
  rw [hscroll] at hrange ⊢
  exact ⟨hrange, hs.room, hs.display, hs.onScreen, hs.command⟩

theorem PlainShell.flush
    (font : BitmapFont) (hs : PlainShell s) :
    PlainShell (shellFlushStdOut font s) := by
  have hprompt := prompt_eq_iff.mp (prompt_flush font s)
  refine ⟨IndicesInRange_flush font hs.toIndicesInRange, ?_, ?_, ?_, ?_⟩
  · rw [hprompt.2.1]
    exact hs.room
  · rw [displayCharacters_flush]
    exact hs.display
  · have hscrolled := (hs.resetText font).scrollDisplay font (shellGetNumOverflowLines font s)
    obtain ⟨first, -, hscroll⟩ :=
      shellScrollDisplay_eq font (shellGetNumOverflowLines font s) (shellResetText font s)
    rw [shellFlushStdOut_eq, onScreenCharacters_call]
    rw [hscroll] at hscrolled ⊢
    exact onScreenCharacters_setText_ne font hscrolled rfl
  · rw [hprompt.1]
    exact hs.command

end Plain

section Safe

/-- The traced operation ends in this state, stays inside of the tables and leaves a plain
shell. -/
structure Safe (x : TracedShell) (t : ShellState) : Prop where
  result : x.result = t
  within : x.Within ShellAccess.InBounds
  plain : PlainShell t

variable {s t u : ShellState} {x : TracedShell}

theorem PlainShell.safe
    (hs : PlainShell s) :
    Safe (pure s) s :=
  ⟨rfl, within_pure s, hs⟩

theorem Safe.bind
    {f : ShellState → TracedShell} (hx : Safe x t) (hf : Safe (f t) u) :
    Safe (x >>= f) u where
  result := by rw [result_bind, hx.result, hf.result]
  within := by
    rw [within_bind_iff, hx.result]
    exact ⟨hx.within, hf.within⟩
  plain := hf.plain

/-- In front of the operation something else is read or stored. -/
theorem Safe.after
    {α : Type} {y : Traced ShellAccess α} {f : α → TracedShell}
    (hy : y.Within ShellAccess.InBounds) (hf : Safe (f y.result) u) :
    Safe (y >>= f) u where
  result := by rw [result_bind, hf.result]
  within := (within_bind_iff y f).mpr ⟨hy, hf.within⟩
  plain := hf.plain

theorem safe_putChar
    (hs : PlainShell s) {c : UInt32} (hc : c ≠ 127) :
    Safe (tracedShellPutChar c s) (shellPutChar c s) where
  result := result_tracedShellPutChar c s
  within := within_tracedShellPutChar hs.toIndicesInRange c
  plain := by
    unfold shellPutChar
    split
    · exact hs
    · exact hs.store (by simpa using hc)

theorem safe_puts
    (hs : PlainShell s) {msg : Option (List UInt8)}
    (hmsg : ∀ m ∈ msg, ∀ c ∈ messageCharacters m, c ≠ 127) :
    Safe (tracedShellPuts msg s) (shellPuts msg s) where
  result := result_tracedShellPuts msg s
  within := within_tracedShellPuts hs.toIndicesInRange msg
  plain := by
    cases msg with
    | none => exact hs
    | some msg => exact hs.store (hmsg msg rfl)

theorem safe_putsUTF32
    (hs : PlainShell s) {msg : Option (List UInt32)}
    (hmsg : ∀ m ∈ msg, ∀ c ∈ m.takeWhile (· ≠ 0), c ≠ 127) :
    Safe (tracedShellPutsUTF32 msg s) (shellPutsUTF32 msg s) where
  result := result_tracedShellPutsUTF32 msg s
  within := within_tracedShellPutsUTF32 hs.toIndicesInRange msg
  plain := by
    cases msg with
    | none => exact hs
    | some msg => exact hs.store (hmsg msg rfl)

/-- The texts of the source are plain, by evaluation. -/
theorem plain_of_all
    {msg : List UInt8} (hall : (messageCharacters msg).all (fun c => decide (c ≠ 127)) = true) :
    ∀ m ∈ some msg, ∀ c ∈ messageCharacters m, c ≠ 127 := by
  rintro m hm c hc
  obtain rfl := Option.mem_some_iff.mp hm
  exact of_decide_eq_true (List.all_eq_true.mp hall c hc)

variable (font : BitmapFont)

def tracedFlush (s : ShellState) : TracedShell :=
  relabel .table (tracedShellFlushStdOut font s)

theorem safe_flush
    (hs : PlainShell s) :
    Safe (tracedFlush font s) (shellFlushStdOut font s) where
  result := (result_relabel _ _).trans (result_tracedShellFlushStdOut font s)
  within := by
    have hreset := hs.resetText font
    have hscrolled := hreset.scrollDisplay font (shellGetNumOverflowLines font s)
    simp only [tracedFlush, within_relabel_iff, inBounds_table_iff, tracedShellFlushStdOut,
      within_bind_iff, within_pure, and_true, result_tracedShellGetNumOverflowLines,
      result_tracedShellResetText, result_tracedShellScrollDisplay]
    refine ⟨?_, ?_, ?_, ?_⟩
    · exact (within_tracedShellGetNumOverflowLines_iff font hs.toIndicesInRange).mpr hs.window
    · exact (within_tracedShellResetText_iff font).mpr hs.onScreen_text
    · exact within_tracedShellScrollDisplay font hreset.toIndicesInRange hreset.window _
    · exact within_tracedShellSetText font hscrolled.toIndicesInRange hscrolled.window
  plain := hs.flush font

end Safe

section Commands

variable (font : BitmapFont)

/-- `arg` are the indices of the arguments in the command line. -/
def tracedShellEcho (arg : List Nat) (s : ShellState) : TracedShell := do
  let s ← arg.foldlM (fun s i => do
    let c ← readCommand s i
    tracedShellPutChar c s) s
  tracedShellPutChar 10 s

def tracedShellClear (_arg : List Nat) (s : ShellState) : TracedShell := do
  let s ← relabel .table (tracedShellResetText font { s with commandPromptEnabled := false })
  pure { s with
    displayRingBufferStart := 0
    displayRingBufferEnd := 0
    firstDisplayChar := 0
    outputCursorX := 0
    outputCursorY := 0
    currentLine := 0
    commandPromptEnabled := true }

def tracedShellBuiltInCommands : List (List UInt8 × (List Nat → ShellState → TracedShell)) :=
  [(text "echo", tracedShellEcho), (text "clear", tracedShellClear font),
    (text "help", fun _ => tracedShellPuts (some helpMessage)),
    (text "version", fun _ => tracedShellPuts (some (text "DexprOS version: pre-release 0.1.2\n"))),
    (text "shutdown", fun _ s => pure (shellShutdown [] s)),
    (text "reboot", fun _ s => pure (shellReboot [] s))]

/-- The loop over the commands that are left. -/
def tracedDispatch (line : List Nat) (s : ShellState) :
    List (List UInt8 × (List Nat → ShellState → TracedShell)) → TracedShell
  | [] => tracedShellPuts (some (text "Shell error: unknown command.\n")) s
  | f :: rest => do
      let found ← tracedShellCheckSingleCommand s line f.1
      if found then do
        let arg ← tracedShellExtractArguments s line
        f.2 arg s
      else tracedDispatch line s rest

def tracedShellInterpretCommand (command : List Nat) (s : ShellState) : TracedShell := do
  let line ← tracedSkip (fun c => decide (c = space)) s command
  match line with
  | [] => pure s
  | i :: rest => do
      let c ← readCommand s i
      if c = 35 then pure s
      else tracedDispatch (i :: rest) s (tracedShellBuiltInCommands font)

/-- The indices are in the command line's table. -/
def CommandIndices (line : List Nat) : Prop :=
  ∀ i ∈ line, i < numMaxCommandCharacters

variable {s : ShellState} {arg line : List Nat}

/-- Echoing does not change the command line that it reads. -/
theorem safe_echo
    (hs : PlainShell s) (harg : CommandIndices arg) :
    Safe (tracedShellEcho arg s) (shellEcho (arg.map s.commandCharacters) s) := by
  have hloop : ∀ (arg : List Nat) (t : ShellState), CommandIndices arg → PlainShell t →
      Safe (arg.foldlM (fun s i => do
          let c ← readCommand s i
          tracedShellPutChar c s) t)
        ((arg.map t.commandCharacters).foldl (fun s c => shellPutChar c s) t) := by
    intro arg
    induction arg with
    | nil =>
        intro t _ ht
        exact ht.safe
    | cons i rest ih =>
        intro t hrest ht
        obtain ⟨hi, hrest⟩ := List.forall_mem_cons.mp hrest
        have hput := safe_putChar ht (ht.command i)
        have hkept : (shellPutChar (t.commandCharacters i) t).commandCharacters =
            t.commandCharacters :=
          (prompt_eq_iff.mp (prompt_shellPutChar _ t)).1
        have hlater := ih _ hrest hput.plain
        rw [hkept] at hlater
        rw [List.foldlM_cons, List.map_cons, List.foldl_cons]
        exact (Safe.after ((within_readCommand_iff t i).mpr hi) hput).bind hlater
  exact (hloop arg s harg hs).bind (safe_putChar (hloop arg s harg hs).plain (by decide))

theorem safe_clear
    (hs : PlainShell s) (arg : List Nat) :
    Safe (tracedShellClear font arg s) (shellClear font (arg.map s.commandCharacters) s) := by
  have hdisabled := hs.enable false
  have hreset : Safe
      (relabel .table (tracedShellResetText font { s with commandPromptEnabled := false }))
      (shellResetText font { s with commandPromptEnabled := false }) :=
    { result := (result_relabel _ _).trans (result_tracedShellResetText font _)
      within := (within_relabel_iff _ _).mpr
        ((within_tracedShellResetText_iff font).mpr hdisabled.onScreen_text)
      plain := hdisabled.resetText font }
  refine hreset.bind ⟨rfl, within_pure _, ?_⟩
  exact ⟨IndicesInRange_clear font _ s, hs.room, hs.display, fun _ => null_ne, hs.command⟩

theorem text_append
    (s t : String) :
    text (s ++ t) = text s ++ text t := by
  simp [text]

/-- Each line of the message is evaluated by itself. -/
theorem helpMessage_plain :
    ∀ b ∈ helpMessage, b ≠ 127 := by
  have hline {line : String} (hall : (text line).all (fun b => decide (b ≠ 127)) = true) :
      ∀ b ∈ text line, b ≠ 127 :=
    fun b hb => of_decide_eq_true (List.all_eq_true.mp hall b hb)
  unfold helpMessage
  simp only [text_append, List.forall_mem_append]
  and_intros <;> exact hline (by decide +kernel)

/-- Only the byte 127 is the character 127. -/
theorem toShellChar_ne
    {b : UInt8} (hb : b ≠ 127) :
    toShellChar b ≠ 127 := by
  have hall : ∀ n < 256, toShellChar n.toUInt8 = 127 → n.toUInt8 = 127 := by
    decide +kernel
  have hvalue := hall b.toNat b.toNat_lt
  rw [Nat.toUInt8_eq, UInt8.ofNat_toNat] at hvalue
  exact fun h => hb (hvalue h)

theorem safe_help
    (hs : PlainShell s) (arg : List UInt32) :
    Safe (tracedShellPuts (some helpMessage) s) (shellHelp arg s) := by
  unfold shellHelp
  refine safe_puts hs fun m hm c hc => ?_
  obtain rfl := Option.mem_some_iff.mp hm
  obtain ⟨b, hb, rfl⟩ := List.mem_map.mp hc
  exact toShellChar_ne (helpMessage_plain b ((List.takeWhile_sublist _).subset hb))

theorem safe_version
    (hs : PlainShell s) (arg : List UInt32) :
    Safe (tracedShellPuts (some (text "DexprOS version: pre-release 0.1.2\n")) s)
      (shellVersion arg s) := by
  unfold shellVersion
  exact safe_puts hs (plain_of_all (by decide +kernel))

/-- What the two tables of commands have in common. -/
def SameCommand (traced : List UInt8 × (List Nat → ShellState → TracedShell))
    (plain : List UInt8 × (List UInt32 → ShellState → ShellState)) : Prop :=
  traced.1 = plain.1 ∧ ∀ (s : ShellState) (arg : List Nat), PlainShell s → CommandIndices arg →
    Safe (traced.2 arg s) (plain.2 (arg.map s.commandCharacters) s)

theorem sameCommands :
    List.Forall₂ SameCommand (tracedShellBuiltInCommands font) (shellBuiltInCommands font) := by
  have hresets {s : ShellState} (hs : PlainShell s) (resets : List ResetType) :
      PlainShell { s with resets := resets } :=
    ⟨⟨hs.start_lt, hs.end_lt, hs.first_lt⟩, hs.room, hs.display, hs.onScreen, hs.command⟩
  exact .cons ⟨rfl, fun _ _ hs harg => safe_echo hs harg⟩
    (.cons ⟨rfl, fun _ arg hs _ => safe_clear font hs arg⟩
      (.cons ⟨rfl, fun s arg hs _ => safe_help hs (arg.map s.commandCharacters)⟩
        (.cons ⟨rfl, fun s arg hs _ => safe_version hs (arg.map s.commandCharacters)⟩
          (.cons ⟨rfl, fun _ _ hs _ => (hresets hs _).safe⟩
            (.cons ⟨rfl, fun _ _ hs _ => (hresets hs _).safe⟩ .nil)))))

theorem safe_dispatch
    (hs : PlainShell s) (hline : CommandIndices line)
    {traced : List (List UInt8 × (List Nat → ShellState → TracedShell))}
    {plain : List (List UInt8 × (List UInt32 → ShellState → ShellState))}
    (hsame : List.Forall₂ SameCommand traced plain) :
    Safe (tracedDispatch line s traced)
      (match plain.find? fun f =>
          shellCheckSingleCommand (line.map s.commandCharacters) f.1 with
        | some f => f.2 (shellExtractArguments (line.map s.commandCharacters)) s
        | none => shellPuts (some (text "Shell error: unknown command.\n")) s) := by
  induction hsame with
  | nil => exact safe_puts hs (plain_of_all (by decide +kernel))
  | @cons tracedCommand plainCommand _ _ hcommand _ ih =>
      obtain ⟨htext, hcommand⟩ := hcommand
      have hcheck := result_tracedShellCheckSingleCommand s line tracedCommand.1
      have hwithin := within_tracedShellCheckSingleCommand s hline tracedCommand.1
      obtain ⟨hsuffix, hargText⟩ := result_tracedShellExtractArguments s line
      rw [htext] at hcheck
      refine Safe.after hwithin ?_
      rw [htext, hcheck, List.find?_cons]
      cases shellCheckSingleCommand (line.map s.commandCharacters) plainCommand.1 with
      | true =>
          have harg : CommandIndices (tracedShellExtractArguments s line).result :=
            fun i hi => hline i (hsuffix.subset hi)
          have hrun := hcommand s _ hs harg
          rw [hargText] at hrun
          exact Safe.after (within_tracedShellExtractArguments s hline) hrun
      | false => exact ih

/-- The interpreter reads the command line in place. -/
theorem safe_interpretCommand
    (hs : PlainShell s) (hline : CommandIndices line) :
    Safe (tracedShellInterpretCommand font line s)
      (shellInterpretCommand font (line.map s.commandCharacters) s) := by
  obtain ⟨hsuffix, hskipped⟩ := result_tracedSkip s (fun c => decide (c = space)) line
  refine Safe.after (within_tracedSkip s _ hline) ?_
  unfold shellInterpretCommand
  rw [← hskipped]
  generalize (tracedSkip (fun c => decide (c = space)) s line).result = skipped at hsuffix
  cases skipped with
  | nil => exact hs.safe
  | cons i rest =>
      have hskippedLine : CommandIndices (i :: rest) := fun j hj => hline j (hsuffix.subset hj)
      have hread : (readCommand s i).Within ShellAccess.InBounds :=
        (within_readCommand_iff s i).mpr (hskippedLine i List.mem_cons_self)
      refine Safe.after hread ?_
      rw [result_readCommand, List.map_cons]
      dsimp only
      split
      · exact hs.safe
      · rw [← List.map_cons]
        exact safe_dispatch hs hskippedLine (sameCommands font)

end Commands

section Events

variable (font : BitmapFont)

def tracedShellActivatePrompt (s : ShellState) : TracedShell := do
  let s ← tracedShellPuts (some s.promptText) { s with commandPromptEnabled := true }
  tracedFlush font s

/-- The command line is emptied behind the interpreter. -/
def tracedEnterCommand (s : ShellState) : TracedShell := do
  let s ← tracedShellPutChar 10 s
  let s ← tracedShellInterpretCommand font (List.range s.numCommandCharacters) s
  tell ((List.range numMaxCommandCharacters).map .commandCharacter)
  let s : ShellState := { s with commandCharacters := fun _ => 0, numCommandCharacters := 0 }
  tracedShellPuts (some s.promptText) s

def tracedTypeCharacter (codepoint : UInt32) (s : ShellState) : TracedShell := do
  let s ← access (.commandCharacter s.numCommandCharacters)
    { s with
      commandCharacters :=
        Function.update s.commandCharacters s.numCommandCharacters codepoint
      numCommandCharacters := s.numCommandCharacters + 1 }
  tracedShellPutChar codepoint s

def tracedEraseCharacter (s : ShellState) : TracedShell := do
  let s ← access (.commandCharacter (s.numCommandCharacters - 1))
    { s with
      commandCharacters := Function.update s.commandCharacters (s.numCommandCharacters - 1) 0
      numCommandCharacters := s.numCommandCharacters - 1 }
  pure (shellDeleteLastDisplayChar s)

def tracedShellKeyboardCharacterEvent (codepoint : UInt32) (s : ShellState) : TracedShell :=
  if !s.commandPromptEnabled then pure s
  else if codepoint = 10 then do
    let s ← tracedEnterCommand font s
    tracedFlush font s
  else if s.numCommandCharacters = numMaxCommandCharacters then pure s
  else do
    let s ← tracedTypeCharacter codepoint s
    tracedFlush font s

def tracedShellKeyboardKeyEvent (keyID : KeyID) (state : KeyState) (s : ShellState) :
    TracedShell :=
  if erases keyID state s then do
    let s ← tracedEraseCharacter s
    tracedFlush font s
  else pure s

def KeyboardEvent.traced : KeyboardEvent → ShellState → TracedShell
  | character codepoint => tracedShellKeyboardCharacterEvent font codepoint
  | key keyID state => tracedShellKeyboardKeyEvent font keyID state

variable {s : ShellState}

/-- Every prompt is the text that a shell is created with. -/
structure PromptShell (s : ShellState) : Prop extends PlainShell s where
  promptText : s.promptText = text "DexprOS # "

theorem PlainShell.safe_prompt
    (hs : PlainShell s) (hprompt : s.promptText = text "DexprOS # ") :
    Safe (tracedShellPuts (some s.promptText) s) (shellPuts (some s.promptText) s) := by
  rw [hprompt]
  exact safe_puts hs (plain_of_all (by decide +kernel))

theorem safe_activatePrompt
    (hs : PromptShell s) :
    Safe (tracedShellActivatePrompt font s) (shellActivatePrompt font s) := by
  have hputs := (hs.enable true).safe_prompt hs.promptText
  unfold shellActivatePrompt tracedShellActivatePrompt
  refine Safe.bind hputs ?_
  exact safe_flush font hputs.plain

theorem safe_enterCommand
    (hs : PromptShell s) :
    Safe (tracedEnterCommand font s) (enterCommand font s) := by
  have hputChar := safe_putChar hs.toPlainShell (c := 10) (by decide)
  have hline : CommandIndices (List.range (shellPutChar 10 s).numCommandCharacters) :=
    fun i hi => (List.mem_range.mp hi).trans_le hputChar.plain.room
  have hcommand := safe_interpretCommand font hputChar.plain hline
  have htext : (shellInterpretCommand font (shellPutChar 10 s).command
      (shellPutChar 10 s)).promptText = text "DexprOS # " :=
    (((Configured.mk hs.toIndicesInRange hs.promptText).putChar 10).interpretCommand font
      _).promptText
  have hcleared : PlainShell
      { shellInterpretCommand font (shellPutChar 10 s).command (shellPutChar 10 s) with
        commandCharacters := fun _ => 0
        numCommandCharacters := 0 } :=
    hcommand.plain.line (Nat.zero_le _) fun _ => null_ne
  refine hputChar.bind (hcommand.bind (Safe.after ?_ (hcleared.safe_prompt htext)))
  rw [within_tell_iff]
  intro made hmade
  obtain ⟨i, hi, rfl⟩ := List.mem_map.mp hmade
  exact List.mem_range.mp hi

theorem safe_typeCharacter
    (hs : PlainShell s) {codepoint : UInt32} (hcodepoint : codepoint ≠ 127)
    (hroom : s.numCommandCharacters < numMaxCommandCharacters) :
    Safe (tracedTypeCharacter codepoint s) (typeCharacter codepoint s) :=
  Safe.after ((within_access_iff _ _).mpr hroom)
    (safe_putChar (hs.line hroom (update_ne hs.command _ hcodepoint)) hcodepoint)

theorem safe_eraseCharacter
    (hs : PlainShell s) (hne : s.numCommandCharacters ≠ 0) :
    Safe (tracedEraseCharacter s) (eraseCharacter s) := by
  have hroom := hs.room
  have hlt : s.numCommandCharacters - 1 < numMaxCommandCharacters := by
    omega
  have hline := (hs.line hlt.le (update_ne hs.command (s.numCommandCharacters - 1) null_ne)).delete
  exact Safe.after ((within_access_iff _ _).mpr hlt) hline.safe

/-- The event does not type the character behind the font's table. -/
def KeyboardEvent.Plain : KeyboardEvent → Prop
  | character codepoint => codepoint ≠ 127
  | key _ _ => True

/-- The step lemma of the events. -/
theorem safe_event
    (hs : PromptShell s) {event : KeyboardEvent} (hevent : event.Plain) :
    Safe (event.traced font s) (event.run font s) := by
  cases event with
  | character codepoint =>
      simp only [KeyboardEvent.traced, KeyboardEvent.run, tracedShellKeyboardCharacterEvent,
        shellKeyboardCharacterEvent]
      split
      · exact hs.safe
      · split
        · have henter := safe_enterCommand font hs
          exact henter.bind (safe_flush font henter.plain)
        · split
          · exact hs.safe
          · rename_i hfull
            have htype := safe_typeCharacter hs.toPlainShell hevent
              (Nat.lt_of_le_of_ne hs.room hfull)
            exact htype.bind (safe_flush font htype.plain)
  | key keyID state =>
      simp only [KeyboardEvent.traced, KeyboardEvent.run, tracedShellKeyboardKeyEvent,
        shellKeyboardKeyEvent]
      split
      · rename_i herases
        have hne : s.numCommandCharacters ≠ 0 := by
          simp only [erases, Bool.and_eq_true, bne_iff_ne] at herases
          exact herases.2
        have herase := safe_eraseCharacter hs.toPlainShell hne
        exact herase.bind (safe_flush font herase.plain)
      · exact hs.safe

theorem PromptShell.event
    (hs : PromptShell s) {event : KeyboardEvent} (hevent : event.Plain) :
    PromptShell (event.run font s) := by
  refine ⟨(safe_event font hs hevent).plain, ?_⟩
  have hconfigured : Configured s := ⟨hs.toIndicesInRange, hs.promptText⟩
  cases event with
  | character codepoint =>
      exact (hconfigured.run font (.keyboardCharacterEvent codepoint)).promptText
  | key keyID state => exact (hconfigured.run font (.keyboardKeyEvent keyID state)).promptText

end Events

section Console

variable (font : BitmapFont)

/-- What the main program may call: everything but the static functions, and no character
behind the font's table in what it prints. -/
def ShellOp.Program : ShellOp → Prop
  | putChar character => character ≠ 127
  | puts msg => ∀ m ∈ msg, ∀ c ∈ messageCharacters m, c ≠ 127
  | putsUTF32 msg => ∀ m ∈ msg, ∀ c ∈ m.takeWhile (· ≠ 0), c ≠ 127
  | flushStdOut => True
  | activatePrompt => True
  | _ => False

/-- The operations that the main program may call are traced. -/
def ShellOp.traced : ShellOp → ShellState → TracedShell
  | putChar character => tracedShellPutChar character
  | puts msg => tracedShellPuts msg
  | putsUTF32 msg => tracedShellPutsUTF32 msg
  | flushStdOut => tracedFlush font
  | activatePrompt => tracedShellActivatePrompt font
  | op => fun s => pure (op.run font s)

def tracedRunKeyboard (events : List KeyboardEvent) (s : ShellState) : TracedShell :=
  events.foldlM (fun s event => event.traced font s) s

def ConsoleStep.traced : ConsoleStep → Console → Traced ShellAccess Console
  | call op, c => do
      let shell ← op.traced font c.shell
      pure { c with shell := shell }
  | interrupt code, c => do
      let m := processPS2KeyboardInterrupt code c.keyboard
      let shell ← tracedRunKeyboard font
        ((m.shell.drop c.keyboard.shell.length).map callEvent) c.shell
      pure { keyboard := m, shell := shell }

def tracedRunConsole (steps : List ConsoleStep) (c : Console) : Traced ShellAccess Console :=
  steps.foldlM (fun c step => step.traced font c) c

variable {s : ShellState} {c : Console}

theorem safe_op
    (hs : PromptShell s) {op : ShellOp} (hop : op.Program) :
    Safe (op.traced font s) (op.run font s) ∧ PromptShell (op.run font s) := by
  have htext := ((Configured.mk hs.toIndicesInRange hs.promptText).run font op).promptText
  have hsafe : Safe (op.traced font s) (op.run font s) := by
    cases op with
    | putChar character => exact safe_putChar hs.toPlainShell hop
    | puts msg => exact safe_puts hs.toPlainShell hop
    | putsUTF32 msg => exact safe_putsUTF32 hs.toPlainShell hop
    | flushStdOut => exact safe_flush font hs.toPlainShell
    | activatePrompt => exact safe_activatePrompt font hs
    | keyboardCharacterEvent codepoint => exact hop.elim
    | keyboardKeyEvent keyID state => exact hop.elim
    | interpretCommand command => exact hop.elim
  exact ⟨hsafe, hsafe.plain, htext⟩

theorem safe_runKeyboard
    (hs : PromptShell s) {events : List KeyboardEvent} (hevents : ∀ event ∈ events, event.Plain) :
    Safe (tracedRunKeyboard font events s) (runKeyboard font events s) ∧
      PromptShell (runKeyboard font events s) := by
  induction events generalizing s with
  | nil => exact ⟨hs.safe, hs⟩
  | cons event events ih =>
      obtain ⟨hevent, hrest⟩ := List.forall_mem_cons.mp hevents
      obtain ⟨hlater, hresult⟩ := ih (hs.event font hevent) hrest
      exact ⟨(safe_event font hs hevent).bind hlater, hresult⟩

/-- The keyboard types nothing behind the font's table. -/
theorem addedEvents_plain
    (hm : CallsInvariant (some getKeyboardLayoutUS) c.keyboard) (bytes : List UInt8) :
    ∀ event ∈ addedEvents bytes c.keyboard, event.Plain := by
  intro event hmem
  cases event with
  | key keyID state => trivial
  | character codepoint =>
      have htypable := addedEvents_typable hm bytes hmem
      rintro rfl
      revert htypable
      decide

/-- What holds of the console before and behind every step. -/
structure SafeConsole (c : Console) : Prop where
  keyboard : CallsInvariant (some getKeyboardLayoutUS) c.keyboard
  shell : PromptShell c.shell

theorem safeConsole_initialConsole
    (consoleWidth consoleHeight : UInt32) :
    SafeConsole (initialConsole font consoleWidth consoleHeight) :=
  ⟨callsInvariant_initialMachine _, plainShell_createShell font consoleWidth consoleHeight, rfl⟩

/-- The step lemma. -/
theorem SafeConsole.step
    (hc : SafeConsole c) {step : ConsoleStep} (hstep : ∀ op ∈ programCalls [step], op.Program) :
    (step.traced font c).result = step.run font c ∧
      (step.traced font c).Within ShellAccess.InBounds ∧ SafeConsole (step.run font c) := by
  cases step with
  | call op =>
      obtain ⟨hsafe, hshell⟩ := safe_op font hc.shell (hstep op List.mem_cons_self)
      refine ⟨?_, ?_, hc.keyboard, hshell⟩
      · simp [ConsoleStep.traced, ConsoleStep.run, hsafe.result]
      · simpa [ConsoleStep.traced] using hsafe.within
  | interrupt code =>
      obtain ⟨hsafe, hshell⟩ :=
        safe_runKeyboard font hc.shell (addedEvents_plain hc.keyboard [code])
      refine ⟨?_, ?_, hc.keyboard.interrupt code, hshell⟩
      · simp only [ConsoleStep.traced, ConsoleStep.run, Console.interrupt, result_bind,
          result_pure]
        exact congrArg (Console.mk _) hsafe.result
      · simp only [ConsoleStep.traced, within_bind_iff, within_pure, and_true]
        exact hsafe.within

/-- The run lemma. -/
theorem SafeConsole.run
    (hc : SafeConsole c) {steps : List ConsoleStep}
    (hsteps : ∀ op ∈ programCalls steps, op.Program) :
    (tracedRunConsole font steps c).result = runConsole font steps c ∧
      (tracedRunConsole font steps c).Within ShellAccess.InBounds := by
  induction steps generalizing c with
  | nil => exact ⟨rfl, within_pure c⟩
  | cons step steps ih =>
      have hsplit : programCalls (step :: steps) = programCalls [step] ++ programCalls steps :=
        List.filterMap_append (l := [step])
      rw [hsplit, List.forall_mem_append] at hsteps
      obtain ⟨hresult, hwithin, hnext⟩ := hc.step font hsteps.1
      obtain ⟨hrun, hlater⟩ := ih hnext hsteps.2
      rw [tracedRunConsole, List.foldlM_cons, result_bind, within_bind_iff, hresult]
      exact ⟨hrun, hwithin, hlater⟩

/-- No run of the console leaves a table.  Whatever bytes the keyboard delivers between the
calls of the main program, and wherever these activate the prompt, every index into the
displayed characters, the characters on the screen, the command line and the table of the font
is in bounds, as long as the main program does not print the character behind the font's
table; the keyboard cannot type it. -/
theorem tracedRunConsole_inBounds
    (consoleWidth consoleHeight : UInt32) (steps : List ConsoleStep)
    (hsteps : ∀ op ∈ programCalls steps, op.Program) :
    let c := tracedRunConsole font steps (initialConsole font consoleWidth consoleHeight)
    c.result = runConsole font steps (initialConsole font consoleWidth consoleHeight) ∧
      c.Within ShellAccess.InBounds :=
  (safeConsole_initialConsole font consoleWidth consoleHeight).run font hsteps

/-- A character is typed between two messages, and another one at the prompt. -/
theorem tracedRunConsole_inBounds_typed :
    (tracedRunConsole blankFont
      [.call (.puts (some (text "Welcome"))), .interrupt 0x1C, .call .flushStdOut,
        .call .activatePrompt, .interrupt 0x32]
      (initialConsole blankFont 900 600)).Within ShellAccess.InBounds := by
  refine (tracedRunConsole_inBounds blankFont 900 600 _ ?_).2
  have hwelcome : ∀ m ∈ some (text "Welcome"), ∀ c ∈ messageCharacters m, c ≠ 127 :=
    plain_of_all (by decide +kernel)
  simpa [programCalls, ShellOp.Program] using hwelcome

end Console

end Shell
end DexprOS
