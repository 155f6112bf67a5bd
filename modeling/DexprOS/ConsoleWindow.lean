import DexprOS.Console
import DexprOS.ShellScrolling

/-!
# The prompt line on the display

A backspace that deletes the character in front of the first displayed one leaves the window
behind.  On a console with room for the prompt and the longest command line this cannot
happen: scrolling stops in front of the prompt, so that the prompt line stays displayed as a
whole, whatever is typed.

Main facts:
* `HoldsPromptLine`: a console with room for the prompt line;
* `suffix_window_flush`: scrolling does not reach a line that has room;
* `PromptDisplayed.run`: the step lemma;
* `console_window`: the display in every run of the console.
-/

namespace DexprOS
namespace Shell

open Kernel Keyboard GreedyWrap

section Room

/-- Glyphs advance by `a` at most, a line has room for `m` of them, and there are lines enough
for the prompt and the longest command line, wherever on a line the prompt starts. -/
structure HoldsPromptLine (font : BitmapFont) (m : Nat) (a : Int) (s : ShellState) : Prop where
  advance_nonneg : ∀ c, 0 ≤ builtInBitmapFontGetGlyphAdvanceX font c
  advance_le : ∀ c, builtInBitmapFontGetGlyphAdvanceX font c ≤ a
  columns_pos : 1 ≤ m
  columns : m * a ≤ s.consoleWidth.toInt32.toInt
  lines : promptCharacters.length + numMaxCommandCharacters + m < m * s.numLines

variable {font : BitmapFont} {m : Nat} {a : Int} {s t : ShellState}

theorem HoldsPromptLine.congr
    (hroom : HoldsPromptLine font m a s) (hconsole : t.console = s.console) :
    HoldsPromptLine font m a t := by
  obtain ⟨hwidth, hlines, -⟩ := console_eq_iff.mp hconsole
  exact ⟨hroom.advance_nonneg, hroom.advance_le, hroom.columns_pos, hwidth ▸ hroom.columns,
    hlines ▸ hroom.lines⟩

theorem HoldsPromptLine.numLines_pos
    (hroom : HoldsPromptLine font m a s) :
    1 ≤ s.numLines := by
  have hlines := hroom.lines
  by_contra hzero
  obtain hzero : s.numLines = 0 := by omega
  simp [hzero] at hlines

/-- A text as long as the prompt line has fewer breaks than the console has lines. -/
theorem HoldsPromptLine.length_lineBreaks
    (hroom : HoldsPromptLine font m a s) {characters : List UInt32} (hplain : 10 ∉ characters)
    (hlength : characters.length ≤ promptCharacters.length + numMaxCommandCharacters)
    (pos : Nat) (x : Int) :
    ((shellLayout font s.consoleWidth).lineBreaks characters pos x).length < s.numLines := by
  have hnewline : ∀ c ∈ characters, (shellLayout font s.consoleWidth).newline c = false := by
    intro c hc
    exact beq_eq_false_iff_ne.mpr fun hten => hplain (hten ▸ hc)
  have hnonneg : 0 ≤ a := (hroom.advance_nonneg 0).trans (hroom.advance_le 0)
  have hbreaks := length_lineBreaks_capacity (shellLayout font s.consoleWidth) hroom.columns_pos
    hnonneg hroom.columns hnewline (fun c _ => hroom.advance_le c) pos m x le_rfl (Or.inr rfl)
  have hlines := hroom.lines
  exact Nat.lt_of_mul_lt_mul_left (a := m) (by omega)

/-- The glyphs of the built-in font are nine pixels apart. -/
theorem advanceX_builtInFont_le
    (imageData : Nat → UInt8) (c : UInt32) :
    builtInBitmapFontGetGlyphAdvanceX (builtInFont imageData) c ≤ 9 := by
  have htable : fontMetricsCharacters.all (fun g => decide (g.advanceX ≤ 9)) = true := by
    decide
  have hglyph : ((builtInFont imageData).glyph c).advanceX ≤ 9 := by
    simp only [builtInFont, BitmapFont.glyph]
    cases hentry : fontMetricsCharacters[(c - 32).toNat]? with
    | none => simp
    | some g =>
        simpa using List.all_eq_true.mp htable g (List.mem_of_getElem? hentry)
  unfold builtInBitmapFontGetGlyphAdvanceX
  split
  · exact hglyph
  · decide

theorem holdsPromptLine_builtInFont
    (imageData : Nat → UInt8) (hm : 1 ≤ m) (hcolumns : m * 9 ≤ s.consoleWidth.toInt32.toInt)
    (hlines : 10 + 256 + m < m * s.numLines) :
    HoldsPromptLine (builtInFont imageData) m 9 s where
  advance_nonneg := advanceX_builtInFont_nonneg imageData
  advance_le := advanceX_builtInFont_le imageData
  columns_pos := hm
  columns := hcolumns
  lines := by
    rw [length_promptCharacters]
    exact hlines

end Room

section Window

variable {font : BitmapFont} {m : Nat} {a : Int} {s : ShellState}

/-- Storing treats the window like the log. -/
theorem window_store
    (hs : s.IndicesInRange) (c : UInt32) :
    (storeDisplayChars [c] s).window = appendToLog s.window c :=
  Ring.contents_append (by decide) hs.first_lt hs.end_lt

theorem window_storeAll
    (hs : s.IndicesInRange) (characters : List UInt32) :
    (storeDisplayChars characters s).window = characters.foldl appendToLog s.window := by
  induction characters generalizing s with
  | nil => simp [storeDisplayChars_nil]
  | cons c characters ih =>
      rw [storeDisplayChars_cons, ih (IndicesInRange_store hs c), window_store hs,
        List.foldl_cons]

/-- Where a character is displayed, there is one in the log. -/
theorem DisplayWindow.window_suffix
    (hs : DisplayWindow s) :
    s.window <:+ s.log :=
  hs.indices_suffix.map s.displayCharacters

theorem first_ne_end
    (hs : s.IndicesInRange) (hne : s.window ≠ []) :
    s.firstDisplayChar ≠ s.displayRingBufferEnd := by
  intro heq
  refine hne ?_
  rw [ShellState.window, heq, displayIndices, Ring.indices_self hs.end_lt, List.map_nil]

/-- Deleting treats the window like the log, as long as a character is displayed. -/
theorem window_delete
    (hs : DisplayWindow s) (hne : s.window ≠ []) :
    (shellDeleteLastDisplayChar s).window = s.window.dropLast := by
  have hstart : s.displayRingBufferStart ≠ s.displayRingBufferEnd := by
    intro heq
    have hempty : s.log = [] := by
      rw [ShellState.log, heq, Ring.contents, Ring.indices_self hs.end_lt, List.map_nil]
    exact hne (List.suffix_nil.mp (hempty ▸ hs.window_suffix))
  rw [shellDeleteLastDisplayChar_of_ne hstart]
  exact Ring.contents_pop hs.first_lt hs.end_lt (first_ne_end hs.toIndicesInRange hne)

/-- A flush leaves the window behind the position where scrolling stops. -/
theorem window_flush
    (hs : s.IndicesInRange) :
    (shellFlushStdOut font s).window =
      s.window.drop (scrollPosition (s.lineBreaks font) 0 s.window.length
        (shellGetNumOverflowLines font s)) := by
  have hreset : (shellResetText font s).IndicesInRange :=
    ⟨hs.start_lt, hs.end_lt, hs.first_lt⟩
  have hscrolled := window_shellScrollDisplay font hreset.first_lt hreset.end_lt
    (shellGetNumOverflowLines font s)
  rw [window_shellFlushStdOut]
  exact hscrolled

/-- Scrolling stops in front of the last characters of the window, if they have fewer breaks
than the console has lines. -/
theorem suffix_window_flush
    (hs : s.IndicesInRange) (hroom : HoldsPromptLine font m a s) {line : List UInt32}
    (hline : line <:+ s.window) (hplain : 10 ∉ line)
    (hlength : line.length ≤ promptCharacters.length + numMaxCommandCharacters) :
    line <:+ (shellFlushStdOut font s).window := by
  obtain ⟨older, holder⟩ := hline
  obtain ⟨x, hbreaks⟩ := lineBreaks_append (shellLayout font s.consoleWidth) older line 0 0
  rw [holder, ← ShellState.lineBreaks] at hbreaks
  have hfew := hroom.length_lineBreaks hplain hlength (0 + older.length) x
  have hstop : scrollPosition (s.lineBreaks font) 0 s.window.length
      (shellGetNumOverflowLines font s) ≤ older.length := by
    rw [shellGetNumOverflowLines_eq]
    split
    · rename_i hmany
      -- the break where scrolling stops is one of the older text
      have hcount := congrArg List.length hbreaks
      rw [List.length_append] at hcount
      have hlt : (s.lineBreaks font).length - s.numLines <
          ((shellLayout font s.consoleWidth).lineBreaks older 0 0).length := by
        omega
      have hb := List.getElem?_eq_getElem hlt
      have hmem := List.getElem_mem hlt
      generalize ((shellLayout font s.consoleWidth).lineBreaks older 0 0)[
        (s.lineBreaks font).length - s.numLines] = b at hb hmem
      have hposition := (position_lt (shellLayout font s.consoleWidth) older 0 0 b hmem).2
      have hsome : (s.lineBreaks font)[(s.lineBreaks font).length - s.numLines]? = some b := by
        rw [← hb, hbreaks, List.getElem?_append_left (hbreaks ▸ hlt)]
      rw [scrollPosition_of_some hsome]
      omega
    · simp [scrollPosition_zero]
  rw [window_flush hs]
  generalize scrollPosition (s.lineBreaks font) 0 s.window.length
    (shellGetNumOverflowLines font s) = position at hstop ⊢
  rw [← holder, List.drop_append_of_le_length hstop]
  exact List.suffix_append _ _

/-- The text of the window is on the display as a whole. -/
structure OnDisplay (font : BitmapFont) (s : ShellState) : Prop where
  fits : shellGetNumOverflowLines font s = 0
  copied : ∀ i, s.onScreenCharacters i = s.window[i]?.getD 0

theorem onDisplay_flush
    (hs : s.IndicesInRange) (hroom : HoldsPromptLine font m a s) :
    OnDisplay font (shellFlushStdOut font s) := by
  obtain ⟨first, -, hscroll⟩ :=
    shellScrollDisplay_eq font (shellGetNumOverflowLines font s) (shellResetText font s)
  have hfits := length_lineBreaks_scrolled font (s := shellResetText font s) hs.first_lt
    hs.end_lt hroom.numLines_pos hroom.advance_nonneg
  have hwindow := window_shellFlushStdOut font s
  obtain ⟨hwidth, hnumLines, -⟩ := console_eq_iff.mp (console_shellFlushStdOut font s)
  rw [shellGetNumOverflowLines_shellResetText, hscroll] at hfits
  rw [hscroll] at hwindow
  obtain ⟨-, -, hcells⟩ := shellSetText_window font rfl hfits
  have hbreaks : ((shellFlushStdOut font s).lineBreaks font).length < s.numLines := by
    rw [ShellState.lineBreaks, hwindow, hwidth]
    exact hfits
  refine ⟨?_, ?_⟩
  · rw [shellGetNumOverflowLines_eq, hnumLines, if_neg (Nat.not_le_of_lt hbreaks)]
  · have hflush := shellFlushStdOut_eq font s
    rw [hscroll] at hflush
    rw [hwindow, hflush, onScreenCharacters_call]
    exact hcells

end Window

section Display

variable {font : BitmapFont} {m : Nat} {a : Int} {line : List UInt32} {s t : ShellState}

/-- The display ends with the prompt and the command line. -/
structure PromptDisplayed (font : BitmapFont) (line : List UInt32) (s : ShellState) : Prop
    extends PromptLine line s where
  inWindow : InWindow s
  plain : 10 ∉ line
  displayed : promptCharacters ++ line <:+ s.window
  onDisplay : OnDisplay font s

theorem PromptDisplayed.displayWindow
    (hs : PromptDisplayed font line s) :
    DisplayWindow s :=
  ⟨hs.toIndicesInRange, hs.inWindow⟩

theorem PromptDisplayed.window_ne_nil
    (hs : PromptDisplayed font line s) :
    s.window ≠ [] := by
  intro hempty
  have hshown := hs.displayed
  have hlength := length_promptCharacters
  rw [hempty, List.suffix_nil, List.append_eq_nil_iff] at hshown
  simp [hshown.1] at hlength

theorem newline_not_mem_promptCharacters :
    10 ∉ promptCharacters := by
  decide +kernel

/-- What an event flushes is drawn with the whole prompt line. -/
theorem promptDisplayed_flush
    (hroom : HoldsPromptLine font m a t) (ht : PromptLine line t) (hwindow : DisplayWindow t)
    (hplain : 10 ∉ line) (hdisplayed : promptCharacters ++ line <:+ t.window) :
    PromptDisplayed font line (shellFlushStdOut font t) where
  toPromptLine := ht.flush font
  inWindow := (hwindow.flush font).inWindow
  plain := hplain
  displayed := by
    refine suffix_window_flush ht.toIndicesInRange hroom hdisplayed ?_ ?_
    · rw [List.mem_append, not_or]
      exact ⟨newline_not_mem_promptCharacters, hplain⟩
    · rw [List.length_append]
      exact Nat.add_le_add_left ht.fits _
  onDisplay := onDisplay_flush ht.toIndicesInRange hroom

/-- The prompt is displayed behind whatever else is. -/
theorem promptCharacters_suffix_window_puts
    (hs : Configured s) :
    promptCharacters ++ [] <:+ (shellPuts (some s.promptText) s).window := by
  have hwindow : (shellPuts (some s.promptText) s).window =
      promptCharacters.foldl appendToLog s.window := by
    rw [hs.promptText]
    exact window_storeAll hs.toIndicesInRange promptCharacters
  have hroom : promptCharacters.length ≤ numMaxDisplayCharacters - 1 := by
    rw [length_promptCharacters]
    decide
  rw [hwindow, List.append_nil]
  exact Ring.suffix_foldl_append promptCharacters List.nil_suffix (by simpa using hroom)

theorem promptDisplayed_activatePrompt
    (hroom : HoldsPromptLine font m a s) (hs : Configured s) (hwindow : InWindow s)
    (hline : s.numCommandCharacters = 0) :
    PromptDisplayed font [] (shellActivatePrompt font s) := by
  have henabled : DisplayWindow { s with commandPromptEnabled := true } :=
    (DisplayWindow.mk hs.toIndicesInRange hwindow).congr rfl
  have hputs : DisplayWindow
      (shellPuts (some s.promptText) { s with commandPromptEnabled := true }) :=
    henabled.store _
  have hconsole : (shellPuts (some s.promptText)
      { s with commandPromptEnabled := true }).console = s.console :=
    console_of_drawn (drawn_storeDisplayChars _ _)
  unfold shellActivatePrompt
  exact promptDisplayed_flush (hroom.congr hconsole) (PromptLine.puts hs.enable rfl hline) hputs
    List.not_mem_nil (promptCharacters_suffix_window_puts hs.enable)

/-- A typed character is displayed behind the line. -/
theorem PromptDisplayed.typeCharacter
    (hs : PromptDisplayed font line s) {codepoint : UInt32} (hcodepoint : codepoint ≠ 0)
    (hroom : line.length < numMaxCommandCharacters) :
    DisplayWindow (typeCharacter codepoint s) ∧
      promptCharacters ++ (line ++ [codepoint]) <:+ (typeCharacter codepoint s).window := by
  have hline : DisplayWindow
      { s with
        commandCharacters := Function.update s.commandCharacters s.numCommandCharacters codepoint
        numCommandCharacters := s.numCommandCharacters + 1 } :=
    hs.displayWindow.congr rfl
  unfold Shell.typeCharacter shellPutChar
  rw [if_neg hcodepoint]
  refine ⟨hline.store [codepoint], ?_⟩
  rw [window_store hline.toIndicesInRange, ← List.append_assoc]
  refine Ring.suffix_append hs.displayed ?_ codepoint
  have hmax : 10 + numMaxCommandCharacters ≤ numMaxDisplayCharacters - 1 := by decide
  rw [List.length_append, length_promptCharacters]
  omega

/-- An erased character was displayed, and so is the one in front of it. -/
theorem PromptDisplayed.eraseCharacter
    (hs : PromptDisplayed font line s) (hne : line ≠ []) :
    DisplayWindow (eraseCharacter s) ∧
      promptCharacters ++ line.dropLast <:+ (eraseCharacter s).window := by
  let t : ShellState :=
    { s with
      commandCharacters := Function.update s.commandCharacters (s.numCommandCharacters - 1) 0
      numCommandCharacters := s.numCommandCharacters - 1 }
  have ht : DisplayWindow t := hs.displayWindow.congr rfl
  have hnonempty : t.window ≠ [] := hs.window_ne_nil
  obtain ⟨older, holder⟩ := hs.displayed
  have hwindow : t.window = older ++ (promptCharacters ++ line) := holder.symm
  refine ⟨ht.delete fun _ => first_ne_end ht.toIndicesInRange hnonempty, ?_⟩
  rw [Shell.eraseCharacter, window_delete ht hnonempty, hwindow,
    List.dropLast_append_of_ne_nil (List.append_ne_nil_of_right_ne_nil _ hne),
    List.dropLast_append_of_ne_nil hne]
  exact List.suffix_append _ _

/-- Enter leaves the new prompt at the end of the window. -/
theorem PromptDisplayed.enterCommand
    (hs : PromptDisplayed font line s) :
    DisplayWindow (enterCommand font s) ∧
      promptCharacters ++ [] <:+ (enterCommand font s).window := by
  have hflushed : (ShellOp.keyboardCharacterEvent 10).flushed font s =
      some (Shell.enterCommand font s) := by
    simp [ShellOp.flushed, hs.enabled]
  have hcommand : Configured
      { shellInterpretCommand font (shellPutChar 10 s).command (shellPutChar 10 s) with
        commandCharacters := fun _ => 0
        numCommandCharacters := 0 } :=
    ((hs.toConfigured.putChar 10).interpretCommand font _).line _ _
  have hcalm : (ShellOp.keyboardCharacterEvent 10).Calm s := trivial
  exact ⟨(hs.displayWindow.rule font hcalm).1 _ hflushed,
    promptCharacters_suffix_window_puts hcommand⟩

end Display

section Run

variable {font : BitmapFont} {m : Nat} {a : Int} {line : List UInt32} {s t : ShellState}

/-- The operation of the shell that takes the event. -/
def KeyboardEvent.op : KeyboardEvent → ShellOp
  | character codepoint => .keyboardCharacterEvent codepoint
  | key keyID state => .keyboardKeyEvent keyID state

theorem KeyboardEvent.run_op
    (event : KeyboardEvent) :
    event.op.run font = event.run font := by
  cases event with
  | character codepoint => rfl
  | key keyID state => rfl

theorem runKeyboard_eq_runShellOps
    (events : List KeyboardEvent) (s : ShellState) :
    runKeyboard font events s = runShellOps font (events.map KeyboardEvent.op) s := by
  rw [runKeyboard, runShellOps, List.foldl_map]
  simp only [KeyboardEvent.run_op]

/-- A backspace at the prompt deletes a character that is displayed. -/
theorem PromptDisplayed.calm
    (hs : PromptDisplayed font line s) (event : KeyboardEvent) :
    event.op.Calm s := by
  cases event with
  | character codepoint => trivial
  | key keyID state =>
      exact fun _ _ => first_ne_end hs.toIndicesInRange hs.window_ne_nil

/-- The step lemma. -/
theorem PromptDisplayed.run
    (hroom : HoldsPromptLine font m a s) (hs : PromptDisplayed font line s)
    {event : KeyboardEvent} (hevent : event.NonNull) :
    PromptDisplayed font (if event.isEnter then [] else event.edit line) (event.run font s) := by
  have hnext := hs.toPromptLine.run font hevent
  -- what is flushed, if something is, has the same console
  have hflush {t : ShellState} (hflushed : event.op.flushed font s = some t) :
      event.run font s = shellFlushStdOut font t ∧ HoldsPromptLine font m a t := by
    refine ⟨?_, hroom.congr ((console_rule font event.op s).1 t hflushed)⟩
    rw [← KeyboardEvent.run_op]
    exact ShellOp.run_of_flushed font hflushed
  cases event with
  | character codepoint =>
      by_cases henter : codepoint = 10
      · subst henter
        obtain ⟨hrun, hroom⟩ := hflush (t := Shell.enterCommand font s) (by
          simp [KeyboardEvent.op, ShellOp.flushed, hs.enabled])
        obtain ⟨hwindow, hdisplayed⟩ := hs.enterCommand
        rw [hrun]
        exact promptDisplayed_flush hroom (hs.toPromptLine.enterCommand font) hwindow
          List.not_mem_nil hdisplayed
      · have hisEnter : (KeyboardEvent.character codepoint).isEnter = false :=
          beq_eq_false_iff_ne.mpr henter
        rw [hisEnter, if_neg Bool.false_ne_true, KeyboardEvent.edit]
        by_cases hfull : line.length < numMaxCommandCharacters
        · have hnum : s.numCommandCharacters ≠ numMaxCommandCharacters := by
            rw [hs.numCommandCharacters]
            exact Nat.ne_of_lt hfull
          obtain ⟨hrun, hroom⟩ := hflush (t := Shell.typeCharacter codepoint s) (by
            simp [KeyboardEvent.op, ShellOp.flushed, hs.enabled, henter, hnum])
          obtain ⟨hwindow, hdisplayed⟩ := hs.typeCharacter hevent hfull
          rw [hrun, if_pos hfull]
          refine promptDisplayed_flush hroom (hs.toPromptLine.typeCharacter hevent hfull) hwindow
            ?_ hdisplayed
          simpa [hs.plain] using Ne.symm henter
        · have hnum : s.numCommandCharacters = numMaxCommandCharacters := by
            rw [hs.numCommandCharacters]
            exact Nat.le_antisymm hs.fits (Nat.not_lt.mp hfull)
          have hsame : (KeyboardEvent.character codepoint).run font s = s := by
            simp [KeyboardEvent.run, shellKeyboardCharacterEvent, hs.enabled, henter, hnum]
          rw [hsame, if_neg hfull]
          exact hs
  | key keyID state =>
      have hisEnter : (KeyboardEvent.key keyID state).isEnter = false := rfl
      rw [hisEnter, if_neg Bool.false_ne_true] at hnext ⊢
      cases herases : erases keyID state s with
      | true =>
          obtain ⟨hrun, hroom⟩ := hflush (t := Shell.eraseCharacter s) (by
            simp [KeyboardEvent.op, ShellOp.flushed, herases])
          have hkey : (keyID = keyBackspace ∧ (state = .pressed ∨ state = .repeated)) ∧
              line ≠ [] := by
            have hnum := hs.numCommandCharacters
            simp only [erases, Bool.and_eq_true, beq_iff_eq, Bool.or_eq_true, bne_iff_ne] at herases
            refine ⟨⟨herases.1.1.2, herases.1.2⟩, ?_⟩
            rintro rfl
            exact herases.2 hnum
          obtain ⟨hwindow, hdisplayed⟩ := hs.eraseCharacter hkey.2
          rw [hrun, KeyboardEvent.edit, if_pos hkey.1]
          exact promptDisplayed_flush hroom (hs.toPromptLine.eraseCharacter hkey.2) hwindow
            (fun hmem => hs.plain ((List.dropLast_sublist line).subset hmem)) hdisplayed
      | false =>
          have hsame : (KeyboardEvent.key keyID state).run font s = s := by
            simp [KeyboardEvent.run, shellKeyboardKeyEvent, herases]
          have hline : (KeyboardEvent.key keyID state).edit line = line := by
            rw [hsame] at hnext
            rw [← hnext.command, hs.command]
          rw [hsame, hline]
          exact hs

/-- The run lemma. -/
theorem PromptDisplayed.runKeyboard
    (hroom : HoldsPromptLine font m a s) (hs : PromptDisplayed font line s)
    (events : List KeyboardEvent) (hevents : ∀ event ∈ events, event.NonNull) :
    CalmRun font (events.map KeyboardEvent.op) s ∧
      ∃ line', PromptDisplayed font line' (runKeyboard font events s) := by
  induction events generalizing line s with
  | nil => exact ⟨trivial, line, hs⟩
  | cons event events ih =>
      obtain ⟨hevent, hrest⟩ := List.forall_mem_cons.mp hevents
      have hconsole : (event.run font s).console = s.console := by
        rw [← KeyboardEvent.run_op]
        exact console_run font event.op s
      obtain ⟨hcalm, hlater⟩ :=
        ih (hroom.congr hconsole) (hs.run hroom hevent) hrest
      rw [← KeyboardEvent.run_op] at hcalm
      exact ⟨⟨hs.calm event, hcalm⟩, hlater⟩

end Run

section Console

variable (font : BitmapFont)

/-- Printing keeps the first displayed character in the window. -/
theorem displayWindow_runShellOps
    {ops : List ShellOp} (hops : ∀ op ∈ ops, op.Prints) {s : ShellState} (hs : DisplayWindow s) :
    DisplayWindow (runShellOps font ops s) := by
  refine List.foldlRecOn (motive := DisplayWindow) ops _ hs fun t ht op hop => ?_
  have hprints := hops op hop
  refine ht.run font ?_
  cases op with
  | keyboardKeyEvent keyID state => exact hprints.elim
  | _ => trivial

/-- The prompt is on display when it has been activated. -/
theorem promptDisplayed_promptConsole
    {consoleWidth consoleHeight : UInt32} {m : Nat} {a : Int}
    (hroom : HoldsPromptLine font m a (createShell font consoleWidth consoleHeight))
    {steps : List ConsoleStep} (hsteps : ∀ op ∈ programCalls steps, op.Prints) :
    PromptDisplayed font [] (promptConsole font consoleWidth consoleHeight steps).shell ∧
      HoldsPromptLine font m a (promptConsole font consoleWidth consoleHeight steps).shell := by
  obtain ⟨hshell, -⟩ := promptConsole_shell font consoleWidth consoleHeight hsteps
  have hconfigured := (configured_createShell font consoleWidth consoleHeight).runOps font
    (programCalls steps)
  have hwindow := displayWindow_runShellOps font hsteps
    (displayWindow_createShell font consoleWidth consoleHeight)
  have hconsole := console_runShellOps font (programCalls steps)
    (createShell font consoleWidth consoleHeight)
  have hline := numCommandCharacters_before_prompt font consoleWidth consoleHeight
    (programCalls steps) fun op hop => by
      have hprints := hsteps op hop
      cases op <;> simp_all [ShellOp.Prints]
  rw [hshell]
  exact ⟨promptDisplayed_activatePrompt (hroom.congr hconsole) hconfigured hwindow.inWindow hline,
    hroom.congr ((console_run font .activatePrompt _).trans hconsole)⟩

end Console

end Shell
end DexprOS
