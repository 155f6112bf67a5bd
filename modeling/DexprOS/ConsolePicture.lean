import DexprOS.ConsoleBounds
import DexprOS.ConsoleWindow
import DexprOS.Drivers.Graphics.CpuGraphicsInit
import DexprOS.ShellErasing

/-!
# From the keys to the pixels

The shell draws into the render framebuffer and swaps at the end of each flush.  The boxes of
its glyphs never overflow, so the driver keeps track of all that is drawn, and what the
monitor shows behind every key is the text of the window on the background.

Main facts:
* `clearCalls_fit`, `drawCalls_fit`: the coordinates of the shell's calls;
* `TracksText.flush`, `TracksText.run`: the driver keeps track of every operation;
* `Pictured.run`, `OnMonitor.event`: the step lemmas;
* `console_picture`: the monitor in every run of the console.
-/

namespace DexprOS
namespace Shell

open Kernel Keyboard Graphics Painting

section Coordinates

variable {font : BitmapFont} {consoleWidth : UInt32} {numLines : Nat} {g : PlacedGlyph}
variable {glyphs : List PlacedGlyph}

theorem region_fits
    (hfont : FontFits font consoleWidth numLines) (hg : g.OnConsole font consoleWidth numLines) :
    RegionSumFits (g.region font).x (g.region font).width ∧
      RegionSumFits (g.region font).y (g.region font).height := by
  refine ⟨region_regionSumFits hfont hg, ?_⟩
  by_cases hglyph : hasGlyph g.character = true
  · exact (region_axisFits hfont hg hglyph).2.regionSumFits
  · have hheight : (g.region font).height = 0 := by
      simp [PlacedGlyph.region, builtInBitmapFontGetGlyphMetrics, hglyph]
    have hlt := (g.region font).y.toInt_lt
    intro _
    rw [hheight, UInt32.toNat_zero]
    omega

/-- The boxes that are cleared do not overflow. -/
theorem clearCalls_fit
    (hfont : FontFits font consoleWidth numLines)
    (hglyphs : ∀ g ∈ glyphs, g.OnConsole font consoleWidth numLines) (color : GrGraphicsColor) :
    ∀ call ∈ clearCalls font color glyphs, CoordinatesFit call := by
  intro call hcall
  obtain ⟨g, hg, rfl⟩ := List.mem_map.mp hcall
  simpa [CoordinatesFit] using region_fits hfont (hglyphs g hg)

/-- The boxes that are drawn do not overflow. -/
theorem drawCalls_fit
    (hfont : FontFits font consoleWidth numLines)
    (hglyphs : ∀ g ∈ glyphs, g.OnConsole font consoleWidth numLines) :
    ∀ call ∈ drawCalls font glyphs, CoordinatesFit call := by
  intro call hcall
  obtain ⟨g, hg, hcall⟩ := List.mem_flatMap.mp hcall
  unfold builtInBitmapFontDrawGlyph at hcall
  split at hcall
  · rename_i hglyph
    obtain ⟨hx, hy⟩ := region_axisFits hfont (hglyphs g hg) hglyph
    rw [region_of_hasGlyph hglyph] at hx hy
    have hstart : g.y - (font.glyph g.character).bitmapTop + (font.lineHeight.toNat : Int) =
        g.y + (font.lineHeight.toNat - (font.glyph g.character).bitmapTop) := by
      omega
    rw [List.mem_singleton.mp hcall]
    refine ⟨hx.blitSumFits, ?_⟩
    dsimp only
    rw [hstart]
    exact hy.blitSumFits
  · cases hcall

end Coordinates

section Screen

variable {blend : UInt8 → UInt8 → UInt8 → UInt8} {font : BitmapFont} {d : CpuGrGraphicsDrvData}
variable {s t : ShellState}

variable (blend d) in
theorem screen_call
    (calls : List GraphicsCall) (s : ShellState) :
    (s.call calls).screen blend d = runGraphicsCalls blend calls (s.screen blend d) :=
  runGraphicsCalls_append blend s.graphics calls d

variable (blend d font) in
theorem screen_resetText
    (s : ShellState) :
    (shellResetText font s).screen blend d =
      runGraphicsCalls blend (clearCalls font s.backgroundColor (s.glyphs font))
        (s.screen blend d) := by
  rw [ShellState.screen, shellResetText_graphics, runGraphicsCalls_append]
  rfl

variable (blend d font) in
/-- Setting a text draws the part of it that fits on the lines. -/
theorem screen_setText
    (firstChar endChar : Nat) (s : ShellState) :
    (shellSetText font firstChar endChar s).screen blend d =
      runGraphicsCalls blend
        (drawCalls font (placeGlyphs font s.consoleWidth
          (shownCharacters font s.consoleWidth s.numLines 0
            ((displayIndices firstChar endChar).map s.displayCharacters)) 0 0))
        (s.screen blend d) := by
  have hlength : (displayIndices firstChar endChar).length < numMaxDisplayCharacters := by
    rw [displayIndices, Ring.length_indices]
    exact Nat.mod_lt _ (by decide)
  obtain ⟨hgraphics, -⟩ := setTextLoop_shown font (displayIndices firstChar endChar) 0
    { s with outputCursorX := 0, outputCursorY := 0, currentLine := 0 } (by omega)
    (Nat.zero_le s.numLines)
  rw [ShellState.screen, shellSetText, hgraphics, runGraphicsCalls_append]
  rfl

variable (blend d font) in
/-- A flush erases what was displayed, draws the window that it leaves behind and swaps. -/
theorem screen_flush
    (s : ShellState) :
    (shellFlushStdOut font s).screen blend d =
      cpuGrSwapBuffers (runGraphicsCalls blend
        (drawCalls font (placeGlyphs font s.consoleWidth
          (shownCharacters font s.consoleWidth s.numLines 0 (shellFlushStdOut font s).window)
          0 0))
        ((shellResetText font s).screen blend d)) := by
  obtain ⟨first, -, hscroll⟩ :=
    shellScrollDisplay_eq font (shellGetNumOverflowLines font s) (shellResetText font s)
  rw [window_shellFlushStdOut, shellFlushStdOut_eq, hscroll, screen_call, screen_setText]
  rfl

/-- The screen shows the copied characters, and the driver keeps track of what is drawn. -/
structure TracksText (blend : UInt8 → UInt8 → UInt8 → UInt8) (font : BitmapFont)
    (d : CpuGrGraphicsDrvData) (s : ShellState) : Prop extends ShowsText blend font d s where
  tracked : SwapTracked (s.screen blend d)

theorem TracksText.congr
    (hs : TracksText blend font d s) (hdrawn : t.drawn = s.drawn) :
    TracksText blend font d t := by
  refine ⟨hs.toShowsText.congr hdrawn, ?_⟩
  obtain ⟨-, hgraphics, -⟩ := drawn_eq_iff.mp hdrawn
  rw [ShellState.screen, hgraphics]
  exact hs.tracked

theorem TracksText.resetText
    (hs : TracksText blend font d s) :
    SwapTracked ((shellResetText font s).screen blend d) := by
  rw [screen_resetText]
  exact hs.tracked.runCalls blend (clearCalls_fit hs.fontFits hs.onConsole _)

/-- The monitor shows the part of the window that fits on the lines. -/
structure OnMonitor (blend : UInt8 → UInt8 → UInt8 → UInt8) (font : BitmapFont)
    (d : CpuGrGraphicsDrvData) (s : ShellState) : Prop extends TracksText blend font d s where
  agree : VisiblePixelsAgree (s.screen blend d)
  shown : s.onScreen = shownCharacters font s.consoleWidth s.numLines 0 s.window

/-- A flush brings the text of the window to the monitor. -/
theorem TracksText.flush
    (hs : TracksText blend font d s) (hframe : d.frame.Fits)
    (hplain : PlainText (shellFlushStdOut font s).window) :
    OnMonitor blend font d (shellFlushStdOut font s) := by
  obtain ⟨htext, hshown⟩ := hs.toShowsText.flush hframe hplain
  have hdrawn := SwapTracked.runCalls blend hs.resetText (drawCalls_fit hs.fontFits
    (placeGlyphs_onConsole hs.fontFits s.numLines hplain (Int.le_refl 0) (Int.le_refl 0)
      (Int.zero_add _).le))
  refine ⟨⟨htext, ?_⟩, ?_, ?_⟩
  · rw [screen_flush]
    exact hdrawn.swap
  · rw [screen_flush]
    exact hdrawn.agree_swap
  · obtain ⟨hwidth, hlines, -⟩ := console_eq_iff.mp (console_shellFlushStdOut font s)
    rw [hshown, hwidth, hlines]

theorem TracksText.clear
    (hs : TracksText blend font d s) (hframe : d.frame.Fits) (arg : List UInt32) :
    TracksText blend font d (shellClear font arg s) := by
  have hdisabled : TracksText blend font d { s with commandPromptEnabled := false } :=
    hs.congr rfl
  exact ⟨hs.toShowsText.clear hframe arg, hdisabled.resetText⟩

/-- What an operation flushes, or leaves without a flush, is kept track of. -/
theorem TracksText.rule
    (hs : TracksText blend font d s) (hframe : d.frame.Fits) (op : ShellOp) :
    (∀ t, op.flushed font s = some t → TracksText blend font d t) ∧
      (op.flushed font s = none → TracksText blend font d (op.run font s)) := by
  refine ShellOp.rule font hs
    (fun characters _ hs => hs.congr (drawn_storeDisplayChars characters _))
    (fun arg _ hs => hs.clear hframe arg) (fun _ _ hs => hs.congr rfl)
    (fun _ _ _ _ hs => hs.congr rfl) fun _ _ _ _ => ?_
  exact hs.congr (drawn_shellDeleteLastDisplayChar _)

end Screen

section Run

variable {blend : UInt8 → UInt8 → UInt8 → UInt8} {font : BitmapFont} {d : CpuGrGraphicsDrvData}
variable {s t : ShellState}

/-- The characters of the log are none of them null. -/
structure NonNullLog (s : ShellState) : Prop extends s.IndicesInRange where
  nonNull : ∀ c ∈ s.log, c ≠ 0

theorem NonNullLog.store
    (hs : NonNullLog s) {characters : List UInt32} (hcharacters : ∀ c ∈ characters, c ≠ 0) :
    NonNullLog (storeDisplayChars characters s) := by
  refine ⟨IndicesInRange_storeAll hs.toIndicesInRange characters, ?_⟩
  rw [log_storeAll hs.toIndicesInRange]
  refine List.foldlRecOn (motive := fun log => ∀ c ∈ log, c ≠ 0) characters _ hs.nonNull
    fun log hlog c hc => ?_
  intro c' hc'
  rcases List.mem_append.mp (List.mem_of_mem_drop hc') with hold | hnew
  · exact hlog c' hold
  · rw [List.mem_singleton.mp hnew]
    exact hcharacters c hc

/-- Every operation keeps null characters out of the log. -/
theorem NonNullLog.run
    (hs : NonNullLog s) (op : ShellOp) :
    NonNullLog (op.run font s) := by
  refine ShellOp.run_of_rule font (ShellOp.rule_of_nonNull font hs
    (fun characters _ hcharacters hs => hs.store hcharacters) (fun arg t _ => ?_)
    (fun _ _ hs => ⟨⟨hs.start_lt, hs.end_lt, hs.first_lt⟩, hs.nonNull⟩)
    (fun _ _ _ _ hs => ⟨⟨hs.start_lt, hs.end_lt, hs.first_lt⟩, hs.nonNull⟩)
    fun _ _ _ _ => ?_) fun t _ ht => ?_
  · refine ⟨IndicesInRange_clear font arg t, ?_⟩
    simp [log_clear]
  · have hrange : ({ s with
        commandCharacters := Function.update s.commandCharacters (s.numCommandCharacters - 1) 0
        numCommandCharacters := s.numCommandCharacters - 1 } : ShellState).IndicesInRange :=
      ⟨hs.start_lt, hs.end_lt, hs.first_lt⟩
    refine ⟨IndicesInRange_delete hrange, fun c hc => hs.nonNull c ?_⟩
    rw [eraseCharacter, log_delete hrange] at hc
    exact (List.dropLast_sublist _).subset hc
  · refine ⟨IndicesInRange_flush font ht.toIndicesInRange, ?_⟩
    rw [log_flush]
    exact ht.nonNull

/-- What holds of the shell before and behind every operation. -/
structure Pictured (blend : UInt8 → UInt8 → UInt8 → UInt8) (font : BitmapFont)
    (d : CpuGrGraphicsDrvData) (s : ShellState) : Prop where
  prompt : PromptShell s
  window : DisplayWindow s
  log : NonNullLog s
  text : TracksText blend font d s

/-- The window holds characters of the log only. -/
theorem plainText_window
    (hs : PlainShell s) (hwindow : DisplayWindow s) (hlog : NonNullLog s) :
    PlainText s.window := by
  intro c hc
  refine ⟨hlog.nonNull c (hwindow.window_suffix.subset hc), ?_⟩
  rintro rfl
  exact hs.window hc

/-- The step lemma of the operations. -/
theorem Pictured.run
    (hs : Pictured blend font d s) (hframe : d.frame.Fits) {op : ShellOp} (hcalm : op.Calm s)
    (hprompt : PromptShell (op.run font s)) :
    Pictured blend font d (op.run font s) ∧
      (op.flushed font s = none ∨ OnMonitor blend font d (op.run font s)) := by
  have hwindow := hs.window.run font hcalm
  have hlog : NonNullLog (op.run font s) := hs.log.run op
  obtain ⟨hflush, hstay⟩ := hs.text.rule hframe op
  cases hflushed : op.flushed font s with
  | none =>
      exact ⟨⟨hprompt, hwindow, hlog, hstay hflushed⟩, Or.inl rfl⟩
  | some t =>
      have hplain := plainText_window hprompt.toPlainShell hwindow hlog
      rw [ShellOp.run_of_flushed font hflushed] at hprompt hwindow hlog hplain ⊢
      have hmonitor := (hflush t hflushed).flush hframe hplain
      exact ⟨⟨hprompt, hwindow, hlog, hmonitor.toTracksText⟩, Or.inr hmonitor⟩

/-- The run lemma of what the main program prints. -/
theorem Pictured.runPrints
    (hframe : d.frame.Fits) {ops : List ShellOp} (hops : ∀ op ∈ ops, op.Prints ∧ op.Program)
    (hs : Pictured blend font d s) :
    Pictured blend font d (runShellOps font ops s) := by
  refine List.foldlRecOn (motive := Pictured blend font d) ops _ hs fun t ht op hop => ?_
  obtain ⟨hprints, hprogram⟩ := hops op hop
  refine (ht.run hframe ?_ (safe_op font ht.prompt hprogram).2).1
  cases op with
  | keyboardKeyEvent keyID state => exact hprints.elim
  | _ => trivial

/-- An event of the keyboard that flushes nothing changes nothing. -/
theorem KeyboardEvent.run_of_not_flushed
    {event : KeyboardEvent} (hflushed : event.op.flushed font s = none) :
    event.op.run font s = s := by
  cases event with
  | character codepoint =>
      simp only [KeyboardEvent.op, ShellOp.flushed] at hflushed
      simp only [KeyboardEvent.op, ShellOp.run, shellKeyboardCharacterEvent]
      split_ifs at hflushed with hdisabled hnewline hfull
      · rw [if_pos hdisabled]
      · rw [if_neg hdisabled, if_neg hnewline, if_pos hfull]
  | key keyID state =>
      simp only [KeyboardEvent.op, ShellOp.flushed] at hflushed
      simp only [KeyboardEvent.op, ShellOp.run, shellKeyboardKeyEvent]
      split_ifs at hflushed with herases
      rw [if_neg herases]

/-- The run lemma of the keys: the monitor is up to date behind every one of them. -/
theorem OnMonitor.runKeyboard
    (hframe : d.frame.Fits) {events : List KeyboardEvent}
    (hs : Pictured blend font d s) (hmonitor : OnMonitor blend font d s)
    (hcalm : CalmRun font (events.map KeyboardEvent.op) s)
    (hevents : ∀ event ∈ events, event.Plain) :
    Pictured blend font d (runKeyboard font events s) ∧
      OnMonitor blend font d (runKeyboard font events s) := by
  induction events generalizing s with
  | nil => exact ⟨hs, hmonitor⟩
  | cons event events ih =>
      obtain ⟨hevent, hrest⟩ := List.forall_mem_cons.mp hevents
      have hprompt := hs.prompt.event font hevent
      rw [← KeyboardEvent.run_op] at hprompt
      obtain ⟨hnext, hshown⟩ := hs.run hframe hcalm.1 hprompt
      have hmonitor' : OnMonitor blend font d (event.op.run font s) := by
        rcases hshown with hflushed | hshown
        · rw [KeyboardEvent.run_of_not_flushed hflushed]
          exact hmonitor
        · exact hshown
      have hlater := ih hnext hmonitor' hcalm.2 hrest
      rwa [KeyboardEvent.run_op] at hlater

end Run

section Monitor

variable {blend : UInt8 → UInt8 → UInt8 → UInt8} {font : BitmapFont} {d : CpuGrGraphicsDrvData}
variable {consoleWidth consoleHeight : UInt32}

theorem screen_createShell
    (font : BitmapFont) (consoleWidth consoleHeight : UInt32) :
    (createShell font consoleWidth consoleHeight).screen blend d =
      cpuGrSwapBuffers (cpuGrGraphicsClearScreen ⟨0, 128, 128⟩ d) :=
  rfl

/-- A new shell clears the screen, whatever the framebuffers hold. -/
theorem pictured_createShell
    (hd : d.Addressable) (hformat : d.framebufferFormat ≠ .max)
    (hfont : FontFits font consoleWidth (createShell font consoleWidth consoleHeight).numLines) :
    Pictured blend font d (createShell font consoleWidth consoleHeight) where
  prompt := ⟨plainShell_createShell font consoleWidth consoleHeight, rfl⟩
  window := displayWindow_createShell font consoleWidth consoleHeight
  log := by
    refine ⟨IndicesInRange_createShell font consoleWidth consoleHeight, ?_⟩
    simp [log_createShell]
  text := by
    have hblank : BlankScreen blend d (createShell font consoleWidth consoleHeight) := by
      refine ⟨fun p hp => ?_, fun _ _ => rfl⟩
      rw [screen_visible] at hp
      exact color_clearScreen hd hformat _ hp
    refine ⟨hblank.showsText hfont, ?_⟩
    rw [screen_createShell]
    exact (swapTracked_clearScreen hd _).swap

/-- What is on display is what the window holds. -/
theorem onScreen_eq_window
    {s : ShellState} (hplain : PlainText s.window) (hcopied : OnDisplay font s) :
    s.onScreen = s.window := by
  have hlength : s.window.length < numMaxDisplayCharacters := by
    rw [ShellState.window, List.length_map, displayIndices, Ring.length_indices]
    exact Nat.mod_lt _ (by decide)
  have hcells : s.onScreenCharacters = storeText (fun _ => 0) 0 s.window := by
    funext i
    rw [hcopied.copied i, storeText_apply]
    simp
  rw [ShellState.onScreen, hcells]
  exact takeWhile_storeText (fun _ _ => rfl) hlength.le fun c hc => (hplain c hc).1

/-- No key changes the console that the shell was created for. -/
theorem console_runConsole
    (font : BitmapFont) {steps : List ConsoleStep}
    (hsteps : ∀ op ∈ programCalls steps, op.Prints) (bytes : List UInt8) :
    (runConsole font (bytes.map .interrupt)
        (promptConsole font consoleWidth consoleHeight steps)).shell.console =
      (createShell font consoleWidth consoleHeight).console := by
  obtain ⟨hshell, -⟩ := promptConsole_shell font consoleWidth consoleHeight hsteps
  rw [runConsole_interrupts, runKeyboard_eq_runShellOps, console_runShellOps, hshell]
  exact (console_run font .activatePrompt _).trans (console_runShellOps font _ _)

variable (blend font) in
/-- The shell behind every key: the prompt line is on display, and the monitor shows it. -/
theorem console_onMonitor
    (hd : d.Addressable) (hformat : d.framebufferFormat ≠ .max)
    (hfont : FontFits font consoleWidth (createShell font consoleWidth consoleHeight).numLines)
    {m : Nat} {a : Int}
    (hroom : HoldsPromptLine font m a (createShell font consoleWidth consoleHeight))
    {steps : List ConsoleStep} (hsteps : ∀ op ∈ programCalls steps, op.Prints ∧ op.Program)
    (bytes : List UInt8) :
    let c := runConsole font (bytes.map .interrupt)
      (promptConsole font consoleWidth consoleHeight steps)
    Pictured blend font d c.shell ∧ OnMonitor blend font d c.shell ∧
      ∃ line, PromptDisplayed font line c.shell := by
  intro c
  have hprints : ∀ op ∈ programCalls steps, op.Prints := fun op hop => (hsteps op hop).1
  have hkeyboard := promptConsole_keyboard font consoleWidth consoleHeight steps
  obtain ⟨hshell, -⟩ := promptConsole_shell font consoleWidth consoleHeight hprints
  have hprinted : Pictured blend font d (runShellOps font (programCalls steps)
      (createShell font consoleWidth consoleHeight)) :=
    Pictured.runPrints hd.frame_fits hsteps (pictured_createShell hd hformat hfont)
  have hactivate : ShellOp.activatePrompt.Program := trivial
  have hcalm : ShellOp.activatePrompt.Calm (runShellOps font (programCalls steps)
      (createShell font consoleWidth consoleHeight)) := trivial
  obtain ⟨hactivated, hshown⟩ := hprinted.run hd.frame_fits hcalm
    (safe_op font hprinted.prompt hactivate).2
  have hmonitor := hshown.resolve_left nofun
  rw [ShellOp.run, ← hshell] at hactivated hmonitor
  obtain ⟨hprompt, hroomPrompt⟩ := promptDisplayed_promptConsole font hroom hprints
  obtain ⟨hcalm, hline⟩ := hprompt.runKeyboard hroomPrompt _
    (addedEvents_nonNull hkeyboard bytes)
  have hrun := hmonitor.runKeyboard hd.frame_fits hactivated hcalm
    (addedEvents_plain hkeyboard bytes)
  rw [← runConsole_interrupts font bytes] at hrun hline
  exact ⟨hrun.1, hrun.2, hline⟩

end Monitor

section Picture

variable (blend : UInt8 → UInt8 → UInt8 → UInt8) (imageData : Nat → UInt8)

/-- The lines of the built-in font that the console has. -/
theorem numLines_createShell
    (width height : UInt32) :
    (createShell (builtInFont imageData) width height).numLines =
      max 1 (height.toNat / 18 - 1) := by
  have hlines : (height / 18).toNat = height.toNat / 18 := UInt32.toNat_div height 18
  show (if (height / 18).toNat > 1 then (height / 18).toNat - 1 else 1) = _
  rw [hlines]
  split <;> omega

/-- A screen of 640 by 480 pixels has room for the prompt line in the built-in font. -/
theorem holdsPromptLine_screen
    {width height : UInt32} (hwidth : 640 ≤ width.toNat) (hsmall : width.toNat < 2147483648)
    (hheight : 480 ≤ height.toNat) :
    HoldsPromptLine (builtInFont imageData) (width.toNat / 9) 9
      (createShell (builtInFont imageData) width height) := by
  have hint : width.toInt32.toInt = width.toNat := by
    rw [Word32.toInt_toInt32, if_pos hsmall]
  refine holdsPromptLine_builtInFont imageData (by omega) ?_ ?_
  · show ((width.toNat / 9 : Nat) : Int) * 9 ≤ width.toInt32.toInt
    omega
  · have hlines : 25 ≤ (createShell (builtInFont imageData) width height).numLines := by
      rw [numLines_createShell]
      omega
    have hcolumns : 71 ≤ width.toNat / 9 := by omega
    calc
      10 + 256 + width.toNat / 9 < width.toNat / 9 * 25 := by omega
      _ ≤ _ := Nat.mul_le_mul_left _ hlines

/-- From the keys to the pixels.  On every screen of at least 640 by 480 pixels of a supported
format, whatever the program prints before it activates the prompt and whatever bytes the
keyboard delivers afterwards, the monitor shows behind every key the text of the window on the
background and nothing else, and the window ends with the prompt and the command line. -/
theorem console_picture
    (mode : EfiGraphicsOutputMode) (hmode : mode.Addressable) (hformat : mode.Supported)
    (hwidth : 640 ≤ mode.horizontalResolution.toNat)
    (hheight : 480 ≤ mode.verticalResolution.toNat)
    (driverMemory : Option CpuGrFramebufferFormat) (backbufferMemory : Option Framebuffer)
    (d : CpuGrGraphicsDrvData)
    (hinit : initCpuGraphicsDriver mode driverMemory backbufferMemory = .ok d)
    (steps : List ConsoleStep) (hsteps : ∀ op ∈ programCalls steps, op.Prints ∧ op.Program)
    (bytes : List UInt8) :
    let font := builtInFont imageData
    let c := runConsole font (bytes.map .interrupt)
      (promptConsole font mode.horizontalResolution mode.verticalResolution steps)
    promptCharacters ++ c.shell.command <:+ c.shell.window ∧
      ∃ blank : CpuGrGraphicsDrvData, blank.frame = d.frame ∧
        ShowsBackground ⟨0, 128, 128⟩ blank ∧
        ∀ p ∈ d.visible,
          (c.shell.screen blend d).mainColor p =
            (runGraphicsCalls blend
              (drawCalls font (placeGlyphs font mode.horizontalResolution c.shell.window 0 0))
              blank).color p := by
  intro font c
  obtain ⟨hw, hh, -, -, -, hsupported⟩ := init_cases hinit
  have hwidthLe := hmode.width_le
  have hrow := hmode.row_lt
  have hsmall : mode.verticalResolution.toNat < 2147483600 := by
    have hframe := hmode.frame_lt
    have hstride : 4 ≤ mode.pixelsPerScanLine.toNat * 4 := by omega
    have hle := Nat.mul_le_mul_left mode.verticalResolution.toNat hstride
    omega
  have hint : mode.horizontalResolution.toInt32.toInt = mode.horizontalResolution.toNat := by
    rw [Word32.toInt_toInt32, if_pos (by omega)]
  have hfont : FontFits font mode.horizontalResolution
      (createShell font mode.horizontalResolution mode.verticalResolution).numLines := by
    refine fontFits_builtInFont imageData (by omega) ?_
    rw [numLines_createShell]
    omega
  have hroom := holdsPromptLine_screen imageData hwidth (by omega) hheight
  obtain ⟨hpictured, hmonitor, line, hprompt⟩ := console_onMonitor blend font
    (addressable_init hmode hinit) (hsupported hformat) hfont hroom hsteps bytes
  obtain ⟨hconsoleWidth, -, hbackground⟩ := console_eq_iff.mp
    (console_runConsole font (fun op hop => (hsteps op hop).1) bytes)
  have hplain := plainText_window hpictured.prompt.toPlainShell hpictured.window hpictured.log
  have hglyphs : c.shell.glyphs font =
      placeGlyphs font mode.horizontalResolution c.shell.window 0 0 := by
    rw [ShellState.glyphs, hconsoleWidth, onScreen_eq_window hplain hprompt.onDisplay]
    rfl
  refine ⟨?_, ?_⟩
  · rw [hprompt.command]
    exact hprompt.displayed
  · obtain ⟨blank, hframe, hblank, hpicture⟩ := hmonitor.picture
    refine ⟨blank, hframe, ?_, fun p hp => ?_⟩
    · rw [hbackground] at hblank
      exact hblank
    · rw [← hglyphs, ← hpicture p hp]
      refine mainColor_of_agree hmonitor.agree ?_
      rw [screen_visible]
      exact hp

/-- A mode of 640 by 480 pixels. -/
def vgaMode : EfiGraphicsOutputMode where
  horizontalResolution := 640
  verticalResolution := 480
  pixelFormat := .pixelBlueGreenRedReserved8BitPerColor
  pixelsPerScanLine := 640
  frameBuffer := fun _ => 0
  frameBufferSize := 1228800

/-- A character is typed at the prompt, over whatever the new render framebuffer holds. -/
theorem console_picture_typed :
    ∃ d, initCpuGraphicsDriver vgaMode (some .max) (some fun _ => 7) = .ok d ∧
      let font := builtInFont fun _ => 0
      let c := runConsole font [.interrupt 0x1C] (promptConsole font 640 480 [.interrupt 0x32])
      c.shell.command = [97] ∧ promptCharacters ++ c.shell.command <:+ c.shell.window ∧
        ∃ blank : CpuGrGraphicsDrvData, blank.frame = d.frame ∧
          ShowsBackground ⟨0, 128, 128⟩ blank ∧
          ∀ p ∈ d.visible,
            (c.shell.screen (fun source _ _ => source) d).mainColor p =
              (runGraphicsCalls (fun source _ _ => source)
                (drawCalls font (placeGlyphs font 640 c.shell.window 0 0)) blank).color p := by
  refine ⟨_, rfl, by decide +kernel, ?_⟩
  have hsteps : ∀ op ∈ programCalls [.interrupt 0x32], op.Prints ∧ op.Program := by
    simp [programCalls]
  exact console_picture (fun source _ _ => source) (fun _ => 0) vgaMode
    ⟨by decide, by decide, by decide, by decide⟩ (Or.inr rfl) (by decide) (by decide)
    (some .max) (some fun _ => 7) _ rfl [.interrupt 0x32] hsteps [0x1C]

end Picture

end Shell
end DexprOS
