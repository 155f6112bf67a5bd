import DexprOS.ShellLog

/-!
# The window of displayed characters

The first displayed character lies between the start and the end of the ring as long as
no backspace deletes the character that it stands behind: printing, scrolling and
clearing keep it there.

Main facts:
* `DisplayWindow.store`, `DisplayWindow.flush`, `DisplayWindow.delete`: what the three
  kinds of operations need to keep the order of the indices;
* `calmRun_window`: every state of a run, also those between an operation's output and
  its flush, is in order;
* `window_fails_backspace`: the console of ten columns and one line in which a typed
  and erased character leaves the window behind.
-/

namespace DexprOS
namespace Shell

open Kernel

section Window

/-- The first displayed character is one of the log, or the position behind it. -/
def InWindow (s : ShellState) : Prop :=
  Ring.Between numMaxDisplayCharacters s.displayRingBufferStart s.firstDisplayChar
    s.displayRingBufferEnd

instance
    (s : ShellState) :
    Decidable (InWindow s) :=
  inferInstanceAs (Decidable (Ring.Between _ _ _ _))

structure DisplayWindow (s : ShellState) : Prop extends s.IndicesInRange where
  inWindow : InWindow s

variable {s t : ShellState}

/-- The display ring of a state. -/
def ShellState.ring (s : ShellState) : (Nat → UInt32) × Nat × Nat × Nat :=
  (s.displayCharacters, s.displayRingBufferStart, s.displayRingBufferEnd, s.firstDisplayChar)

theorem ring_eq_iff :
    t.ring = s.ring ↔
      t.displayCharacters = s.displayCharacters ∧
        t.displayRingBufferStart = s.displayRingBufferStart ∧
        t.displayRingBufferEnd = s.displayRingBufferEnd ∧
        t.firstDisplayChar = s.firstDisplayChar := by
  simp only [ShellState.ring, Prod.mk.injEq]

/-- Only the ring counts. -/
theorem DisplayWindow.congr
    (hs : DisplayWindow s) (hring : t.ring = s.ring) :
    DisplayWindow t := by
  obtain ⟨-, hstart, hend, hfirst⟩ := ring_eq_iff.mp hring
  refine ⟨⟨hstart ▸ hs.start_lt, hend ▸ hs.end_lt, hfirst ▸ hs.first_lt⟩, ?_⟩
  unfold InWindow
  rw [hstart, hend, hfirst]
  exact hs.inWindow

theorem displayWindow_createShell
    (font : BitmapFont) (consoleWidth consoleHeight : UInt32) :
    DisplayWindow (createShell font consoleWidth consoleHeight) where
  toIndicesInRange := IndicesInRange_createShell font consoleWidth consoleHeight
  inWindow := Ring.between_end _ _ _

/-- What the flush loops walk over is in the log. -/
theorem DisplayWindow.indices_suffix
    (hs : DisplayWindow s) :
    displayIndices s.firstDisplayChar s.displayRingBufferEnd <:+
      displayIndices s.displayRingBufferStart s.displayRingBufferEnd :=
  Ring.indices_suffix hs.start_lt hs.first_lt hs.end_lt hs.inWindow

theorem DisplayWindow.storeOne
    (hs : DisplayWindow s) (c : UInt32) :
    DisplayWindow (storeDisplayChars [c] s) where
  toIndicesInRange := IndicesInRange_store hs.toIndicesInRange c
  inWindow := Ring.between_push (by decide) hs.start_lt hs.first_lt hs.end_lt hs.inWindow

theorem DisplayWindow.store
    (hs : DisplayWindow s) (characters : List UInt32) :
    DisplayWindow (storeDisplayChars characters s) := by
  rw [storeDisplayChars_eq_foldl]
  exact List.foldlRecOn characters _ hs fun s hs c _ => hs.storeOne c

/-- A deletion needs a character in front of the first displayed one. -/
theorem DisplayWindow.delete
    (hs : DisplayWindow s)
    (hfirst : s.displayRingBufferStart ≠ s.displayRingBufferEnd →
      s.firstDisplayChar ≠ s.displayRingBufferEnd) :
    DisplayWindow (shellDeleteLastDisplayChar s) where
  toIndicesInRange := IndicesInRange_delete hs.toIndicesInRange
  inWindow := by
    by_cases hne : s.displayRingBufferStart = s.displayRingBufferEnd
    · rw [shellDeleteLastDisplayChar, if_pos hne]
      exact hs.inWindow
    · rw [shellDeleteLastDisplayChar_of_ne hne]
      exact Ring.between_pop hs.start_lt hs.first_lt hs.end_lt hne (hfirst hne) hs.inWindow

/-- Without one, the deletion leaves the window behind. -/
theorem DisplayWindow.delete_iff
    (hs : DisplayWindow s) :
    InWindow (shellDeleteLastDisplayChar s) ↔
      (s.displayRingBufferStart ≠ s.displayRingBufferEnd →
        s.firstDisplayChar ≠ s.displayRingBufferEnd) := by
  refine ⟨fun hdelete hne hfirst => ?_, fun hfirst => (hs.delete hfirst).inWindow⟩
  rw [shellDeleteLastDisplayChar_of_ne hne] at hdelete
  unfold InWindow at hdelete
  rw [hfirst] at hdelete
  exact Ring.not_between_pop hs.start_lt hs.end_lt hne hdelete

end Window

section Flush

variable (font : BitmapFont) {s : ShellState}

/-- Scrolling stops at an index that it walks over, or at the end. -/
theorem scrollDisplayLoop_mem
    (s : ShellState) (numLines : Nat) (indices : List Nat) (numPlacedLines : Nat)
    (cursorX : Int) :
    scrollDisplayLoop font s numLines indices numPlacedLines cursorX ∈ indices ∨
      scrollDisplayLoop font s numLines indices numPlacedLines cursorX =
        s.displayRingBufferEnd := by
  induction indices generalizing numPlacedLines cursorX with
  | nil =>
      exact .inr rfl
  | cons i rest ih =>
      have hrest (numPlacedLines : Nat) (cursorX : Int) :=
        (ih numPlacedLines cursorX).imp_left (List.mem_cons_of_mem i)
      unfold scrollDisplayLoop
      dsimp only
      split
      · exact .inl List.mem_cons_self
      · split
        · exact hrest _ _
        · split
          · exact hrest _ _
          · exact hrest _ _

/-- Setting the text changes nothing but the cursor, the copy of the text and the calls of
the driver. -/
theorem shellSetText_keeps
    {α : Type*} (part : ShellState → α)
    (hpart : ∀ (s : ShellState) (onScreenCharacters : Nat → UInt32)
      (outputCursorX outputCursorY : Int) (currentLine : Nat)
      (graphics : List Graphics.GraphicsCall),
      part { s with
        onScreenCharacters := onScreenCharacters
        outputCursorX := outputCursorX
        outputCursorY := outputCursorY
        currentLine := currentLine
        graphics := graphics } = part s)
    (firstChar endChar : Nat) (s : ShellState) :
    part (shellSetText font firstChar endChar s) = part s := by
  have hloop (indices : List Nat) (onScreenIndex : Nat) (s : ShellState) :
      part (setTextLoop font indices onScreenIndex s) = part s := by
    induction indices generalizing onScreenIndex s with
    | nil =>
        rfl
    | cons i rest ih =>
        unfold setTextLoop
        dsimp only
        split
        · rfl
        · split
          · rw [ih]
            split <;> exact hpart s _ _ _ _ _
          · rw [ih]
            repeat' split
            all_goals exact hpart s _ _ _ _ _
  exact (hloop _ 0 _).trans (hpart s _ _ _ _ _)

theorem ring_shellSetText
    (firstChar endChar : Nat) (s : ShellState) :
    (shellSetText font firstChar endChar s).ring = s.ring :=
  shellSetText_keeps font ShellState.ring (fun _ _ _ _ _ _ => rfl) firstChar endChar s

theorem ring_call
    (calls : List Graphics.GraphicsCall) (s : ShellState) :
    (s.call calls).ring = s.ring :=
  rfl

/-- Scrolling moves the first displayed character only, within the window or to its end. -/
theorem shellScrollDisplay_eq
    (numLines : Nat) (s : ShellState) :
    ∃ first, (first ∈ displayIndices s.firstDisplayChar s.displayRingBufferEnd ∨
        first = s.displayRingBufferEnd) ∧
      shellScrollDisplay font numLines s = { s with firstDisplayChar := first } :=
  ⟨_, scrollDisplayLoop_mem font s numLines _ 0 0, rfl⟩

/-- A flush sets the text of the scrolled display. -/
theorem shellFlushStdOut_eq
    (s : ShellState) :
    let scrolled :=
      shellScrollDisplay font (shellGetNumOverflowLines font s) (shellResetText font s)
    shellFlushStdOut font s =
      (shellSetText font scrolled.firstDisplayChar scrolled.displayRingBufferEnd scrolled).call
        [.swapBuffers] :=
  rfl

theorem ring_shellFlushStdOut
    (s : ShellState) :
    (shellFlushStdOut font s).ring =
      (shellScrollDisplay font (shellGetNumOverflowLines font s) (shellResetText font s)).ring := by
  rw [shellFlushStdOut_eq, ring_call, ring_shellSetText]

/-- A flush changes nothing else but the first displayed character. -/
theorem shellFlushStdOut_keeps
    {α : Type*} (part : ShellState → α)
    (hpart : ∀ (s : ShellState) (onScreenCharacters : Nat → UInt32)
      (outputCursorX outputCursorY : Int) (currentLine : Nat)
      (graphics : List Graphics.GraphicsCall),
      part { s with
        onScreenCharacters := onScreenCharacters
        outputCursorX := outputCursorX
        outputCursorY := outputCursorY
        currentLine := currentLine
        graphics := graphics } = part s)
    (hfirst : ∀ (s : ShellState) (firstDisplayChar : Nat),
      part { s with firstDisplayChar := firstDisplayChar } = part s)
    (s : ShellState) :
    part (shellFlushStdOut font s) = part s := by
  obtain ⟨first, -, hscroll⟩ :=
    shellScrollDisplay_eq font (shellGetNumOverflowLines font s) (shellResetText font s)
  rw [shellFlushStdOut_eq, hscroll]
  exact (hpart _ _ _ _ _ _).trans
    ((shellSetText_keeps font part hpart _ _ _).trans ((hfirst _ _).trans (hpart s _ _ _ _ _)))

theorem DisplayWindow.resetText
    (hs : DisplayWindow s) :
    DisplayWindow (shellResetText font s) :=
  hs.congr rfl

theorem DisplayWindow.scrollDisplay
    (hs : DisplayWindow s) (numLines : Nat) :
    DisplayWindow (shellScrollDisplay font numLines s) := by
  obtain ⟨first, hfirst, hscroll⟩ := shellScrollDisplay_eq font numLines s
  rw [hscroll]
  rcases hfirst with hmem | rfl
  · exact ⟨⟨hs.start_lt, hs.end_lt, Ring.indices_lt hs.end_lt hmem⟩,
      Ring.between_of_mem_indices hs.start_lt (hs.indices_suffix.subset hmem)⟩
  · exact ⟨⟨hs.start_lt, hs.end_lt, hs.end_lt⟩, Ring.between_end _ _ _⟩

theorem DisplayWindow.flush
    (hs : DisplayWindow s) :
    DisplayWindow (shellFlushStdOut font s) :=
  ((hs.resetText font).scrollDisplay font _).congr (ring_shellFlushStdOut font s)

theorem DisplayWindow.clear
    (arg : List UInt32) (s : ShellState) :
    DisplayWindow (shellClear font arg s) where
  toIndicesInRange := IndicesInRange_clear font arg s
  inWindow := Ring.between_end _ _ _

end Flush

section Run

/-- The operations of the shell. -/
inductive ShellOp where
  | putChar (character : UInt32)
  | puts (msg : Option (List UInt8))
  | putsUTF32 (msg : Option (List UInt32))
  | flushStdOut
  | activatePrompt
  | keyboardCharacterEvent (codepoint : UInt32)
  | keyboardKeyEvent (keyID : KeyID) (state : KeyState)
  | interpretCommand (command : List UInt32)

variable (font : BitmapFont)

def ShellOp.run : ShellOp → ShellState → ShellState
  | putChar character => shellPutChar character
  | puts msg => shellPuts msg
  | putsUTF32 msg => shellPutsUTF32 msg
  | flushStdOut => shellFlushStdOut font
  | activatePrompt => shellActivatePrompt font
  | keyboardCharacterEvent codepoint => shellKeyboardCharacterEvent font codepoint
  | keyboardKeyEvent keyID state => shellKeyboardKeyEvent font keyID state
  | interpretCommand command => shellInterpretCommand font command

/-- The state that the operation flushes, if it flushes one. -/
def ShellOp.flushed : ShellOp → ShellState → Option ShellState
  | putChar _, _ => none
  | puts _, _ => none
  | putsUTF32 _, _ => none
  | flushStdOut, s => some s
  | activatePrompt, s =>
      some (shellPuts (some s.promptText) { s with commandPromptEnabled := true })
  | keyboardCharacterEvent codepoint, s =>
      if !s.commandPromptEnabled then none
      else if codepoint = 10 then some (enterCommand font s)
      else if s.numCommandCharacters = numMaxCommandCharacters then none
      else some (typeCharacter codepoint s)
  | keyboardKeyEvent keyID state, s =>
      if erases keyID state s then some (eraseCharacter s) else none
  | interpretCommand _, _ => none

/-- The operation is no backspace that deletes the character in front of the first
displayed one. -/
def ShellOp.Calm : ShellOp → ShellState → Prop
  | keyboardKeyEvent keyID state, s =>
      erases keyID state s = true → s.displayRingBufferStart ≠ s.displayRingBufferEnd →
        s.firstDisplayChar ≠ s.displayRingBufferEnd
  | _, _ => True

/-- An operation that flushes ends with the flush. -/
theorem ShellOp.run_of_flushed
    {op : ShellOp} {s t : ShellState}
    (hflushed : op.flushed font s = some t) :
    op.run font s = shellFlushStdOut font t := by
  cases op with
  | putChar character => simp [flushed] at hflushed
  | puts msg => simp [flushed] at hflushed
  | putsUTF32 msg => simp [flushed] at hflushed
  | interpretCommand command => simp [flushed] at hflushed
  | flushStdOut =>
      simp only [flushed, Option.some.injEq] at hflushed
      rw [← hflushed, run]
  | activatePrompt =>
      simp only [flushed, Option.some.injEq] at hflushed
      rw [← hflushed, run, shellActivatePrompt]
  | keyboardCharacterEvent codepoint =>
      simp only [flushed] at hflushed
      unfold run shellKeyboardCharacterEvent
      dsimp only
      split at hflushed
      · cases hflushed
      · rename_i hprompt
        rw [if_neg hprompt]
        split at hflushed
        · rename_i hnewline
          rw [if_pos hnewline, Option.some.inj hflushed]
        · rename_i hnewline
          rw [if_neg hnewline]
          split at hflushed
          · cases hflushed
          · rename_i hroom
            rw [if_neg hroom, Option.some.inj hflushed]
  | keyboardKeyEvent keyID state =>
      simp only [flushed] at hflushed
      unfold run shellKeyboardKeyEvent
      dsimp only
      split at hflushed
      · rename_i herases
        rw [if_pos herases, Option.some.inj hflushed]
      · cases hflushed

/-- The invariant rule of the operations, up to the flush at their end: printing characters
that are not null, clearing and editing the command line keep the invariant, and a backspace
that erases does. -/
theorem ShellOp.rule_of_nonNull
    {P : ShellState → Prop} {op : ShellOp} {s : ShellState}
    (hs : P s)
    (hstore : ∀ characters s, (∀ c ∈ characters, c ≠ 0) → P s →
      P (storeDisplayChars characters s))
    (hclear : ∀ arg s, P s → P (shellClear font arg s))
    (hresets : ∀ (resets : List ResetType) s, P s → P { s with resets := resets })
    (hcommand : ∀ (commandCharacters : Nat → UInt32) (numCommandCharacters : Nat)
      (commandPromptEnabled : Bool) s, P s → P { s with
        commandCharacters := commandCharacters
        numCommandCharacters := numCommandCharacters
        commandPromptEnabled := commandPromptEnabled })
    (herase : ∀ keyID state, op = keyboardKeyEvent keyID state →
      erases keyID state s = true → P (eraseCharacter s)) :
    (∀ t, op.flushed font s = some t → P t) ∧ (op.flushed font s = none → P (op.run font s)) := by
  have hputChar (c : UInt32) (t : ShellState) (ht : P t) : P (shellPutChar c t) := by
    unfold shellPutChar
    split
    · exact ht
    · rename_i hne
      exact hstore [c] t (List.forall_mem_singleton.mpr hne) ht
  have hputs (msg : Option (List UInt8)) (t : ShellState) (ht : P t) : P (shellPuts msg t) := by
    cases msg with
    | none => exact ht
    | some msg => exact hstore _ t (fun c hc => messageCharacters_ne_zero hc) ht
  have hinterpret (command : List UInt32) (t : ShellState) (ht : P t) :
      P (shellInterpretCommand font command t) :=
    shellInterpretCommand_rule font hputChar hputs hclear hresets command ht
  have henter : P (enterCommand font s) := by
    unfold enterCommand
    refine hputs _ _ ?_
    exact hcommand _ _ _ _ (hinterpret _ _ (hputChar 10 s hs))
  cases op with
  | putChar character => exact ⟨nofun, fun _ => hputChar character s hs⟩
  | puts msg => exact ⟨nofun, fun _ => hputs msg s hs⟩
  | putsUTF32 msg =>
      refine ⟨nofun, fun _ => ?_⟩
      cases msg with
      | none => exact hs
      | some msg =>
          exact hstore _ s (fun c hc => by simpa using List.mem_takeWhile_imp hc) hs
  | flushStdOut => exact ⟨fun t ht => Option.some.inj ht ▸ hs, nofun⟩
  | activatePrompt =>
      exact ⟨fun t ht => Option.some.inj ht ▸ hputs _ _ (hcommand _ _ true s hs), nofun⟩
  | keyboardCharacterEvent codepoint =>
      show (∀ t, flushed font (keyboardCharacterEvent codepoint) s = some t → P t) ∧
        (_ → P (shellKeyboardCharacterEvent font codepoint s))
      unfold shellKeyboardCharacterEvent
      simp only [flushed]
      split
      · exact ⟨nofun, fun _ => hs⟩
      · split
        · exact ⟨fun t ht => Option.some.inj ht ▸ henter, nofun⟩
        · split
          · exact ⟨nofun, fun _ => hs⟩
          · exact ⟨fun t ht => Option.some.inj ht ▸ hputChar codepoint _ (hcommand _ _ _ s hs),
              nofun⟩
  | keyboardKeyEvent keyID state =>
      show (∀ t, flushed font (keyboardKeyEvent keyID state) s = some t → P t) ∧
        (_ → P (shellKeyboardKeyEvent font keyID state s))
      unfold shellKeyboardKeyEvent
      simp only [flushed]
      split
      · rename_i herases
        exact ⟨fun t ht => Option.some.inj ht ▸ herase keyID state rfl herases, nofun⟩
      · exact ⟨nofun, fun _ => hs⟩
  | interpretCommand command => exact ⟨nofun, fun _ => hinterpret command s hs⟩

/-- The invariant rule where printing keeps the invariant, whatever is printed. -/
theorem ShellOp.rule
    {P : ShellState → Prop} {op : ShellOp} {s : ShellState}
    (hs : P s)
    (hstore : ∀ characters s, P s → P (storeDisplayChars characters s))
    (hclear : ∀ arg s, P s → P (shellClear font arg s))
    (hresets : ∀ (resets : List ResetType) s, P s → P { s with resets := resets })
    (hcommand : ∀ (commandCharacters : Nat → UInt32) (numCommandCharacters : Nat)
      (commandPromptEnabled : Bool) s, P s → P { s with
        commandCharacters := commandCharacters
        numCommandCharacters := numCommandCharacters
        commandPromptEnabled := commandPromptEnabled })
    (herase : ∀ keyID state, op = keyboardKeyEvent keyID state →
      erases keyID state s = true → P (eraseCharacter s)) :
    (∀ t, op.flushed font s = some t → P t) ∧ (op.flushed font s = none → P (op.run font s)) :=
  ShellOp.rule_of_nonNull font hs (fun characters t _ ht => hstore characters t ht) hclear hresets
    hcommand herase

/-- The invariant rule of the operations whose flush keeps the invariant. -/
theorem ShellOp.run_of_rule
    {P : ShellState → Prop} {op : ShellOp} {s : ShellState}
    (hrule : (∀ t, op.flushed font s = some t → P t) ∧
      (op.flushed font s = none → P (op.run font s)))
    (hflush : ∀ t, op.flushed font s = some t → P t → P (shellFlushStdOut font t)) :
    P (op.run font s) := by
  cases hflushed : op.flushed font s with
  | none =>
      exact hrule.2 hflushed
  | some t =>
      rw [ShellOp.run_of_flushed font hflushed]
      exact hflush t hflushed (hrule.1 t hflushed)

/-- What a calm operation flushes is in order, and so is what it leaves. -/
theorem DisplayWindow.rule
    {s : ShellState} {op : ShellOp}
    (hs : DisplayWindow s) (hcalm : op.Calm s) :
    (∀ t, op.flushed font s = some t → DisplayWindow t) ∧
      (op.flushed font s = none → DisplayWindow (op.run font s)) := by
  refine ShellOp.rule font hs (fun characters _ hs => hs.store characters)
    (fun arg s _ => DisplayWindow.clear font arg s) (fun _ _ hs => hs.congr rfl)
    (fun _ _ _ _ hs => hs.congr rfl) ?_
  rintro keyID state rfl herases
  unfold eraseCharacter
  refine DisplayWindow.delete ?_ (hcalm herases)
  exact hs.congr rfl

/-- The step lemma. -/
theorem DisplayWindow.run
    {s : ShellState} {op : ShellOp}
    (hs : DisplayWindow s) (hcalm : op.Calm s) :
    DisplayWindow (op.run font s) :=
  ShellOp.run_of_rule font (hs.rule font hcalm) fun _ _ ht => ht.flush font

/-- Every operation of the run is calm in the state that it finds. -/
def CalmRun : List ShellOp → ShellState → Prop
  | [], _ => True
  | op :: ops, s => op.Calm s ∧ CalmRun ops (op.run font s)

/-- The states of a run: those that the operations find and leave, and those that they
flush. -/
def runStates : List ShellOp → ShellState → List ShellState
  | [], s => [s]
  | op :: ops, s => s :: ((op.flushed font s).toList ++ runStates ops (op.run font s))

/-- The run lemma. -/
theorem DisplayWindow.runStates
    (ops : List ShellOp) {s : ShellState}
    (hs : DisplayWindow s) (hcalm : CalmRun font ops s) :
    ∀ t ∈ runStates font ops s, DisplayWindow t := by
  induction ops generalizing s with
  | nil =>
      intro t ht
      rw [Shell.runStates, List.mem_singleton] at ht
      exact ht ▸ hs
  | cons op ops ih =>
      intro t ht
      rw [Shell.runStates, List.mem_cons, List.mem_append] at ht
      obtain rfl | hflushed | hlater := ht
      · exact hs
      · exact (hs.rule font hcalm.1).1 t (Option.mem_toList.mp hflushed)
      · exact ih (hs.run font hcalm.1) hcalm.2 t hlater

/-- Without a backspace that deletes the character in front of the first displayed one,
the first displayed character never leaves the window, and the flush loops visit only
characters that are in the log. -/
theorem calmRun_window
    (consoleWidth consoleHeight : UInt32) (ops : List ShellOp)
    (hcalm : CalmRun font ops (createShell font consoleWidth consoleHeight)) :
    ∀ t ∈ runStates font ops (createShell font consoleWidth consoleHeight),
      InWindow t ∧
        displayIndices t.firstDisplayChar t.displayRingBufferEnd <:+
          displayIndices t.displayRingBufferStart t.displayRingBufferEnd := by
  intro t ht
  have hwindow := DisplayWindow.runStates font ops
    (displayWindow_createShell font consoleWidth consoleHeight) hcalm t ht
  exact ⟨hwindow.inWindow, hwindow.indices_suffix⟩

/-- The font with an empty image. -/
def blankFont : BitmapFont :=
  builtInFont fun _ => 0

/-- The characters of the prompt, evaluated. -/
theorem shellActivatePrompt_createShell
    (consoleWidth consoleHeight : UInt32) :
    shellActivatePrompt font (createShell font consoleWidth consoleHeight) =
      shellFlushStdOut font
        (storeDisplayChars [68, 101, 120, 112, 114, 79, 83, 32, 35, 32]
          { createShell font consoleWidth consoleHeight with commandPromptEnabled := true }) := by
  have hprompt : messageCharacters (text "DexprOS # ") =
      [68, 101, 120, 112, 114, 79, 83, 32, 35, 32] := by
    decide +kernel
  rw [← hprompt]
  rfl

/-- On a console of one hundred columns nothing scrolls, and a backspace is calm. -/
theorem calmRun_window_backspace :
    (runStates blankFont
        [.activatePrompt, .keyboardCharacterEvent 97, .keyboardKeyEvent keyBackspace .pressed]
        (createShell blankFont 900 600)).Forall fun t =>
      InWindow t ∧
        displayIndices t.firstDisplayChar t.displayRingBufferEnd <:+
          displayIndices t.displayRingBufferStart t.displayRingBufferEnd := by
  rw [List.forall_iff_forall_mem]
  refine calmRun_window blankFont 900 600 _ ⟨trivial, trivial, ?_, trivial⟩
  unfold ShellOp.Calm
  simp only [ShellOp.run, shellActivatePrompt_createShell]
  decide +kernel

end Run

section DeletedPrompt

variable (font : BitmapFont)

/-- The cells behind what is stored keep their characters. -/
theorem storeDisplayChars_behind
    (characters : List UInt32) {s : ShellState} {i : Nat}
    (hi : s.displayRingBufferEnd + characters.length ≤ i) (hlt : i < numMaxDisplayCharacters) :
    (storeDisplayChars characters s).displayCharacters i = s.displayCharacters i := by
  induction characters generalizing s with
  | nil =>
      rfl
  | cons c characters ih =>
      rw [List.length_cons] at hi
      have hroom : s.displayRingBufferEnd + 1 < numMaxDisplayCharacters := by
        omega
      have hend : (storeDisplayChars [c] s).displayRingBufferEnd = s.displayRingBufferEnd + 1 :=
        Nat.mod_eq_of_lt hroom
      have hrest : (storeDisplayChars [c] s).displayRingBufferEnd + characters.length ≤ i := by
        rw [hend]
        omega
      rw [storeDisplayChars_cons, ih hrest]
      exact Function.update_of_ne (show i ≠ s.displayRingBufferEnd by omega) _ _

/-- Null characters take no room. -/
theorem foldl_overflowLinesStep_null
    (s : ShellState) (r : Nat × Int) (indices : List Nat)
    (hnull : ∀ i ∈ indices, s.displayCharacters i = 0)
    (hroom : s.overflows r.2 0 = false) :
    indices.foldl (overflowLinesStep font s) r = r := by
  induction indices with
  | nil =>
      rfl
  | cons i rest ih =>
      have hstep : overflowLinesStep font s r i = r := by
        have hadvance : builtInBitmapFontGetGlyphAdvanceX font 0 = 0 := rfl
        unfold overflowLinesStep
        simp only [hnull i List.mem_cons_self, hadvance]
        simp [hroom]
      rw [List.foldl_cons, hstep]
      exact ih fun j hj => hnull j (List.mem_cons_of_mem i hj)

/-- With nothing to scroll the first displayed character stays. -/
theorem firstDisplayChar_flush_of_fits
    {s : ShellState}
    (hs : s.IndicesInRange) (hfits : shellGetNumOverflowLines font s = 0) :
    (shellFlushStdOut font s).firstDisplayChar = s.firstDisplayChar := by
  have hring := ring_shellFlushStdOut font s
  rw [hfits] at hring
  refine (ring_eq_iff.mp hring).2.2.2.trans ?_
  show scrollDisplayLoop font (shellResetText font s) 0
    (Ring.indices _ s.firstDisplayChar s.displayRingBufferEnd) 0 0 = _
  by_cases hne : s.firstDisplayChar = s.displayRingBufferEnd
  · rw [hne, Ring.indices_self hs.end_lt]
    rfl
  · rw [Ring.indices_cons hs.first_lt hs.end_lt hne]
    rfl

theorem displayCharacters_flush
    (s : ShellState) :
    (shellFlushStdOut font s).displayCharacters = s.displayCharacters :=
  (ring_eq_iff.mp (ring_shellFlushStdOut font s)).1

theorem displayRingBufferStart_flush
    (s : ShellState) :
    (shellFlushStdOut font s).displayRingBufferStart = s.displayRingBufferStart :=
  (ring_eq_iff.mp (ring_shellFlushStdOut font s)).2.1

theorem displayRingBufferEnd_flush
    (s : ShellState) :
    (shellFlushStdOut font s).displayRingBufferEnd = s.displayRingBufferEnd :=
  (ring_eq_iff.mp (ring_shellFlushStdOut font s)).2.2.1

theorem displayCharacters_activatePrompt
    {s : ShellState} {i : Nat}
    (hi : s.displayRingBufferEnd + (messageCharacters s.promptText).length ≤ i)
    (hlt : i < numMaxDisplayCharacters) :
    (shellActivatePrompt font s).displayCharacters i = s.displayCharacters i := by
  unfold shellActivatePrompt
  rw [displayCharacters_flush]
  exact storeDisplayChars_behind (s := { s with commandPromptEnabled := true }) _ hi hlt

theorem displayCharacters_typed
    {s : ShellState} {codepoint : UInt32} {i : Nat}
    (hprompt : s.commandPromptEnabled = true) (hcodepoint : codepoint ≠ 10 ∧ codepoint ≠ 0)
    (hroom : s.numCommandCharacters ≠ numMaxCommandCharacters)
    (hi : s.displayRingBufferEnd + 1 ≤ i) (hlt : i < numMaxDisplayCharacters) :
    (shellKeyboardCharacterEvent font codepoint s).displayCharacters i =
      s.displayCharacters i := by
  unfold shellKeyboardCharacterEvent
  rw [if_neg (by simp [hprompt]), if_neg hcodepoint.1, if_neg hroom, displayCharacters_flush,
    typeCharacter, shellPutChar, if_neg hcodepoint.2]
  exact storeDisplayChars_behind [codepoint] hi hlt

section Failure

/-- A console of ten columns and one line, with the prompt. -/
def narrowPrompt : ShellState :=
  shellActivatePrompt blankFont (createShell blankFont 90 18)

def narrowTyped : ShellState :=
  shellKeyboardCharacterEvent blankFont 97 narrowPrompt

/-- The typed character scrolled the prompt away, and its deletion leaves the first
displayed character behind the end. -/
theorem eraseCharacter_narrowTyped :
    (eraseCharacter narrowTyped).displayRingBufferStart = 0 ∧
      (eraseCharacter narrowTyped).displayRingBufferEnd = 10 ∧
      (eraseCharacter narrowTyped).firstDisplayChar = 11 := by
  rw [narrowTyped, narrowPrompt, shellActivatePrompt_createShell]
  decide +kernel

theorem displayCharacters_narrowTyped
    {i : Nat}
    (hi : 11 ≤ i) (hlt : i < numMaxDisplayCharacters) :
    (eraseCharacter narrowTyped).displayCharacters i = 0 := by
  have hprompt : narrowPrompt.commandPromptEnabled = true ∧
      narrowPrompt.numCommandCharacters = 0 ∧ narrowPrompt.displayRingBufferEnd = 10 := by
    rw [narrowPrompt, shellActivatePrompt_createShell]
    decide +kernel
  obtain ⟨henabled, hcommand, hend⟩ := hprompt
  have herase : (eraseCharacter narrowTyped).displayCharacters = narrowTyped.displayCharacters := by
    unfold eraseCharacter shellDeleteLastDisplayChar
    repeat' split
    all_goals rfl
  rw [herase, narrowTyped,
    displayCharacters_typed blankFont henabled (by decide) (by rw [hcommand]; decide)
      (by omega) hlt]
  exact displayCharacters_activatePrompt blankFont (Nat.le_of_succ_le hi) hlt

theorem shellGetNumOverflowLines_narrowTyped :
    shellGetNumOverflowLines blankFont (eraseCharacter narrowTyped) = 0 := by
  obtain ⟨-, hend, hfirst⟩ := eraseCharacter_narrowTyped
  have hsplit : displayIndices 11 10 = displayIndices 11 0 ++ displayIndices 0 10 :=
    Ring.indices_append (by decide) (by decide) (by decide) (by decide)
  have hnull : ∀ i ∈ displayIndices 11 0, (eraseCharacter narrowTyped).displayCharacters i = 0 := by
    intro i hi
    obtain ⟨k, hk, rfl⟩ := List.mem_map.mp hi
    have hk : k < 65525 := List.mem_range.mp hk
    have hmod : (11 + k) % numMaxDisplayCharacters = 11 + k :=
      Nat.mod_eq_of_lt (Nat.add_lt_add_left hk 11)
    rw [hmod]
    exact displayCharacters_narrowTyped (Nat.le_add_right _ _) (Nat.add_lt_add_left hk 11)
  have hroom : (eraseCharacter narrowTyped).overflows 0 0 = false := by
    rw [narrowTyped, narrowPrompt, shellActivatePrompt_createShell]
    decide +kernel
  unfold shellGetNumOverflowLines
  rw [hfirst, hend, hsplit, List.foldl_append,
    foldl_overflowLinesStep_null blankFont _ (0, 0) _ hnull hroom, narrowTyped, narrowPrompt,
    shellActivatePrompt_createShell]
  decide +kernel

theorem window_fails_backspace :
    ¬ InWindow (shellKeyboardKeyEvent blankFont keyBackspace .pressed narrowTyped) := by
  obtain ⟨hstart, hend, hfirst⟩ := eraseCharacter_narrowTyped
  have hrange : (eraseCharacter narrowTyped).IndicesInRange := by
    refine ⟨?_, ?_, ?_⟩
    · rw [hstart]
      decide
    · rw [hend]
      decide
    · rw [hfirst]
      decide
  have herases : erases keyBackspace .pressed narrowTyped = true := by
    rw [narrowTyped, narrowPrompt, shellActivatePrompt_createShell]
    decide +kernel
  rw [shellKeyboardKeyEvent, if_pos herases]
  have hstays := firstDisplayChar_flush_of_fits blankFont hrange
    shellGetNumOverflowLines_narrowTyped
  unfold InWindow
  rw [hstays, displayRingBufferEnd_flush, displayRingBufferStart_flush, hstart, hend, hfirst]
  decide

end Failure

end DeletedPrompt

end Shell
end DexprOS
