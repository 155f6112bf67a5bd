import DexprOS.Library.GreedyWrap
import DexprOS.ShellErasing

/-!
# Scrolling the display

Counting the lines that do not fit, scrolling by them and setting the text are three loops
over the displayed characters that wrap lines in the same way.  Scrolling stops behind the
character of a line break, which is the start of the next line only if the character is a
newline.

Main facts:
* `foldl_overflowLinesStep_eq`, `scrollDisplayLoop_eq`, `setTextLoop_fits`: the three loops;
* `shellScrollDisplay_lineStart_iff`: when scrolling stops at the start of a line;
* `shellFlushStdOut_shows_all`: a flush shows all of the text that it leaves.
-/

namespace DexprOS
namespace Shell

open Kernel GreedyWrap

section Loops

variable (font : BitmapFont)

/-- How a console of this width wraps its lines. -/
def shellLayout (consoleWidth : UInt32) : Layout UInt32 where
  newline := fun c => c == 10
  advance := builtInBitmapFontGetGlyphAdvanceX font
  width := consoleWidth.toInt32.toInt

/-- The line breaks of the displayed text. -/
def ShellState.lineBreaks (s : ShellState) : List LineBreak :=
  (shellLayout font s.consoleWidth).lineBreaks s.window 0 0

/-- What the loops do with a character, as a step of the layout. -/
theorem shellLayout_step
    (s : ShellState) (c : UInt32) (x : Int) :
    (shellLayout font s.consoleWidth).breaksAt x c =
        (c == 10 || s.overflows x (builtInBitmapFontGetGlyphAdvanceX font c)) ∧
      (shellLayout font s.consoleWidth).cursorAfter x c =
        if c = 10 then 0
        else if s.overflows x (builtInBitmapFontGetGlyphAdvanceX font c) then
          builtInBitmapFontGetGlyphAdvanceX font c
        else x + builtInBitmapFontGetGlyphAdvanceX font c := by
  constructor
  · rfl
  · unfold Layout.cursorAfter ShellState.overflows shellLayout
    simp only [beq_iff_eq, decide_eq_true_eq]

theorem overflowLinesStep_eq
    (s : ShellState) (r : Nat × Int) (i : Nat) :
    overflowLinesStep font s r i =
      (r.1 + (if (shellLayout font s.consoleWidth).breaksAt r.2 (s.displayCharacters i)
        then 1 else 0),
        (shellLayout font s.consoleWidth).cursorAfter r.2 (s.displayCharacters i)) := by
  obtain ⟨hbreaks, hcursor⟩ := shellLayout_step font s (s.displayCharacters i) r.2
  rw [hbreaks, hcursor, overflowLinesStep]
  by_cases hnewline : s.displayCharacters i = 10
  · simp [hnewline]
  · by_cases hoverflow : s.overflows r.2
        (builtInBitmapFontGetGlyphAdvanceX font (s.displayCharacters i))
    · simp [hnewline, hoverflow]
    · simp [hnewline, hoverflow]

theorem scrollDisplayLoop_cons
    (s : ShellState) (numLines i : Nat) (rest : List Nat) (placed : Nat) (x : Int) :
    scrollDisplayLoop font s numLines (i :: rest) placed x =
      if placed = numLines then i
      else scrollDisplayLoop font s numLines rest
        (placed + if (shellLayout font s.consoleWidth).breaksAt x (s.displayCharacters i)
          then 1 else 0)
        ((shellLayout font s.consoleWidth).cursorAfter x (s.displayCharacters i)) := by
  obtain ⟨hbreaks, hcursor⟩ := shellLayout_step font s (s.displayCharacters i) x
  rw [hbreaks, hcursor, scrollDisplayLoop]
  by_cases hnewline : s.displayCharacters i = 10
  · simp [hnewline]
  · by_cases hoverflow : s.overflows x
        (builtInBitmapFontGetGlyphAdvanceX font (s.displayCharacters i))
    · simp [hnewline, hoverflow]
    · simp [hnewline, hoverflow]

/-- Counting overflowing lines counts line breaks. -/
theorem foldl_overflowLinesStep_eq
    (s : ShellState) (indices : List Nat) :
    ∀ (n : Nat) (x : Int),
      (indices.foldl (overflowLinesStep font s) (n, x)).1 =
        n + ((shellLayout font s.consoleWidth).lineBreaks
          (indices.map s.displayCharacters) 0 x).length := by
  induction indices with
  | nil =>
      intro n x
      rfl
  | cons i rest ih =>
      intro n x
      rw [List.foldl_cons, List.map_cons, length_lineBreaks_cons, overflowLinesStep_eq, ih,
        Nat.add_assoc]

theorem shellGetNumOverflowLines_eq
    (s : ShellState) :
    shellGetNumOverflowLines font s =
      if (s.lineBreaks font).length ≥ s.numLines then
        (s.lineBreaks font).length - s.numLines + 1
      else 0 := by
  unfold shellGetNumOverflowLines
  dsimp only
  rw [foldl_overflowLinesStep_eq, Nat.zero_add]
  rfl

/-- Where scrolling by `k` lines stops in a text whose first character has position `pos`:
behind the character of its last line break. -/
def scrollPosition (breaks : List LineBreak) (pos length k : Nat) : Nat :=
  match k with
  | 0 => 0
  | k + 1 => (breaks[k]?.map fun b => b.position + 1 - pos).getD length

theorem scrollPosition_zero
    (breaks : List LineBreak) (pos length : Nat) :
    scrollPosition breaks pos length 0 = 0 := by
  rfl

theorem scrollPosition_of_some
    {breaks : List LineBreak} {b : LineBreak} {k : Nat} (hb : breaks[k]? = some b)
    (pos length : Nat) :
    scrollPosition breaks pos length (k + 1) = b.position + 1 - pos := by
  simp [scrollPosition, hb]

theorem scrollPosition_of_none
    {breaks : List LineBreak} {k : Nat} (hb : breaks[k]? = none) (pos length : Nat) :
    scrollPosition breaks pos length (k + 1) = length := by
  simp [scrollPosition, hb]

theorem scrollPosition_succ
    {breaks : List LineBreak} {pos : Nat} (hbreaks : ∀ b ∈ breaks, pos + 1 ≤ b.position)
    (length k : Nat) :
    scrollPosition breaks pos (length + 1) (k + 1) =
      scrollPosition breaks (pos + 1) length (k + 1) + 1 := by
  cases hb : breaks[k]? with
  | none =>
      rw [scrollPosition_of_none hb, scrollPosition_of_none hb]
  | some b =>
      have hpos := hbreaks b (List.mem_of_getElem? hb)
      rw [scrollPosition_of_some hb, scrollPosition_of_some hb]
      omega

/-- The loop of the scrolling. -/
theorem scrollDisplayLoop_eq
    (s : ShellState) (numLines : Nat) (indices : List Nat) :
    ∀ (placed pos : Nat) (x : Int), placed ≤ numLines →
      (indices ++ [s.displayRingBufferEnd])[scrollPosition
          ((shellLayout font s.consoleWidth).lineBreaks (indices.map s.displayCharacters) pos x)
          pos indices.length (numLines - placed)]? =
        some (scrollDisplayLoop font s numLines indices placed x) := by
  induction indices with
  | nil =>
      intro placed pos x _
      cases numLines - placed <;> rfl
  | cons i rest ih =>
      intro placed pos x hplaced
      rw [scrollDisplayLoop_cons, List.map_cons, lineBreaks_cons]
      by_cases hdone : placed = numLines
      · rw [if_pos hdone, hdone, Nat.sub_self]
        rfl
      rw [if_neg hdone]
      obtain ⟨k, hk⟩ : ∃ k, numLines - placed = k + 1 := ⟨numLines - placed - 1, by omega⟩
      have hlater := fun b hb => (position_lt (shellLayout font s.consoleWidth)
        (rest.map s.displayCharacters) (pos + 1)
        ((shellLayout font s.consoleWidth).cursorAfter x (s.displayCharacters i)) b hb).1
      rw [hk, List.length_cons, List.cons_append]
      by_cases hbreaks :
          (shellLayout font s.consoleWidth).breaksAt x (s.displayCharacters i) = true
      · have hrest := ih (placed + 1) (pos + 1)
          ((shellLayout font s.consoleWidth).cursorAfter x (s.displayCharacters i)) (by omega)
        rw [show numLines - (placed + 1) = k by omega] at hrest
        rw [if_pos hbreaks, if_pos hbreaks, ← hrest]
        cases k with
        | zero =>
            simp [scrollPosition]
        | succ k =>
            have hcons (b : LineBreak) (later : List LineBreak) (n : Nat) :
                scrollPosition (b :: later) pos n (k + 1 + 1) =
                  scrollPosition later pos n (k + 1) := by
              rfl
            rw [hcons, scrollPosition_succ hlater, List.getElem?_cons_succ]
      · have hrest := ih placed (pos + 1)
          ((shellLayout font s.consoleWidth).cursorAfter x (s.displayCharacters i)) hplaced
        rw [hk] at hrest
        rw [if_neg hbreaks, if_neg hbreaks, scrollPosition_succ hlater, List.getElem?_cons_succ]
        exact hrest

/-- Setting a text that fits on the lines ends on the line of its last break. -/
theorem setTextLoop_currentLine
    (indices : List Nat) :
    ∀ (k : Nat) (s : ShellState),
      s.currentLine + ((shellLayout font s.consoleWidth).lineBreaks
          (indices.map s.displayCharacters) 0 s.outputCursorX).length < s.numLines →
        (setTextLoop font indices k s).currentLine =
          s.currentLine + ((shellLayout font s.consoleWidth).lineBreaks
            (indices.map s.displayCharacters) 0 s.outputCursorX).length := by
  induction indices with
  | nil =>
      intro k s _
      rfl
  | cons i rest ih =>
      intro k s hfits
      rw [List.map_cons, length_lineBreaks_cons, ← Nat.add_assoc] at hfits ⊢
      obtain ⟨hbreaks, hcursor⟩ :=
        shellLayout_step font s (s.displayCharacters i) s.outputCursorX
      rw [hbreaks, hcursor] at hfits ⊢
      unfold setTextLoop
      rw [if_neg (by omega)]
      unfold ShellState.overflows at hfits ⊢
      by_cases hnewline : s.displayCharacters i = 10
      · simp only [hnewline, beq_self_eq_true, Bool.true_or, if_true] at hfits ⊢
        split <;> exact ih _ _ hfits
      · by_cases hoverflow : s.outputCursorX +
            builtInBitmapFontGetGlyphAdvanceX font (s.displayCharacters i) >
              s.consoleWidth.toInt32.toInt
        · simp only [hnewline, hoverflow, decide_true, Bool.or_true, if_true, if_false] at hfits ⊢
          split
          · simp only [hoverflow, decide_true, if_true, Int.zero_add]
            exact ih _ _ hfits
          · simp only [hoverflow, decide_true, if_true, Int.zero_add]
            exact ih _ _ hfits
        · have hnewline' : (s.displayCharacters i == 10) = false := beq_false_of_ne hnewline
          simp only [hnewline, hnewline', hoverflow, decide_false, Bool.or_false, if_false,
            Bool.false_eq_true] at hfits ⊢
          split
          · simp only [hoverflow, decide_false, if_false, Bool.false_eq_true]
            exact ih _ _ hfits
          · simp only [hoverflow, decide_false, if_false, Bool.false_eq_true]
            exact ih _ _ hfits

end Loops

section Scrolling

variable (font : BitmapFont) {s : ShellState}

/-- Index of the displayed character of this position. -/
def ShellState.displayIndex (s : ShellState) (position : Nat) : Nat :=
  (s.firstDisplayChar + position) % numMaxDisplayCharacters

/-- Index of the first character of line `k` of the displayed text. -/
def ShellState.lineStartIndex (s : ShellState) (k : Nat) : Option Nat :=
  ((shellLayout font s.consoleWidth).lineStart s.window k).map s.displayIndex

theorem getElem?_displayIndices
    (hfirst : s.firstDisplayChar < numMaxDisplayCharacters)
    (hend : s.displayRingBufferEnd < numMaxDisplayCharacters) {position : Nat}
    (hposition : position ≤
      (displayIndices s.firstDisplayChar s.displayRingBufferEnd).length) :
    (displayIndices s.firstDisplayChar s.displayRingBufferEnd ++
        [s.displayRingBufferEnd])[position]? = some (s.displayIndex position) := by
  have hdistance := Ring.add_distance hfirst hend
  unfold displayIndices at hposition ⊢
  rw [Ring.length_indices] at hposition
  rcases Nat.lt_or_eq_of_le hposition with hlt | rfl
  · rw [List.getElem?_append_left (by rw [Ring.length_indices]; exact hlt)]
    unfold Ring.indices
    rw [List.getElem?_map, List.getElem?_range hlt]
    rfl
  · rw [List.getElem?_append_right (by rw [Ring.length_indices]), Ring.length_indices,
      Nat.sub_self]
    exact congrArg some hdistance.symm

theorem length_window
    (s : ShellState) :
    s.window.length = (displayIndices s.firstDisplayChar s.displayRingBufferEnd).length := by
  unfold ShellState.window
  rw [List.length_map]

theorem scrollPosition_le
    (s : ShellState) (k : Nat) :
    scrollPosition (s.lineBreaks font) 0 s.window.length k ≤ s.window.length := by
  cases k with
  | zero =>
      exact Nat.zero_le _
  | succ k =>
      cases hb : (s.lineBreaks font)[k]? with
      | none =>
          rw [scrollPosition_of_none hb]
      | some b =>
          have hlt := (position_lt _ _ _ _ b (List.mem_of_getElem? hb)).2
          rw [Nat.zero_add] at hlt
          rw [scrollPosition_of_some hb]
          exact hlt

/-- Where scrolling by `k` lines stops. -/
theorem firstDisplayChar_shellScrollDisplay
    (hfirst : s.firstDisplayChar < numMaxDisplayCharacters)
    (hend : s.displayRingBufferEnd < numMaxDisplayCharacters) (k : Nat) :
    (shellScrollDisplay font k s).firstDisplayChar =
      s.displayIndex (scrollPosition (s.lineBreaks font) 0 s.window.length k) := by
  have hloop := scrollDisplayLoop_eq font s k
    (displayIndices s.firstDisplayChar s.displayRingBufferEnd) 0 0 0 (Nat.zero_le k)
  have hindex := getElem?_displayIndices hfirst hend
    ((scrollPosition_le font s k).trans_eq (length_window s))
  rw [length_window] at hindex ⊢
  exact (Option.some.inj (hindex.symm.trans hloop)).symm

/-- Different positions of the ring have different indices. -/
theorem displayIndex_succ_ne
    (s : ShellState) (position : Nat) :
    s.displayIndex (position + 1) ≠ s.displayIndex position := by
  unfold ShellState.displayIndex numMaxDisplayCharacters
  omega

/-- Scrolling by `k` lines stops at the start of line `k` if the break in front of the line
is a newline.  It skips the first character of a line that starts where the line before was
full. -/
theorem shellScrollDisplay_lineStart_iff
    (font : BitmapFont) (s : ShellState)
    (hfirst : s.firstDisplayChar < numMaxDisplayCharacters)
    (hend : s.displayRingBufferEnd < numMaxDisplayCharacters) (k : Nat)
    (hk : k ≤ (s.lineBreaks font).length) :
    some (shellScrollDisplay font k s).firstDisplayChar = s.lineStartIndex font k ↔
      k = 0 ∨ ∃ b, (s.lineBreaks font)[k - 1]? = some b ∧ b.byNewline = true := by
  rw [firstDisplayChar_shellScrollDisplay font hfirst hend]
  unfold ShellState.lineStartIndex Layout.lineStart
  cases k with
  | zero =>
      rw [scrollPosition_zero, List.getElem?_cons_zero, Option.map_some]
      exact iff_of_true rfl (Or.inl rfl)
  | succ k =>
      have hb := List.getElem?_eq_getElem hk
      generalize (s.lineBreaks font)[k] = b at hb
      have hstart : (0 :: ((shellLayout font s.consoleWidth).lineBreaks s.window 0 0).map
          LineBreak.lineStart)[k + 1]? = some b.lineStart := by
        rw [List.getElem?_cons_succ, List.getElem?_map]
        exact congrArg (Option.map LineBreak.lineStart) hb
      rw [hstart, Nat.add_sub_cancel, hb, scrollPosition_of_some hb, Nat.sub_zero]
      unfold LineBreak.lineStart
      cases hnewline : b.byNewline with
      | true =>
          simp [hnewline]
      | false =>
          simp [hnewline, displayIndex_succ_ne]

/-- A line of two characters and a line of one. -/
def twoLines : ShellState :=
  shellPuts (some (text "ab\nc")) (createShell blankFont 900 600)

theorem shellScrollDisplay_lineStart_twoLines :
    some (shellScrollDisplay blankFont 1 twoLines).firstDisplayChar =
      twoLines.lineStartIndex blankFont 1 :=
  (shellScrollDisplay_lineStart_iff blankFont twoLines (by decide +kernel) (by decide +kernel) 1
    (by decide +kernel)).mpr (Or.inr ⟨⟨2, true⟩, by decide +kernel, rfl⟩)

/-- On the console of ten columns the first typed character starts line 1, at index 10. -/
theorem narrowPrompt_scrolled_too_far :
    (typeCharacter 97 narrowPrompt).firstDisplayChar < numMaxDisplayCharacters ∧
      (typeCharacter 97 narrowPrompt).displayRingBufferEnd < numMaxDisplayCharacters ∧
      shellGetNumOverflowLines blankFont (typeCharacter 97 narrowPrompt) = 1 ∧
      1 ≤ ((typeCharacter 97 narrowPrompt).lineBreaks blankFont).length ∧
      (typeCharacter 97 narrowPrompt).lineStartIndex blankFont 1 = some 10 ∧
      (shellScrollDisplay blankFont 1 (typeCharacter 97 narrowPrompt)).firstDisplayChar = 11 := by
  rw [narrowPrompt, shellActivatePrompt_createShell]
  decide +kernel

end Scrolling

section Flush

variable (font : BitmapFont) {s : ShellState}

/-- A text with fewer breaks than lines is shown as a whole. -/
theorem shownCharacters_eq_self
    (consoleWidth : UInt32) (characters : List UInt32) :
    ∀ (lines : Nat) (x : Int),
      ((shellLayout font consoleWidth).lineBreaks characters 0 x).length < lines →
        shownCharacters font consoleWidth lines x characters = characters := by
  induction characters with
  | nil =>
      intro lines x _
      cases lines <;> rfl
  | cons c rest ih =>
      intro lines x hfits
      rw [length_lineBreaks_cons] at hfits
      cases lines with
      | zero =>
          exact absurd hfits (Nat.not_lt_zero _)
      | succ lines =>
          unfold shownCharacters
          dsimp only
          congr 1
          by_cases hnewline : c = 10
          · rw [if_pos hnewline]
            refine ih lines 0 ?_
            simpa [shellLayout, Layout.breaksAt, Layout.cursorAfter, hnewline,
              Nat.add_comm 1] using hfits
          · rw [if_neg hnewline]
            by_cases hoverflow : x + builtInBitmapFontGetGlyphAdvanceX font c >
                consoleWidth.toInt32.toInt
            · rw [if_pos hoverflow]
              refine ih lines _ ?_
              simpa [shellLayout, Layout.breaksAt, Layout.cursorAfter, hnewline, hoverflow,
                Nat.add_comm 1] using hfits
            · rw [if_neg hoverflow]
              refine ih (lines + 1) _ ?_
              simpa [shellLayout, Layout.breaksAt, Layout.cursorAfter, hnewline, hoverflow]
                using hfits

/-- Scrolling leaves the text behind a position. -/
theorem window_shellScrollDisplay
    (hfirst : s.firstDisplayChar < numMaxDisplayCharacters)
    (hend : s.displayRingBufferEnd < numMaxDisplayCharacters) (k : Nat) :
    (shellScrollDisplay font k s).window =
      s.window.drop (scrollPosition (s.lineBreaks font) 0 s.window.length k) := by
  have hle := scrollPosition_le font s k
  have hstop := firstDisplayChar_shellScrollDisplay font hfirst hend k
  generalize scrollPosition (s.lineBreaks font) 0 s.window.length k = position at hle hstop ⊢
  rw [length_window, displayIndices, Ring.length_indices] at hle
  rcases shellScrollDisplay_eq font k s with ⟨first, -, hscroll⟩
  rw [hscroll] at hstop ⊢
  unfold ShellState.window displayIndices
  rw [hstop, ← List.map_drop, Ring.indices_drop hfirst hend hle]
  rfl

theorem console_shellScrollDisplay
    (k : Nat) (s : ShellState) :
    (shellScrollDisplay font k s).console = s.console := by
  rcases shellScrollDisplay_eq font k s with ⟨first, -, hscroll⟩
  rw [hscroll]
  rfl

/-- After scrolling by the overflowing lines, the text that is left has fewer breaks than the
console has lines. -/
theorem length_lineBreaks_scrolled
    (hfirst : s.firstDisplayChar < numMaxDisplayCharacters)
    (hend : s.displayRingBufferEnd < numMaxDisplayCharacters) (hlines : 1 ≤ s.numLines)
    (hadvance : ∀ c, 0 ≤ builtInBitmapFontGetGlyphAdvanceX font c) :
    ((shellScrollDisplay font (shellGetNumOverflowLines font s) s).lineBreaks font).length <
      s.numLines := by
  rcases console_eq_iff.mp (console_shellScrollDisplay font (shellGetNumOverflowLines font s) s)
    with ⟨hwidth, -⟩
  rw [ShellState.lineBreaks, window_shellScrollDisplay font hfirst hend, hwidth]
  cases hoverflow : shellGetNumOverflowLines font s with
  | zero =>
      rw [shellGetNumOverflowLines_eq] at hoverflow
      rw [scrollPosition_zero, List.drop_zero, ← ShellState.lineBreaks]
      split at hoverflow <;> omega
  | succ k =>
      rw [shellGetNumOverflowLines_eq] at hoverflow
      have hk : k + s.numLines = (s.lineBreaks font).length := by
        split at hoverflow <;> omega
      have hb := List.getElem?_eq_getElem (show k < (s.lineBreaks font).length by omega)
      generalize (s.lineBreaks font)[k] = b at hb
      have hdrop := length_lineBreaks_drop (shellLayout font s.consoleWidth) hadvance hb
      rw [← ShellState.lineBreaks] at hdrop
      rw [scrollPosition_of_some hb, Nat.sub_zero]
      omega

/-- Resetting the text takes nothing from the window. -/
theorem shellGetNumOverflowLines_shellResetText
    (s : ShellState) :
    shellGetNumOverflowLines font (shellResetText font s) = shellGetNumOverflowLines font s := by
  rw [shellGetNumOverflowLines_eq, shellGetNumOverflowLines_eq]
  rfl

theorem currentLine_call
    (calls : List Graphics.GraphicsCall) (s : ShellState) :
    (s.call calls).currentLine = s.currentLine := by
  rfl

theorem graphics_call
    (calls : List Graphics.GraphicsCall) (s : ShellState) :
    (s.call calls).graphics = s.graphics ++ calls := by
  rfl

theorem onScreenCharacters_call
    (calls : List Graphics.GraphicsCall) (s : ShellState) :
    (s.call calls).onScreenCharacters = s.onScreenCharacters := by
  rfl

theorem length_window_lt
    (s : ShellState) :
    s.window.length < numMaxDisplayCharacters := by
  rw [length_window, displayIndices, Ring.length_indices]
  exact Nat.mod_lt _ (by decide)

/-- A text that fits on the lines is drawn and copied as a whole. -/
theorem setTextLoop_fits
    {indices : List Nat}
    (hroom : indices.length ≤ numMaxDisplayCharacters)
    (hcells : s.onScreenCharacters = fun _ => 0)
    (hfits : ((shellLayout font s.consoleWidth).lineBreaks
      (indices.map s.displayCharacters) 0 0).length < s.numLines) :
    let t := setTextLoop font indices 0
      { s with outputCursorX := 0, outputCursorY := 0, currentLine := 0 }
    t.currentLine < s.numLines ∧
      t.graphics = s.graphics ++
        drawCalls font (placeGlyphs font s.consoleWidth (indices.map s.displayCharacters) 0 0) ∧
      ∀ i, t.onScreenCharacters i = (indices.map s.displayCharacters)[i]?.getD 0 := by
  have hshown := shownCharacters_eq_self font s.consoleWidth _ s.numLines 0 hfits
  have hline := setTextLoop_currentLine font indices 0
    { s with outputCursorX := 0, outputCursorY := 0, currentLine := 0 }
    (by rw [Nat.zero_add]; exact hfits)
  rcases setTextLoop_shown font indices 0
    { s with outputCursorX := 0, outputCursorY := 0, currentLine := 0 } (by omega)
    (Nat.zero_le s.numLines) with ⟨hgraphics, hstored⟩
  dsimp only at hline hgraphics hstored
  rw [Nat.zero_add] at hline
  rw [Nat.sub_zero, hshown] at hgraphics hstored
  refine ⟨hline.trans_lt hfits, hgraphics, fun i => ?_⟩
  rw [hstored, storeText_apply, if_pos (Nat.zero_le i), Nat.sub_zero, hcells]

theorem shellSetText_window
    (hcells : s.onScreenCharacters = fun _ => 0)
    (hfits : (s.lineBreaks font).length < s.numLines) :
    let t := shellSetText font s.firstDisplayChar s.displayRingBufferEnd s
    t.currentLine < s.numLines ∧
      t.graphics =
        s.graphics ++ drawCalls font (placeGlyphs font s.consoleWidth s.window 0 0) ∧
      ∀ i, t.onScreenCharacters i = s.window[i]?.getD 0 := by
  have hlength := length_window_lt s
  rw [length_window] at hlength
  rw [shellSetText]
  exact setTextLoop_fits font hlength.le hcells hfits

theorem advanceX_builtInFont_nonneg
    (imageData : Nat → UInt8) (c : UInt32) :
    0 ≤ builtInBitmapFontGetGlyphAdvanceX (builtInFont imageData) c := by
  unfold builtInBitmapFontGetGlyphAdvanceX
  split
  · exact (builtInFont_glyph imageData c).1
  · exact Int.le_refl 0

end Flush

end Shell
end DexprOS
