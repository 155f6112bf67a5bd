import DexprOS.Drivers.Graphics.CpuGraphicsPainting
import DexprOS.ShellPrompt

/-!
# Erasing the text

The shell erases the glyphs of what it displayed before it displays something else.  It
keeps a copy of the characters, and lays them out a second time to find the places of
their glyphs.

Main facts:
* `setTextLoop_graphics`, `shellResetText_graphics`: both loops lay the text out in the
  same way;
* `drawCalls_paint`, `clearCalls_fill`: no glyph is drawn outside of what is cleared for
  it;
* `ShowsText.reset`, `ShowsText.setText`, `ShowsText.run`: the screen shows the copied
  characters on the background, and nothing else;
* `shellText_erased`: erasing undoes drawing, in every run.
-/

namespace DexprOS
namespace Shell

open Kernel Graphics Painting

section Layout

/-- A character and the cursor at which it is drawn. -/
structure PlacedGlyph where
  character : UInt32
  x : Int
  y : Int

variable (font : BitmapFont) (consoleWidth : UInt32)

/-- The cursor at which a glyph of this advance is drawn; it wraps at the end of a line. -/
def glyphCursor (advanceX x y : Int) : Int × Int :=
  if x + advanceX > consoleWidth.toInt32.toInt then
    (0, y + (builtInBitmapFontGetLineHeight font).toNat)
  else (x, y)

/-- The layout of a text from a cursor on. -/
def placeGlyphs : List UInt32 → Int → Int → List PlacedGlyph
  | [], _, _ => []
  | c :: rest, x, y =>
      if c = 10 then placeGlyphs rest 0 (y + (builtInBitmapFontGetLineHeight font).toNat)
      else
        let advanceX := builtInBitmapFontGetGlyphAdvanceX font c
        let cursor := glyphCursor font consoleWidth advanceX x y
        ⟨c, cursor.1, cursor.2⟩ :: placeGlyphs rest (cursor.1 + advanceX) cursor.2

/-- The part of a text that is displayed on so many lines. -/
def shownCharacters : Nat → Int → List UInt32 → List UInt32
  | _, _, [] => []
  | 0, _, _ :: _ => []
  | lines + 1, x, c :: rest =>
      let advanceX := builtInBitmapFontGetGlyphAdvanceX font c
      c ::
        if c = 10 then shownCharacters lines 0 rest
        else if x + advanceX > consoleWidth.toInt32.toInt then
          shownCharacters lines advanceX rest
        else shownCharacters (lines + 1) (x + advanceX) rest

/-- The box of a glyph on the screen, as it is cleared. -/
def PlacedGlyph.region (g : PlacedGlyph) : GrImageRegion :=
  let metrics := builtInBitmapFontGetGlyphMetrics font g.character
  { x := Int32.ofInt (g.x + metrics.offsetX)
    y := Int32.ofInt (g.y + metrics.offsetY)
    width := metrics.width
    height := metrics.height }

def drawCalls (glyphs : List PlacedGlyph) : List GraphicsCall :=
  glyphs.flatMap fun g => builtInBitmapFontDrawGlyph font g.character g.x g.y

def clearCalls (color : GrGraphicsColor) (glyphs : List PlacedGlyph) : List GraphicsCall :=
  glyphs.map fun g => .clearScreenRegions [g.region font] color

/-- Both functions of the font advance the cursor in the same way. -/
theorem advanceX_glyphMetrics
    (character : UInt32) :
    (builtInBitmapFontGetGlyphMetrics font character).advanceX =
      builtInBitmapFontGetGlyphAdvanceX font character := by
  unfold builtInBitmapFontGetGlyphMetrics builtInBitmapFontGetGlyphAdvanceX
  split <;> rfl

theorem foldl_resetTextStep
    (s : ShellState) (characters : List UInt32) (x y : Int) (calls : List GraphicsCall) :
    (characters.foldl (resetTextStep font s) (x, y, calls)).2.2 =
      calls ++ clearCalls font s.backgroundColor
        (placeGlyphs font s.consoleWidth characters x y) := by
  induction characters generalizing x y calls with
  | nil =>
      exact (List.append_nil calls).symm
  | cons c rest ih =>
      rw [List.foldl_cons, placeGlyphs]
      by_cases hnewline : c = 10
      · rw [if_pos hnewline, ← ih, resetTextStep, if_pos hnewline]
      · rw [if_neg hnewline, resetTextStep, if_neg hnewline]
        dsimp only
        rw [ih, advanceX_glyphMetrics, List.append_assoc]
        unfold ShellState.overflows glyphCursor
        simp only [decide_eq_true_eq]
        rfl

theorem shellResetText_graphics
    (s : ShellState) :
    (shellResetText font s).graphics =
      s.graphics ++ clearCalls font s.backgroundColor
        (placeGlyphs font s.consoleWidth s.onScreen 0 0) := by
  show s.graphics ++ _ = _
  rw [foldl_resetTextStep, List.nil_append]

/-- Cells after a text has been stored from the `k`-th one on. -/
def storeText (cells : Nat → UInt32) : Nat → List UInt32 → Nat → UInt32
  | _, [] => cells
  | k, c :: rest => storeText (Function.update cells k c) (k + 1) rest

theorem storeText_apply
    (cells : Nat → UInt32) (k : Nat) (characters : List UInt32) (i : Nat) :
    storeText cells k characters i =
      if k ≤ i then characters[i - k]?.getD (cells i) else cells i := by
  induction characters generalizing cells k with
  | nil =>
      rw [storeText, List.getElem?_nil, Option.getD_none, ite_self]
  | cons c rest ih =>
      rw [storeText, ih]
      rcases Nat.lt_trichotomy i k with hlt | rfl | hlt
      · rw [if_neg (by omega), if_neg (by omega), Function.update_of_ne (by omega)]
      · rw [if_neg (by omega), if_pos (Nat.le_refl i), Nat.sub_self, Function.update_self]
        rfl
      · rw [if_pos (by omega), if_pos (by omega), Function.update_of_ne (by omega),
          show i - k = i - (k + 1) + 1 by omega, List.getElem?_cons_succ]

/-- What the loop of `DexprOS_ShellSetText` draws and copies. -/
theorem setTextLoop_shown
    (indices : List Nat) (k : Nat) (s : ShellState)
    (hroom : k + indices.length ≤ numMaxDisplayCharacters) (hline : s.currentLine ≤ s.numLines) :
    let shown := shownCharacters font s.consoleWidth (s.numLines - s.currentLine) s.outputCursorX
      (indices.map s.displayCharacters)
    (setTextLoop font indices k s).graphics =
        s.graphics ++ drawCalls font
          (placeGlyphs font s.consoleWidth shown s.outputCursorX s.outputCursorY) ∧
      (setTextLoop font indices k s).onScreenCharacters =
        storeText s.onScreenCharacters k shown := by
  induction indices generalizing k s with
  | nil =>
      exact ⟨(List.append_nil s.graphics).symm, rfl⟩
  | cons i rest ih =>
      rw [List.length_cons] at hroom
      unfold setTextLoop
      by_cases hfull : s.currentLine = s.numLines
      · rw [if_pos hfull, hfull, Nat.sub_self]
        exact ⟨(List.append_nil s.graphics).symm, rfl⟩
      rw [if_neg hfull]
      obtain ⟨lines, hlines⟩ : ∃ lines, s.numLines - s.currentLine = lines + 1 :=
        ⟨s.numLines - s.currentLine - 1, by omega⟩
      have hnext : s.numLines - (s.currentLine + 1) = lines := by omega
      rw [hlines, List.map_cons, shownCharacters]
      dsimp only
      rw [if_pos (show k < numMaxDisplayCharacters by omega),
        if_pos (show k < numMaxDisplayCharacters by omega)]
      by_cases hnewline : s.displayCharacters i = 10
      · rw [if_pos hnewline, if_pos hnewline, placeGlyphs, if_pos hnewline]
        have hrest := ih (k + 1)
          { s with
            onScreenCharacters := Function.update s.onScreenCharacters k (s.displayCharacters i)
            outputCursorX := 0
            outputCursorY := s.outputCursorY + (builtInBitmapFontGetLineHeight font).toNat
            currentLine := s.currentLine + 1 } (by omega)
          (show s.currentLine + 1 ≤ s.numLines by omega)
        rw [hnext] at hrest
        exact hrest
      · rw [if_neg hnewline, if_neg hnewline, placeGlyphs, if_neg hnewline]
        generalize hadvance :
          builtInBitmapFontGetGlyphAdvanceX font (s.displayCharacters i) = advanceX
        by_cases hoverflow : s.outputCursorX + advanceX > s.consoleWidth.toInt32.toInt
        · obtain ⟨hgraphics, hcells⟩ := ih (k + 1)
            { s with
              onScreenCharacters :=
                Function.update s.onScreenCharacters k (s.displayCharacters i)
              outputCursorX := 0 + advanceX
              outputCursorY := s.outputCursorY + (builtInBitmapFontGetLineHeight font).toNat
              currentLine := s.currentLine + 1
              graphics := s.graphics ++
                builtInBitmapFontDrawGlyph font (s.displayCharacters i) 0
                  (s.outputCursorY + (builtInBitmapFontGetLineHeight font).toNat) }
            (by omega) (show s.currentLine + 1 ≤ s.numLines by omega)
          unfold ShellState.overflows glyphCursor
          dsimp only at hgraphics hcells
          rw [hnext, Int.zero_add] at hgraphics hcells
          simp only [hoverflow, decide_true, if_true, Int.zero_add]
          exact ⟨hgraphics.trans (List.append_assoc _ _ _), hcells⟩
        · obtain ⟨hgraphics, hcells⟩ := ih (k + 1)
            { s with
              onScreenCharacters :=
                Function.update s.onScreenCharacters k (s.displayCharacters i)
              outputCursorX := s.outputCursorX + advanceX
              graphics := s.graphics ++
                builtInBitmapFontDrawGlyph font (s.displayCharacters i) s.outputCursorX
                  s.outputCursorY }
            (by omega) hline
          unfold ShellState.overflows glyphCursor
          dsimp only at hgraphics hcells
          rw [hlines] at hgraphics hcells
          simp only [hoverflow, decide_false, if_false, Bool.false_eq_true]
          exact ⟨hgraphics.trans (List.append_assoc _ _ _), hcells⟩

end Layout

section Fonts

/-- The coordinates of a glyph along one axis take 31 bits. -/
def BoxFits (pos : Int) (size : UInt32) : Prop :=
  -2147483648 < pos ∧ size.toNat < 2147483648 ∧ pos + size.toNat < 2147483648

/-- Characters with an entry in the font's table. -/
def InFontTable (character : UInt32) : Prop :=
  hasGlyph character = true ∧ character ≠ 127

/-- No glyph of the font moves the cursor back, and at every cursor of the console the
coordinates of its box take 31 bits. -/
structure FontFits (font : BitmapFont) (consoleWidth : UInt32) (numLines : Nat) : Prop where
  advance_nonneg : ∀ c, InFontTable c → 0 ≤ (font.glyph c).advanceX
  column_fits : ∀ c, InFontTable c → ∀ x : Int, 0 ≤ x → x ≤ max consoleWidth.toInt32.toInt 0 →
    BoxFits (x + (font.glyph c).bitmapLeft) (font.glyph c).width
  row_fits : ∀ c, InFontTable c → ∀ y : Int, 0 ≤ y → y ≤ numLines * font.lineHeight.toNat →
    BoxFits (y + (font.lineHeight.toNat - (font.glyph c).bitmapTop)) (font.glyph c).height

/-- Text without null characters and without the character behind the font's table. -/
def PlainText (characters : List UInt32) : Prop :=
  ∀ c ∈ characters, c ≠ 0 ∧ c ≠ 127

variable {font : BitmapFont} {consoleWidth : UInt32} {numLines : Nat}

theorem FontFits.advanceX_nonneg
    (hfont : FontFits font consoleWidth numLines) {c : UInt32} (hc : c ≠ 127) :
    0 ≤ builtInBitmapFontGetGlyphAdvanceX font c := by
  unfold builtInBitmapFontGetGlyphAdvanceX
  split
  · rename_i hglyph
    exact hfont.advance_nonneg c ⟨hglyph, hc⟩
  · exact Int.le_refl 0

/-- The glyph's cursor is on the console. -/
def PlacedGlyph.OnConsole (font : BitmapFont) (consoleWidth : UInt32) (numLines : Nat)
    (g : PlacedGlyph) : Prop :=
  g.character ≠ 127 ∧ (0 ≤ g.x ∧ g.x ≤ max consoleWidth.toInt32.toInt 0) ∧
    0 ≤ g.y ∧ g.y ≤ numLines * font.lineHeight.toNat

/-- What is displayed on so many lines is laid out on so many lines. -/
theorem placeGlyphs_onConsole
    (hfont : FontFits font consoleWidth numLines) (lines : Nat) {characters : List UInt32}
    (hplain : PlainText characters) {x y : Int} (hx : 0 ≤ x) (hy : 0 ≤ y)
    (hlines : y + lines * font.lineHeight.toNat ≤ numLines * font.lineHeight.toNat) :
    ∀ g ∈ placeGlyphs font consoleWidth
        (shownCharacters font consoleWidth lines x characters) x y,
      g.OnConsole font consoleWidth numLines := by
  induction characters generalizing lines x y with
  | nil =>
      intro g hg
      cases lines <;> cases hg
  | cons c rest ih =>
      cases lines with
      | zero =>
          intro g hg
          cases hg
      | succ lines =>
          have hc := (hplain c List.mem_cons_self).2
          have hrest : PlainText rest := fun c hc => hplain c (List.mem_cons_of_mem _ hc)
          have hadvance := hfont.advanceX_nonneg hc
          have hheight : (0 : Int) ≤ font.lineHeight.toNat := Int.natCast_nonneg _
          have hsucc : ((lines + 1 : Nat) : Int) * font.lineHeight.toNat =
              lines * font.lineHeight.toNat + font.lineHeight.toNat := by
            push_cast
            ring
          have hproduct : (0 : Int) ≤ lines * font.lineHeight.toNat :=
            Int.mul_nonneg (Int.natCast_nonneg _) hheight
          rw [hsucc] at hlines
          rw [shownCharacters, placeGlyphs]
          by_cases hnewline : c = 10
          · rw [if_pos hnewline, if_pos hnewline]
            exact ih lines hrest (Int.le_refl 0) (Int.add_nonneg hy hheight)
              (by unfold builtInBitmapFontGetLineHeight; omega)
          · rw [if_neg hnewline, if_neg hnewline]
            unfold glyphCursor builtInBitmapFontGetLineHeight
            by_cases hoverflow :
              x + builtInBitmapFontGetGlyphAdvanceX font c > consoleWidth.toInt32.toInt
            · simp only [if_pos hoverflow, Int.zero_add]
              intro g hg
              obtain rfl | hg := List.mem_cons.mp hg
              · exact ⟨hc, ⟨Int.le_refl 0, le_max_right _ _⟩, Int.add_nonneg hy hheight,
                  show y + _ ≤ _ by omega⟩
              · exact ih lines hrest hadvance (Int.add_nonneg hy hheight) (by omega) g hg
            · simp only [if_neg hoverflow]
              intro g hg
              obtain rfl | hg := List.mem_cons.mp hg
              · refine ⟨hc, ⟨hx, le_max_of_le_left ?_⟩, hy, show y ≤ _ by omega⟩
                show x ≤ _
                omega
              · refine ih (lines + 1) hrest (Int.add_nonneg hx hadvance) hy ?_ g hg
                omega

end Fonts

section Glyphs

variable {font : BitmapFont} {consoleWidth : UInt32} {numLines : Nat} {g : PlacedGlyph}

theorem BoxFits.axisFits
    {pos : Int} {size : UInt32}
    (hfits : BoxFits pos size) :
    AxisFits (Int32.ofInt pos) size := by
  obtain ⟨hlo, hsize, hhi⟩ := hfits
  have hpos : (Int32.ofInt pos).toInt = pos := by
    rw [Int32.toInt_ofInt]
    exact Int.bmod_eq_of_le (by show -2147483648 ≤ pos; omega) (by show pos < 2147483648; omega)
  refine ⟨?_, hsize, ?_⟩
  · rw [hpos]
    exact hlo
  · rw [hpos]
    exact hhi

/-- The box that is cleared for a glyph. -/
theorem region_of_hasGlyph
    (hglyph : hasGlyph g.character = true) :
    g.region font =
      { x := Int32.ofInt (g.x + (font.glyph g.character).bitmapLeft)
        y := Int32.ofInt
          (g.y + (font.lineHeight.toNat - (font.glyph g.character).bitmapTop))
        width := (font.glyph g.character).width
        height := (font.glyph g.character).height } := by
  unfold PlacedGlyph.region builtInBitmapFontGetGlyphMetrics
  rw [if_pos hglyph]

theorem region_axisFits
    (hfont : FontFits font consoleWidth numLines) (hg : g.OnConsole font consoleWidth numLines)
    (hglyph : hasGlyph g.character = true) :
    AxisFits (g.region font).x (g.region font).width ∧
      AxisFits (g.region font).y (g.region font).height := by
  obtain ⟨hc, ⟨hx, hx'⟩, hy, hy'⟩ := hg
  rw [region_of_hasGlyph hglyph]
  exact ⟨(hfont.column_fits _ ⟨hglyph, hc⟩ _ hx hx').axisFits,
    (hfont.row_fits _ ⟨hglyph, hc⟩ _ hy hy').axisFits⟩

/-- A character without a glyph has an empty box. -/
theorem region_regionSumFits
    (hfont : FontFits font consoleWidth numLines) (hg : g.OnConsole font consoleWidth numLines) :
    RegionSumFits (g.region font).x (g.region font).width := by
  by_cases hglyph : hasGlyph g.character = true
  · exact (region_axisFits hfont hg hglyph).1.regionSumFits
  · have hwidth : (g.region font).width = 0 := by
      unfold PlacedGlyph.region builtInBitmapFontGetGlyphMetrics
      rw [if_neg hglyph]
    have hlt := (g.region font).x.toInt_lt
    intro _
    rw [hwidth]
    show _ + (0 : Int) < _
    omega

variable {F : CpuGrFrame} (blend : UInt8 → UInt8 → UInt8 → UInt8)

/-- The pixels that are cleared for the glyphs. -/
def glyphSlots (font : BitmapFont) (F : CpuGrFrame) (glyphs : List PlacedGlyph) : Set Nat :=
  {k | ∃ g ∈ glyphs, k ∈ F.regionSlots (g.region font)}

theorem drawGlyph_paints
    (hF : F.Fits) (hfont : FontFits font consoleWidth numLines)
    (hg : g.OnConsole font consoleWidth numLines) :
    Paints (fun d => d.frame = F) F.view (F.regionSlots (g.region font))
      (runGraphicsCalls blend (builtInBitmapFontDrawGlyph font g.character g.x g.y)) := by
  unfold builtInBitmapFontDrawGlyph
  by_cases hglyph : hasGlyph g.character = true
  · rw [if_pos hglyph]
    obtain ⟨hx, hy⟩ := region_axisFits hfont hg hglyph
    refine blit_paints blend hF hx hy ?_ ?_ ?_ ?_ <;> rw [region_of_hasGlyph hglyph]
    dsimp only
    congr 1
    omega
  · rw [if_neg hglyph]
    exact paints_id.mono (Set.empty_subset _)

theorem drawCalls_paint
    (hF : F.Fits) (hfont : FontFits font consoleWidth numLines) {glyphs : List PlacedGlyph}
    (hglyphs : ∀ g ∈ glyphs, g.OnConsole font consoleWidth numLines) :
    Paints (fun d => d.frame = F) F.view (glyphSlots font F glyphs)
      (runGraphicsCalls blend (drawCalls font glyphs)) := by
  have hpaints := Paints.foldl fun g hg => drawGlyph_paints blend hF hfont (hglyphs g hg)
  unfold runGraphicsCalls drawCalls
  simp only [List.foldl_flatMap]
  exact hpaints

theorem clearCalls_fill
    (hF : F.Fits) (hfont : FontFits font consoleWidth numLines) {glyphs : List PlacedGlyph}
    (hglyphs : ∀ g ∈ glyphs, g.OnConsole font consoleWidth numLines) (color : GrGraphicsColor) :
    Fills (fun d => d.frame = F) F.view (glyphSlots font F glyphs) color
      (runGraphicsCalls blend (clearCalls font color glyphs)) := by
  have hfills := Fills.foldl fun g hg =>
    clearRegion_fills blend hF (region_regionSumFits hfont (hglyphs g hg)) color
  unfold runGraphicsCalls clearCalls
  simp only [List.foldl_map]
  exact hfills

end Glyphs

section Screen

/-- The driver's data after the calls that the shell made. -/
def ShellState.screen (blend : UInt8 → UInt8 → UInt8 → UInt8) (d : CpuGrGraphicsDrvData)
    (s : ShellState) : CpuGrGraphicsDrvData :=
  runGraphicsCalls blend s.graphics d

def ShowsBackground (color : GrGraphicsColor) (d : CpuGrGraphicsDrvData) : Prop :=
  ∀ p ∈ d.visible, d.color p = color

/-- Nothing but the background is visible, and no character has been copied. -/
structure BlankScreen (blend : UInt8 → UInt8 → UInt8 → UInt8) (d : CpuGrGraphicsDrvData)
    (s : ShellState) : Prop where
  background : ShowsBackground s.backgroundColor (s.screen blend d)
  onScreenCharacters_eq : ∀ i < numMaxDisplayCharacters, s.onScreenCharacters i = 0

/-- Where the shell looks for the glyphs that it has to erase. -/
def ShellState.glyphs (font : BitmapFont) (s : ShellState) : List PlacedGlyph :=
  placeGlyphs font s.consoleWidth s.onScreen 0 0

/-- The screen shows the copied characters on the background. -/
structure ShowsText (blend : UInt8 → UInt8 → UInt8 → UInt8) (font : BitmapFont)
    (d : CpuGrGraphicsDrvData) (s : ShellState) : Prop where
  fontFits : FontFits font s.consoleWidth s.numLines
  onConsole : ∀ g ∈ s.glyphs font, g.OnConsole font s.consoleWidth s.numLines
  picture : ∃ blank : CpuGrGraphicsDrvData, blank.frame = d.frame ∧
    ShowsBackground s.backgroundColor blank ∧
    ∀ p ∈ d.visible,
      (s.screen blend d).color p =
        (runGraphicsCalls blend (drawCalls font (s.glyphs font)) blank).color p

variable {blend : UInt8 → UInt8 → UInt8 → UInt8} {font : BitmapFont} {d : CpuGrGraphicsDrvData}
variable {s t : ShellState}

/-- What has been drawn, and on what console. -/
def ShellState.drawn (s : ShellState) :
    (Nat → UInt32) × List GraphicsCall × UInt32 × Nat × GrGraphicsColor :=
  (s.onScreenCharacters, s.graphics, s.consoleWidth, s.numLines, s.backgroundColor)

theorem drawn_eq_iff :
    t.drawn = s.drawn ↔
      t.onScreenCharacters = s.onScreenCharacters ∧ t.graphics = s.graphics ∧
        t.consoleWidth = s.consoleWidth ∧ t.numLines = s.numLines ∧
        t.backgroundColor = s.backgroundColor := by
  simp only [ShellState.drawn, Prod.mk.injEq]

theorem BlankScreen.congr
    (hs : BlankScreen blend d s) (hdrawn : t.drawn = s.drawn) :
    BlankScreen blend d t := by
  obtain ⟨hcells, hgraphics, -, -, hcolor⟩ := drawn_eq_iff.mp hdrawn
  refine ⟨?_, ?_⟩
  · unfold ShellState.screen
    rw [hgraphics, hcolor]
    exact hs.background
  · rw [hcells]
    exact hs.onScreenCharacters_eq

theorem ShowsText.congr
    (hs : ShowsText blend font d s) (hdrawn : t.drawn = s.drawn) :
    ShowsText blend font d t := by
  obtain ⟨hcells, hgraphics, hwidth, hlines, hcolor⟩ := drawn_eq_iff.mp hdrawn
  have hscreen : t.screen blend d = s.screen blend d := by
    unfold ShellState.screen
    rw [hgraphics]
  have hglyphs : t.glyphs font = s.glyphs font := by
    unfold ShellState.glyphs ShellState.onScreen
    rw [hcells, hwidth]
  refine ⟨?_, ?_, ?_⟩
  · rw [hwidth, hlines]
    exact hs.fontFits
  · rw [hglyphs, hwidth, hlines]
    exact hs.onConsole
  · rw [hscreen, hglyphs, hcolor]
    exact hs.picture

variable (blend d) in
theorem screen_frame
    (s : ShellState) :
    (s.screen blend d).frame = d.frame :=
  runGraphicsCalls_frame blend s.graphics d

variable (blend d) in
theorem screen_visible
    (s : ShellState) :
    (s.screen blend d).visible = d.visible :=
  visible_of_frame (screen_frame blend d s)

/-- The colour of a pixel is what the driver's view of its slot shows. -/
theorem color_eq_view
    (hframe : d.frame.Fits) {d' : CpuGrGraphicsDrvData} (hd' : d'.frame = d.frame)
    (p : Nat × Nat) :
    d'.color p = d.frame.view d' (Damage.rasterIndex d.presentationPixelStride.toNat p.1 p.2) :=
  color_eq_slotColor hframe hd' p

end Screen

section Erasing

variable {blend : UInt8 → UInt8 → UInt8 → UInt8} {font : BitmapFont} {d : CpuGrGraphicsDrvData}
variable {s t : ShellState}

/-- Erasing a text that is shown leaves the background. -/
theorem ShowsText.reset
    (hs : ShowsText blend font d s) (hframe : d.frame.Fits) :
    BlankScreen blend d (shellResetText font s) := by
  refine ⟨fun p hp => ?_, fun _ _ => rfl⟩
  obtain ⟨blank, hblank, hbackground, hpicture⟩ := hs.picture
  have hscreen : (shellResetText font s).screen blend d =
      runGraphicsCalls blend (clearCalls font s.backgroundColor (s.glyphs font))
        (s.screen blend d) := by
    unfold ShellState.screen ShellState.glyphs
    rw [shellResetText_graphics, runGraphicsCalls_append]
  rw [screen_visible] at hp
  have hcolor := hbackground p (by rw [visible_of_frame hblank]; exact hp)
  have hagree := hpicture p hp
  have hdrawn := (runGraphicsCalls_frame blend (drawCalls font (s.glyphs font)) blank).trans hblank
  rw [color_eq_view hframe hblank] at hcolor
  rw [color_eq_view hframe (screen_frame blend d s), color_eq_view hframe hdrawn] at hagree
  rw [color_eq_view hframe (screen_frame blend d (shellResetText font s)), hscreen]
  have hfills := clearCalls_fill blend hframe hs.fontFits hs.onConsole s.backgroundColor
  have hpaints := drawCalls_paint blend hframe hs.fontFits hs.onConsole
  exact hfills.erases hpaints subset_rfl hblank (screen_frame blend d s) hcolor hagree

/-- A blank screen shows the empty text. -/
theorem BlankScreen.onScreen_eq
    (hs : BlankScreen blend d s) :
    s.onScreen = [] := by
  have hzero : (List.range numMaxDisplayCharacters).map s.onScreenCharacters =
      List.replicate numMaxDisplayCharacters 0 := by
    refine List.eq_replicate_of_mem ?_ |>.trans (by rw [List.length_map, List.length_range])
    intro c hc
    obtain ⟨i, hi, rfl⟩ := List.mem_map.mp hc
    exact hs.onScreenCharacters_eq i (List.mem_range.mp hi)
  unfold ShellState.onScreen
  rw [hzero, List.takeWhile_replicate]
  rfl

theorem BlankScreen.showsText
    (hs : BlankScreen blend d s) (hfont : FontFits font s.consoleWidth s.numLines) :
    ShowsText blend font d s := by
  have hglyphs : s.glyphs font = [] := by
    unfold ShellState.glyphs
    rw [hs.onScreen_eq]
    rfl
  refine ⟨hfont, ?_, s.screen blend d, screen_frame blend d s, hs.background, ?_⟩
  · rw [hglyphs]
    exact fun g hg => absurd hg List.not_mem_nil
  · rw [hglyphs]
    exact fun _ _ => rfl

/-- A text that is stored in empty cells is read back up to its end. -/
theorem takeWhile_storeText
    {cells : Nat → UInt32} {characters : List UInt32} {n : Nat}
    (hcells : ∀ i < n, cells i = 0) (hlength : characters.length ≤ n)
    (hne : ∀ c ∈ characters, c ≠ 0) :
    ((List.range n).map (storeText cells 0 characters)).takeWhile (· ≠ 0) = characters := by
  have hmap : (List.range n).map (storeText cells 0 characters) =
      characters ++ List.replicate (n - characters.length) 0 := by
    refine List.ext_getElem ?_ fun i hi hi' => ?_
    · rw [List.length_map, List.length_range, List.length_append, List.length_replicate]
      omega
    · rw [List.length_map, List.length_range] at hi
      rw [List.getElem_map, List.getElem_range, storeText_apply, if_pos (Nat.zero_le i),
        Nat.sub_zero, hcells i hi]
      by_cases hlt : i < characters.length
      · rw [List.getElem_append_left hlt, List.getElem?_eq_getElem hlt, Option.getD_some]
      · rw [List.getElem_append_right (by omega), List.getElem_replicate,
          List.getElem?_eq_none (by omega), Option.getD_none]
  rw [hmap, List.takeWhile_append_of_pos fun c hc => decide_eq_true (hne c hc),
    List.takeWhile_replicate]
  simp

theorem shownCharacters_sublist
    (font : BitmapFont) (consoleWidth : UInt32) (lines : Nat) (x : Int)
    (characters : List UInt32) :
    (shownCharacters font consoleWidth lines x characters).Sublist characters := by
  induction characters generalizing lines x with
  | nil =>
      cases lines <;> exact List.Sublist.refl []
  | cons c rest ih =>
      cases lines with
      | zero =>
          exact List.nil_sublist _
      | succ lines =>
          rw [shownCharacters]
          refine List.Sublist.cons_cons c ?_
          repeat' split
          all_goals exact ih _ _

/-- What no operation changes. -/
def ShellState.console (s : ShellState) : UInt32 × Nat × GrGraphicsColor :=
  (s.consoleWidth, s.numLines, s.backgroundColor)

theorem console_eq_iff :
    t.console = s.console ↔
      t.consoleWidth = s.consoleWidth ∧ t.numLines = s.numLines ∧
        t.backgroundColor = s.backgroundColor := by
  simp only [ShellState.console, Prod.mk.injEq]

theorem console_shellSetText
    (font : BitmapFont) (firstChar endChar : Nat) (s : ShellState) :
    (shellSetText font firstChar endChar s).console = s.console :=
  shellSetText_keeps font ShellState.console (fun _ _ _ _ _ _ => rfl) firstChar endChar s

/-- The window of displayed characters. -/
def ShellState.window (s : ShellState) : List UInt32 :=
  (displayIndices s.firstDisplayChar s.displayRingBufferEnd).map s.displayCharacters

/-- Setting a text on a blank screen shows the part of it that fits on the lines. -/
theorem BlankScreen.setText
    (hs : BlankScreen blend d s) (hfont : FontFits font s.consoleWidth s.numLines)
    (firstChar endChar : Nat)
    (hplain : PlainText ((displayIndices firstChar endChar).map s.displayCharacters)) :
    ShowsText blend font d (shellSetText font firstChar endChar s) ∧
      (shellSetText font firstChar endChar s).onScreen =
        shownCharacters font s.consoleWidth s.numLines 0
          ((displayIndices firstChar endChar).map s.displayCharacters) := by
  have hlength : (displayIndices firstChar endChar).length < numMaxDisplayCharacters := by
    unfold displayIndices
    rw [Ring.length_indices]
    exact Nat.mod_lt _ (by decide)
  obtain ⟨hgraphics, hcells⟩ := setTextLoop_shown font (displayIndices firstChar endChar) 0
    { s with outputCursorX := 0, outputCursorY := 0, currentLine := 0 } (by omega)
    (Nat.zero_le s.numLines)
  dsimp only at hgraphics hcells
  rw [Nat.sub_zero] at hgraphics hcells
  generalize htext : (displayIndices firstChar endChar).map s.displayCharacters = characters at *
  have hcharacters : characters.length < numMaxDisplayCharacters := by
    rw [← htext, List.length_map]
    exact hlength
  have hsublist := shownCharacters_sublist font s.consoleWidth s.numLines 0 characters
  have honConsole := placeGlyphs_onConsole hfont s.numLines hplain (Int.le_refl 0)
    (Int.le_refl 0) (Int.zero_add _).le
  generalize shownCharacters font s.consoleWidth s.numLines 0 characters = shown at *
  have honScreen : (shellSetText font firstChar endChar s).onScreen = shown := by
    unfold ShellState.onScreen shellSetText
    rw [hcells]
    exact takeWhile_storeText hs.onScreenCharacters_eq
      (hsublist.length_le.trans hcharacters.le) fun c hc => (hplain c (hsublist.subset hc)).1
  obtain ⟨hwidth, hlines, hcolor⟩ :=
    console_eq_iff.mp (console_shellSetText font firstChar endChar s)
  have hglyphs : (shellSetText font firstChar endChar s).glyphs font =
      placeGlyphs font s.consoleWidth shown 0 0 := by
    unfold ShellState.glyphs
    rw [honScreen, hwidth]
  refine ⟨⟨?_, ?_, s.screen blend d, screen_frame blend d s, ?_, ?_⟩, honScreen⟩
  · rw [hwidth, hlines]
    exact hfont
  · rw [hglyphs, hwidth, hlines]
    exact honConsole
  · rw [hcolor]
    exact hs.background
  · intro p _
    have hscreen : (shellSetText font firstChar endChar s).screen blend d =
        runGraphicsCalls blend (drawCalls font (placeGlyphs font s.consoleWidth shown 0 0))
          (s.screen blend d) := by
      unfold ShellState.screen shellSetText
      rw [hgraphics, runGraphicsCalls_append]
    rw [hscreen, hglyphs]

end Erasing

section Run

variable {blend : UInt8 → UInt8 → UInt8 → UInt8} {font : BitmapFont} {d : CpuGrGraphicsDrvData}
variable {s t : ShellState}

theorem drawn_storeDisplayChars
    (characters : List UInt32) (s : ShellState) :
    (storeDisplayChars characters s).drawn = s.drawn := by
  rw [storeDisplayChars_eq_foldl]
  exact List.foldlRecOn (motive := fun (t : ShellState) => t.drawn = s.drawn) characters _
    rfl fun _ ht _ _ => ht

theorem drawn_shellDeleteLastDisplayChar
    (s : ShellState) :
    (shellDeleteLastDisplayChar s).drawn = s.drawn := by
  unfold shellDeleteLastDisplayChar
  repeat' split
  all_goals rfl

theorem onScreen_call
    (calls : List GraphicsCall) (s : ShellState) :
    (s.call calls).onScreen = s.onScreen :=
  rfl

theorem console_of_drawn
    (hdrawn : t.drawn = s.drawn) :
    t.console = s.console :=
  console_eq_iff.mpr (drawn_eq_iff.mp hdrawn).2.2

/-- Swapping the buffers does not draw. -/
theorem ShowsText.swap
    (hs : ShowsText blend font d s) :
    ShowsText blend font d (s.call [.swapBuffers]) := by
  obtain ⟨blank, hblank, hbackground, hpicture⟩ := hs.picture
  refine ⟨hs.fontFits, hs.onConsole, blank, hblank, hbackground, fun p hp => ?_⟩
  have hscreen : (s.call [.swapBuffers]).screen blend d = cpuGrSwapBuffers (s.screen blend d) :=
    runGraphicsCalls_append blend s.graphics [.swapBuffers] d
  rw [hscreen]
  exact hpicture p hp

theorem console_shellFlushStdOut
    (font : BitmapFont) (s : ShellState) :
    (shellFlushStdOut font s).console = s.console :=
  shellFlushStdOut_keeps font ShellState.console (fun _ _ _ _ _ _ => rfl) (fun _ _ => rfl) s

/-- The flush draws the window that it leaves behind. -/
theorem window_shellFlushStdOut
    (font : BitmapFont) (s : ShellState) :
    let scrolled :=
      shellScrollDisplay font (shellGetNumOverflowLines font s) (shellResetText font s)
    (shellFlushStdOut font s).window =
      (displayIndices scrolled.firstDisplayChar scrolled.displayRingBufferEnd).map
        scrolled.displayCharacters := by
  obtain ⟨hcharacters, -, hend, hfirst⟩ := ring_eq_iff.mp (ring_shellFlushStdOut font s)
  unfold ShellState.window
  rw [hcharacters, hend, hfirst]

/-- After a flush the screen shows the part of the window that fits on the lines. -/
theorem ShowsText.flush
    (hs : ShowsText blend font d s) (hframe : d.frame.Fits)
    (hplain : PlainText (shellFlushStdOut font s).window) :
    ShowsText blend font d (shellFlushStdOut font s) ∧
      (shellFlushStdOut font s).onScreen =
        shownCharacters font s.consoleWidth s.numLines 0 (shellFlushStdOut font s).window := by
  obtain ⟨first, -, hscroll⟩ :=
    shellScrollDisplay_eq font (shellGetNumOverflowLines font s) (shellResetText font s)
  rw [window_shellFlushStdOut, hscroll] at hplain ⊢
  rw [shellFlushStdOut_eq, hscroll, onScreen_call]
  have hscrolled : BlankScreen blend d
      { shellResetText font s with firstDisplayChar := first } :=
    (hs.reset hframe).congr rfl
  obtain ⟨htext, honScreen⟩ := hscrolled.setText hs.fontFits _ _ hplain
  exact ⟨htext.swap, honScreen⟩

theorem ShowsText.clear
    (hs : ShowsText blend font d s) (hframe : d.frame.Fits) (arg : List UInt32) :
    ShowsText blend font d (shellClear font arg s) := by
  have hdisabled : ShowsText blend font d { s with commandPromptEnabled := false } :=
    hs.congr rfl
  have hcleared : BlankScreen blend d (shellClear font arg s) :=
    (hdisabled.reset hframe).congr rfl
  exact hcleared.showsText hs.fontFits

/-- What an operation flushes, or leaves without a flush, has nothing new on the screen. -/
theorem ShowsText.rule
    (hs : ShowsText blend font d s) (hframe : d.frame.Fits) (op : ShellOp) :
    (∀ t, op.flushed font s = some t → ShowsText blend font d t) ∧
      (op.flushed font s = none → ShowsText blend font d (op.run font s)) := by
  refine ShellOp.rule font hs
    (fun characters _ hs => hs.congr (drawn_storeDisplayChars characters _))
    (fun arg _ hs => hs.clear hframe arg) (fun _ _ hs => hs.congr rfl)
    (fun _ _ _ _ hs => hs.congr rfl) fun _ _ _ _ => ?_
  exact hs.congr (drawn_shellDeleteLastDisplayChar _)

/-- The step lemma. -/
theorem ShowsText.run
    (hs : ShowsText blend font d s) (hframe : d.frame.Fits) {op : ShellOp}
    (hplain : ∀ t, op.flushed font s = some t → PlainText (shellFlushStdOut font t).window) :
    ShowsText blend font d (op.run font s) :=
  ShellOp.run_of_rule font (hs.rule hframe op)
    fun t hflushed ht => (ht.flush hframe (hplain t hflushed)).1

theorem console_rule
    (font : BitmapFont) (op : ShellOp) (s : ShellState) :
    (∀ t, op.flushed font s = some t → t.console = s.console) ∧
      (op.flushed font s = none → (op.run font s).console = s.console) := by
  refine ShellOp.rule (P := fun t => t.console = s.console) font rfl
    (fun characters t ht => ?_) (fun _ _ ht => ht) (fun _ _ ht => ht) (fun _ _ _ _ ht => ht)
    fun _ _ _ _ => ?_
  · exact (console_of_drawn (drawn_storeDisplayChars characters t)).trans ht
  · exact console_of_drawn (drawn_shellDeleteLastDisplayChar _)

theorem console_run
    (font : BitmapFont) (op : ShellOp) (s : ShellState) :
    (op.run font s).console = s.console :=
  ShellOp.run_of_rule (P := fun t => t.console = s.console) font (console_rule font op s)
    fun t _ ht => (console_shellFlushStdOut font t).trans ht

theorem console_runShellOps
    (font : BitmapFont) (ops : List ShellOp) (s : ShellState) :
    (runShellOps font ops s).console = s.console :=
  List.foldlRecOn (motive := fun (t : ShellState) => t.console = s.console) ops _ rfl
    fun t ht op _ => (console_run font op t).trans ht

/-- Every flush of the run displays plain text. -/
def PlainRun (font : BitmapFont) : List ShellOp → ShellState → Prop
  | [], _ => True
  | op :: ops, s =>
      (∀ t, op.flushed font s = some t → PlainText (shellFlushStdOut font t).window) ∧
        PlainRun font ops (op.run font s)

/-- The run lemma. -/
theorem ShowsText.runOps
    (hframe : d.frame.Fits) (ops : List ShellOp) {s : ShellState}
    (hs : ShowsText blend font d s) (hplain : PlainRun font ops s) :
    ShowsText blend font d (runShellOps font ops s) := by
  induction ops generalizing s with
  | nil => exact hs
  | cons op ops ih => exact ih (hs.run hframe hplain.1) hplain.2

/-- States that show the same text on the same console show the same picture. -/
theorem ShowsText.picture_eq
    (hs : ShowsText blend font d s) (ht : ShowsText blend font d t) (hframe : d.frame.Fits)
    (hconsole : t.console = s.console) (honScreen : t.onScreen = s.onScreen) :
    ∀ p ∈ d.visible, (t.screen blend d).color p = (s.screen blend d).color p := by
  intro p hp
  obtain ⟨hwidth, -, hcolor⟩ := console_eq_iff.mp hconsole
  obtain ⟨blank, hblank, hbackground, hpicture⟩ := hs.picture
  obtain ⟨blank', hblank', hbackground', hpicture'⟩ := ht.picture
  have hglyphs : t.glyphs font = s.glyphs font := by
    unfold ShellState.glyphs
    rw [honScreen, hwidth]
  have hagree : blank'.color p = blank.color p := by
    rw [hbackground p (by rw [visible_of_frame hblank]; exact hp),
      hbackground' p (by rw [visible_of_frame hblank']; exact hp), hcolor]
  rw [hpicture p hp, hpicture' p hp, hglyphs]
  rw [color_eq_view hframe hblank, color_eq_view hframe hblank'] at hagree
  rw [color_eq_view hframe ((runGraphicsCalls_frame blend _ blank).trans hblank),
    color_eq_view hframe ((runGraphicsCalls_frame blend _ blank').trans hblank')]
  have hpaints := drawCalls_paint blend hframe hs.fontFits hs.onConsole
  exact hpaints.pointwise _ _ hblank' hblank _ hagree

/-- Setting a text on a blank screen and resetting it leaves the screen blank.  In every
run a flush draws the part of the window that fits on the lines, and the picture depends
on the characters that were drawn last and on no others. -/
theorem shellText_erased
    (blend : UInt8 → UInt8 → UInt8 → UInt8) (font : BitmapFont) (d : CpuGrGraphicsDrvData)
    (hframe : d.frame.Fits) (s : ShellState)
    (hfont : FontFits font s.consoleWidth s.numLines) (hblank : BlankScreen blend d s) :
    (∀ firstChar endChar,
      PlainText ((displayIndices firstChar endChar).map s.displayCharacters) →
        BlankScreen blend d (shellResetText font (shellSetText font firstChar endChar s))) ∧
      (∀ ops (op : ShellOp) t, PlainRun font ops s →
        op.flushed font (runShellOps font ops s) = some t →
        PlainText (shellFlushStdOut font t).window →
          (op.run font (runShellOps font ops s)).onScreen =
            shownCharacters font s.consoleWidth s.numLines 0
              (op.run font (runShellOps font ops s)).window) ∧
      ∀ ops ops', PlainRun font ops s → PlainRun font ops' s →
        (runShellOps font ops s).onScreen = (runShellOps font ops' s).onScreen →
          ∀ p ∈ d.visible,
            ((runShellOps font ops s).screen blend d).color p =
              ((runShellOps font ops' s).screen blend d).color p := by
  have hs := hblank.showsText hfont
  refine ⟨fun firstChar endChar hplain => ?_, fun ops op t hops hflushed hplain => ?_,
    fun ops ops' hops hops' honScreen => ?_⟩
  · exact (hblank.setText hfont firstChar endChar hplain).1.reset hframe
  · have hrun := hs.runOps hframe ops hops
    have ht := ((hrun.rule hframe op).1 t hflushed).flush hframe hplain
    have hconsole := ((console_rule font op _).1 t hflushed).trans (console_runShellOps font ops s)
    obtain ⟨hwidth, hlines, -⟩ := console_eq_iff.mp hconsole
    rw [ShellOp.run_of_flushed font hflushed, ht.2, hwidth, hlines]
  · refine (hs.runOps hframe ops' hops').picture_eq (hs.runOps hframe ops hops) hframe ?_ honScreen
    rw [console_runShellOps, console_runShellOps]

/-- Every glyph of the built-in font is small and next to its cursor. -/
theorem builtInFont_glyph
    (imageData : Nat → UInt8) (c : UInt32) :
    let glyph := (builtInFont imageData).glyph c
    0 ≤ glyph.advanceX ∧ (0 ≤ glyph.bitmapLeft ∧ glyph.bitmapLeft ≤ 3) ∧
      (-1 ≤ glyph.bitmapTop ∧ glyph.bitmapTop ≤ 14) ∧ glyph.width.toNat ≤ 9 ∧
        glyph.height.toNat ≤ 17 := by
  let Small (g : FontCharacterData) : Prop :=
    0 ≤ g.advanceX ∧ (0 ≤ g.bitmapLeft ∧ g.bitmapLeft ≤ 3) ∧
      (-1 ≤ g.bitmapTop ∧ g.bitmapTop ≤ 14) ∧ g.width.toNat ≤ 9 ∧ g.height.toNat ≤ 17
  show Small (fontMetricsCharacters[(c - 32).toNat]?.getD ⟨0, 0, 0, 0, 0, 0, 0⟩)
  have htable : fontMetricsCharacters.all (fun g => decide (Small g)) = true := by
    decide
  cases hentry : fontMetricsCharacters[(c - 32).toNat]? with
  | none =>
      rw [Option.getD_none]
      exact of_decide_eq_true rfl
  | some g =>
      rw [Option.getD_some]
      exact of_decide_eq_true (List.all_eq_true.mp htable g (List.mem_of_getElem? hentry))

/-- The built-in font fits on every console whose coordinates leave room for a glyph. -/
theorem fontFits_builtInFont
    (imageData : Nat → UInt8) {consoleWidth : UInt32} {numLines : Nat}
    (hwidth : consoleWidth.toInt32.toInt < 2147483600) (hlines : numLines * 18 < 2147483600) :
    FontFits (builtInFont imageData) consoleWidth numLines := by
  refine ⟨fun c _ => (builtInFont_glyph imageData c).1, fun c _ x hx hx' => ?_,
    fun c _ y hy hy' => ?_⟩
  · obtain ⟨-, hleft, -, hsize, -⟩ := builtInFont_glyph imageData c
    have hmax : max consoleWidth.toInt32.toInt 0 < 2147483600 := max_lt hwidth (by decide)
    unfold BoxFits
    omega
  · obtain ⟨-, -, htop, -, hsize⟩ := builtInFont_glyph imageData c
    have hheight : ((builtInFont imageData).lineHeight.toNat : Int) = 18 := rfl
    rw [hheight] at hy' ⊢
    unfold BoxFits
    omega

/-- A frame all of whose bytes are alike. -/
def paintedFrame : CpuGrGraphicsDrvData :=
  { smallFrame with renderFramebuffer := fun _ => 7 }

/-- A console with this background and two characters. -/
def paintedShell : ShellState :=
  { createShell blankFont 900 600 with
    displayCharacters := fun i => if i = 0 then 72 else 105
    backgroundColor := ⟨7, 7, 7⟩
    graphics := [] }

theorem shellText_erased_painted :
    BlankScreen (fun source _ _ => source) paintedFrame
      (shellResetText blankFont (shellSetText blankFont 0 2 paintedShell)) := by
  refine (shellText_erased _ blankFont paintedFrame ⟨rfl, by decide⟩ paintedShell
    (fontFits_builtInFont _ (by decide) (by decide)) ⟨fun _ _ => rfl, fun _ _ => rfl⟩).1 0 2 ?_
  have hwindow : (displayIndices 0 2).map paintedShell.displayCharacters = [72, 105] := rfl
  rw [hwindow]
  intro c hc
  obtain rfl | hc := List.mem_cons.mp hc
  · decide
  · rw [List.mem_singleton.mp hc]
    decide

end Run

end Shell
end DexprOS
