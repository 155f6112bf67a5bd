import DexprOS.Library.AccessTrace
import DexprOS.ShellErasing

/-!
# The table indices of a flush

The functions of the font and the four loops of a flush, with a trace of the indices that
they use into the characters of the display, the characters on the screen and the table
of the font.

Main facts:
* `result_tracedShellFlushStdOut`: the traced flush is the flush;
* `within_lookupGlyph_iff`: the functions of the font leave its table for character 127
  only;
* `tracedShellFlushStdOut_within_iff`: when every index of a flush is in bounds.
-/

namespace DexprOS
namespace Shell

open Kernel Graphics Traced

section Font

/-- Number of the entries of `g_DexprOS_FontMetrics.characters`. -/
def numFontCharacters : Nat := 95

example : fontMetricsCharacters.length = numFontCharacters := rfl

/-- A table and the index used for it. -/
inductive TableAccess where
  | displayCharacter (i : Nat)
  | onScreenCharacter (i : Nat)
  | fontCharacter (i : Nat)
deriving DecidableEq, Repr

/-- The table has such an entry. -/
def TableAccess.InBounds : TableAccess → Prop
  | displayCharacter i => i < numMaxDisplayCharacters
  | onScreenCharacter i => i < numMaxDisplayCharacters
  | fontCharacter i => i < numFontCharacters

@[simp] theorem inBounds_displayCharacter_iff
    {i : Nat} :
    (TableAccess.displayCharacter i).InBounds ↔ i < numMaxDisplayCharacters :=
  Iff.rfl

@[simp] theorem inBounds_onScreenCharacter_iff
    {i : Nat} :
    (TableAccess.onScreenCharacter i).InBounds ↔ i < numMaxDisplayCharacters :=
  Iff.rfl

@[simp] theorem inBounds_fontCharacter_iff
    {i : Nat} :
    (TableAccess.fontCharacter i).InBounds ↔ i < numFontCharacters :=
  Iff.rfl

variable (font : BitmapFont) {character : UInt32}

/-- What the three functions of the font share: their guards, and the lookup behind
them. -/
def lookupGlyph {α : Type} (character : UInt32) (dummy : α) (f : FontCharacterData → α) :
    Traced TableAccess α :=
  if hasGlyph character then do
    let printableASCIIIndex := (character - 32).toNat
    let charData ← access (.fontCharacter printableASCIIIndex)
      (font.characters printableASCIIIndex)
    pure (f charData)
  else pure dummy

def tracedDrawGlyph (character : UInt32) (coordX coordY : Int) :
    Traced TableAccess (List GraphicsCall) :=
  lookupGlyph font character [] fun charData =>
    let startX := coordX + charData.bitmapLeft
    let startY := coordY - charData.bitmapTop + font.lineHeight.toNat
    [.blitImageToFramebuffer
      { image := font.imageData
        imageFormat := font.imageFormat
        imageX := charData.imageOffsetX.toInt32
        imageY := charData.imageOffsetY.toInt32
        imageRowStride := font.imageRowStride
        fbX := Int32.ofInt startX
        fbY := Int32.ofInt startY
        width := charData.width.toInt32
        height := charData.height.toInt32 }]

def tracedGetGlyphAdvanceX (character : UInt32) : Traced TableAccess Int :=
  lookupGlyph font character 0 fun charData => charData.advanceX

def tracedGetGlyphMetrics (character : UInt32) :
    Traced TableAccess BuiltInBitmapFontMetrics :=
  lookupGlyph font character ⟨0, 0, 0, 0, 0⟩ fun charData =>
    { offsetX := charData.bitmapLeft
      offsetY := font.lineHeight.toNat - charData.bitmapTop
      width := charData.width
      height := charData.height
      advanceX := charData.advanceX }

theorem result_lookupGlyph
    {α : Type} (dummy : α) (f : FontCharacterData → α) :
    (lookupGlyph font character dummy f).result =
      if hasGlyph character then f (font.glyph character) else dummy := by
  rw [lookupGlyph]
  split
  · rfl
  · rfl

@[simp] theorem result_tracedDrawGlyph
    (coordX coordY : Int) :
    (tracedDrawGlyph font character coordX coordY).result =
      builtInBitmapFontDrawGlyph font character coordX coordY :=
  result_lookupGlyph font [] _

@[simp] theorem result_tracedGetGlyphAdvanceX :
    (tracedGetGlyphAdvanceX font character).result =
      builtInBitmapFontGetGlyphAdvanceX font character :=
  result_lookupGlyph font 0 _

@[simp] theorem result_tracedGetGlyphMetrics :
    (tracedGetGlyphMetrics font character).result =
      builtInBitmapFontGetGlyphMetrics font character :=
  result_lookupGlyph font _ _

/-- The guards let the character behind the table through. -/
theorem within_lookupGlyph_iff
    {α : Type} (dummy : α) (f : FontCharacterData → α) :
    (lookupGlyph font character dummy f).Within TableAccess.InBounds ↔ character ≠ 127 := by
  have hvalue : character ≠ 127 ↔ character.toNat ≠ 127 := by
    rw [Ne, ← UInt32.toNat_inj]
    rfl
  rw [hvalue, lookupGlyph]
  split
  next hglyph =>
    simp only [hasGlyph, Bool.not_eq_true', Bool.or_eq_false_iff, decide_eq_false_iff_not,
      UInt32.not_lt] at hglyph
    obtain ⟨⟨-, hfirst⟩, hlast⟩ := hglyph
    have hsub := UInt32.toNat_sub_of_le character 32 hfirst
    have hle : character.toNat ≤ 127 := hlast
    have hge : 32 ≤ character.toNat := hfirst
    simp only [within_bind_iff, within_access_iff, within_pure, and_true,
      inBounds_fontCharacter_iff, numFontCharacters, hsub]
    have h32 : (32 : UInt32).toNat = 32 := rfl
    omega
  next hnone =>
    simp only [within_pure, true_iff]
    rintro h
    refine hnone ?_
    rw [← UInt32.ofNat_toNat (x := character), h]
    rfl

@[simp] theorem within_tracedDrawGlyph_iff
    (coordX coordY : Int) :
    (tracedDrawGlyph font character coordX coordY).Within TableAccess.InBounds ↔
      character ≠ 127 :=
  within_lookupGlyph_iff font [] _

@[simp] theorem within_tracedGetGlyphAdvanceX_iff :
    (tracedGetGlyphAdvanceX font character).Within TableAccess.InBounds ↔
      character ≠ 127 :=
  within_lookupGlyph_iff font 0 _

@[simp] theorem within_tracedGetGlyphMetrics_iff :
    (tracedGetGlyphMetrics font character).Within TableAccess.InBounds ↔
      character ≠ 127 :=
  within_lookupGlyph_iff font _ _

end Font

section Loops

variable (font : BitmapFont)

def tracedResetTextStep (s : ShellState) (r : Int × Int × List GraphicsCall)
    (character : UInt32) : Traced TableAccess (Int × Int × List GraphicsCall) := do
  let lineHeight : Int := (builtInBitmapFontGetLineHeight font).toNat
  if character = 10 then pure (0, r.2.1 + lineHeight, r.2.2)
  else
    let metrics ← tracedGetGlyphMetrics font character
    let cursor :=
      if s.overflows r.1 metrics.advanceX then (0, r.2.1 + lineHeight) else (r.1, r.2.1)
    let clearRegion : GrImageRegion :=
      { x := Int32.ofInt (cursor.1 + metrics.offsetX)
        y := Int32.ofInt (cursor.2 + metrics.offsetY)
        width := metrics.width
        height := metrics.height }
    pure (cursor.1 + metrics.advanceX, cursor.2,
      r.2.2 ++ [.clearScreenRegions [clearRegion] s.backgroundColor])

/-- The first loop of `DexprOS_ShellResetText` over the indices that are left. -/
def tracedResetTextLoop (s : ShellState) :
    List Nat → Int × Int × List GraphicsCall →
      Traced TableAccess (Int × Int × List GraphicsCall)
  | [], r => pure r
  | i :: rest, r => do
      let character ← access (.onScreenCharacter i) (s.onScreenCharacters i)
      if character = 0 then pure r
      else
        let r ← tracedResetTextStep font s r character
        tracedResetTextLoop s rest r

/-- The second loop stores to every index. -/
def tracedShellResetText (s : ShellState) : Traced TableAccess ShellState := do
  let indices := List.range numMaxDisplayCharacters
  let r ← tracedResetTextLoop font s indices (0, 0, [])
  tell (indices.map .onScreenCharacter)
  pure { s.call r.2.2 with onScreenCharacters := fun _ => 0 }

def tracedOverflowLinesStep (s : ShellState) (r : Nat × Int) (i : Nat) :
    Traced TableAccess (Nat × Int) := do
  let character ← access (.displayCharacter i) (s.displayCharacters i)
  let advanceX ← tracedGetGlyphAdvanceX font character
  if character = 10 then pure (r.1 + 1, 0)
  else if s.overflows r.2 advanceX then pure (r.1 + 1, advanceX)
  else pure (r.1, r.2 + advanceX)

def tracedShellGetNumOverflowLines (s : ShellState) : Traced TableAccess Nat := do
  let r ← (displayIndices s.firstDisplayChar s.displayRingBufferEnd).foldlM
    (tracedOverflowLinesStep font s) (0, 0)
  pure (if r.1 ≥ s.numLines then r.1 - s.numLines + 1 else 0)

def tracedScrollDisplayLoop (s : ShellState) (numLines : Nat) :
    List Nat → Nat → Int → Traced TableAccess Nat
  | [], _, _ => pure s.displayRingBufferEnd
  | i :: rest, numPlacedLines, cursorX =>
      if numPlacedLines = numLines then pure i
      else do
        let character ← access (.displayCharacter i) (s.displayCharacters i)
        if character = 10 then
          tracedScrollDisplayLoop s numLines rest (numPlacedLines + 1) 0
        else
          let advanceX ← tracedGetGlyphAdvanceX font character
          if s.overflows cursorX advanceX then
            tracedScrollDisplayLoop s numLines rest (numPlacedLines + 1) advanceX
          else tracedScrollDisplayLoop s numLines rest numPlacedLines (cursorX + advanceX)

def tracedShellScrollDisplay (numLines : Nat) (s : ShellState) :
    Traced TableAccess ShellState := do
  let i ← tracedScrollDisplayLoop font s numLines
    (displayIndices s.firstDisplayChar s.displayRingBufferEnd) 0 0
  pure { s with firstDisplayChar := i }

/-- A character is copied to the screen as long as there is room. -/
def tracedStoreOnScreen (onScreenIndex : Nat) (character : UInt32) (s : ShellState) :
    Traced TableAccess (ShellState × Nat) :=
  if onScreenIndex < numMaxDisplayCharacters then
    access (.onScreenCharacter onScreenIndex)
      ({ s with
        onScreenCharacters :=
          Function.update s.onScreenCharacters onScreenIndex character },
        onScreenIndex + 1)
  else pure (s, onScreenIndex)

def tracedSetTextLoop :
    List Nat → Nat → ShellState → Traced TableAccess ShellState
  | [], _, s => pure s
  | i :: rest, onScreenIndex, s =>
      if s.currentLine = s.numLines then pure s
      else do
        let lineHeight : Int := (builtInBitmapFontGetLineHeight font).toNat
        let character ← access (.displayCharacter i) (s.displayCharacters i)
        let r ← tracedStoreOnScreen onScreenIndex character s
        let newLine (s : ShellState) : ShellState :=
          { s with
            outputCursorX := 0
            outputCursorY := s.outputCursorY + lineHeight
            currentLine := s.currentLine + 1 }
        if character = 10 then tracedSetTextLoop rest r.2 (newLine r.1)
        else
          let advanceX ← tracedGetGlyphAdvanceX font character
          let s' := if r.1.overflows r.1.outputCursorX advanceX then newLine r.1 else r.1
          let calls ← tracedDrawGlyph font character s'.outputCursorX s'.outputCursorY
          tracedSetTextLoop rest r.2
            { s'.call calls with outputCursorX := s'.outputCursorX + advanceX }

def tracedShellSetText (firstChar endChar : Nat) (s : ShellState) :
    Traced TableAccess ShellState :=
  tracedSetTextLoop font (displayIndices firstChar endChar) 0
    { s with outputCursorX := 0, outputCursorY := 0, currentLine := 0 }

def tracedShellFlushStdOut (s : ShellState) : Traced TableAccess ShellState := do
  let numLinesToScroll ← tracedShellGetNumOverflowLines font s
  let s ← tracedShellResetText font s
  let s ← tracedShellScrollDisplay font numLinesToScroll s
  let s ← tracedShellSetText font s.firstDisplayChar s.displayRingBufferEnd s
  pure (s.call [.swapBuffers])

end Loops

section Results

variable (font : BitmapFont)

@[simp] theorem result_tracedResetTextStep
    (s : ShellState) (r : Int × Int × List GraphicsCall) (character : UInt32) :
    (tracedResetTextStep font s r character).result = resetTextStep font s r character := by
  rw [tracedResetTextStep, resetTextStep]
  split
  · rfl
  · simp

theorem result_tracedResetTextLoop
    (s : ShellState) (indices : List Nat) (r : Int × Int × List GraphicsCall) :
    (tracedResetTextLoop font s indices r).result =
      ((indices.map s.onScreenCharacters).takeWhile (· ≠ 0)).foldl (resetTextStep font s) r := by
  induction indices generalizing r with
  | nil => rfl
  | cons i rest ih =>
      by_cases hnull : s.onScreenCharacters i = 0
      · simp [tracedResetTextLoop, hnull]
      · simp [tracedResetTextLoop, hnull, ih]

@[simp] theorem result_tracedShellResetText
    (s : ShellState) :
    (tracedShellResetText font s).result = shellResetText font s := by
  rw [tracedShellResetText, result_bind, result_bind, result_pure, result_tracedResetTextLoop]
  rw [shellResetText, ShellState.onScreen]

@[simp] theorem result_tracedOverflowLinesStep
    (s : ShellState) (r : Nat × Int) (i : Nat) :
    (tracedOverflowLinesStep font s r i).result = overflowLinesStep font s r i := by
  simp only [tracedOverflowLinesStep, overflowLinesStep, result_bind, result_access,
    result_tracedGetGlyphAdvanceX]
  split
  · rfl
  · split
    · rfl
    · rfl

@[simp] theorem result_tracedShellGetNumOverflowLines
    (s : ShellState) :
    (tracedShellGetNumOverflowLines font s).result = shellGetNumOverflowLines font s := by
  rw [tracedShellGetNumOverflowLines, result_bind, result_pure,
    result_foldlM (result_tracedOverflowLinesStep font s)]
  rw [shellGetNumOverflowLines]

theorem result_tracedScrollDisplayLoop
    (s : ShellState) (numLines : Nat) (indices : List Nat) (numPlacedLines : Nat)
    (cursorX : Int) :
    (tracedScrollDisplayLoop font s numLines indices numPlacedLines cursorX).result =
      scrollDisplayLoop font s numLines indices numPlacedLines cursorX := by
  induction indices generalizing numPlacedLines cursorX with
  | nil => rfl
  | cons i rest ih =>
      by_cases hlines : numPlacedLines = numLines
      · simp [tracedScrollDisplayLoop, scrollDisplayLoop, hlines]
      · by_cases hbreak : s.displayCharacters i = 10
        · simp [tracedScrollDisplayLoop, scrollDisplayLoop, hlines, hbreak, ih]
        · simp only [tracedScrollDisplayLoop, scrollDisplayLoop, hlines, hbreak, ↓reduceIte,
            result_bind, result_access, result_tracedGetGlyphAdvanceX]
          split
          · exact ih _ _
          · exact ih _ _

@[simp] theorem result_tracedShellScrollDisplay
    (numLines : Nat) (s : ShellState) :
    (tracedShellScrollDisplay font numLines s).result = shellScrollDisplay font numLines s := by
  rw [tracedShellScrollDisplay, result_bind, result_pure, result_tracedScrollDisplayLoop]
  rw [shellScrollDisplay]

theorem result_tracedStoreOnScreen
    (onScreenIndex : Nat) (character : UInt32) (s : ShellState) :
    (tracedStoreOnScreen onScreenIndex character s).result =
      (if onScreenIndex < numMaxDisplayCharacters then
        { s with
          onScreenCharacters :=
            Function.update s.onScreenCharacters onScreenIndex character }
      else s,
      if onScreenIndex < numMaxDisplayCharacters then onScreenIndex + 1 else onScreenIndex) := by
  rw [tracedStoreOnScreen]
  split
  · rfl
  · rfl

theorem result_tracedSetTextLoop
    (indices : List Nat) (onScreenIndex : Nat) (s : ShellState) :
    (tracedSetTextLoop font indices onScreenIndex s).result =
      setTextLoop font indices onScreenIndex s := by
  induction indices generalizing onScreenIndex s with
  | nil => rfl
  | cons i rest ih =>
      rw [tracedSetTextLoop, setTextLoop]
      split
      · rfl
      · simp only [result_bind, result_access, result_tracedStoreOnScreen]
        split
        · exact ih _ _
        · simp only [result_bind, result_tracedGetGlyphAdvanceX, result_tracedDrawGlyph]
          exact ih _ _

@[simp] theorem result_tracedShellSetText
    (firstChar endChar : Nat) (s : ShellState) :
    (tracedShellSetText font firstChar endChar s).result =
      shellSetText font firstChar endChar s :=
  result_tracedSetTextLoop font _ 0 _

/-- The traced flush is the flush. -/
theorem result_tracedShellFlushStdOut
    (s : ShellState) :
    (tracedShellFlushStdOut font s).result = shellFlushStdOut font s := by
  rw [tracedShellFlushStdOut, result_bind, result_tracedShellGetNumOverflowLines]
  rw [result_bind, result_tracedShellResetText]
  rw [result_bind, result_tracedShellScrollDisplay]
  rw [result_bind, result_tracedShellSetText, result_pure, shellFlushStdOut_eq]

end Results

section Bounds

variable (font : BitmapFont) {s : ShellState} {indices : List Nat}

@[simp] theorem within_tracedResetTextStep_iff
    (s : ShellState) (r : Int × Int × List GraphicsCall) (character : UInt32) :
    (tracedResetTextStep font s r character).Within TableAccess.InBounds ↔
      character ≠ 127 := by
  by_cases hbreak : character = 10
  · simp [tracedResetTextStep, hbreak]
  · simp [tracedResetTextStep, hbreak]

/-- Clearing the screen looks up the characters in front of the first null one. -/
theorem within_tracedResetTextLoop_iff
    (hindices : ∀ i ∈ indices, i < numMaxDisplayCharacters)
    (r : Int × Int × List GraphicsCall) :
    (tracedResetTextLoop font s indices r).Within TableAccess.InBounds ↔
      127 ∉ (indices.map s.onScreenCharacters).takeWhile (· ≠ 0) := by
  induction indices generalizing r with
  | nil => simp [tracedResetTextLoop]
  | cons i rest ih =>
      obtain ⟨hi, hrest⟩ := List.forall_mem_cons.mp hindices
      by_cases hnull : s.onScreenCharacters i = 0
      · simp [tracedResetTextLoop, hnull, hi]
      · simp [tracedResetTextLoop, hnull, hi, ih hrest, eq_comm]

theorem within_tracedShellResetText_iff :
    (tracedShellResetText font s).Within TableAccess.InBounds ↔ 127 ∉ s.onScreen := by
  have hindices : ∀ i ∈ List.range numMaxDisplayCharacters, i < numMaxDisplayCharacters :=
    fun i hi => List.mem_range.mp hi
  have hstores : ∀ a ∈ (List.range numMaxDisplayCharacters).map TableAccess.onScreenCharacter,
      a.InBounds := by
    intro a ha
    rcases List.mem_map.mp ha with ⟨i, hi, rfl⟩
    exact hindices i hi
  rw [tracedShellResetText, within_bind_iff, within_tracedResetTextLoop_iff font hindices,
    within_bind_iff, within_tell_iff]
  exact and_iff_left ⟨hstores, within_pure _⟩

theorem within_tracedOverflowLinesStep_iff
    {i : Nat} (hi : i < numMaxDisplayCharacters) (r : Nat × Int) :
    (tracedOverflowLinesStep font s r i).Within TableAccess.InBounds ↔
      s.displayCharacters i ≠ 127 := by
  by_cases hbreak : s.displayCharacters i = 10
  · simp [tracedOverflowLinesStep, hbreak, hi]
  · simp only [tracedOverflowLinesStep, hbreak, ↓reduceIte, within_bind_iff, within_access_iff,
      inBounds_displayCharacter_iff, result_access, within_tracedGetGlyphAdvanceX_iff, hi,
      true_and]
    refine and_iff_left ?_
    split
    · exact within_pure _
    · exact within_pure _

theorem displayIndices_lt
    (hs : s.IndicesInRange) :
    ∀ i ∈ displayIndices s.firstDisplayChar s.displayRingBufferEnd,
      i < numMaxDisplayCharacters :=
  fun _ hi => Ring.indices_lt hs.end_lt hi

/-- Counting the lines looks up every character of the window. -/
theorem within_tracedShellGetNumOverflowLines_iff
    (hs : s.IndicesInRange) :
    (tracedShellGetNumOverflowLines font s).Within TableAccess.InBounds ↔
      127 ∉ s.window := by
  have hstep := within_foldlM_iff (P := TableAccess.InBounds)
    (Q := fun i => s.displayCharacters i ≠ 127) (f := tracedOverflowLinesStep font s)
    (fun i hi r => within_tracedOverflowLinesStep_iff font (displayIndices_lt hs i hi) r)
    (0, 0)
  simp only [tracedShellGetNumOverflowLines, within_bind_iff, within_pure, and_true, hstep,
    ShellState.window, List.mem_map, not_exists, not_and, Ne]

/-- Scrolling looks up characters of the window. -/
theorem within_tracedScrollDisplayLoop
    (numLines : Nat) (hindices : ∀ i ∈ indices, i < numMaxDisplayCharacters)
    (hplain : ∀ i ∈ indices, s.displayCharacters i ≠ 127) (numPlacedLines : Nat)
    (cursorX : Int) :
    (tracedScrollDisplayLoop font s numLines indices numPlacedLines cursorX).Within
      TableAccess.InBounds := by
  induction indices generalizing numPlacedLines cursorX with
  | nil => simp [tracedScrollDisplayLoop]
  | cons i rest ih =>
      obtain ⟨hi, hrest⟩ := List.forall_mem_cons.mp hindices
      obtain ⟨hne, hplain⟩ := List.forall_mem_cons.mp hplain
      by_cases hlines : numPlacedLines = numLines
      · simp [tracedScrollDisplayLoop, hlines]
      · by_cases hbreak : s.displayCharacters i = 10
        · simp [tracedScrollDisplayLoop, hlines, hbreak, hi, ih hrest hplain]
        · simp only [tracedScrollDisplayLoop, hlines, hbreak, ↓reduceIte, within_bind_iff,
            within_access_iff, result_access, within_tracedGetGlyphAdvanceX_iff]
          refine ⟨hi, hne, ?_⟩
          split
          · exact ih hrest hplain _ _
          · exact ih hrest hplain _ _

@[simp] theorem within_tracedStoreOnScreen
    (onScreenIndex : Nat) (character : UInt32) (s : ShellState) :
    (tracedStoreOnScreen onScreenIndex character s).Within TableAccess.InBounds := by
  rw [tracedStoreOnScreen]
  split
  next hroom => exact (within_access_iff _ _).mpr hroom
  next => exact within_pure _

@[simp] theorem displayCharacters_tracedStoreOnScreen
    (onScreenIndex : Nat) (character : UInt32) (s : ShellState) :
    (tracedStoreOnScreen onScreenIndex character s).result.1.displayCharacters =
      s.displayCharacters := by
  rw [tracedStoreOnScreen]
  split
  · rfl
  · rfl

/-- Setting the text looks up the characters that it walks over. -/
theorem within_tracedSetTextLoop
    (hindices : ∀ i ∈ indices, i < numMaxDisplayCharacters) (onScreenIndex : Nat)
    (s : ShellState) (hplain : ∀ i ∈ indices, s.displayCharacters i ≠ 127) :
    (tracedSetTextLoop font indices onScreenIndex s).Within TableAccess.InBounds := by
  induction indices generalizing onScreenIndex s with
  | nil => simp [tracedSetTextLoop]
  | cons i rest ih =>
      obtain ⟨hi, hrest⟩ := List.forall_mem_cons.mp hindices
      obtain ⟨hne, hplain⟩ := List.forall_mem_cons.mp hplain
      -- None of the states on the way has other characters to display.
      have hnext : ∀ k (t : ShellState), t.displayCharacters = s.displayCharacters →
          (tracedSetTextLoop font rest k t).Within TableAccess.InBounds := by
        intro k t ht
        exact ih hrest k t (by rwa [ht])
      by_cases hlines : s.currentLine = s.numLines
      · simp [tracedSetTextLoop, hlines]
      · by_cases hbreak : s.displayCharacters i = 10
        · simp [tracedSetTextLoop, hlines, hbreak, hi, hnext]
        · simp only [tracedSetTextLoop, hlines, hbreak, ↓reduceIte, within_bind_iff,
            within_access_iff, result_access, within_tracedStoreOnScreen,
            within_tracedGetGlyphAdvanceX_iff, within_tracedDrawGlyph_iff]
          refine ⟨hi, trivial, hne, hne, hnext _ _ ?_⟩
          split
          · exact displayCharacters_tracedStoreOnScreen onScreenIndex _ s
          · exact displayCharacters_tracedStoreOnScreen onScreenIndex _ s

theorem forall_window_iff :
    127 ∉ s.window ↔
      ∀ i ∈ displayIndices s.firstDisplayChar s.displayRingBufferEnd,
        s.displayCharacters i ≠ 127 := by
  simp [ShellState.window]

theorem within_tracedShellScrollDisplay
    (hs : s.IndicesInRange) (hplain : 127 ∉ s.window) (numLines : Nat) :
    (tracedShellScrollDisplay font numLines s).Within TableAccess.InBounds :=
  (within_bind_iff _ _).mpr ⟨within_tracedScrollDisplayLoop font numLines
    (displayIndices_lt hs) (forall_window_iff.mp hplain) 0 0, within_pure _⟩

theorem within_tracedShellSetText
    (hs : s.IndicesInRange) (hplain : 127 ∉ s.window) :
    (tracedShellSetText font s.firstDisplayChar s.displayRingBufferEnd s).Within
      TableAccess.InBounds :=
  within_tracedSetTextLoop font (displayIndices_lt hs) 0 _ (forall_window_iff.mp hplain)

theorem IndicesInRange_resetText
    (hs : s.IndicesInRange) :
    (shellResetText font s).IndicesInRange :=
  ⟨hs.start_lt, hs.end_lt, hs.first_lt⟩

theorem IndicesInRange_scrollDisplay
    (hs : s.IndicesInRange) (numLines : Nat) :
    (shellScrollDisplay font numLines s).IndicesInRange := by
  rcases shellScrollDisplay_eq font numLines s with ⟨first, hfirst, hscrolled⟩
  rw [hscrolled]
  refine ⟨hs.start_lt, hs.end_lt, ?_⟩
  rcases hfirst with hmem | hend
  · exact displayIndices_lt hs first hmem
  · exact hend.trans_lt hs.end_lt

/-- What a flush sets is a part of the window. -/
theorem window_shellScrollDisplay_subset
    (hs : s.IndicesInRange) (numLines : Nat) :
    (shellScrollDisplay font numLines s).window ⊆ s.window := by
  rcases shellScrollDisplay_eq font numLines s with ⟨first, hfirst, hscrolled⟩
  rw [hscrolled]
  refine List.map_subset _ ?_
  rcases hfirst with hmem | hend
  · exact (Ring.indices_suffix hs.first_lt (displayIndices_lt hs first hmem) hs.end_lt
      (Ring.between_of_mem_indices hs.first_lt hmem)).subset
  · rw [hend]
    simp [displayIndices, Ring.indices_self hs.end_lt]

/-- Every index that a flush uses is in bounds exactly when neither the window nor the
screen has character 127, which the guards of the font let through and its table does not
have. -/
theorem tracedShellFlushStdOut_within_iff
    (font : BitmapFont) (s : ShellState) (hs : s.IndicesInRange) :
    (tracedShellFlushStdOut font s).Within TableAccess.InBounds ↔
      127 ∉ s.window ∧ 127 ∉ s.onScreen := by
  simp only [tracedShellFlushStdOut, within_bind_iff, within_pure, and_true,
    result_tracedShellGetNumOverflowLines, result_tracedShellResetText,
    result_tracedShellScrollDisplay, within_tracedShellGetNumOverflowLines_iff font hs,
    within_tracedShellResetText_iff]
  refine and_congr_right fun hplain => and_iff_left ⟨?_, ?_⟩
  · exact within_tracedShellScrollDisplay font (IndicesInRange_resetText font hs) hplain _
  · have hreset := IndicesInRange_resetText font hs
    exact within_tracedShellSetText font (IndicesInRange_scrollDisplay font hreset _)
      fun h => hplain (window_shellScrollDisplay_subset font hreset _ h)

/-- What a new shell displays after one character. -/
theorem window_putChar_createShell
    (consoleWidth consoleHeight : UInt32) {c : UInt32} (hc : c ≠ 0) :
    (shellPutChar c (createShell font consoleWidth consoleHeight)).window = [c] := by
  rw [shellPutChar, if_neg hc]
  have hwalk : displayIndices 0 1 = [0] := by
    simp [displayIndices, Ring.indices, Ring.distance, numMaxDisplayCharacters]
  have hwindow : (storeDisplayChars [c] (createShell font consoleWidth consoleHeight)).window =
      (displayIndices 0 1).map (Function.update (fun _ => 0) 0 c) := rfl
  rw [hwindow, hwalk, List.map_singleton, Function.update_self]

theorem onScreen_putChar_createShell
    (consoleWidth consoleHeight : UInt32) {c : UInt32} :
    127 ∉ (shellPutChar c (createShell font consoleWidth consoleHeight)).onScreen := by
  intro hmem
  obtain ⟨i, -, hi⟩ := List.mem_map.mp ((List.takeWhile_sublist _).subset hmem)
  have hblank : (shellPutChar c (createShell font consoleWidth consoleHeight)).onScreenCharacters =
      fun _ => 0 := by
    rw [shellPutChar]
    split
    · rfl
    · rfl
  rw [hblank] at hi
  simp at hi

theorem tracedShellFlushStdOut_within_letter :
    (tracedShellFlushStdOut blankFont
      (shellPutChar 97 (createShell blankFont 900 600))).Within TableAccess.InBounds := by
  have hwindow := window_putChar_createShell blankFont 900 600 (c := 97) (by decide)
  have hrange := IndicesInRange_putChar (IndicesInRange_createShell blankFont 900 600) 97
  refine (tracedShellFlushStdOut_within_iff blankFont _ hrange).mpr
    ⟨?_, onScreen_putChar_createShell blankFont 900 600⟩
  simp [hwindow]

/-- A new shell that displays character 127. -/
theorem tracedShellFlushStdOut_not_within_delete :
    let s := shellPutChar 127 (createShell blankFont 900 600)
    s.IndicesInRange ∧ 0 ∉ s.window ∧
      ¬ (tracedShellFlushStdOut blankFont s).Within TableAccess.InBounds := by
  have hwindow := window_putChar_createShell blankFont 900 600 (c := 127) (by decide)
  have hrange := IndicesInRange_putChar (IndicesInRange_createShell blankFont 900 600) 127
  refine ⟨hrange, by simp [hwindow], fun hwithin => ?_⟩
  have hcount := ((within_bind_iff _ _).mp hwithin).1
  rw [within_tracedShellGetNumOverflowLines_iff blankFont hrange, hwindow] at hcount
  exact hcount List.mem_cons_self

end Bounds

end Shell
end DexprOS
