import DexprOS.Drivers.Graphics.GraphicsDriver

/-!
# The built-in bitmap font

Glyph metrics and drawing of `BuiltInBitmapFont.c` for any font, and the metrics table
of `font256.h`.
-/

namespace DexprOS
namespace Kernel

open Graphics

section BitmapFont

structure FontCharacterData where
  imageOffsetX : UInt32
  imageOffsetY : UInt32
  width : UInt32
  height : UInt32
  bitmapLeft : Int
  bitmapTop : Int
  advanceX : Int

/-- A font: its table for the characters from 32 on, its line height and its image.
The table is a function, because character 127 is looked up as well, behind the 95
entries that a font has. -/
structure BitmapFont where
  characters : Nat → FontCharacterData
  lineHeight : UInt32
  imageData : Nat → UInt8
  imageFormat : GrImageFormat
  imageRowStride : UInt32

structure BuiltInBitmapFontMetrics where
  offsetX : Int
  offsetY : Int
  width : UInt32
  height : UInt32
  advanceX : Int

/-- Control characters and characters behind ASCII have no glyph. -/
def hasGlyph (character : UInt32) : Bool :=
  !(character == 0 || character == 10 || character < 32 || character > 127)

def BitmapFont.glyph (font : BitmapFont) (character : UInt32) : FontCharacterData :=
  font.characters (character - 32).toNat

def builtInBitmapFontDrawGlyph (font : BitmapFont) (character : UInt32) (coordX coordY : Int) :
    List GraphicsCall :=
  if hasGlyph character then
    let charData := font.glyph character
    let startX := coordX + charData.bitmapLeft
    let startY := coordY - charData.bitmapTop + font.lineHeight.toNat
    [.blitImageToFramebuffer
      { image := font.imageData
        imageFormat := font.imageFormat
        imageX := charData.imageOffsetX.toInt32
        imageY := charData.imageOffsetY.toInt32
        imageRowStride := font.imageRowStride
        fbX := Int32.ofInt startX
        fbY := Int32.ofInt startY
        width := charData.width.toInt32
        height := charData.height.toInt32 }]
  else []

def builtInBitmapFontGetGlyphAdvanceX (font : BitmapFont) (character : UInt32) : Int :=
  if hasGlyph character then (font.glyph character).advanceX else 0

def builtInBitmapFontGetGlyphMetrics (font : BitmapFont) (character : UInt32) :
    BuiltInBitmapFontMetrics :=
  if hasGlyph character then
    let charData := font.glyph character
    { offsetX := charData.bitmapLeft
      offsetY := font.lineHeight.toNat - charData.bitmapTop
      width := charData.width
      height := charData.height
      advanceX := charData.advanceX }
  else ⟨0, 0, 0, 0, 0⟩

def builtInBitmapFontGetLineHeight (font : BitmapFont) : UInt32 :=
  font.lineHeight

/-- `g_DexprOS_FontMetrics.characters`. -/
def fontMetricsCharacters : List FontCharacterData := [
  ⟨0, 0, 0, 0, 0, 0, 9⟩, ⟨0, 0, 3, 11, 3, 11, 9⟩, ⟨3, 0, 5, 4, 2, 11, 9⟩,
  ⟨8, 0, 7, 11, 1, 11, 9⟩, ⟨15, 0, 6, 15, 1, 13, 9⟩, ⟨21, 0, 9, 11, 0, 11, 9⟩,
  ⟨30, 0, 7, 11, 1, 11, 9⟩, ⟨37, 0, 3, 4, 3, 11, 9⟩, ⟨40, 0, 4, 15, 2, 13, 9⟩,
  ⟨44, 0, 4, 15, 2, 13, 9⟩, ⟨48, 0, 7, 7, 1, 11, 9⟩, ⟨55, 0, 7, 6, 1, 8, 9⟩,
  ⟨62, 0, 3, 4, 3, 2, 9⟩, ⟨65, 0, 6, 3, 1, 7, 9⟩, ⟨71, 0, 3, 2, 3, 2, 9⟩,
  ⟨74, 0, 8, 15, 0, 13, 9⟩, ⟨82, 0, 7, 11, 1, 11, 9⟩, ⟨89, 0, 6, 11, 1, 11, 9⟩,
  ⟨95, 0, 6, 11, 1, 11, 9⟩, ⟨101, 0, 6, 11, 1, 11, 9⟩, ⟨107, 0, 7, 11, 1, 11, 9⟩,
  ⟨114, 0, 6, 11, 1, 11, 9⟩, ⟨120, 0, 7, 11, 1, 11, 9⟩, ⟨127, 0, 6, 11, 1, 11, 9⟩,
  ⟨0, 15, 7, 11, 1, 11, 9⟩, ⟨7, 15, 7, 11, 1, 11, 9⟩, ⟨14, 15, 3, 8, 3, 8, 9⟩,
  ⟨17, 15, 3, 10, 3, 8, 9⟩, ⟨20, 15, 7, 9, 1, 10, 9⟩, ⟨27, 15, 7, 6, 1, 8, 9⟩,
  ⟨34, 15, 7, 9, 1, 10, 9⟩, ⟨41, 15, 5, 11, 2, 11, 9⟩, ⟨46, 15, 9, 11, 0, 11, 9⟩,
  ⟨55, 15, 8, 11, 0, 11, 9⟩, ⟨63, 15, 7, 11, 1, 11, 9⟩, ⟨70, 15, 6, 11, 1, 11, 9⟩,
  ⟨76, 15, 7, 11, 1, 11, 9⟩, ⟨83, 15, 6, 11, 1, 11, 9⟩, ⟨89, 15, 7, 11, 1, 11, 9⟩,
  ⟨96, 15, 7, 11, 1, 11, 9⟩, ⟨103, 15, 7, 11, 1, 11, 9⟩, ⟨110, 15, 5, 11, 2, 11, 9⟩,
  ⟨115, 15, 5, 11, 2, 11, 9⟩, ⟨120, 15, 7, 11, 1, 11, 9⟩, ⟨127, 15, 6, 11, 1, 11, 9⟩,
  ⟨0, 26, 8, 11, 0, 11, 9⟩, ⟨8, 26, 7, 11, 1, 11, 9⟩, ⟨15, 26, 7, 11, 1, 11, 9⟩,
  ⟨22, 26, 7, 11, 1, 11, 9⟩, ⟨29, 26, 8, 12, 1, 11, 9⟩, ⟨37, 26, 7, 11, 1, 11, 9⟩,
  ⟨44, 26, 7, 11, 1, 11, 9⟩, ⟨51, 26, 7, 11, 1, 11, 9⟩, ⟨58, 26, 7, 11, 1, 11, 9⟩,
  ⟨65, 26, 8, 11, 0, 11, 9⟩, ⟨73, 26, 8, 11, 0, 11, 9⟩, ⟨81, 26, 8, 11, 0, 11, 9⟩,
  ⟨89, 26, 8, 11, 0, 11, 9⟩, ⟨97, 26, 7, 11, 1, 11, 9⟩, ⟨104, 26, 4, 17, 2, 14, 9⟩,
  ⟨108, 26, 8, 15, 0, 13, 9⟩, ⟨116, 26, 4, 17, 2, 14, 9⟩, ⟨120, 26, 7, 6, 1, 13, 9⟩,
  ⟨127, 26, 9, 2, 0, -1, 9⟩, ⟨0, 43, 4, 2, 2, 11, 9⟩, ⟨4, 43, 7, 8, 1, 8, 9⟩,
  ⟨11, 43, 7, 11, 1, 11, 9⟩, ⟨18, 43, 6, 8, 1, 8, 9⟩, ⟨24, 43, 7, 11, 1, 11, 9⟩,
  ⟨31, 43, 7, 8, 1, 8, 9⟩, ⟨38, 43, 7, 11, 1, 11, 9⟩, ⟨45, 43, 7, 11, 1, 8, 9⟩,
  ⟨52, 43, 7, 11, 1, 11, 9⟩, ⟨59, 43, 7, 11, 1, 11, 9⟩, ⟨66, 43, 5, 14, 2, 11, 9⟩,
  ⟨71, 43, 7, 11, 1, 11, 9⟩, ⟨78, 43, 7, 11, 1, 11, 9⟩, ⟨85, 43, 8, 8, 0, 8, 9⟩,
  ⟨93, 43, 7, 8, 1, 8, 9⟩, ⟨100, 43, 7, 8, 1, 8, 9⟩, ⟨107, 43, 7, 11, 1, 8, 9⟩,
  ⟨114, 43, 7, 11, 1, 8, 9⟩, ⟨121, 43, 6, 8, 1, 8, 9⟩, ⟨127, 43, 6, 8, 1, 8, 9⟩,
  ⟨0, 57, 6, 10, 1, 10, 9⟩, ⟨6, 57, 7, 8, 1, 8, 9⟩, ⟨13, 57, 7, 8, 1, 8, 9⟩,
  ⟨20, 57, 9, 8, 0, 8, 9⟩, ⟨29, 57, 7, 8, 1, 8, 9⟩, ⟨36, 57, 7, 11, 1, 8, 9⟩,
  ⟨43, 57, 6, 8, 1, 8, 9⟩, ⟨49, 57, 5, 17, 2, 14, 9⟩, ⟨54, 57, 2, 15, 3, 13, 9⟩,
  ⟨56, 57, 5, 17, 2, 14, 9⟩, ⟨61, 57, 7, 4, 1, 7, 9⟩]

/-- `g_DexprOS_FontMetrics` with an image. -/
def builtInFont (imageData : Nat → UInt8) : BitmapFont where
  characters := fun i => fontMetricsCharacters[i]?.getD ⟨0, 0, 0, 0, 0, 0, 0⟩
  lineHeight := 18
  imageData := imageData
  imageFormat := .rgba8
  imageRowStride := 1024

end BitmapFont

end Kernel
end DexprOS
