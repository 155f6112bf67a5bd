import DexprOS.Library.RecordedArray
import DexprOS.Library.ShelfPacking
import Mathlib.Algebra.Group.Nat.Defs

/-!
# The font generator

`loadFontASCII` packs the bitmaps of the printable ASCII characters into an image.  The font
library is any source of bitmaps; the image is represented by the row copies made into it.

Main facts:
* `Packed.writes_lt`, `Packed.writes_apart`: the bytes that the copies of a packed atlas write;
* `Packing.placeGlyph`: a character that fits into its row keeps the packing;
* `loadFrom_packed_iff`: the characters that are left are packed exactly when they fit;
* `loadFontASCII_packed_iff`: so are all characters of a font;
* `loadFontASCII_narrow`: bitmaps of at most half of the width always fit.
-/

namespace DexprOS
namespace FontGenerator

open ShelfPacking

section Loading

/-- `NUM_PRINTABLE_ASCII_CHARACTERS` -/
def numPrintableAsciiCharacters : Nat := 95

/-- `face->glyph` after a character has been loaded and rendered.  The bytes of the bitmap
are left out. -/
structure GlyphSlot where
  width : UInt32
  rows : UInt32
  pitch : Int32
  bitmapLeft : Int32
  bitmapTop : Int32
  advanceX : Int64

structure FontCharacterData where
  imageOffsetX : UInt32
  imageOffsetY : UInt32
  width : UInt32
  height : UInt32
  bitmapLeft : Int32
  bitmapTop : Int32
  advanceX : Int32

/-- `memcpy(pImage + imageOffset, bitmap.buffer + bitmapOffset, count)` for the bitmap of a
character. -/
structure RowCopy where
  iCharacter : Nat
  imageOffset : Nat
  bitmapOffset : UInt32
  count : UInt32

/-- The variables of the loop over the characters, `pOutFontMetricsData->characters` and the
copies made so far. -/
structure AtlasState where
  currentCopyX : UInt32
  currentCopyY : UInt32
  rowHeight : UInt32
  characters : RecordedArray FontCharacterData
  copies : List RowCopy

/-- The wrap test at the end of a row. -/
def wrapRow (imageWidth : UInt32) (s : AtlasState) : AtlasState :=
  if s.currentCopyX > imageWidth - s.currentCopyX then
    { s with
      currentCopyX := 0
      currentCopyY := s.currentCopyY + s.rowHeight
      rowHeight := 0 }
  else s

/-- The copy of a row of the bitmap.  The product wraps, the addition to the pointer does not. -/
def copyRow (imageWidth : UInt32) (i : Nat) (glyph : GlyphSlot) (s : AtlasState) (h : Nat) :
    RowCopy where
  iCharacter := i
  imageOffset := (imageWidth * (s.currentCopyY + h.toUInt32)).toNat + s.currentCopyX.toNat
  bitmapOffset := glyph.pitch.toUInt32 * h.toUInt32
  count := glyph.width

/-- The copies and the record of a character that is placed. -/
def placeGlyph (imageWidth : UInt32) (i : Nat) (glyph : GlyphSlot) (s : AtlasState) :
    AtlasState where
  currentCopyX := s.currentCopyX + glyph.width
  currentCopyY := s.currentCopyY
  rowHeight := if glyph.rows > s.rowHeight then glyph.rows else s.rowHeight
  characters := s.characters.put i
    { imageOffsetX := s.currentCopyX
      imageOffsetY := s.currentCopyY
      width := glyph.width
      height := glyph.rows
      bitmapLeft := glyph.bitmapLeft
      bitmapTop := glyph.bitmapTop
      advanceX := (glyph.advanceX >>> 6).toInt32 }
  copies := s.copies ++ (List.range glyph.rows.toNat).map (copyRow imageWidth i glyph s)

/-- One pass of the loop, for the character `32 + i`; `none` is an error of `FT_Load_Char`. -/
def loadCharacter (loadChar : Nat → Option GlyphSlot) (imageWidth imageHeight : UInt32)
    (s : AtlasState) (i : Nat) : AtlasState :=
  match loadChar (32 + i) with
  | none => s
  | some glyph =>
      if glyph.width > imageWidth ∨ glyph.rows > imageHeight then s
      else if glyph.rows > imageHeight - (wrapRow imageWidth s).currentCopyY then
        wrapRow imageWidth s
      else placeGlyph imageWidth i glyph (wrapRow imageWidth s)

/-- What `loadFontASCII` uses of a font face. -/
structure FontFace where
  loadChar : Nat → Option GlyphSlot
  isScalable : Bool
  height : Int16
  unitsPerEM : UInt16

/-- `FontSize` -/
def fontSize : UInt32 := 16

/-- The state before the loop. -/
def initialAtlas (characters : Nat → FontCharacterData) : AtlasState :=
  ⟨0, 0, 0, .fresh characters, []⟩

/-- The loop over the characters 32 to 126. -/
def loadCharacters (loadChar : Nat → Option GlyphSlot) (imageWidth imageHeight : UInt32)
    (s : AtlasState) : AtlasState :=
  (List.range numPrintableAsciiCharacters).foldl
    (loadCharacter loadChar imageWidth imageHeight) s

/-- `pOutFontMetricsData->lineHeight`; there is none when the division traps. -/
def lineHeight (face : FontFace) (characterSize : UInt32) : Option UInt32 :=
  if face.isScalable then
    if characterSize = 0 ∨ face.unitsPerEM.toUInt32 / characterSize = 0 then none
    else some (face.height.toInt32.toUInt32 / (face.unitsPerEM.toUInt32 / characterSize))
  else some fontSize

/-- `loadFontASCII`, with the line height beside the state of the loop.  Nothing is done when
the library or the font cannot be loaded. -/
def loadFontASCII (face : Option FontFace) (characterSize imageWidth imageHeight : UInt32)
    (characters : Nat → FontCharacterData) : Option (AtlasState × Option UInt32) :=
  face.map fun face =>
    (loadCharacters face.loadChar imageWidth imageHeight (initialAtlas characters),
      lineHeight face characterSize)

end Loading

section Packing

/-- The rectangle of a character in the image. -/
def FontCharacterData.box (c : FontCharacterData) : Box :=
  ⟨c.imageOffsetX.toNat, c.imageOffsetY.toNat, c.width.toNat, c.height.toNat⟩

/-- The copy fills this row of a rectangle in the image. -/
def RowCopy.FillsRow (copy : RowCopy) (imageWidth : UInt32) (box : Box) (row : Nat) : Prop :=
  copy.count.toNat = box.width ∧ copy.imageOffset = imageWidth.toNat * (box.y + row) + box.x

/-- The rectangles of the placed characters lie in the image and do not overlap.  What is
copied are the rows of these rectangles. -/
structure AtlasState.Packed (s : AtlasState) (imageWidth imageHeight : UInt32) : Prop where
  inside : ∀ i ∈ s.characters.touched,
    (s.characters.get i).box.Inside imageWidth.toNat imageHeight.toNat
  apart : ∀ i ∈ s.characters.touched, ∀ j ∈ s.characters.touched, i ≠ j →
    (s.characters.get i).box.Apart (s.characters.get j).box
  placed : ∀ copy ∈ s.copies, copy.iCharacter ∈ s.characters.touched
  rows : ∀ copy ∈ s.copies, copy.count = 0 ∨
    ∃ row < (s.characters.get copy.iCharacter).box.height,
      copy.FillsRow imageWidth (s.characters.get copy.iCharacter).box row
  copied : ∀ i ∈ s.characters.touched, (s.characters.get i).box.width = 0 ∨
    ∀ row < (s.characters.get i).box.height,
      ∃ copy ∈ s.copies, copy.iCharacter = i ∧
        copy.FillsRow imageWidth (s.characters.get i).box row

/-- The copy writes the byte with this offset. -/
def RowCopy.Writes (copy : RowCopy) (offset : Nat) : Prop :=
  copy.imageOffset ≤ offset ∧ offset < copy.imageOffset + copy.count.toNat

/-- A row with more than half of the width in use is closed. -/
def nextShelf (width : Nat) (shelf : Shelf) : Shelf :=
  if width < 2 * shelf.x then shelf.openNext else shelf

/-- The offsets of the rows of a bitmap fit into 32 bits, where the bitmap has any pixels. -/
def RowsAddressable (width y w h : Nat) : Prop :=
  w = 0 ∨ ∀ row < h, width * (y + row) < 2 ^ 32

/-- Every bitmap that is not larger than the image, and not too high for what is left of it,
is at most as wide as the bitmaps before it leave of its row, and its rows have offsets of 32
bits. -/
def FitsRows (width height : Nat) : Shelf → List (Option (Nat × Nat)) → Prop
  | _, [] => True
  | shelf, none :: sizes => FitsRows width height shelf sizes
  | shelf, some (w, h) :: sizes =>
      if width < w ∨ height < h then FitsRows width height shelf sizes
      else if height < (nextShelf width shelf).y + h then
        FitsRows width height (nextShelf width shelf) sizes
      else
        (nextShelf width shelf).x + w ≤ width ∧
          RowsAddressable width (nextShelf width shelf).y w h ∧
          FitsRows width height ((nextShelf width shelf).place w h) sizes

instance (width y w h : Nat) : Decidable (RowsAddressable width y w h) :=
  inferInstanceAs (Decidable (w = 0 ∨ ∀ row < h, width * (y + row) < 2 ^ 32))

instance decidableFitsRows (width height : Nat) :
    ∀ (shelf : Shelf) (sizes : List (Option (Nat × Nat))),
      Decidable (FitsRows width height shelf sizes)
  | _, [] => inferInstanceAs (Decidable True)
  | shelf, none :: sizes => decidableFitsRows width height shelf sizes
  | shelf, some (w, h) :: sizes =>
      have := decidableFitsRows width height shelf sizes
      have := decidableFitsRows width height (nextShelf width shelf) sizes
      have := decidableFitsRows width height ((nextShelf width shelf).place w h) sizes
      inferInstanceAs (Decidable (if width < w ∨ height < h then FitsRows width height shelf sizes
        else if height < (nextShelf width shelf).y + h then
          FitsRows width height (nextShelf width shelf) sizes
        else
          (nextShelf width shelf).x + w ≤ width ∧
            RowsAddressable width (nextShelf width shelf).y w h ∧
            FitsRows width height ((nextShelf width shelf).place w h) sizes))

/-- The size of the bitmap of the character `32 + i`, if it can be loaded. -/
def bitmapSize (loadChar : Nat → Option GlyphSlot) (i : Nat) : Option (Nat × Nat) :=
  (loadChar (32 + i)).map fun glyph => (glyph.width.toNat, glyph.rows.toNat)

variable {imageWidth imageHeight : UInt32} {s : AtlasState} {shelf : Shelf}

section Bytes

variable {a b copy : RowCopy} {box : Box} {row offset : Nat}

/-- A byte that a copy writes is a pixel of the row. -/
theorem RowCopy.FillsRow.exists_pixel
    (h : copy.FillsRow imageWidth box row)
    (hrow : row < box.height)
    (hwrites : copy.Writes offset) :
    ∃ px, box.Contains px (box.y + row) ∧ offset = imageWidth.toNat * (box.y + row) + px := by
  obtain ⟨hcount, hoffset⟩ := h
  obtain ⟨hfirst, hlast⟩ := hwrites
  rw [hcount, hoffset] at hlast
  rw [hoffset] at hfirst
  refine ⟨offset - imageWidth.toNat * (box.y + row), ⟨?_, ?_, ?_, ?_⟩, ?_⟩ <;> omega

/-- So the byte belongs to the rectangle of a character. -/
theorem AtlasState.Packed.exists_pixel
    (h : s.Packed imageWidth imageHeight)
    (hcopy : copy ∈ s.copies)
    (hwrites : copy.Writes offset) :
    ∃ px py, (s.characters.get copy.iCharacter).box.Contains px py ∧
      offset = imageWidth.toNat * py + px := by
  rcases h.rows copy hcopy with hnone | ⟨row, hrow, hfills⟩
  · obtain ⟨hfirst, hlast⟩ := hwrites
    rw [hnone] at hlast
    exact absurd (Nat.lt_of_le_of_lt hfirst hlast) (Nat.lt_irrefl _)
  · obtain ⟨px, hcontains, hoffset⟩ := hfills.exists_pixel hrow hwrites
    exact ⟨px, _, hcontains, hoffset⟩

/-- The copies of a packed atlas stay in the image. -/
theorem AtlasState.Packed.writes_lt
    (h : s.Packed imageWidth imageHeight)
    (hcopy : copy ∈ s.copies)
    (hwrites : copy.Writes offset) :
    offset < imageWidth.toNat * imageHeight.toNat := by
  obtain ⟨px, py, ⟨-, hright, -, hbottom⟩, rfl⟩ := h.exists_pixel hcopy hwrites
  obtain ⟨hwidth, hheight⟩ := h.inside _ (h.placed copy hcopy)
  calc imageWidth.toNat * py + px
      < imageWidth.toNat * (py + 1) := by
        rw [Nat.mul_succ]
        omega
    _ ≤ imageWidth.toNat * imageHeight.toNat := Nat.mul_le_mul_left _ (by omega)

/-- The copies for two characters of a packed atlas write no byte twice. -/
theorem AtlasState.Packed.writes_apart
    (h : s.Packed imageWidth imageHeight)
    (ha : a ∈ s.copies)
    (hb : b ∈ s.copies)
    (hne : a.iCharacter ≠ b.iCharacter) :
    ¬(a.Writes offset ∧ b.Writes offset) := by
  rintro ⟨hwritesa, hwritesb⟩
  obtain ⟨px, py, hcontains, hoffset⟩ := h.exists_pixel ha hwritesa
  obtain ⟨px', py', hcontains', hoffset'⟩ := h.exists_pixel hb hwritesb
  have hx : px < imageWidth.toNat :=
    Nat.lt_of_lt_of_le hcontains.2.1 (h.inside _ (h.placed a ha)).1
  have hx' : px' < imageWidth.toNat :=
    Nat.lt_of_lt_of_le hcontains'.2.1 (h.inside _ (h.placed b hb)).1
  have hpos : 0 < imageWidth.toNat := Nat.zero_lt_of_lt hx
  -- the offset determines the pixel, as in any image stored by rows
  have hy : py = py' := by
    have hdiv := congrArg (· / imageWidth.toNat) (hoffset.symm.trans hoffset')
    simpa [Nat.mul_add_div hpos, Nat.div_eq_of_lt hx, Nat.div_eq_of_lt hx'] using hdiv
  subst hy
  have hxx : px = px' := Nat.add_left_cancel (hoffset.symm.trans hoffset')
  subst hxx
  exact h.apart _ (h.placed a ha) _ (h.placed b hb) hne px py ⟨hcontains, hcontains'⟩

end Bytes

/-- The loop's variables hold the shelf, which lies in the image. -/
structure Holds (imageWidth imageHeight : UInt32) (s : AtlasState) (shelf : Shelf) : Prop where
  x : s.currentCopyX.toNat = shelf.x
  y : s.currentCopyY.toNat = shelf.y
  height : s.rowHeight.toNat = shelf.height
  right : shelf.x ≤ imageWidth.toNat
  bottom : shelf.y + shelf.height ≤ imageHeight.toNat

@[simp] theorem wrapRow_characters :
    (wrapRow imageWidth s).characters = s.characters := by
  rw [wrapRow]
  split <;> rfl

@[simp] theorem wrapRow_copies :
    (wrapRow imageWidth s).copies = s.copies := by
  rw [wrapRow]
  split <;> rfl

/-- The wrap test closes a row that is more than half full. -/
theorem Holds.wrapRow
    (h : Holds imageWidth imageHeight s shelf) :
    Holds imageWidth imageHeight (wrapRow imageWidth s) (nextShelf imageWidth.toNat shelf) := by
  have hle : s.currentCopyX ≤ imageWidth := by
    rw [UInt32.le_iff_toNat_le, h.x]
    exact h.right
  have hiff : s.currentCopyX > imageWidth - s.currentCopyX ↔
      imageWidth.toNat < 2 * shelf.x := by
    have hright := h.right
    rw [gt_iff_lt, UInt32.lt_iff_toNat_lt, UInt32.toNat_sub_of_le _ _ hle, h.x]
    omega
  rw [FontGenerator.wrapRow, nextShelf]
  by_cases hwrap : imageWidth.toNat < 2 * shelf.x
  · rw [if_pos (hiff.mpr hwrap), if_pos hwrap]
    have hlt := imageHeight.toNat_lt
    refine ⟨rfl, ?_, rfl, Nat.zero_le _, ?_⟩
    · have hbottom := h.bottom
      rw [UInt32.toNat_add, h.y, h.height, Shelf.openNext]
      exact Nat.mod_eq_of_lt (by omega)
    · simpa [Shelf.openNext] using h.bottom
  · rw [if_neg (fun hx => hwrap (hiff.mp hx)), if_neg hwrap]
    exact h

variable {i : Nat} {glyph : GlyphSlot}

/-- The height test. -/
theorem Holds.rows_gt_iff
    (h : Holds imageWidth imageHeight s shelf) :
    glyph.rows > imageHeight - s.currentCopyY ↔
      imageHeight.toNat < shelf.y + glyph.rows.toNat := by
  have hbottom := h.bottom
  have hle : s.currentCopyY ≤ imageHeight := by
    rw [UInt32.le_iff_toNat_le, h.y]
    omega
  rw [gt_iff_lt, UInt32.lt_iff_toNat_lt, UInt32.toNat_sub_of_le _ _ hle, h.y]
  omega

/-- The record of a placed character is the next box of the shelf. -/
theorem Holds.box_placeGlyph
    (h : Holds imageWidth imageHeight s shelf) :
    ((placeGlyph imageWidth i glyph s).characters.get i).box =
      shelf.box glyph.width.toNat glyph.rows.toNat := by
  simp [placeGlyph, FontCharacterData.box, Shelf.box, h.x, h.y]

theorem mem_copies_placeGlyph
    {copy : RowCopy} :
    copy ∈ (placeGlyph imageWidth i glyph s).copies ↔
      copy ∈ s.copies ∨
        ∃ row < glyph.rows.toNat, copyRow imageWidth i glyph s row = copy := by
  simp [placeGlyph]

/-- A copy goes to the offset of its row, without the carry of the product. -/
theorem Holds.imageOffset_copyRow
    {row : Nat}
    (h : Holds imageWidth imageHeight s shelf)
    (hbottom : shelf.y + row < imageHeight.toNat) :
    (copyRow imageWidth i glyph s row).imageOffset =
      imageWidth.toNat * (shelf.y + row) % 2 ^ 32 + shelf.x := by
  have hlt := imageHeight.toNat_lt
  have hy : (s.currentCopyY + row.toUInt32).toNat = shelf.y + row := by
    rw [UInt32.toNat_add, h.y, Nat.toUInt32, UInt32.toNat_ofNat']
    omega
  rw [copyRow, UInt32.toNat_mul, hy, h.x]

/-- Without a carry the copy fills its row. -/
theorem Holds.fillsRow_copyRow
    {row : Nat}
    (h : Holds imageWidth imageHeight s shelf)
    (hbottom : shelf.y + row < imageHeight.toNat)
    (haddressable : imageWidth.toNat * (shelf.y + row) < 2 ^ 32) :
    (copyRow imageWidth i glyph s row).FillsRow imageWidth
      (shelf.box glyph.width.toNat glyph.rows.toNat) row := by
  refine ⟨rfl, ?_⟩
  rw [h.imageOffset_copyRow hbottom, Nat.mod_eq_of_lt haddressable, Shelf.box]

/-- No copy fills a row whose offset has a carry. -/
theorem Holds.addressable_of_fillsRow
    {row row' : Nat}
    (h : Holds imageWidth imageHeight s shelf)
    (hbottom : shelf.y + row' < imageHeight.toNat)
    (hfills : (copyRow imageWidth i glyph s row').FillsRow imageWidth
      (shelf.box glyph.width.toNat glyph.rows.toNat) row) :
    imageWidth.toNat * (shelf.y + row) < 2 ^ 32 := by
  have hoffset := hfills.2
  rw [h.imageOffset_copyRow hbottom, Shelf.box, Nat.add_right_cancel_iff] at hoffset
  rw [← hoffset]
  exact Nat.mod_lt _ (Nat.two_pow_pos 32)

/-- A character that fits is put on the shelf. -/
theorem Holds.placeGlyph
    (h : Holds imageWidth imageHeight s shelf)
    (hright : shelf.x + glyph.width.toNat ≤ imageWidth.toNat)
    (hbottom : shelf.y + glyph.rows.toNat ≤ imageHeight.toNat) :
    Holds imageWidth imageHeight (placeGlyph imageWidth i glyph s)
      (shelf.place glyph.width.toNat glyph.rows.toNat) := by
  have hlt := imageWidth.toNat_lt
  have hbottom' := h.bottom
  refine ⟨?_, h.y, ?_, hright, ?_⟩
  · rw [FontGenerator.placeGlyph, UInt32.toNat_add, h.x, Shelf.place]
    exact Nat.mod_eq_of_lt (by omega)
  · simp only [FontGenerator.placeGlyph, Shelf.place, ← h.height, gt_iff_lt,
      UInt32.lt_iff_toNat_lt]
    split
    · omega
    · omega
  · simp only [Shelf.place]
    omega

/-- The state before the character `32 + k`, as long as all characters have fitted. -/
structure Packing (imageWidth imageHeight : UInt32) (k : Nat) (s : AtlasState) (shelf : Shelf) :
    Prop where
  holds : Holds imageWidth imageHeight s shelf
  packed : s.Packed imageWidth imageHeight
  below : ∀ i ∈ s.characters.touched, i < k
  behind : ∀ i ∈ s.characters.touched, shelf.Behind (s.characters.get i).box

variable {k : Nat}

theorem Packing.skip
    (h : Packing imageWidth imageHeight k s shelf) :
    Packing imageWidth imageHeight (k + 1) s shelf :=
  ⟨h.holds, h.packed, fun i hi => Nat.lt_succ_of_lt (h.below i hi), h.behind⟩

theorem Packing.wrapRow
    (h : Packing imageWidth imageHeight k s shelf) :
    Packing imageWidth imageHeight k (wrapRow imageWidth s)
      (nextShelf imageWidth.toNat shelf) := by
  have hpacked : (FontGenerator.wrapRow imageWidth s).Packed imageWidth imageHeight := by
    rw [FontGenerator.wrapRow]
    split
    · exact ⟨h.packed.inside, h.packed.apart, h.packed.placed, h.packed.rows, h.packed.copied⟩
    · exact h.packed
  refine ⟨h.holds.wrapRow, hpacked, by simpa using h.below, ?_⟩
  rw [wrapRow_characters, nextShelf]
  intro i hi
  split
  · exact (h.behind i hi).openNext
  · exact h.behind i hi

/-- The records of the characters before stay as they are. -/
theorem Packing.get_placeGlyph
    (h : Packing imageWidth imageHeight k s shelf) :
    ∀ i ∈ s.characters.touched,
      (placeGlyph imageWidth k glyph s).characters.get i = s.characters.get i :=
  fun i hi => RecordedArray.get_put_of_ne (Nat.ne_of_lt (h.below i hi))

/-- The records and copies of a character that fits are packed. -/
theorem Packing.packed_placeGlyph
    (h : Packing imageWidth imageHeight k s shelf)
    (hright : shelf.x + glyph.width.toNat ≤ imageWidth.toNat)
    (hbottom : shelf.y + glyph.rows.toNat ≤ imageHeight.toNat)
    (haddressable : RowsAddressable imageWidth.toNat shelf.y glyph.width.toNat
      glyph.rows.toNat) :
    (placeGlyph imageWidth k glyph s).Packed imageWidth imageHeight := by
  have hbox : ((FontGenerator.placeGlyph imageWidth k glyph s).characters.get k).box =
      shelf.box glyph.width.toNat glyph.rows.toNat := h.holds.box_placeGlyph
  have hold : ∀ i ∈ s.characters.touched,
      (FontGenerator.placeGlyph imageWidth k glyph s).characters.get i =
        s.characters.get i := h.get_placeGlyph
  constructor
  case inside =>
    intro i hi
    rcases List.mem_cons.mp hi with rfl | hi
    · rw [hbox]
      exact ⟨hright, hbottom⟩
    · rw [hold i hi]
      exact h.packed.inside i hi
  case apart =>
    intro i hi j hj hne
    rcases List.mem_cons.mp hi with rfl | hi'
    · have hj' := (List.mem_cons.mp hj).resolve_left hne.symm
      rw [hbox, hold j hj']
      exact (h.behind j hj').apart.symm
    · rcases List.mem_cons.mp hj with rfl | hj'
      · rw [hbox, hold i hi']
        exact (h.behind i hi').apart
      · rw [hold i hi', hold j hj']
        exact h.packed.apart i hi' j hj' hne
  case placed =>
    intro copy hcopy
    rcases mem_copies_placeGlyph.mp hcopy with hcopy | ⟨row, -, rfl⟩
    · exact List.mem_cons_of_mem k (h.packed.placed copy hcopy)
    · exact List.mem_cons_self
  case rows =>
    intro copy hcopy
    rcases mem_copies_placeGlyph.mp hcopy with hcopy | ⟨row, hrow, rfl⟩
    · rw [hold _ (h.packed.placed copy hcopy)]
      exact h.packed.rows copy hcopy
    · rcases haddressable with hempty | haddressable
      · exact Or.inl (UInt32.toNat_inj.mp hempty)
      · have hfills : (copyRow imageWidth k glyph s row).FillsRow imageWidth
            (shelf.box glyph.width.toNat glyph.rows.toNat) row :=
          h.holds.fillsRow_copyRow (by omega) (haddressable row hrow)
        rw [← hbox] at hfills
        refine Or.inr ⟨row, ?_, hfills⟩
        rw [copyRow, hbox]
        exact hrow
  case copied =>
    intro i hi
    rcases List.mem_cons.mp hi with rfl | hi
    · rw [hbox]
      refine haddressable.imp id fun haddressable row hrow => ?_
      exact ⟨_, mem_copies_placeGlyph.mpr (Or.inr ⟨row, hrow, rfl⟩), rfl,
        h.holds.fillsRow_copyRow (Nat.lt_of_lt_of_le (Nat.add_lt_add_left hrow _) hbottom)
          (haddressable row hrow)⟩
    · rw [hold i hi]
      refine (h.packed.copied i hi).imp id fun hrows row hrow => ?_
      obtain ⟨copy, hcopy, hfills⟩ := hrows row hrow
      exact ⟨copy, mem_copies_placeGlyph.mpr (Or.inl hcopy), hfills⟩

/-- A character that fits keeps the packing. -/
theorem Packing.placeGlyph
    (h : Packing imageWidth imageHeight k s shelf)
    (hright : shelf.x + glyph.width.toNat ≤ imageWidth.toNat)
    (hbottom : shelf.y + glyph.rows.toNat ≤ imageHeight.toNat)
    (haddressable : RowsAddressable imageWidth.toNat shelf.y glyph.width.toNat
      glyph.rows.toNat) :
    Packing imageWidth imageHeight (k + 1) (placeGlyph imageWidth k glyph s)
      (shelf.place glyph.width.toNat glyph.rows.toNat) := by
  refine ⟨h.holds.placeGlyph hright hbottom,
    h.packed_placeGlyph hright hbottom haddressable, ?_, ?_⟩
  · intro i hi
    rcases List.mem_cons.mp hi with rfl | hi
    · exact Nat.lt_succ_self _
    · exact Nat.lt_succ_of_lt (h.below i hi)
  · intro i hi
    rcases List.mem_cons.mp hi with rfl | hi
    · rw [h.holds.box_placeGlyph]
      exact Shelf.behind_box
    · rw [h.get_placeGlyph i hi]
      exact (h.behind i hi).place

end Packing

section Run

variable (loadChar : Nat → Option GlyphSlot) (imageWidth imageHeight : UInt32)
variable {s : AtlasState} {k i : Nat}

/-- What a pass does to the records: nothing, or one more for its own character. -/
theorem loadCharacter_characters :
    (loadCharacter loadChar imageWidth imageHeight s k).characters = s.characters ∨
      ∃ c, (loadCharacter loadChar imageWidth imageHeight s k).characters =
        s.characters.put k c := by
  rw [loadCharacter]
  split
  · exact Or.inl rfl
  split
  · exact Or.inl rfl
  split
  · exact Or.inl wrapRow_characters
  · rw [placeGlyph, wrapRow_characters]
    exact Or.inr ⟨_, rfl⟩

/-- The copies that a pass makes are for its own character. -/
theorem loadCharacter_copies
    {copy : RowCopy}
    (h : copy ∈ (loadCharacter loadChar imageWidth imageHeight s k).copies) :
    copy ∈ s.copies ∨ copy.iCharacter = k := by
  rw [loadCharacter] at h
  split at h
  · exact Or.inl h
  split at h
  · exact Or.inl h
  split at h
  · rw [wrapRow_copies] at h
    exact Or.inl h
  · rw [mem_copies_placeGlyph, wrapRow_copies] at h
    rcases h with h | ⟨row, -, rfl⟩
    · exact Or.inl h
    · exact Or.inr rfl

/-- The passes from the character `32 + k` on, `n` of them. -/
def loadFrom (k n : Nat) (s : AtlasState) : AtlasState :=
  (List.range' k n).foldl (loadCharacter loadChar imageWidth imageHeight) s

theorem loadFrom_succ
    (n : Nat) :
    loadFrom loadChar imageWidth imageHeight k (n + 1) s =
      loadFrom loadChar imageWidth imageHeight (k + 1) n
        (loadCharacter loadChar imageWidth imageHeight s k) := by
  rw [loadFrom, List.range'_succ, List.foldl_cons, loadFrom]

/-- A record stays as it is. -/
theorem loadFrom_keeps
    (n : Nat) :
    ∀ {k : Nat} {s : AtlasState}, i < k → i ∈ s.characters.touched →
      i ∈ (loadFrom loadChar imageWidth imageHeight k n s).characters.touched ∧
        (loadFrom loadChar imageWidth imageHeight k n s).characters.get i =
          s.characters.get i := by
  induction n with
  | zero =>
      intro k s _ hi
      exact ⟨hi, rfl⟩
  | succ n ih =>
      intro k s hlt hi
      rw [loadFrom_succ]
      rcases loadCharacter_characters loadChar imageWidth imageHeight (s := s) (k := k) with
        hsame | ⟨c, hput⟩
      · rw [← hsame] at hi ⊢
        exact ih (Nat.lt_succ_of_lt hlt) hi
      · have hget : (s.characters.put k c).get i = s.characters.get i :=
          RecordedArray.get_put_of_ne (Nat.ne_of_lt hlt)
        rw [← hget, ← hput]
        refine ih (Nat.lt_succ_of_lt hlt) ?_
        rw [hput]
        exact List.mem_cons_of_mem k hi

/-- The copies for a character stay as they are. -/
theorem loadFrom_copies
    {copy : RowCopy} (n : Nat) :
    ∀ {k : Nat} {s : AtlasState}, copy.iCharacter < k →
      copy ∈ (loadFrom loadChar imageWidth imageHeight k n s).copies → copy ∈ s.copies := by
  induction n with
  | zero => exact fun _ hcopy => hcopy
  | succ n ih =>
      intro k s hlt hcopy
      rw [loadFrom_succ] at hcopy
      have hpass := ih (Nat.lt_succ_of_lt hlt) hcopy
      exact (loadCharacter_copies loadChar imageWidth imageHeight hpass).resolve_right
        (Nat.ne_of_lt hlt)

/-- The record of a character that does not fit stays outside of the image. -/
theorem not_packed_of_wide
    {glyph : GlyphSlot} {shelf : Shelf} (n : Nat)
    (h : Holds imageWidth imageHeight s shelf)
    (hwide : ¬shelf.x + glyph.width.toNat ≤ imageWidth.toNat) :
    ¬(loadFrom loadChar imageWidth imageHeight (k + 1) n
        (placeGlyph imageWidth k glyph s)).Packed imageWidth imageHeight := by
  intro hpacked
  obtain ⟨htouched, hget⟩ := loadFrom_keeps loadChar imageWidth imageHeight n
    (s := placeGlyph imageWidth k glyph s) (Nat.lt_succ_self k) List.mem_cons_self
  have hinside := hpacked.inside k htouched
  rw [hget, h.box_placeGlyph] at hinside
  exact hwide hinside.1

/-- A row whose offset has a carry is not copied to its place. -/
theorem not_packed_of_carry
    {glyph : GlyphSlot} {shelf : Shelf} (n : Nat)
    (h : Packing imageWidth imageHeight k s shelf)
    (hbottom : shelf.y + glyph.rows.toNat ≤ imageHeight.toNat)
    (hcarry : ¬RowsAddressable imageWidth.toNat shelf.y glyph.width.toNat glyph.rows.toNat) :
    ¬(loadFrom loadChar imageWidth imageHeight (k + 1) n
        (placeGlyph imageWidth k glyph s)).Packed imageWidth imageHeight := by
  intro hpacked
  obtain ⟨htouched, hget⟩ := loadFrom_keeps loadChar imageWidth imageHeight n
    (s := placeGlyph imageWidth k glyph s) (Nat.lt_succ_self k) List.mem_cons_self
  have hcopied := hpacked.copied k htouched
  rw [hget, h.holds.box_placeGlyph] at hcopied
  refine hcarry (hcopied.imp id fun hrows row hrow => ?_)
  obtain ⟨copy, hcopy, hi, hfills⟩ := hrows row hrow
  have hplaced := loadFrom_copies loadChar imageWidth imageHeight n
    (hi ▸ Nat.lt_succ_self k) hcopy
  -- the characters before have copies of their own only
  rcases mem_copies_placeGlyph.mp hplaced with hold | ⟨row', hrow', rfl⟩
  · exact absurd hi (Nat.ne_of_lt (h.below _ (h.packed.placed copy hold)))
  · exact h.holds.addressable_of_fillsRow
      (Nat.lt_of_lt_of_le (Nat.add_lt_add_left hrow' _) hbottom) hfills

/-- The characters that are left are packed exactly when they fit. -/
theorem loadFrom_packed_iff
    (n : Nat) :
    ∀ {k : Nat} {s : AtlasState} {shelf : Shelf}, Packing imageWidth imageHeight k s shelf →
      ((loadFrom loadChar imageWidth imageHeight k n s).Packed imageWidth imageHeight ↔
        FitsRows imageWidth.toNat imageHeight.toNat shelf
          ((List.range' k n).map (bitmapSize loadChar))) := by
  induction n with
  | zero =>
      intro k s shelf h
      exact iff_of_true h.packed trivial
  | succ n ih =>
      intro k s shelf h
      rw [loadFrom_succ, List.range'_succ, List.map_cons]
      cases hload : loadChar (32 + k) with
      | none =>
          rw [loadCharacter, hload, bitmapSize, hload]
          exact ih h.skip
      | some glyph =>
          rw [loadCharacter, hload, bitmapSize, hload]
          simp only [Option.map_some, FitsRows]
          have hlarge : (glyph.width > imageWidth ∨ glyph.rows > imageHeight) ↔
              imageWidth.toNat < glyph.width.toNat ∨ imageHeight.toNat < glyph.rows.toNat :=
            Iff.rfl
          by_cases htoo : glyph.width > imageWidth ∨ glyph.rows > imageHeight
          · rw [if_pos htoo, if_pos (hlarge.mp htoo)]
            exact ih h.skip
          rw [if_neg htoo, if_neg (fun hn => htoo (hlarge.mpr hn))]
          have hwrap := h.wrapRow
          by_cases hhigh : glyph.rows > imageHeight - (wrapRow imageWidth s).currentCopyY
          · rw [if_pos hhigh, if_pos (hwrap.holds.rows_gt_iff.mp hhigh)]
            exact ih hwrap.skip
          rw [if_neg hhigh, if_neg (fun hn => hhigh (hwrap.holds.rows_gt_iff.mpr hn))]
          have hbottom : (nextShelf imageWidth.toNat shelf).y + glyph.rows.toNat ≤
              imageHeight.toNat :=
            Nat.not_lt.mp fun hn => hhigh (hwrap.holds.rows_gt_iff.mpr hn)
          by_cases hright : (nextShelf imageWidth.toNat shelf).x + glyph.width.toNat ≤
              imageWidth.toNat
          case neg =>
            refine iff_of_false ?_ fun hfits => hright hfits.1
            exact not_packed_of_wide loadChar imageWidth imageHeight n hwrap.holds hright
          by_cases haddressable : RowsAddressable imageWidth.toNat
              (nextShelf imageWidth.toNat shelf).y glyph.width.toNat glyph.rows.toNat
          · rw [and_iff_right hright, and_iff_right haddressable]
            exact ih (hwrap.placeGlyph hright hbottom haddressable)
          · refine iff_of_false ?_ fun hfits => haddressable hfits.2.1
            exact not_packed_of_carry loadChar imageWidth imageHeight n hwrap hbottom haddressable

/-- Nothing has been placed before the loop. -/
theorem packing_initial
    (characters : Nat → FontCharacterData) :
    Packing imageWidth imageHeight 0 (initialAtlas characters) ⟨0, 0, 0⟩ where
  holds := ⟨rfl, rfl, rfl, Nat.zero_le _, Nat.zero_le _⟩
  packed :=
    { inside := fun _ hi => absurd hi List.not_mem_nil
      apart := fun _ hi => absurd hi List.not_mem_nil
      placed := fun _ hcopy => absurd hcopy List.not_mem_nil
      rows := fun _ hcopy => absurd hcopy List.not_mem_nil
      copied := fun _ hi => absurd hi List.not_mem_nil }
  below := fun _ hi => absurd hi List.not_mem_nil
  behind := fun _ hi => absurd hi List.not_mem_nil

/-- The sizes of the bitmaps of all characters, in the order of the loop. -/
def bitmapSizes : List (Option (Nat × Nat)) :=
  (List.range numPrintableAsciiCharacters).map (bitmapSize loadChar)

/-- The atlas is in bounds and free of overlaps exactly when each character that is placed fits
into its row. -/
theorem loadCharacters_packed_iff
    (characters : Nat → FontCharacterData) :
    (loadCharacters loadChar imageWidth imageHeight (initialAtlas characters)).Packed imageWidth
        imageHeight ↔
      FitsRows imageWidth.toNat imageHeight.toNat ⟨0, 0, 0⟩ (bitmapSizes loadChar) := by
  have h := loadFrom_packed_iff loadChar imageWidth imageHeight numPrintableAsciiCharacters
    (packing_initial imageWidth imageHeight characters)
  rwa [loadFrom, ← List.range_eq_range'] at h

/-- In an image of at most 2^32 bytes no offset has a carry. -/
theorem rowsAddressable_of_le
    {width height y w h : Nat}
    (hsize : width * height ≤ 2 ^ 32)
    (hbottom : y + h ≤ height) :
    RowsAddressable width y w h := by
  refine Or.inr fun row hrow => ?_
  rcases Nat.eq_zero_or_pos width with rfl | hpos
  · rw [Nat.zero_mul]
    exact Nat.two_pow_pos 32
  · have hlt : width * (y + row) < width * height :=
      Nat.mul_lt_mul_of_pos_left (by omega) hpos
    exact Nat.lt_of_lt_of_le hlt hsize

/-- Bitmaps of at most half of the width fit. -/
theorem fitsRows_of_narrow
    {width height : Nat} (sizes : List (Option (Nat × Nat)))
    (hsize : width * height ≤ 2 ^ 32)
    (hnarrow : ∀ w h, some (w, h) ∈ sizes → 2 * w ≤ width + 1) :
    ∀ shelf : Shelf, FitsRows width height shelf sizes := by
  induction sizes with
  | nil => exact fun _ => trivial
  | cons size sizes ih =>
      intro shelf
      have hrest := ih fun w h hmem => hnarrow w h (List.mem_cons_of_mem _ hmem)
      cases size with
      | none => exact hrest shelf
      | some size =>
          obtain ⟨w, h⟩ := size
          have hw := hnarrow w h List.mem_cons_self
          rw [FitsRows]
          split
          · exact hrest shelf
          split
          · exact hrest _
          case isFalse hbottom =>
            refine ⟨?_, rowsAddressable_of_le hsize (Nat.not_lt.mp hbottom), hrest _⟩
            rw [nextShelf]
            split
            · simp only [Shelf.openNext]
              omega
            · omega

/-- The font is packed exactly when each character that is placed fits into its row. -/
theorem loadFontASCII_packed_iff
    (face : FontFace) (characterSize : UInt32) (characters : Nat → FontCharacterData) :
    ∃ s lineHeight,
      loadFontASCII (some face) characterSize imageWidth imageHeight characters =
        some (s, lineHeight) ∧
      (s.Packed imageWidth imageHeight ↔
        FitsRows imageWidth.toNat imageHeight.toNat ⟨0, 0, 0⟩ (bitmapSizes face.loadChar)) :=
  ⟨_, _, rfl, loadCharacters_packed_iff face.loadChar imageWidth imageHeight characters⟩

/-- The offset of the second bitmap has a carry, and it is copied over the first one. -/
example : ¬FitsRows 2147483648 3 ⟨0, 0, 0⟩ [some (1073741825, 2), some (10, 1)] := by decide

/-- A font of narrow characters is packed, whatever their heights are, and the copies for two
characters write different bytes of the image. -/
theorem loadFontASCII_narrow
    (face : FontFace) (characterSize : UInt32) (characters : Nat → FontCharacterData)
    (hsize : imageWidth.toNat * imageHeight.toNat ≤ 2 ^ 32)
    (hnarrow : ∀ c glyph, face.loadChar c = some glyph →
      2 * glyph.width.toNat ≤ imageWidth.toNat + 1) :
    ∃ s lineHeight,
      loadFontASCII (some face) characterSize imageWidth imageHeight characters =
        some (s, lineHeight) ∧
      s.Packed imageWidth imageHeight ∧
      (∀ copy ∈ s.copies, ∀ offset, copy.Writes offset →
        offset < imageWidth.toNat * imageHeight.toNat) ∧
      ∀ a ∈ s.copies, ∀ b ∈ s.copies, a.iCharacter ≠ b.iCharacter →
        ∀ offset, ¬(a.Writes offset ∧ b.Writes offset) := by
  have hfits : FitsRows imageWidth.toNat imageHeight.toNat ⟨0, 0, 0⟩
      (bitmapSizes face.loadChar) := by
    refine fitsRows_of_narrow _ hsize ?_ _
    intro w h hmem
    obtain ⟨i, -, hi⟩ := List.mem_map.mp hmem
    obtain ⟨glyph, hload, hbitmap⟩ := Option.map_eq_some_iff.mp hi
    rw [Prod.mk.injEq] at hbitmap
    rw [← hbitmap.1]
    exact hnarrow (32 + i) glyph hload
  have hpacked := (loadCharacters_packed_iff face.loadChar imageWidth imageHeight
    characters).mpr hfits
  exact ⟨_, _, rfl, hpacked, fun copy hcopy offset hwrites => hpacked.writes_lt hcopy hwrites,
    fun a ha b hb hne offset => hpacked.writes_apart ha hb hne⟩

/-- A face whose first two characters are 100 and 200 pixels wide. -/
def wideCharacters : FontFace where
  loadChar
    | 32 => some ⟨100, 1, 100, 0, 0, 0⟩
    | 33 => some ⟨200, 1, 200, 0, 0, 0⟩
    | _ => none
  isScalable := false
  height := 16
  unitsPerEM := 0

/-- In an image of 256 pixels the second one starts at 100 and ends at 300. -/
theorem loadFontASCII_not_packed :
    ¬∃ s lineHeight,
      loadFontASCII (some wideCharacters) fontSize 256 256 (fun _ => ⟨0, 0, 0, 0, 0, 0, 0⟩) =
        some (s, lineHeight) ∧ s.Packed 256 256 := by
  rintro ⟨s, lineHeight, hload, hpacked⟩
  cases hload
  have hfits := (loadCharacters_packed_iff wideCharacters.loadChar 256 256 _).mp hpacked
  exact absurd hfits (by decide +kernel)

end Run

end FontGenerator
end DexprOS
