import DexprOS.Drivers.Graphics.CpuGraphicsSwapping
import DexprOS.Library.Painting

/-!
# Drawing and clearing

A blit and the clearing of a region of the same place and size write to the same pixels,
although they clip in different ways: the one with signed, the other with unsigned words.
Rows may wrap around, so pixels are told apart by their slots in the framebuffer.

Main facts:
* `blitPixels_paints`, `clearPixels_fills`: the loops, on the framebuffer;
* `clipRegionAxis_of_clipBlitAxis`: what both ways of clipping leave;
* `blit_paints`, `clearRegion_fills`: the two calls of the driver;
* `runGraphicsCall_frame`: no call changes the frame.
-/

namespace DexprOS
namespace Graphics

open Damage Painting Word32

section Frame

/-- What no call changes. -/
structure CpuGrFrame where
  width : UInt32
  height : UInt32
  pixelBytes : UInt32
  pixelStride : UInt32
  format : CpuGrFramebufferFormat
deriving DecidableEq

def CpuGrGraphicsDrvData.frame (d : CpuGrGraphicsDrvData) : CpuGrFrame where
  width := d.presentationWidth
  height := d.presentationHeight
  pixelBytes := d.presentationPixelBytes
  pixelStride := d.presentationPixelStride
  format := d.framebufferFormat

/-- Pixels have the four bytes that blits assume, and their offsets in a row fit in 31
bits. -/
structure CpuGrFrame.Fits (F : CpuGrFrame) : Prop where
  pixelBytes_eq : F.pixelBytes = 4
  row_le : F.width.toNat * 4 ≤ 2147483648

/-- The colour of a pixel of three bytes. -/
def pixelColor (format : CpuGrFramebufferFormat) (bytes : Nat → UInt8) : GrGraphicsColor :=
  match format with
  | .rgb8Reserved8 => ⟨bytes 0, bytes 1, bytes 2⟩
  | .bgr8Reserved8 => ⟨bytes 2, bytes 1, bytes 0⟩
  | .max => ⟨bytes 0, bytes 1, bytes 2⟩

/-- The colour of the `k`-th pixel of a framebuffer. -/
def slotColor (format : CpuGrFramebufferFormat) (fb : Framebuffer) (k : Nat) :
    GrGraphicsColor :=
  pixelColor format fun i => fb (k * 4 + i : Nat)

/-- The colour of a pixel of the screen that is drawn to; the fourth byte is reserved. -/
def CpuGrGraphicsDrvData.color (d : CpuGrGraphicsDrvData) (p : Nat × Nat) : GrGraphicsColor :=
  pixelColor d.framebufferFormat fun i => d.renderFramebuffer (d.pixelOffset p + i : Nat)

theorem pixelColor_congr
    {format : CpuGrFramebufferFormat} {bytes bytes' : Nat → UInt8} :
    pixelColor format bytes = pixelColor format bytes' ↔ ∀ i < 3, bytes i = bytes' i := by
  have hthree : (∀ i < 3, bytes i = bytes' i) ↔
      bytes 0 = bytes' 0 ∧ bytes 1 = bytes' 1 ∧ bytes 2 = bytes' 2 := by
    simp only [Nat.forall_lt_succ_right, Nat.not_lt_zero, IsEmpty.forall_iff, implies_true,
      true_and, and_assoc]
  rw [hthree]
  cases format with
  | rgb8Reserved8 =>
      exact GrGraphicsColor.mk.injEq .. ▸ Iff.rfl
  | bgr8Reserved8 =>
      simp only [pixelColor, GrGraphicsColor.mk.injEq]
      exact ⟨fun h => ⟨h.2.2, h.2.1, h.1⟩, fun h => ⟨h.2.2, h.2.1, h.1⟩⟩
  | max =>
      exact GrGraphicsColor.mk.injEq .. ▸ Iff.rfl

theorem frame_eq_iff
    {d : CpuGrGraphicsDrvData} {F : CpuGrFrame} :
    d.frame = F ↔
      d.presentationWidth = F.width ∧ d.presentationHeight = F.height ∧
        d.presentationPixelBytes = F.pixelBytes ∧ d.presentationPixelStride = F.pixelStride ∧
        d.framebufferFormat = F.format := by
  unfold CpuGrGraphicsDrvData.frame
  rw [CpuGrFrame.mk.injEq]

/-- The frame decides what is visible. -/
theorem visible_of_frame
    {d d' : CpuGrGraphicsDrvData}
    (hframe : d'.frame = d.frame) :
    d'.visible = d.visible := by
  obtain ⟨hwidth, hheight, -, -, -⟩ := frame_eq_iff.mp hframe
  unfold CpuGrGraphicsDrvData.visible
  rw [hwidth, hheight]
  rfl

theorem color_eq_slotColor
    {d : CpuGrGraphicsDrvData} {F : CpuGrFrame} (hF : F.Fits) (hd : d.frame = F)
    (p : Nat × Nat) :
    d.color p =
      slotColor F.format d.renderFramebuffer (rasterIndex F.pixelStride.toNat p.1 p.2) := by
  subst hd
  have hbytes : d.presentationPixelBytes = 4 := hF.pixelBytes_eq
  unfold CpuGrGraphicsDrvData.color CpuGrGraphicsDrvData.pixelOffset
  rw [hbytes]
  rfl

end Frame

section Slots

variable (F : CpuGrFrame)

/-- The slots that a row lies behind the first one, as the driver computes its offset. -/
def CpuGrFrame.rowSlot (y : UInt32) : Nat :=
  (y * (F.pixelStride * 4)).toNat / 4

/-- The slot of a cell of a rectangle at `x`, `y`. -/
def CpuGrFrame.cellSlot (x y : UInt32) (h w : Nat) : Nat :=
  F.rowSlot y + x.toNat + F.rowSlot h.toUInt32 + w

def CpuGrFrame.boxSlots (x y width height : UInt32) : Set Nat :=
  rasterPlaces width.toNat height.toNat fun h w => {F.cellSlot x y h w}

/-- Rows start at whole pixels, even where their offsets wrap around. -/
theorem rowSlot_mul
    (y : UInt32) :
    F.rowSlot y * 4 = (y * (F.pixelStride * 4)).toNat := by
  unfold CpuGrFrame.rowSlot
  rw [← UInt32.mul_assoc, UInt32.toNat_mul]
  show (_ * 4) % 4294967296 / 4 * 4 = (_ * 4) % 4294967296
  omega

variable {j k i : Nat} {bytes : List UInt8} {format : CpuGrFramebufferFormat}

theorem writePixel_slot
    (hbytes : bytes.length ≤ 4) (hi : i < 4) (fb : Framebuffer) :
    writePixel (k * 4 : Nat) bytes fb (j * 4 + i : Nat) =
      if j = k then bytes[i]?.getD (fb (j * 4 + i : Nat)) else fb (j * 4 + i : Nat) := by
  unfold writePixel
  by_cases hjk : j = k
  · subst hjk
    rw [if_pos rfl, if_pos (by omega)]
    congr
    omega
  · rw [if_neg hjk]
    split
    · rw [List.getElem?_eq_none (by omega), Option.getD_none]
    · rfl

/-- A pixel that is computed from the old one. -/
theorem writePixel_paints
    {pixel : (Nat → UInt8) → List UInt8} (hlength : ∀ dst, (pixel dst).length = 3)
    (hcongr : ∀ dst dst', (∀ i < 3, dst i = dst' i) → pixel dst = pixel dst') :
    Paints (fun _ => True) (slotColor format) {k} fun fb =>
      writePixel (k * 4 : Nat) (pixel fun i => fb (k * 4 + i : Nat)) fb where
  inv := fun _ _ => trivial
  keeps := by
    intro fb _ j hj
    refine pixelColor_congr.mpr fun i hi => ?_
    rw [writePixel_slot (by rw [hlength]; decide) (by omega),
      if_neg (Set.mem_singleton_iff.not.mp hj)]
  pointwise := by
    intro fb fb' _ _ j h
    have h := pixelColor_congr.mp h
    refine pixelColor_congr.mpr fun i hi => ?_
    rw [writePixel_slot (by rw [hlength]; decide) (by omega),
      writePixel_slot (by rw [hlength]; decide) (by omega), h i hi]
    by_cases hjk : j = k
    · subst hjk
      rw [if_pos rfl, if_pos rfl, hcongr _ _ h]
    · rw [if_neg hjk, if_neg hjk]

/-- A pixel that does not depend on the old one. -/
theorem writePixel_fills
    (hbytes : bytes.length = 4) :
    Fills (fun _ => True) (slotColor format) {k} (pixelColor format fun i => bytes[i]?.getD 0)
      fun fb => writePixel (k * 4 : Nat) bytes fb where
  inv := fun _ _ => trivial
  keeps := by
    intro fb _ j hj
    refine pixelColor_congr.mpr fun i hi => ?_
    rw [writePixel_slot (by omega) (by omega), if_neg (Set.mem_singleton_iff.not.mp hj)]
  fills := by
    rintro fb _ j rfl
    refine pixelColor_congr.mpr fun i hi => ?_
    rw [writePixel_slot (by omega) (by omega), if_pos rfl,
      List.getElem?_eq_getElem (by omega), Option.getD_some, Option.getD_some]

end Slots

section Loops

variable {F : CpuGrFrame} {format : CpuGrFramebufferFormat}

/-- A blit whose columns are on the screen. -/
theorem blitPixels_paints
    (hF : F.Fits) {srcPixelBytes : Int32}
    {pixel : (Nat → UInt8) → (Nat → UInt8) → List UInt8}
    (hlength : ∀ src dst, (pixel src dst).length = 3)
    (hcongr : ∀ src dst dst', (∀ i < 3, dst i = dst' i) → pixel src dst = pixel src dst')
    (image : Nat → UInt8) (imageX imageY : Int32) (imageRowStride : UInt32)
    {fbX fbY width height : Int32}
    (hx : 0 ≤ fbX.toInt) (hwidth : 0 ≤ width.toInt) (hheight : 0 ≤ height.toInt)
    (hend : fbX.toInt + width.toInt ≤ F.width.toNat) :
    Paints (fun _ => True) (slotColor format)
      (F.boxSlots fbX.toUInt32 fbY.toUInt32 width.toUInt32 height.toUInt32)
      (blitPixels srcPixelBytes pixel image imageX imageY imageRowStride fbX fbY
        (F.pixelStride * 4) width height) := by
  have hrow := hF.row_le
  have hcastX := toNat_toUInt32_of_nonneg hx
  have hcastWidth := toNat_toUInt32_of_nonneg hwidth
  have hcastHeight := toNat_toUInt32_of_nonneg hheight
  have hfour (a : Int32) (ha : 0 ≤ a.toInt) (hlt : a.toInt * 4 < 2147483648) :
      (a * 4).toInt = a.toInt * 4 :=
    toInt_mul_of_range (b := 4) (by show _ ≤ _ * (4 : Int); omega) hlt
  unfold blitPixels CpuGrFrame.boxSlots
  rw [show width.toInt.toNat = width.toUInt32.toNat by omega,
    show height.toInt.toNat = height.toUInt32.toNat by omega]
  refine Paints.forEach fun h hh w hw => ?_
  have hofNat := toInt_ofNat_of_lt (n := w) (by omega)
  have hoffset : ((fbY.toUInt32 * (F.pixelStride * 4)).toNat : Int) + (fbX * 4).toInt +
      (h.toUInt32 * (F.pixelStride * 4)).toNat + (Int32.ofNat w * 4).toInt =
      (F.cellSlot fbX.toUInt32 fbY.toUInt32 h w * 4 : Nat) := by
    rw [hfour fbX hx (by omega), hfour (Int32.ofNat w) (by omega) (by omega), hofNat,
      ← rowSlot_mul, ← rowSlot_mul, ← hcastX]
    unfold CpuGrFrame.cellSlot
    push_cast
    ring
  dsimp only
  rw [hoffset]
  exact writePixel_paints (fun dst => hlength _ dst) fun dst dst' => hcongr _ dst dst'

/-- The clearing of a region whose columns are on the screen. -/
theorem clearPixels_fills
    (hF : F.Fits) {x y width height : UInt32}
    (hend : x.toNat + width.toNat ≤ F.width.toNat) {bytes : List UInt8}
    (hbytes : bytes.length = 4) :
    Fills (fun _ => True) (slotColor format) (F.boxSlots x y width height)
      (pixelColor format fun i => bytes[i]?.getD 0)
      (clearPixels ((y * (F.pixelStride * F.pixelBytes)).toNat + (x * F.pixelBytes).toNat : Nat)
        (F.pixelStride * F.pixelBytes) F.pixelBytes width height bytes) := by
  have hrow := hF.row_le
  have hfour (a : UInt32) (ha : a.toNat * 4 < 4294967296) : (a * 4).toNat = a.toNat * 4 :=
    toNat_mul_of_lt (b := 4) ha
  rw [hF.pixelBytes_eq]
  unfold clearPixels CpuGrFrame.boxSlots
  refine Fills.forEach fun h hh w hw => ?_
  have hw' := toNat_toUInt32 (Nat.lt_trans hw width.toNat_lt)
  have hoffset : (((y * (F.pixelStride * 4)).toNat + (x * 4).toNat : Nat) : Int) +
      (h.toUInt32 * (F.pixelStride * 4)).toNat + (w.toUInt32 * 4).toNat =
      (F.cellSlot x y h w * 4 : Nat) := by
    rw [hfour x (by omega), hfour w.toUInt32 (by omega), hw', ← rowSlot_mul, ← rowSlot_mul]
    unfold CpuGrFrame.cellSlot
    push_cast
    ring
  rw [hoffset]
  exact writePixel_fills hbytes

end Loops

section Clips

/-- The coordinates of a glyph's box are words of 31 bits. -/
structure AxisFits (pos : Int32) (size : UInt32) : Prop where
  pos_gt : -2147483648 < pos.toInt
  size_lt : size.toNat < 2147483648
  end_lt : pos.toInt + size.toNat < 2147483648

variable {pos image imagePos fbPos size' : Int32} {size presentation : UInt32}

theorem AxisFits.toInt_size
    (hfits : AxisFits pos size) :
    size.toInt32.toInt = size.toNat := by
  rw [toInt_toInt32, if_pos hfits.size_lt]

theorem AxisFits.blitSumFits
    (hfits : AxisFits pos size) :
    BlitSumFits pos size.toInt32 := by
  have hpos := hfits.pos_gt
  have hend := hfits.end_lt
  unfold BlitSumFits
  rw [hfits.toInt_size]
  omega

theorem AxisFits.regionSumFits
    (hfits : AxisFits pos size) :
    RegionSumFits pos size := by
  have hend := hfits.end_lt
  intro _
  omega

/-- Words and integers cut off the same end. -/
theorem clipEnd_eq
    (fb blitSize : Int32) (start size : UInt32)
    (hstart : (start.toNat : Int) = fb.toInt) (hsize : (size.toNat : Int) = blitSize.toInt)
    (hlt : fb.toInt < presentation.toInt32.toInt) (hsum : fb.toInt + blitSize.toInt < 2147483648) :
    start < presentation ∧
      (if start + size > presentation then presentation - start else size) =
        (if fb + blitSize > presentation.toInt32 then presentation.toInt32 - fb
          else blitSize).toUInt32 := by
  have hcast := toInt_toInt32 presentation
  have hpresentation := presentation.toNat_lt
  have hsmall : presentation.toNat < 2147483648 := by
    split at hcast <;> omega
  rw [if_pos hsmall] at hcast
  have hadd := toNat_add_of_lt (a := start) (b := size) (by omega)
  have haddInt := toInt_add_of_range (a := fb) (b := blitSize) (by omega) (by omega)
  have hiff : start + size > presentation ↔ fb + blitSize > presentation.toInt32 := by
    rw [gt_iff_lt, gt_iff_lt, UInt32.lt_iff_toNat_lt, Int32.lt_iff_toInt_lt]
    omega
  refine ⟨UInt32.lt_iff_toNat_lt.mpr (by omega), ?_⟩
  by_cases hcut : fb + blitSize > presentation.toInt32
  · rw [if_pos (hiff.mpr hcut), if_pos hcut]
    have hsub := toInt_sub_of_range (a := presentation.toInt32) (b := fb) (by omega) (by omega)
    have hword := toNat_toUInt32_of_nonneg (a := presentation.toInt32 - fb) (by omega)
    have hle : start ≤ presentation := UInt32.le_iff_toNat_le.mpr (by omega)
    exact UInt32.toNat_inj.mp (by rw [UInt32.toNat_sub_of_le _ _ hle]; omega)
  · rw [if_neg (hiff.not.mpr hcut), if_neg hcut]
    have hword := toNat_toUInt32_of_nonneg (a := blitSize) (by omega)
    exact UInt32.toNat_inj.mp (by omega)

/-- Where a blit draws something, clearing clips to the same place and size. -/
theorem clipRegionAxis_of_clipBlitAxis
    (hfits : AxisFits pos size)
    (hclip : clipBlitAxis image pos size.toInt32 presentation = (imagePos, fbPos, size'))
    (hpos : ¬ fbPos ≥ presentation.toInt32) (hsize : 0 < size'.toInt) :
    clipRegionAxis pos size presentation = some (fbPos.toUInt32, size'.toUInt32) := by
  have hend := hfits.end_lt
  have hgt := hfits.pos_gt
  have hblitSize := hfits.toInt_size
  rw [ge_iff_le, Int32.not_le, Int32.lt_iff_toInt_lt] at hpos
  unfold clipBlitAxis at hclip
  simp only [Prod.mk.injEq] at hclip
  obtain ⟨-, rfl, rfl⟩ := hclip
  unfold clipRegionAxis
  dsimp only
  by_cases hneg : pos < 0
  · have hnegInt : pos.toInt < 0 := Int32.lt_iff_toInt_lt.mp hneg
    rw [if_pos hneg] at hpos
    rw [if_pos hneg, if_pos hneg] at hsize ⊢
    have hzero : (0 : Int32).toInt = 0 := rfl
    have hadd := toInt_add_of_range (a := size.toInt32) (b := pos) (by omega) (by omega)
    have hminus : (-pos).toInt = -pos.toInt := by
      rw [Int32.toInt_neg]
      exact Int.bmod_eq_of_le (by omega) (by omega)
    have hword := toNat_toUInt32_of_nonneg (a := -pos) (by omega)
    -- The part of the blit that is on the screen is not empty.
    have hpositive : 0 < pos.toInt + size.toNat := by
      split at hsize
      · rename_i hcut
        rw [Int32.zero_add, gt_iff_lt, Int32.lt_iff_toInt_lt] at hcut
        omega
      · omega
    have hinside : ¬ (-pos).toUInt32 ≥ size := by
      rw [ge_iff_le, UInt32.le_iff_toNat_le]
      omega
    have hle : (-pos).toUInt32 ≤ size := UInt32.le_iff_toNat_le.mpr (by omega)
    have hsub := UInt32.toNat_sub_of_le _ _ hle
    obtain ⟨hstart, hcut⟩ := clipEnd_eq 0 (size.toInt32 + pos) 0 (size - (-pos).toUInt32) rfl
      (by omega) hpos (by omega)
    rw [if_neg (Int32.not_le.mpr hneg), if_neg (UInt32.not_le.mpr hstart),
      if_neg (fun h => hinside h.2), if_pos hneg, hcut]
    rfl
  · have hnonneg : 0 ≤ pos.toInt := Int32.le_iff_toInt_le.mp (Int32.not_lt.mp hneg)
    rw [if_neg hneg] at hpos
    rw [if_neg hneg, if_neg hneg]
    have hword := toNat_toUInt32_of_nonneg hnonneg
    obtain ⟨hstart, hcut⟩ := clipEnd_eq _ _ _ _ hword hblitSize.symm hpos (by omega)
    rw [if_pos (Int32.not_lt.mp hneg), if_neg (UInt32.not_le.mpr hstart),
      if_neg (fun h => hneg h.1), if_neg hneg, hcut]

end Clips

section Calls

variable (blend : UInt8 → UInt8 → UInt8 → UInt8)

theorem clearScreenRegion_frame
    (first region : GrImageRegion) (color : GrGraphicsColor) (d : CpuGrGraphicsDrvData) :
    (clearScreenRegion first color d region).frame = d.frame := by
  unfold clearScreenRegion
  split
  · dsimp only
    split <;> rfl
  · rfl

theorem runGraphicsCall_frame
    (call : GraphicsCall) (d : CpuGrGraphicsDrvData) :
    (runGraphicsCall blend call d).frame = d.frame := by
  cases call with
  | swapBuffers => rfl
  | clearScreen color =>
      show (cpuGrGraphicsClearScreen color d).frame = d.frame
      unfold cpuGrGraphicsClearScreen
      dsimp only
      split <;> rfl
  | clearScreenRegions regions color =>
      cases regions with
      | nil => rfl
      | cons first rest =>
          refine List.foldlRecOn (motive := fun d' : CpuGrGraphicsDrvData => d'.frame = d.frame)
            (first :: rest) _ rfl fun d' hd' region _ => ?_
          rw [clearScreenRegion_frame, hd']
  | blitImageToFramebuffer blit =>
      show (cpuGrGraphicsBlitImageToFramebuffer blend blit d).frame = d.frame
      unfold cpuGrGraphicsBlitImageToFramebuffer
      dsimp only
      split
      · rfl
      · split <;> rfl

/-- The pixels that clearing a region writes to. -/
def CpuGrFrame.regionSlots (F : CpuGrFrame) (region : GrImageRegion) : Set Nat :=
  match F.format, clipRegionAxis region.x region.width F.width,
    clipRegionAxis region.y region.height F.height with
  | .max, _, _ => ∅
  | _, some (x, width), some (y, height) => F.boxSlots x y width height
  | _, _, _ => ∅

variable {F : CpuGrFrame}

/-- What the pixels of the screen that is drawn to show. -/
def CpuGrFrame.view (F : CpuGrFrame) (d : CpuGrGraphicsDrvData) : Nat → GrGraphicsColor :=
  slotColor F.format d.renderFramebuffer

/-- What clearing a region does to the framebuffer. -/
theorem clearScreenRegion_cases
    (F : CpuGrFrame) (region : GrImageRegion) (color : GrGraphicsColor) :
    (F.regionSlots region = ∅ ∧
      ∀ d : CpuGrGraphicsDrvData, d.frame = F →
        (clearScreenRegion region color d region).renderFramebuffer = d.renderFramebuffer) ∨
      ∃ (x y width height : UInt32) (bytes : List UInt8),
        clipRegionAxis region.x region.width F.width = some (x, width) ∧
          F.regionSlots region = F.boxSlots x y width height ∧ bytes.length = 4 ∧
          (pixelColor F.format fun i => bytes[i]?.getD 0) = color ∧
          ∀ d : CpuGrGraphicsDrvData, d.frame = F →
            (clearScreenRegion region color d region).renderFramebuffer =
              clearPixels
                ((y * (F.pixelStride * F.pixelBytes)).toNat + (x * F.pixelBytes).toNat : Nat)
                (F.pixelStride * F.pixelBytes) F.pixelBytes width height bytes
                d.renderFramebuffer := by
  unfold CpuGrFrame.regionSlots clearScreenRegion
  cases hclipX : clipRegionAxis region.x region.width F.width with
  | none =>
      refine .inl ⟨by cases F.format <;> rfl, fun d hd => ?_⟩
      obtain ⟨hwidth, -, -, -, -⟩ := frame_eq_iff.mp hd
      rw [hwidth, hclipX]
  | some clipX =>
      cases hclipY : clipRegionAxis region.y region.height F.height with
      | none =>
          refine .inl ⟨by cases F.format <;> rfl, fun d hd => ?_⟩
          obtain ⟨hwidth, hheight, -, -, -⟩ := frame_eq_iff.mp hd
          rw [hwidth, hheight, hclipX, hclipY]
      | some clipY =>
          cases hformat : F.format with
          | rgb8Reserved8 =>
              refine .inr ⟨clipX.1, clipY.1, clipX.2, clipY.2, [color.r, color.g, color.b, 0], rfl,
                rfl, rfl, rfl, fun d hd => ?_⟩
              obtain ⟨hwidth, hheight, hbytes, hstride, hd⟩ := frame_eq_iff.mp hd
              simp only [hwidth, hheight, hclipX, hclipY, hd, hformat]
              rw [← hbytes, ← hstride]
              rfl
          | bgr8Reserved8 =>
              refine .inr ⟨clipX.1, clipY.1, clipX.2, clipY.2, [color.b, color.g, color.r, 0], rfl,
                rfl, rfl, rfl, fun d hd => ?_⟩
              obtain ⟨hwidth, hheight, hbytes, hstride, hd⟩ := frame_eq_iff.mp hd
              simp only [hwidth, hheight, hclipX, hclipY, hd, hformat]
              rw [← hbytes, ← hstride]
              rfl
          | max =>
              refine .inl ⟨rfl, fun d hd => ?_⟩
              obtain ⟨hwidth, hheight, -, -, hd⟩ := frame_eq_iff.mp hd
              simp only [hwidth, hheight, hclipX, hclipY, hd, hformat]

theorem clearRegion_fills
    (hF : F.Fits) {region : GrImageRegion} (hx : RegionSumFits region.x region.width)
    (color : GrGraphicsColor) :
    Fills (fun d => d.frame = F) F.view (F.regionSlots region) color
      (runGraphicsCall blend (.clearScreenRegions [region] color)) := by
  have hinv (d : CpuGrGraphicsDrvData) (hd : d.frame = F) :
      (runGraphicsCall blend (.clearScreenRegions [region] color) d).frame = F :=
    (runGraphicsCall_frame blend _ d).trans hd
  obtain ⟨hslots, hrun⟩ | ⟨x, y, width, height, bytes, hclip, hslots, hbytes, rfl, hrun⟩ :=
    clearScreenRegion_cases F region color
  · rw [hslots]
    have hnothing : Fills (fun _ => True) (slotColor F.format) ∅ color id := fills_id
    exact hnothing.comap (fun _ _ => trivial) hinv hrun
  · rw [hslots]
    exact (clearPixels_fills hF (clipRegionAxis_within hx hclip) hbytes).comap
      (fun _ _ => trivial) hinv hrun

variable {blend} in
/-- The loops that a blit of this format runs. -/
theorem blitToRender_cases
    (F : CpuGrFrame) (blit : GrBlit) :
    (∀ (imageX imageY fbX fbY width height : Int32) (d : CpuGrGraphicsDrvData), d.frame = F →
      blitToRender blend blit imageX imageY fbX fbY width height d = d.renderFramebuffer) ∨
      F.format ≠ .max ∧
        ∃ (srcPixelBytes : Int32) (pixel : (Nat → UInt8) → (Nat → UInt8) → List UInt8),
          (∀ src dst, (pixel src dst).length = 3) ∧
            (∀ src dst dst', (∀ i < 3, dst i = dst' i) → pixel src dst = pixel src dst') ∧
            ∀ (imageX imageY fbX fbY width height : Int32) (d : CpuGrGraphicsDrvData),
              d.frame = F →
                blitToRender blend blit imageX imageY fbX fbY width height d =
                  blitPixels srcPixelBytes pixel blit.image imageX imageY blit.imageRowStride
                    fbX fbY (F.pixelStride * 4) width height d.renderFramebuffer := by
  have hblend {src dst dst' : Nat → UInt8} (h : ∀ i < 3, dst i = dst' i) (a b c : Nat) :
      [blend (src a) (src 3) (dst 0), blend (src b) (src 3) (dst 1),
          blend (src c) (src 3) (dst 2)] =
        [blend (src a) (src 3) (dst' 0), blend (src b) (src 3) (dst' 1),
          blend (src c) (src 3) (dst' 2)] := by
    rw [h 0 (by decide), h 1 (by decide), h 2 (by decide)]
  unfold blitToRender
  cases hformat : F.format with
  | rgb8Reserved8 =>
      cases blit.imageFormat with
      | rgb8 =>
          refine .inr ⟨nofun, 3, fun src _ => [src 0, src 1, src 2], fun _ _ => rfl,
            fun _ _ _ _ => rfl, fun _ _ _ _ _ _ d hd => ?_⟩
          obtain ⟨-, -, -, hstride, hd⟩ := frame_eq_iff.mp hd
          simp only [hd, hformat, hstride]
          rfl
      | rgba8 =>
          refine .inr ⟨nofun, 4, fun src dst => [blend (src 0) (src 3) (dst 0),
              blend (src 1) (src 3) (dst 1), blend (src 2) (src 3) (dst 2)], fun _ _ => rfl,
            fun _ _ _ h => hblend h 0 1 2, fun _ _ _ _ _ _ d hd => ?_⟩
          obtain ⟨-, -, -, hstride, hd⟩ := frame_eq_iff.mp hd
          simp only [hd, hformat, hstride]
          rfl
      | max =>
          refine .inl fun _ _ _ _ _ _ d hd => ?_
          obtain ⟨-, -, -, -, hd⟩ := frame_eq_iff.mp hd
          simp only [hd, hformat]
  | bgr8Reserved8 =>
      cases blit.imageFormat with
      | rgb8 =>
          refine .inr ⟨nofun, 3, fun src _ => [src 2, src 1, src 0], fun _ _ => rfl,
            fun _ _ _ _ => rfl, fun _ _ _ _ _ _ d hd => ?_⟩
          obtain ⟨-, -, -, hstride, hd⟩ := frame_eq_iff.mp hd
          simp only [hd, hformat, hstride]
          rfl
      | rgba8 =>
          refine .inr ⟨nofun, 4, fun src dst => [blend (src 2) (src 3) (dst 0),
              blend (src 1) (src 3) (dst 1), blend (src 0) (src 3) (dst 2)], fun _ _ => rfl,
            fun _ _ _ h => hblend h 2 1 0, fun _ _ _ _ _ _ d hd => ?_⟩
          obtain ⟨-, -, -, hstride, hd⟩ := frame_eq_iff.mp hd
          simp only [hd, hformat, hstride]
          rfl
      | max =>
          refine .inl fun _ _ _ _ _ _ d hd => ?_
          obtain ⟨-, -, -, -, hd⟩ := frame_eq_iff.mp hd
          simp only [hd, hformat]
  | max =>
      refine .inl fun _ _ _ _ _ _ d hd => ?_
      obtain ⟨-, -, -, -, hd⟩ := frame_eq_iff.mp hd
      simp only [hd, hformat]

/-- A call that leaves the framebuffer alone paints no pixels. -/
theorem paints_of_kept
    {call : GraphicsCall}
    (hkept : ∀ d : CpuGrGraphicsDrvData, d.frame = F →
      (runGraphicsCall blend call d).renderFramebuffer = d.renderFramebuffer)
    (places : Set Nat) :
    Paints (fun d => d.frame = F) F.view places (runGraphicsCall blend call) := by
  have hid : Paints (fun _ => True) (slotColor F.format) ∅ id := paints_id
  exact (hid.comap (fun _ _ => trivial)
    (fun d hd => (runGraphicsCall_frame blend call d).trans hd) hkept).mono (Set.empty_subset _)

/-- A blit returns early, or blits what its clipping leaves. -/
theorem blit_renderFramebuffer
    {blit : GrBlit} {imageX imageY fbX fbY width height : Int32}
    (hclipX : clipBlitAxis blit.imageX blit.fbX blit.width F.width = (imageX, fbX, width))
    (hclipY : clipBlitAxis blit.imageY blit.fbY blit.height F.height = (imageY, fbY, height))
    {d : CpuGrGraphicsDrvData} (hd : d.frame = F) :
    (runGraphicsCall blend (.blitImageToFramebuffer blit) d).renderFramebuffer =
      if imageX < 0 ∨ imageY < 0 ∨ width < 0 ∨ height < 0 then d.renderFramebuffer
      else if fbX ≥ F.width.toInt32 ∨ fbY ≥ F.height.toInt32 then d.renderFramebuffer
      else blitToRender blend blit imageX imageY fbX fbY width height d := by
  obtain ⟨hwidth, hheight, -, -, -⟩ := frame_eq_iff.mp hd
  show (cpuGrGraphicsBlitImageToFramebuffer blend blit d).renderFramebuffer = _
  unfold cpuGrGraphicsBlitImageToFramebuffer
  rw [hwidth, hheight, hclipX, hclipY]
  dsimp only
  split
  · rfl
  · split <;> rfl

/-- A blit of the place and size of a region draws nothing outside of what clearing the
region clears. -/
theorem blit_paints
    (hF : F.Fits) {region : GrImageRegion} {blit : GrBlit}
    (hx : AxisFits region.x region.width) (hy : AxisFits region.y region.height)
    (hfbX : blit.fbX = region.x) (hfbY : blit.fbY = region.y)
    (hwidth : blit.width = region.width.toInt32) (hheight : blit.height = region.height.toInt32) :
    Paints (fun d => d.frame = F) F.view (F.regionSlots region)
      (runGraphicsCall blend (.blitImageToFramebuffer blit)) := by
  rcases hclipX : clipBlitAxis blit.imageX blit.fbX blit.width F.width with
    ⟨imageX, fbX, width⟩
  rcases hclipY : clipBlitAxis blit.imageY blit.fbY blit.height F.height with
    ⟨imageY, fbY, height⟩
  have hrun (d : CpuGrGraphicsDrvData) (hd : d.frame = F) :=
    blit_renderFramebuffer blend hclipX hclipY hd
  by_cases hsizes : imageX < 0 ∨ imageY < 0 ∨ width < 0 ∨ height < 0
  · exact paints_of_kept blend (fun d hd => by rw [hrun d hd, if_pos hsizes]) _
  by_cases hstarts : fbX ≥ F.width.toInt32 ∨ fbY ≥ F.height.toInt32
  · exact paints_of_kept blend (fun d hd => by rw [hrun d hd, if_neg hsizes, if_pos hstarts]) _
  obtain hkept | ⟨hformat, srcPixelBytes, pixel, hlength, hcongr, hdrawn⟩ :=
    blitToRender_cases F blit
  · refine paints_of_kept blend (fun d hd => ?_) _
    rw [hrun d hd, if_neg hsizes, if_neg hstarts, hkept _ _ _ _ _ _ d hd]
  have hloops (d : CpuGrGraphicsDrvData) (hd : d.frame = F) :
      (runGraphicsCall blend (.blitImageToFramebuffer blit) d).renderFramebuffer =
        blitPixels srcPixelBytes pixel blit.image imageX imageY blit.imageRowStride fbX fbY
          (F.pixelStride * 4) width height d.renderFramebuffer := by
    rw [hrun d hd, if_neg hsizes, if_neg hstarts, hdrawn _ _ _ _ _ _ d hd]
  simp only [not_or] at hsizes hstarts
  rw [hfbX, hwidth] at hclipX
  rw [hfbY, hheight] at hclipY
  obtain ⟨hx0, hwidth0, hend⟩ :=
    clipBlitAxis_within hx.blitSumFits hclipX hsizes.2.2.1 hstarts.1
  obtain ⟨-, hheight0, -⟩ :=
    clipBlitAxis_within hy.blitSumFits hclipY hsizes.2.2.2 hstarts.2
  have hpaints : Paints (fun _ => True) (slotColor F.format)
      (F.boxSlots fbX.toUInt32 fbY.toUInt32 width.toUInt32 height.toUInt32)
      (blitPixels srcPixelBytes pixel blit.image imageX imageY blit.imageRowStride fbX fbY
        (F.pixelStride * 4) width height) :=
    blitPixels_paints hF hlength hcongr _ _ _ _ hx0 hwidth0 hheight0 hend
  refine (hpaints.comap (fun _ _ => trivial)
    (fun d hd => (runGraphicsCall_frame blend _ d).trans hd) hloops).mono ?_
  -- Both ways of clipping agree on a rectangle in which something is drawn.
  rintro k ⟨h, hh, w, hw, hk⟩
  have hcastWidth := toNat_toUInt32_of_nonneg hwidth0
  have hcastHeight := toNat_toUInt32_of_nonneg hheight0
  unfold CpuGrFrame.regionSlots
  rw [clipRegionAxis_of_clipBlitAxis hx hclipX hstarts.1 (by omega),
    clipRegionAxis_of_clipBlitAxis hy hclipY hstarts.2 (by omega)]
  cases hF' : F.format with
  | rgb8Reserved8 => exact ⟨h, hh, w, hw, hk⟩
  | bgr8Reserved8 => exact ⟨h, hh, w, hw, hk⟩
  | max => exact absurd hF' hformat

theorem runGraphicsCalls_frame
    (calls : List GraphicsCall) (d : CpuGrGraphicsDrvData) :
    (runGraphicsCalls blend calls d).frame = d.frame :=
  List.foldlRecOn (motive := fun d' : CpuGrGraphicsDrvData => d'.frame = d.frame) calls _ rfl
    fun d' hd' call _ => (runGraphicsCall_frame blend call d').trans hd'

theorem runGraphicsCalls_append
    (calls calls' : List GraphicsCall) (d : CpuGrGraphicsDrvData) :
    runGraphicsCalls blend (calls ++ calls') d =
      runGraphicsCalls blend calls' (runGraphicsCalls blend calls d) :=
  List.foldl_append

end Calls

end Graphics
end DexprOS
