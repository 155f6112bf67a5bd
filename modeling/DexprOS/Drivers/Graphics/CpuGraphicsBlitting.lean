import DexprOS.Drivers.Graphics.CpuGraphicsClipping
import DexprOS.Drivers.Graphics.CpuGraphicsPainting

/-!
# Blitting is a clipped translation

Which pixels `CpuGrGraphicsBlitImageToFramebuffer` draws, from which pixels of the image, for
coordinates that do not wrap around.

Main facts:
* `clipBlitAxis_exact`: clipping keeps what is on the screen and moves the image's origin
  along;
* `blitSource_eq`: the loops read the pixel of the image that belongs to the one they write;
* `blitLoops_color`, `blitLoops_kept`: the loops, on the framebuffer;
* `blit_translates`: the call.
-/

namespace DexprOS
namespace Graphics

open Damage Painting Word32

section Translation

/-- Bytes of a pixel of the image. -/
def GrImageFormat.pixelBytes : GrImageFormat → Nat
  | .rgb8 => 3
  | .rgba8 => 4
  | .max => 0

/-- Offset of the image's pixel that a blit moves by `i`, `j`. -/
def GrBlit.imageOffset (blit : GrBlit) (i j : Nat) : Nat :=
  (blit.imageY.toInt.toNat + j) * blit.imageRowStride.toNat +
    (blit.imageX.toInt.toNat + i) * blit.imageFormat.pixelBytes

/-- The pixel of the blit at `i`, `j` has the visible pixel `p` as its target. -/
structure GrBlit.Targets (blit : GrBlit) (d : CpuGrGraphicsDrvData) (i j : Nat)
    (p : Nat × Nat) : Prop where
  visible : p ∈ d.visible
  column_lt : (i : Int) < blit.width.toInt
  row_lt : (j : Int) < blit.height.toInt
  x_eq : (p.1 : Int) = blit.fbX.toInt + i
  y_eq : (p.2 : Int) = blit.fbY.toInt + j

/-- A place in the image, a size and a place on the screen that do not wrap around. -/
structure BlitAxisModerate (image fb size : Int32) : Prop where
  image_nonneg : 0 ≤ image.toInt
  image_lt : image.toInt < 16777216
  fb_gt : -16777216 < fb.toInt
  fb_lt : fb.toInt < 16777216
  size_nonneg : 0 ≤ size.toInt
  size_lt : size.toInt < 16777216

/-- Moderate coordinates, and bytes of the image that have offsets of 31 bits. -/
structure GrBlit.Moderate (blit : GrBlit) (d : CpuGrGraphicsDrvData) : Prop where
  x : BlitAxisModerate blit.imageX blit.fbX blit.width
  y : BlitAxisModerate blit.imageY blit.fbY blit.height
  offset_le : ∀ i j p, blit.Targets d i j p →
    blit.imageOffset i j + blit.imageFormat.pixelBytes ≤ 2147483648

/-- The colour that a pixel of the image gives to a pixel of the screen. -/
def blitColor (blend : UInt8 → UInt8 → UInt8 → UInt8) (imageFormat : GrImageFormat)
    (src : Nat → UInt8) (old : GrGraphicsColor) : GrGraphicsColor :=
  match imageFormat with
  | .rgb8 => ⟨src 0, src 1, src 2⟩
  | .rgba8 =>
      ⟨blend (src 0) (src 3) old.r, blend (src 1) (src 3) old.g, blend (src 2) (src 3) old.b⟩
  | .max => old

end Translation

section Clipping

variable {image fb size image' fb' size' : Int32} {presentation : UInt32}

/-- What is drawn on an axis is what is on the screen, from the image's place that belongs to
it. -/
structure AxisClipped (image fb size image' fb' size' : Int32) (presentation : UInt32) :
    Prop where
  fb_eq : fb'.toInt = max fb.toInt 0
  size_nonneg : 0 ≤ size'.toInt
  image_eq : image'.toInt = image.toInt + (fb'.toInt - fb.toInt)
  end_eq : fb'.toInt + size'.toInt = min (fb.toInt + size.toInt) presentation.toNat

/-- An axis that is drawn is clipped; one that is not drawn has nothing on the screen. -/
theorem clipBlitAxis_exact
    (h : BlitAxisModerate image fb size) (hpresentation : presentation.toNat < 2147483648)
    (hclip : clipBlitAxis image fb size presentation = (image', fb', size')) :
    (¬ BlitReaches image fb size presentation ∧
      ∀ x : Nat, x < presentation.toNat → fb.toInt ≤ x → ¬ (x : Int) < fb.toInt + size.toInt) ∨
      BlitReaches image fb size presentation ∧
        AxisClipped image fb size image' fb' size' presentation := by
  have himage := h.image_nonneg
  have himage' := h.image_lt
  have hfb := h.fb_gt
  have hfb' := h.fb_lt
  have hsize := h.size_nonneg
  have hsize' := h.size_lt
  have hscreen : presentation.toInt32.toInt = presentation.toNat := by
    rw [toInt_toInt32, if_pos hpresentation]
  have hmove := toInt_sub_of_range (a := image) (b := fb) (by omega) (by omega)
  have hrest := toInt_add_of_range (a := size) (b := fb) (by omega) (by omega)
  rcases clipBlitAxis_cases hclip with
    ⟨hnot, -⟩ | ⟨hreach, hkept, hpositive, -, hstart, hmoved, hend, -⟩
  · refine .inl ⟨hnot, fun x hx hle hlt => hnot ?_⟩
    unfold BlitReaches
    omega
  · have hcut := hend fun _ => by omega
    refine .inr ⟨hreach, hstart, ?_, ?_, ?_⟩
    · exact Int32.le_iff_toInt_le.mp (Int32.not_lt.mp hpositive)
    · rw [hmoved]
      split
      · rename_i hneg
        have := Int32.lt_iff_toInt_lt.mp hneg
        have hzero : (0 : Int32).toInt = 0 := rfl
        omega
      · rename_i hneg
        have := Int32.le_iff_toInt_le.mp (Int32.not_lt.mp hneg)
        have hzero : (0 : Int32).toInt = 0 := rfl
        omega
    · rw [hcut]
      unfold blitRest
      have hzero : (0 : Int32).toInt = 0 := rfl
      split
      · rename_i hneg
        have := Int32.lt_iff_toInt_lt.mp hneg
        omega
      · rename_i hneg
        have := Int32.le_iff_toInt_le.mp (Int32.not_lt.mp hneg)
        omega

theorem AxisClipped.fb_nonneg
    (h : AxisClipped image fb size image' fb' size' presentation) :
    0 ≤ fb'.toInt := by
  rw [h.fb_eq]
  exact le_max_right _ _

/-- A pixel of the blit with a target on the screen is drawn in some pass. -/
theorem AxisClipped.pass_of_target
    (h : AxisClipped image fb size image' fb' size' presentation) (himage : 0 ≤ image.toInt)
    {i x : Nat} (hi : (i : Int) < size.toInt) (hx : (x : Int) = fb.toInt + i)
    (hscreen : x < presentation.toNat) :
    ∃ w < size'.toInt.toNat, x = fb'.toUInt32.toNat + w ∧
      image'.toInt.toNat + w = image.toInt.toNat + i := by
  have hcast := toNat_toUInt32_of_nonneg h.fb_nonneg
  have hstart := h.fb_eq
  have hmoved := h.image_eq
  have hend := h.end_eq
  exact ⟨x - fb'.toUInt32.toNat, by omega, by omega, by omega⟩

/-- What a pass draws is a pixel of the blit. -/
theorem AxisClipped.target_of_pass
    (h : AxisClipped image fb size image' fb' size' presentation) (himage : 0 ≤ image.toInt)
    {w : Nat} (hw : w < size'.toInt.toNat) :
    ∃ i : Nat, (i : Int) < size.toInt ∧ ((fb'.toUInt32.toNat + w : Nat) : Int) = fb.toInt + i ∧
      image'.toInt.toNat + w = image.toInt.toNat + i := by
  have hcast := toNat_toUInt32_of_nonneg h.fb_nonneg
  have hstart := h.fb_eq
  have hmoved := h.image_eq
  have hend := h.end_eq
  exact ⟨w + (fb'.toInt - fb.toInt).toNat, by omega, by omega, by omega⟩

end Clipping

section Source

/-- The bytes that a blit writes to a pixel. -/
def blitBytes (blend : UInt8 → UInt8 → UInt8 → UInt8) (format : CpuGrFramebufferFormat)
    (imageFormat : GrImageFormat) (src dst : Nat → UInt8) : List UInt8 :=
  match format, imageFormat with
  | .rgb8Reserved8, .rgb8 => [src 0, src 1, src 2]
  | .rgb8Reserved8, .rgba8 =>
      [blend (src 0) (src 3) (dst 0), blend (src 1) (src 3) (dst 1), blend (src 2) (src 3) (dst 2)]
  | .bgr8Reserved8, .rgb8 => [src 2, src 1, src 0]
  | .bgr8Reserved8, .rgba8 =>
      [blend (src 2) (src 3) (dst 0), blend (src 1) (src 3) (dst 1), blend (src 0) (src 3) (dst 2)]
  | _, _ => []

/-- Where the blitting loops read. -/
def blitSource (srcPixelBytes imageX imageY : Int32) (imageRowStride : UInt32) (h w : Nat) :
    Int :=
  (imageY.toUInt32 * imageRowStride).toNat + (imageX * srcPixelBytes).toInt +
    (h.toUInt32 * imageRowStride).toNat + (Int32.ofNat w * srcPixelBytes).toInt

variable {blend : UInt8 → UInt8 → UInt8 → UInt8}

/-- In known formats a blit runs its loops with these bytes. -/
theorem blitToRender_eq
    {d : CpuGrGraphicsDrvData} (blit : GrBlit)
    (hformat : d.framebufferFormat ≠ .max) (himage : blit.imageFormat ≠ .max)
    (imageX imageY fbX fbY width height : Int32) :
    blitToRender blend blit imageX imageY fbX fbY width height d =
      blitPixels (Int32.ofNat blit.imageFormat.pixelBytes)
        (blitBytes blend d.framebufferFormat blit.imageFormat) blit.image imageX imageY
        blit.imageRowStride fbX fbY (d.presentationPixelStride * 4) width height
        d.renderFramebuffer := by
  unfold blitToRender
  cases hfb : d.framebufferFormat with
  | rgb8Reserved8 =>
      cases hsrc : blit.imageFormat with
      | rgb8 => rfl
      | rgba8 => rfl
      | max => exact absurd hsrc himage
  | bgr8Reserved8 =>
      cases hsrc : blit.imageFormat with
      | rgb8 => rfl
      | rgba8 => rfl
      | max => exact absurd hsrc himage
  | max => exact absurd hfb hformat

theorem length_blitBytes
    (blend : UInt8 → UInt8 → UInt8 → UInt8) {format : CpuGrFramebufferFormat}
    {imageFormat : GrImageFormat}
    (hformat : format ≠ .max) (himage : imageFormat ≠ .max) (src dst : Nat → UInt8) :
    (blitBytes blend format imageFormat src dst).length = 3 := by
  cases format with
  | rgb8Reserved8 =>
      cases imageFormat with
      | rgb8 => rfl
      | rgba8 => rfl
      | max => exact absurd rfl himage
  | bgr8Reserved8 =>
      cases imageFormat with
      | rgb8 => rfl
      | rgba8 => rfl
      | max => exact absurd rfl himage
  | max => exact absurd rfl hformat

/-- They depend on the bytes of the image's pixel only. -/
theorem blitBytes_congr
    (blend : UInt8 → UInt8 → UInt8 → UInt8) (format : CpuGrFramebufferFormat)
    (imageFormat : GrImageFormat) {src src' : Nat → UInt8}
    (hsrc : ∀ k < imageFormat.pixelBytes, src k = src' k) (dst : Nat → UInt8) :
    blitBytes blend format imageFormat src dst = blitBytes blend format imageFormat src' dst := by
  cases imageFormat with
  | rgb8 =>
      have h₀ := hsrc 0 (by decide)
      have h₁ := hsrc 1 (by decide)
      have h₂ := hsrc 2 (by decide)
      cases format <;> simp [blitBytes, h₀, h₁, h₂]
  | rgba8 =>
      have h₀ := hsrc 0 (by decide)
      have h₁ := hsrc 1 (by decide)
      have h₂ := hsrc 2 (by decide)
      have h₃ := hsrc 3 (by decide)
      cases format <;> simp [blitBytes, h₀, h₁, h₂, h₃]
  | max =>
      cases format <;> rfl

/-- They are those of the new colour. -/
theorem pixelColor_blitBytes
    {format : CpuGrFramebufferFormat} {imageFormat : GrImageFormat}
    (hformat : format ≠ .max) (himage : imageFormat ≠ .max) (src dst : Nat → UInt8) :
    pixelColor format (fun i => (blitBytes blend format imageFormat src dst)[i]?.getD 0) =
      blitColor blend imageFormat src (pixelColor format dst) := by
  cases format with
  | rgb8Reserved8 =>
      cases imageFormat with
      | rgb8 => rfl
      | rgba8 => rfl
      | max => exact absurd rfl himage
  | bgr8Reserved8 =>
      cases imageFormat with
      | rgb8 => rfl
      | rgba8 => rfl
      | max => exact absurd rfl himage
  | max => exact absurd rfl hformat

/-- Offsets of 31 bits do not wrap around. -/
theorem blitSource_eq
    {imageX imageY : Int32} {imageRowStride : UInt32} {n h w : Nat}
    (hx : 0 ≤ imageX.toInt) (hy : 0 ≤ imageY.toInt) (hn : 0 < n) (hn4 : n ≤ 4)
    (hh : h < 2147483648)
    (hend : (imageY.toInt.toNat + h) * imageRowStride.toNat +
      (imageX.toInt.toNat + w) * n + n ≤ 2147483648) :
    blitSource (Int32.ofNat n) imageX imageY imageRowStride h w =
      ((imageY.toInt.toNat + h) * imageRowStride.toNat +
        (imageX.toInt.toNat + w) * n : Nat) := by
  have hcastY := toNat_toUInt32_of_nonneg hy
  have hsize : (Int32.ofNat n).toInt = n := toInt_ofNat_of_lt (by omega)
  rw [Nat.add_mul, Nat.add_mul] at hend ⊢
  have hword := toNat_toUInt32 (n := h) (by omega)
  have hfirstRow : (imageY.toUInt32 * imageRowStride).toNat =
      imageY.toInt.toNat * imageRowStride.toNat := by
    have hcast : imageY.toUInt32.toNat = imageY.toInt.toNat := by omega
    rw [toNat_mul_of_lt (by rw [hcast]; omega), hcast]
  have hrow : (h.toUInt32 * imageRowStride).toNat = h * imageRowStride.toNat := by
    rw [toNat_mul_of_lt (by rw [hword]; omega), hword]
  have hscaled (a : Int32) (m : Nat) (ha : a.toInt = m) (hm : m * n < 2147483648) :
      (a * Int32.ofNat n).toInt = (m * n : Nat) := by
    have hproduct : a.toInt * (Int32.ofNat n).toInt = (m * n : Nat) := by
      rw [ha, hsize, Int.natCast_mul]
    rw [toInt_mul_of_range (by omega) (by omega), hproduct]
  have hfirstColumn := hscaled imageX imageX.toInt.toNat (by omega) (by omega)
  have hw : w < 2147483648 := by
    have := Nat.le_mul_of_pos_right w hn
    omega
  have hcolumn := hscaled (Int32.ofNat w) w (toInt_ofNat_of_lt hw) (by omega)
  unfold blitSource
  rw [hfirstRow, hrow, hfirstColumn, hcolumn]
  push_cast
  ring

end Source

section Loops

variable {d : CpuGrGraphicsDrvData} {blend : UInt8 → UInt8 → UInt8 → UInt8}

/-- The colour of a pixel in a framebuffer like the one that is drawn to. -/
def CpuGrGraphicsDrvData.colorIn (d : CpuGrGraphicsDrvData) (fb : Framebuffer)
    (p : Nat × Nat) : GrGraphicsColor :=
  pixelColor d.framebufferFormat fun i => fb (d.pixelOffset p + i : Nat)

theorem writePixel_own
    {offset k : Nat} {bytes : List UInt8} (hk : k < bytes.length) (fb : Framebuffer) :
    writePixel offset bytes fb (offset + k : Nat) = bytes[k]?.getD 0 := by
  have hindex : (((offset + k : Nat) : Int) - offset).toNat = k := by omega
  rw [writePixel, if_pos (by omega), hindex, List.getElem?_eq_getElem hk]
  rfl

variable {imageFormat : GrImageFormat} {image : Nat → UInt8} {imageX imageY : Int32}
variable {imageRowStride : UInt32} {fbX fbY width height : Int32}

/-- A rectangle on the screen, in signed words. -/
structure BlitsTo (d : CpuGrGraphicsDrvData) (fbX fbY width height : Int32) : Prop where
  x_nonneg : 0 ≤ fbX.toInt
  y_nonneg : 0 ≤ fbY.toInt
  width_nonneg : 0 ≤ width.toInt
  height_nonneg : 0 ≤ height.toInt
  within : (wordBox fbX.toUInt32 fbY.toUInt32 width.toUInt32 height.toUInt32).Within
    d.presentationWidth.toNat d.presentationHeight.toNat

/-- The pixel that a pass of the loops writes. -/
def blitTarget (fbX fbY : Int32) (c : Nat × Nat) : Nat × Nat :=
  (fbX.toUInt32.toNat + c.2, fbY.toUInt32.toNat + c.1)

theorem blitTarget_visible
    (hto : BlitsTo d fbX fbY width height) {h w : Nat}
    (hh : h < height.toInt.toNat) (hw : w < width.toInt.toNat) :
    blitTarget fbX fbY (h, w) ∈ d.visible := by
  have hcastWidth := toNat_toUInt32_of_nonneg hto.width_nonneg
  have hcastHeight := toNat_toUInt32_of_nonneg hto.height_nonneg
  have hboxX : fbX.toUInt32.toNat + width.toUInt32.toNat ≤ d.presentationWidth.toNat :=
    hto.within.1
  have hboxY : fbY.toUInt32.toNat + height.toUInt32.toNat ≤ d.presentationHeight.toNat :=
    hto.within.2
  exact ⟨by show _ + w < _; omega, by show _ + h < _; omega⟩

variable (d blend imageFormat fbX fbY) in
/-- One pass of the loops, with the bytes of the image's pixels. -/
def blitPass (src : Nat → Nat → Nat → UInt8) (h w : Nat) (fb : Framebuffer) : Framebuffer :=
  let offset := d.pixelOffset (blitTarget fbX fbY (h, w))
  writePixel (offset : Nat)
    (blitBytes blend d.framebufferFormat imageFormat (src h w) fun k => fb (offset + k : Nat)) fb

theorem blitPixels_eq
    (hd : d.Addressable) (hto : BlitsTo d fbX fbY width height) (srcPixelBytes : Int32)
    (fb : Framebuffer) :
    blitPixels srcPixelBytes (blitBytes blend d.framebufferFormat imageFormat) image imageX
        imageY imageRowStride fbX fbY (d.presentationPixelStride * 4) width height fb =
      forEach width.toInt.toNat height.toInt.toNat
        (blitPass d blend imageFormat fbX fbY fun h w k =>
          image (blitSource srcPixelBytes imageX imageY imageRowStride h w + k).toNat) fb := by
  have hcastWidth := toNat_toUInt32_of_nonneg hto.width_nonneg
  have hcastHeight := toNat_toUInt32_of_nonneg hto.height_nonneg
  refine forEach_congr (fun h hh w hw fb => ?_) fb
  dsimp only
  rw [blitPixels_offset hd hto.x_nonneg hto.y_nonneg hto.width_nonneg hto.height_nonneg hto.within
    (by omega) (by omega)]
  rfl

/-- A pass changes the colour of its own pixel, and no other visible pixel. -/
theorem blitPass_draws
    (hd : d.Addressable) (hto : BlitsTo d fbX fbY width height)
    (hformat : d.framebufferFormat ≠ .max) (himage : imageFormat ≠ .max)
    (src : Nat → Nat → Nat → UInt8) {h w : Nat}
    (hh : h < height.toInt.toNat) (hw : w < width.toInt.toNat) :
    DrawsOwnPlace d.colorIn d.visible (blitTarget fbX fbY)
      (fun c => blitColor blend imageFormat (src c.1 c.2))
      (fun c => blitPass d blend imageFormat fbX fbY src c.1 c.2) (h, w) where
  mem := blitTarget_visible hto hh hw
  own := by
    intro fb
    have hlength := length_blitBytes blend hformat himage (src h w)
      fun k => fb (d.pixelOffset (blitTarget fbX fbY (h, w)) + k : Nat)
    unfold CpuGrGraphicsDrvData.colorIn blitPass
    rw [← pixelColor_blitBytes hformat himage]
    refine pixelColor_congr.mpr fun i hi => ?_
    exact writePixel_own (Nat.lt_of_lt_of_eq hi hlength.symm) fb
  other := by
    intro fb p hp hne
    have hlength := length_blitBytes blend hformat himage (src h w)
      fun k => fb (d.pixelOffset (blitTarget fbX fbY (h, w)) + k : Nat)
    have hsame := pixel_writePixel_of_ne hd (Nat.lt_of_lt_of_le hp.1 hd.width_le)
      (Nat.lt_of_lt_of_le (blitTarget_visible hto hh hw).1 hd.width_le) hne
      (Nat.le_trans (Nat.le_of_eq hlength) (by decide)) fb
    refine pixelColor_congr.mpr fun i hi => ?_
    exact congrFun hsame ⟨i, by omega⟩

theorem blitLoops_color
    (hd : d.Addressable) (hto : BlitsTo d fbX fbY width height)
    (hformat : d.framebufferFormat ≠ .max) (himage : imageFormat ≠ .max)
    (srcPixelBytes : Int32) (fb : Framebuffer) {h w : Nat}
    (hh : h < height.toInt.toNat) (hw : w < width.toInt.toNat) :
    d.colorIn (blitPixels srcPixelBytes (blitBytes blend d.framebufferFormat imageFormat) image
        imageX imageY imageRowStride fbX fbY (d.presentationPixelStride * 4) width height fb)
        (blitTarget fbX fbY (h, w)) =
      blitColor blend imageFormat
        (fun k => image (blitSource srcPixelBytes imageX imageY imageRowStride h w + k).toNat)
        (d.colorIn fb (blitTarget fbX fbY (h, w))) := by
  have hinj : Function.Injective (blitTarget fbX fbY) := by
    rintro ⟨h, w⟩ ⟨h', w'⟩ heq
    simp only [blitTarget, Prod.mk.injEq] at heq ⊢
    omega
  rw [blitPixels_eq hd hto]
  exact forEach_own_place hinj
    (fun h hh w hw => blitPass_draws hd hto hformat himage _ hh hw) fb hh hw

/-- Bytes other than the three of a target pixel. -/
theorem blitLoops_kept
    (hd : d.Addressable) (hto : BlitsTo d fbX fbY width height)
    (hformat : d.framebufferFormat ≠ .max) (himage : imageFormat ≠ .max)
    (srcPixelBytes : Int32) (fb : Framebuffer) {a : Int}
    (ha : ∀ h < height.toInt.toNat, ∀ w < width.toInt.toNat, ∀ k < 3,
      a ≠ (d.pixelOffset (blitTarget fbX fbY (h, w)) + k : Nat)) :
    blitPixels srcPixelBytes (blitBytes blend d.framebufferFormat imageFormat) image
        imageX imageY imageRowStride fbX fbY (d.presentationPixelStride * 4) width height fb a =
      fb a := by
  rw [blitPixels_eq hd hto]
  refine forEach_induct (motive := fun fb' : Framebuffer => fb' a = fb a) rfl
    fun h hh w hw fb' hfb' => ?_
  rw [blitPass, writePixel_of_ne (length_blitBytes blend hformat himage _ _).le (ha h hh w hw),
    hfb']

/-- The offsets in the image that the loops read, `n` bytes in each pass. -/
def blitReads (srcPixelBytes : Int32) (n : Nat) (imageX imageY : Int32)
    (imageRowStride : UInt32) (width height : Int32) : List Int :=
  (List.range height.toInt.toNat).flatMap fun h =>
    (List.range width.toInt.toNat).flatMap fun w =>
      (List.range n).map fun k : Nat =>
        blitSource srcPixelBytes imageX imageY imageRowStride h w + k

theorem mem_blitReads
    (srcPixelBytes : Int32) (n : Nat) (imageX imageY : Int32)
    (imageRowStride : UInt32) (width height : Int32) {a : Int} :
    a ∈ blitReads srcPixelBytes n imageX imageY imageRowStride width height ↔
      ∃ h < height.toInt.toNat, ∃ w < width.toInt.toNat, ∃ k < n,
        blitSource srcPixelBytes imageX imageY imageRowStride h w + k = a := by
  simp only [blitReads, List.mem_flatMap, List.mem_range, List.mem_map]

/-- The loops use what they read and nothing else of the image. -/
theorem blitLoops_congr
    (hd : d.Addressable) (hto : BlitsTo d fbX fbY width height) (srcPixelBytes : Int32)
    {image' : Nat → UInt8}
    (hreads : ∀ a ∈ blitReads srcPixelBytes imageFormat.pixelBytes imageX imageY imageRowStride
      width height, image' a.toNat = image a.toNat) (fb : Framebuffer) :
    blitPixels srcPixelBytes (blitBytes blend d.framebufferFormat imageFormat) image imageX
        imageY imageRowStride fbX fbY (d.presentationPixelStride * 4) width height fb =
      blitPixels srcPixelBytes (blitBytes blend d.framebufferFormat imageFormat) image' imageX
        imageY imageRowStride fbX fbY (d.presentationPixelStride * 4) width height fb := by
  rw [blitPixels_eq hd hto, blitPixels_eq hd hto]
  refine forEach_congr (fun h hh w hw fb => ?_) fb
  unfold blitPass
  dsimp only
  rw [blitBytes_congr blend _ imageFormat fun k hk => (hreads _
    ((mem_blitReads _ _ _ _ _ _ _).mpr ⟨h, hh, w, hw, k, hk, rfl⟩)).symm]

end Loops

section Calls

variable (blend : UInt8 → UInt8 → UInt8 → UInt8)

/-- The offsets in the image that a blit reads. -/
def GrBlit.reads (blit : GrBlit) (d : CpuGrGraphicsDrvData) : List Int :=
  match d.framebufferFormat, blit.imageFormat,
    blitRect blit d.presentationWidth d.presentationHeight with
  | .max, _, _ => []
  | _, .max, _ => []
  | _, _, none => []
  | _, _, some r =>
      blitReads (Int32.ofNat blit.imageFormat.pixelBytes) blit.imageFormat.pixelBytes
        (clipBlitAxis blit.imageX blit.fbX blit.width d.presentationWidth).1
        (clipBlitAxis blit.imageY blit.fbY blit.height d.presentationHeight).1
        blit.imageRowStride r.width.toInt32 r.height.toInt32

/-- What a blit does and what it reads. -/
structure BlitTranslates (blit : GrBlit) (d d' : CpuGrGraphicsDrvData) : Prop where
  drawn : ∀ i j p, blit.Targets d i j p →
    d'.color p = blitColor blend blit.imageFormat
      (fun k => blit.image (blit.imageOffset i j + k)) (d.color p)
  others : ∀ p ∈ d.visible, (∀ i j, ¬ blit.Targets d i j p) →
    d.pixel d'.renderFramebuffer p = d.pixel d.renderFramebuffer p
  kept : ∀ a : Int, (∀ i j p, blit.Targets d i j p → ∀ k < 3, a ≠ (d.pixelOffset p + k : Nat)) →
    d'.renderFramebuffer a = d.renderFramebuffer a
  reserved : ∀ p ∈ d.visible, d.pixel d'.renderFramebuffer p 3 = d.pixel d.renderFramebuffer p 3
  reads : ∀ a ∈ blit.reads d, ∃ i j p, blit.Targets d i j p ∧
    (blit.imageOffset i j : Int) ≤ a ∧ a < blit.imageOffset i j + blit.imageFormat.pixelBytes
  unread : ∀ image' : Nat → UInt8, (∀ a ∈ blit.reads d, image' a.toNat = blit.image a.toNat) →
    d' = cpuGrGraphicsBlitImageToFramebuffer blend { blit with image := image' } d

variable {blend} {blit : GrBlit} {d d' : CpuGrGraphicsDrvData}

/-- Which bytes stay decides which pixels and reserved bytes do. -/
theorem BlitTranslates.of_kept
    (hd : d.Addressable)
    (drawn : ∀ i j p, blit.Targets d i j p →
      d'.color p = blitColor blend blit.imageFormat
        (fun k => blit.image (blit.imageOffset i j + k)) (d.color p))
    (kept : ∀ a : Int,
      (∀ i j p, blit.Targets d i j p → ∀ k < 3, a ≠ (d.pixelOffset p + k : Nat)) →
        d'.renderFramebuffer a = d.renderFramebuffer a)
    (reads : ∀ a ∈ blit.reads d, ∃ i j p, blit.Targets d i j p ∧
      (blit.imageOffset i j : Int) ≤ a ∧
        a < blit.imageOffset i j + blit.imageFormat.pixelBytes)
    (unread : ∀ image' : Nat → UInt8,
      (∀ a ∈ blit.reads d, image' a.toNat = blit.image a.toNat) →
        d' = cpuGrGraphicsBlitImageToFramebuffer blend { blit with image := image' } d) :
    BlitTranslates blend blit d d' where
  drawn := drawn
  kept := kept
  reads := reads
  unread := unread
  others := by
    intro p hp hnot
    funext k
    refine kept _ fun i j q hq l hl heq => ?_
    obtain ⟨rfl, -⟩ := pixelOffset_add_inj hd (Nat.lt_of_lt_of_le hp.1 hd.width_le)
      (Nat.lt_of_lt_of_le hq.visible.1 hd.width_le) k.isLt (by omega) (Int.ofNat_inj.mp heq)
    exact hnot i j hq
  reserved := by
    intro p hp
    refine kept _ fun i j q hq l hl heq => ?_
    obtain ⟨-, hkl⟩ := pixelOffset_add_inj hd (Nat.lt_of_lt_of_le hp.1 hd.width_le)
      (Nat.lt_of_lt_of_le hq.visible.1 hd.width_le) (by decide) (by omega) (Int.ofNat_inj.mp heq)
    exact absurd hkl (by show 3 ≠ l; omega)

/-- A blit without targets that draws nothing. -/
theorem blitTranslates_of_none
    (hnone : blitRect blit d.presentationWidth d.presentationHeight = none)
    (htargets : ∀ i j p, ¬ blit.Targets d i j p) (hd : d.Addressable) :
    BlitTranslates blend blit d (cpuGrGraphicsBlitImageToFramebuffer blend blit d) := by
  have hcall (image' : Nat → UInt8) :
      cpuGrGraphicsBlitImageToFramebuffer blend { blit with image := image' } d = d := by
    rw [blit_eq, show blitRect { blit with image := image' } _ _ = none from hnone]
    rfl
  have hreads : blit.reads d = [] := by
    unfold GrBlit.reads
    rw [hnone]
    cases d.framebufferFormat <;> cases blit.imageFormat <;> rfl
  rw [show cpuGrGraphicsBlitImageToFramebuffer blend blit d = d from hcall blit.image]
  exact .of_kept hd (fun i j p h => absurd h (htargets i j p)) (fun _ _ => rfl)
    (fun a ha => absurd (hreads ▸ ha) List.not_mem_nil) fun image' _ => (hcall image').symm

/-- A frame with visible pixels has fewer than `2 ^ 31` rows. -/
theorem height_lt_of_visible
    (hd : d.Addressable) (hwidth : 0 < d.presentationWidth.toNat) :
    d.presentationHeight.toNat < 2147483648 := by
  have hstride : 0 < d.presentationPixelStride.toNat := Nat.lt_of_lt_of_le hwidth hd.width_le
  have hrow : d.presentationHeight.toNat * 4 ≤
      d.presentationHeight.toNat * (d.presentationPixelStride.toNat * 4) :=
    Nat.mul_le_mul_left _ (by omega)
  have hframe := hd.frame_lt
  omega

/-- The rectangle of two clipped axes. -/
theorem blitsTo_of_clipped
    {imageX imageY fbX fbY width height : Int32}
    (hx : AxisClipped blit.imageX blit.fbX blit.width imageX fbX width d.presentationWidth)
    (hy : AxisClipped blit.imageY blit.fbY blit.height imageY fbY height d.presentationHeight) :
    BlitsTo d fbX fbY width height where
  x_nonneg := hx.fb_nonneg
  y_nonneg := hy.fb_nonneg
  width_nonneg := hx.size_nonneg
  height_nonneg := hy.size_nonneg
  within := by
    have hcastX := toNat_toUInt32_of_nonneg hx.fb_nonneg
    have hcastY := toNat_toUInt32_of_nonneg hy.fb_nonneg
    have hcastWidth := toNat_toUInt32_of_nonneg hx.size_nonneg
    have hcastHeight := toNat_toUInt32_of_nonneg hy.size_nonneg
    have hendX := hx.end_eq
    have hendY := hy.end_eq
    unfold Box.Within wordBox
    dsimp only
    omega

theorem reads_of_some
    {r : DrawnRect} (hformat : d.framebufferFormat ≠ .max) (himage : blit.imageFormat ≠ .max)
    (hsome : blitRect blit d.presentationWidth d.presentationHeight = some r) :
    blit.reads d =
      blitReads (Int32.ofNat blit.imageFormat.pixelBytes) blit.imageFormat.pixelBytes
        (clipBlitAxis blit.imageX blit.fbX blit.width d.presentationWidth).1
        (clipBlitAxis blit.imageY blit.fbY blit.height d.presentationHeight).1
        blit.imageRowStride r.width.toInt32 r.height.toInt32 := by
  unfold GrBlit.reads
  rw [hsome]
  split
  · exact absurd ‹_› hformat
  · exact absurd ‹_› himage
  · rename_i hnone _ _
    cases hnone
  · rename_i hsame _ _
    cases hsame
    rfl

theorem pixelBytes_of_known
    {imageFormat : GrImageFormat} (himage : imageFormat ≠ .max) :
    0 < imageFormat.pixelBytes ∧ imageFormat.pixelBytes ≤ 4 := by
  cases imageFormat with
  | rgb8 => exact ⟨by decide, by decide⟩
  | rgba8 => exact ⟨by decide, by decide⟩
  | max => exact absurd rfl himage

/-- A pixel of the screen is the target of one pixel of the blit. -/
theorem GrBlit.Targets.unique
    {i j i' j' : Nat} {p : Nat × Nat}
    (h : blit.Targets d i j p) (h' : blit.Targets d i' j' p) :
    i' = i ∧ j' = j := by
  have hx := h.x_eq
  have hy := h.y_eq
  have hx' := h'.x_eq
  have hy' := h'.y_eq
  exact ⟨by omega, by omega⟩

section Clipped

variable {imageX imageY fbX fbY width height : Int32}

/-- Each target is the pixel of some pass. -/
theorem pass_of_targets
    (hx : AxisClipped blit.imageX blit.fbX blit.width imageX fbX width d.presentationWidth)
    (hy : AxisClipped blit.imageY blit.fbY blit.height imageY fbY height d.presentationHeight)
    (hblit : blit.Moderate d) {i j : Nat} {p : Nat × Nat} (htarget : blit.Targets d i j p) :
    ∃ h < height.toInt.toNat, ∃ w < width.toInt.toNat, p = blitTarget fbX fbY (h, w) := by
  rcases hx.pass_of_target hblit.x.image_nonneg htarget.column_lt htarget.x_eq
    htarget.visible.1 with ⟨w, hw, hxPass, -⟩
  rcases hy.pass_of_target hblit.y.image_nonneg htarget.row_lt htarget.y_eq
    htarget.visible.2 with ⟨h, hh, hyPass, -⟩
  exact ⟨h, hh, w, hw, Prod.ext hxPass hyPass⟩

/-- Each pass writes a target, from the bytes of the image's pixel that belongs to it. -/
theorem targets_of_pass
    (hx : AxisClipped blit.imageX blit.fbX blit.width imageX fbX width d.presentationWidth)
    (hy : AxisClipped blit.imageY blit.fbY blit.height imageY fbY height d.presentationHeight)
    (himage : blit.imageFormat ≠ .max) (hblit : blit.Moderate d)
    {h w : Nat} (hh : h < height.toInt.toNat) (hw : w < width.toInt.toNat) :
    ∃ i j, blit.Targets d i j (blitTarget fbX fbY (h, w)) ∧
      blitSource (Int32.ofNat blit.imageFormat.pixelBytes) imageX imageY blit.imageRowStride
        h w = blit.imageOffset i j := by
  have himageX := hblit.x.image_nonneg
  have himageY := hblit.y.image_nonneg
  rcases hx.target_of_pass himageX hw with ⟨i, hi, hxTarget, hxSource⟩
  rcases hy.target_of_pass himageY hh with ⟨j, hj, hyTarget, hySource⟩
  have htargets : blit.Targets d i j (blitTarget fbX fbY (h, w)) :=
    ⟨blitTarget_visible (blitsTo_of_clipped hx hy) hh hw, hi, hj, hxTarget, hyTarget⟩
  have himageOffset : blit.imageOffset i j =
      (imageY.toInt.toNat + h) * blit.imageRowStride.toNat +
        (imageX.toInt.toNat + w) * blit.imageFormat.pixelBytes := by
    rw [GrBlit.imageOffset, hxSource, hySource]
  have hoffset := hblit.offset_le i j _ htargets
  have hmovedX := hx.image_eq
  have hmovedY := hy.image_eq
  have hstartX := hx.fb_eq
  have hstartY := hy.fb_eq
  have hsizeY := hblit.y.size_lt
  rcases pixelBytes_of_known himage with ⟨hpos, hle⟩
  refine ⟨i, j, htargets, ?_⟩
  rw [himageOffset] at hoffset ⊢
  exact blitSource_eq (by omega) (by omega) hpos hle (by omega) hoffset

variable (blend) in
/-- A blit with a rectangle to draw marks the rectangle and runs the loops. -/
theorem blit_of_clipped
    (hformat : d.framebufferFormat ≠ .max) (himage : blit.imageFormat ≠ .max)
    (hclipX : clipBlitAxis blit.imageX blit.fbX blit.width d.presentationWidth =
      (imageX, fbX, width))
    (hclipY : clipBlitAxis blit.imageY blit.fbY blit.height d.presentationHeight =
      (imageY, fbY, height))
    (hsome : blitRect blit d.presentationWidth d.presentationHeight =
      some ⟨fbX.toUInt32, fbY.toUInt32, width.toUInt32, height.toUInt32⟩)
    (image' : Nat → UInt8) :
    cpuGrGraphicsBlitImageToFramebuffer blend { blit with image := image' } d =
      { d with
        swapBufferInfo := cpuGrMarkScreenRegionForSwapping fbX.toUInt32 fbY.toUInt32
          width.toUInt32 height.toUInt32 d.swapBufferInfo
        renderFramebuffer := blitPixels (Int32.ofNat blit.imageFormat.pixelBytes)
          (blitBytes blend d.framebufferFormat blit.imageFormat) image' imageX imageY
          blit.imageRowStride fbX fbY (d.presentationPixelStride * 4) width height
          d.renderFramebuffer } := by
  rw [blit_eq, show blitRect { blit with image := image' } _ _ = some _ from hsome,
    Option.elim_some]
  dsimp only
  rw [hclipX, hclipY, blitToRender_eq (d := { d with
    swapBufferInfo := cpuGrMarkScreenRegionForSwapping fbX.toUInt32 fbY.toUInt32
      width.toUInt32 height.toUInt32 d.swapBufferInfo })
    { blit with image := image' } hformat himage]
  rfl

theorem blitTranslates_of_clipped
    (hd : d.Addressable) (hformat : d.framebufferFormat ≠ .max)
    (himage : blit.imageFormat ≠ .max) (hblit : blit.Moderate d)
    (hclipX : clipBlitAxis blit.imageX blit.fbX blit.width d.presentationWidth =
      (imageX, fbX, width))
    (hclipY : clipBlitAxis blit.imageY blit.fbY blit.height d.presentationHeight =
      (imageY, fbY, height))
    (hsome : blitRect blit d.presentationWidth d.presentationHeight =
      some ⟨fbX.toUInt32, fbY.toUInt32, width.toUInt32, height.toUInt32⟩)
    (hx : AxisClipped blit.imageX blit.fbX blit.width imageX fbX width d.presentationWidth)
    (hy : AxisClipped blit.imageY blit.fbY blit.height imageY fbY height d.presentationHeight) :
    BlitTranslates blend blit d (cpuGrGraphicsBlitImageToFramebuffer blend blit d) := by
  have hto := blitsTo_of_clipped hx hy
  have hcall := blit_of_clipped blend hformat himage hclipX hclipY hsome
  have hreads := reads_of_some hformat himage hsome
  rw [hclipX, hclipY] at hreads
  rw [show cpuGrGraphicsBlitImageToFramebuffer blend blit d = _ from hcall blit.image]
  refine .of_kept hd (fun i j p htarget => ?_) (fun a ha => ?_) (fun a ha => ?_)
    fun image' himage' => ?_
  · rcases pass_of_targets hx hy hblit htarget with ⟨h, hh, w, hw, rfl⟩
    rcases targets_of_pass hx hy himage hblit hh hw with ⟨i', j', htargets, hsource⟩
    rcases htarget.unique htargets with ⟨rfl, rfl⟩
    refine (blitLoops_color hd hto hformat himage _ _ hh hw).trans ?_
    rw [hsource]
    rfl
  · refine blitLoops_kept hd hto hformat himage _ _ fun h hh w hw k hk => ?_
    rcases targets_of_pass hx hy himage hblit hh hw with ⟨i, j, htargets, -⟩
    exact ha i j _ htargets k hk
  · rw [hreads] at ha
    rcases (mem_blitReads _ _ _ _ _ _ _).mp ha with ⟨h, hh, w, hw, k, hk, rfl⟩
    rcases targets_of_pass hx hy himage hblit hh hw with ⟨i, j, htargets, hsource⟩
    refine ⟨i, j, _, htargets, ?_⟩
    rw [hsource]
    omega
  · rw [hreads] at himage'
    rw [hcall, blitLoops_congr hd hto _ himage']

end Clipped

/-- A blit is a translation that is clipped at the edges of the screen. -/
theorem blit_translates
    (blend : UInt8 → UInt8 → UInt8 → UInt8) (blit : GrBlit) (d : CpuGrGraphicsDrvData)
    (hd : d.Addressable) (hformat : d.framebufferFormat ≠ .max)
    (himage : blit.imageFormat ≠ .max) (hblit : blit.Moderate d) :
    BlitTranslates blend blit d (cpuGrGraphicsBlitImageToFramebuffer blend blit d) := by
  have hrow := hd.row_lt
  have hwidthLe := hd.width_le
  have hW : d.presentationWidth.toNat < 2147483648 := by omega
  rcases blitRect_cases blit d.presentationWidth d.presentationHeight with
    ⟨hnone, hnot⟩ | ⟨hreachX, hreachY, imageX, fbX, width, imageY, fbY, height, hclipX, hclipY,
      hsome⟩
  · refine blitTranslates_of_none hnone (fun i j p htarget => hnot ?_) hd
    have hx := htarget.x_eq
    have hy := htarget.y_eq
    have hcolumn := htarget.column_lt
    have hrow := htarget.row_lt
    have hp : p.1 < d.presentationWidth.toNat := htarget.visible.1
    have hH := height_lt_of_visible hd (by omega)
    rcases clipBlitAxis_exact hblit.x hW rfl with ⟨-, hemptyX⟩ | ⟨hreachX, -⟩
    · exact absurd (by omega) (hemptyX p.1 htarget.visible.1 (by omega))
    rcases clipBlitAxis_exact hblit.y hH rfl with ⟨-, hemptyY⟩ | ⟨hreachY, -⟩
    · exact absurd (by omega) (hemptyY p.2 htarget.visible.2 (by omega))
    exact ⟨hreachX, hreachY⟩
  · have hpositive : 0 < d.presentationWidth.toNat := by
      have hscreen : d.presentationWidth.toInt32.toInt = d.presentationWidth.toNat := by
        rw [toInt_toInt32, if_pos hW]
      unfold BlitReaches at hreachX
      omega
    have hH := height_lt_of_visible hd hpositive
    rcases clipBlitAxis_exact hblit.x hW hclipX with ⟨hnot, -⟩ | ⟨-, hx⟩
    · exact absurd hreachX hnot
    rcases clipBlitAxis_exact hblit.y hH hclipY with ⟨hnot, -⟩ | ⟨-, hy⟩
    · exact absurd hreachY hnot
    exact blitTranslates_of_clipped hd hformat himage hblit hclipX hclipY hsome hx hy

/-- An image of two by two pixels, half of it left of the screen. -/
def smallBlit : GrBlit where
  image := fun a => UInt8.ofNat a
  imageFormat := .rgba8
  imageX := 0
  imageY := 0
  imageRowStride := 8
  fbX := -1
  fbY := 1
  width := 2
  height := 2

theorem smallBlit_moderate :
    smallBlit.Moderate smallFrame where
  x := ⟨by decide, by decide, by decide, by decide, by decide, by decide⟩
  y := ⟨by decide, by decide, by decide, by decide, by decide, by decide⟩
  offset_le := by
    intro i j p h
    have hi : (i : Int) < 2 := h.column_lt
    have hj : (j : Int) < 2 := h.row_lt
    show (0 + j) * 8 + (0 + i) * 4 + 4 ≤ 2147483648
    omega

theorem blit_translates_smallBlit :
    BlitTranslates (fun source _ _ => source) smallBlit smallFrame
      (cpuGrGraphicsBlitImageToFramebuffer (fun source _ _ => source) smallBlit smallFrame) :=
  blit_translates _ _ _ smallFrame_addressable nofun nofun smallBlit_moderate

end Calls

end Graphics
end DexprOS
