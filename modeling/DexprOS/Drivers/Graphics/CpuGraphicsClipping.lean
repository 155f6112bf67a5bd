import DexprOS.Drivers.Graphics.CpuGraphicsSwapping

/-!
# What clipping leaves of a rectangle

The clipping of regions and of blits, exactly.  Both compare the end of a rectangle with the
size of the screen after adding in 32 bits, so an end that wraps around is not cut off.

Main facts:
* `clipRegionAxis_cases`, `clipBlitAxis_cases`: the outcomes of clipping one axis;
* `clearScreenRegions_eq`, `blit_eq`: a call marks and draws its clipped rectangles;
* `within_rects_iff`: these lie on the screen exactly when no end wraps around;
* `runGraphicsCall_writesOnly`: then no byte off the screen is written;
* `runGraphicsCall_onScreen_iff`: so do the pixels and the recorded region.
-/

namespace DexprOS
namespace Graphics

open Damage Word32

section Regions

variable {pos : Int32} {size presentation : UInt32}

/-- Nothing left of the screen hides the whole axis, and it does not start right of it. -/
def RegionReaches (pos : Int32) (size presentation : UInt32) : Prop :=
  (0 ≤ pos.toInt → pos.toInt < presentation.toNat) ∧
    (pos.toInt < 0 → 0 < presentation.toNat ∧ 0 < pos.toInt + size.toNat)

instance (pos : Int32) (size presentation : UInt32) :
    Decidable (RegionReaches pos size presentation) :=
  inferInstanceAs (Decidable (_ ∧ _))

/-- The end of a region is cut off exactly at the end of the screen. -/
theorem toNat_clipEnd
    (start : UInt32) {size presentation : UInt32}
    (hstart : start.toNat < presentation.toNat)
    (hsum : start.toNat + size.toNat < 4294967296) :
    (if start + size > presentation then presentation - start else size).toNat =
      min size.toNat (presentation.toNat - start.toNat) := by
  split
  · rename_i hgt
    rw [gt_iff_lt, UInt32.lt_iff_toNat_lt, toNat_add_of_lt hsum] at hgt
    rw [UInt32.toNat_sub_of_le _ _ (UInt32.le_iff_toNat_le.mpr (Nat.le_of_lt hstart))]
    omega
  · rename_i hle
    rw [gt_iff_lt, UInt32.lt_iff_toNat_lt, toNat_add_of_lt hsum] at hle
    omega

/-- An end that wraps around is taken for one on the screen. -/
theorem clipEnd_of_wrap
    {start size presentation : UInt32}
    (hstart : start.toNat < presentation.toNat)
    (hsum : ¬ start.toNat + size.toNat < 4294967296) :
    (if start + size > presentation then presentation - start else size) = size := by
  rw [if_neg]
  rw [gt_iff_lt, UInt32.lt_iff_toNat_lt, UInt32.toNat_add]
  have hsize := size.toNat_lt
  omega

/-- The distance of a negative coordinate from the screen, as the code computes it. -/
theorem toNat_neg
    (hpos : pos.toInt < 0) :
    ((-pos).toUInt32.toNat : Int) = -pos.toInt := by
  have hcast := toInt_toInt32 pos.toUInt32
  rw [Int32.toInt32_toUInt32] at hcast
  have hlt := pos.toUInt32.toNat_lt
  rw [Int32.toUInt32_neg, UInt32.toNat_neg, show UInt32.size = 4294967296 from rfl]
  split at hcast <;> omega

/-- The outcomes of clipping one axis of a region. -/
theorem clipRegionAxis_cases
    (pos : Int32) (size presentation : UInt32) :
    (¬ RegionReaches pos size presentation ∧ clipRegionAxis pos size presentation = none) ∨
      RegionReaches pos size presentation ∧
        ∃ start size', clipRegionAxis pos size presentation = some (start, size') ∧
          (start.toNat : Int) = max pos.toInt 0 ∧
          (RegionSumFits pos size →
            (start.toNat : Int) + size'.toNat = min (pos.toInt + size.toNat) presentation.toNat) ∧
          (¬ RegionSumFits pos size → size' = size) := by
  unfold clipRegionAxis RegionReaches RegionSumFits
  by_cases hneg : pos < 0
  · have hnegInt : pos.toInt < 0 := Int32.lt_iff_toInt_lt.mp hneg
    have hnot : ¬ pos ≥ 0 := Int32.not_le.mpr hneg
    have hword := toNat_neg hnegInt
    have hzero : (0 : UInt32).toNat = 0 := rfl
    simp only [if_neg hnot, hneg, true_and]
    by_cases hstart : (0 : UInt32) ≥ presentation
    · have hle : presentation.toNat ≤ 0 := UInt32.le_iff_toNat_le.mp hstart
      exact .inl ⟨by omega, by rw [if_pos hstart]⟩
    have hlt : 0 < presentation.toNat :=
      UInt32.lt_iff_toNat_lt.mp (UInt32.not_le.mp hstart)
    by_cases hleft : (-pos).toUInt32 ≥ size
    · have hle := UInt32.le_iff_toNat_le.mp hleft
      exact .inl ⟨by omega, by rw [if_neg hstart, if_pos hleft]⟩
    · have hgt := UInt32.lt_iff_toNat_lt.mp (UInt32.not_le.mp hleft)
      have hsub := UInt32.toNat_sub_of_le size (-pos).toUInt32
        (UInt32.le_iff_toNat_le.mpr (Nat.le_of_lt hgt))
      have hend := toNat_clipEnd 0 hlt (show
          (0 : UInt32).toNat + (size - (-pos).toUInt32).toNat < 4294967296 by
        have := size.toNat_lt
        omega)
      refine .inr ⟨by omega, 0, _, by rw [if_neg hstart, if_neg hleft], by omega, fun _ => ?_,
        fun hwrap => ?_⟩
      · simp only [if_true]
        rw [hend, hsub]
        omega
      · exact absurd (fun h => by omega) hwrap
  · have hnonneg : pos ≥ 0 := Int32.not_lt.mp hneg
    have hnonnegInt : 0 ≤ pos.toInt := Int32.le_iff_toInt_le.mp hnonneg
    have hword := toNat_toUInt32_of_nonneg hnonnegInt
    simp only [if_pos hnonneg, hneg, false_and, if_false]
    by_cases hstart : pos.toUInt32 ≥ presentation
    · have hle := UInt32.le_iff_toNat_le.mp hstart
      exact .inl ⟨by omega, by rw [if_pos hstart]⟩
    · have hlt := UInt32.lt_iff_toNat_lt.mp (UInt32.not_le.mp hstart)
      refine .inr ⟨by omega, _, _, by rw [if_neg hstart], by omega, fun hfits => ?_,
        fun hwrap => clipEnd_of_wrap hlt ?_⟩
      · have hsum := hfits hnonnegInt
        have hend := toNat_clipEnd _ hlt
          (show pos.toUInt32.toNat + size.toNat < 4294967296 by omega)
        rw [hend]
        omega
      · omega

end Regions

section Blits

variable {image fb size : Int32} {presentation : UInt32}

/-- No early return because of this axis; the differences are those of 32-bit words. -/
def BlitReaches (image fb size : Int32) (presentation : UInt32) : Prop :=
  (0 ≤ fb.toInt → 0 ≤ image.toInt ∧ 0 ≤ size.toInt ∧ fb.toInt < presentation.toInt32.toInt) ∧
    (fb.toInt < 0 → 0 ≤ (image - fb).toInt ∧ 0 ≤ (size + fb).toInt ∧
      0 < presentation.toInt32.toInt)

instance (image fb size : Int32) (presentation : UInt32) :
    Decidable (BlitReaches image fb size presentation) :=
  inferInstanceAs (Decidable (_ ∧ _))

/-- The end of a blit that starts on the screen is a word of 31 bits. -/
def BlitEndFits (fb size : Int32) : Prop :=
  0 ≤ fb.toInt → fb.toInt + size.toInt < 2147483648

/-- What a blit has to draw right of the edge of the screen. -/
def blitRest (fb size : Int32) : Int32 :=
  if fb < 0 then size + fb else size

/-- The end of a blit is cut off exactly at the end of the screen. -/
theorem toInt_clipEnd
    (start : Int32) {size presentation : Int32}
    (hstart : 0 ≤ start.toInt) (hlt : start.toInt < presentation.toInt)
    (hlo : -2147483648 ≤ start.toInt + size.toInt)
    (hsum : start.toInt + size.toInt < 2147483648) :
    (if start + size > presentation then presentation - start else size).toInt =
      min size.toInt (presentation.toInt - start.toInt) := by
  have hmax := presentation.toInt_lt
  split
  · rename_i hgt
    rw [gt_iff_lt, Int32.lt_iff_toInt_lt, toInt_add_of_range hlo hsum] at hgt
    rw [toInt_sub_of_range (by omega) (by omega)]
    omega
  · rename_i hle
    rw [gt_iff_lt, Int32.lt_iff_toInt_lt, toInt_add_of_range hlo hsum] at hle
    omega

/-- An end that wraps around is negative. -/
theorem clipEnd_of_signed_wrap
    {start size presentation : Int32}
    (hlt : start.toInt < presentation.toInt) (hstart : 0 ≤ start.toInt)
    (hsum : ¬ start.toInt + size.toInt < 2147483648) :
    (if start + size > presentation then presentation - start else size) = size := by
  have hstart' := start.toInt_lt
  have hsize := size.toInt_lt
  rw [if_neg]
  rw [gt_iff_lt, Int32.lt_iff_toInt_lt, Int32.toInt_add, Int.bmod_def]
  omega

/-- The outcomes of clipping one axis of a blit. -/
theorem clipBlitAxis_cases
    {image' fb' size' : Int32}
    (hclip : clipBlitAxis image fb size presentation = (image', fb', size')) :
    (¬ BlitReaches image fb size presentation ∧
      (image' < 0 ∨ size' < 0 ∨ fb' ≥ presentation.toInt32)) ∨
      BlitReaches image fb size presentation ∧
        ¬ image' < 0 ∧ ¬ size' < 0 ∧ ¬ fb' ≥ presentation.toInt32 ∧
          fb'.toInt = max fb.toInt 0 ∧ image' = (if fb < 0 then image - fb else image) ∧
          (BlitEndFits fb size → fb'.toInt + size'.toInt =
            min (fb'.toInt + (blitRest fb size).toInt) presentation.toInt32.toInt) ∧
          (¬ BlitEndFits fb size → size' = size) := by
  have hzero : (0 : Int32).toInt = 0 := rfl
  unfold BlitReaches BlitEndFits blitRest
  unfold clipBlitAxis at hclip
  simp only [Prod.mk.injEq] at hclip
  obtain ⟨himage, hfb, hsize⟩ := hclip
  by_cases hneg : fb < 0
  · have hnegInt : fb.toInt < 0 := Int32.lt_iff_toInt_lt.mp hneg
    simp only [if_pos hneg] at himage hfb hsize ⊢
    subst hfb himage
    rw [Int32.zero_add] at hsize
    rw [ge_iff_le, Int32.le_iff_toInt_le, Int32.lt_iff_toInt_lt, Int32.lt_iff_toInt_lt]
    by_cases hscreen : 0 < presentation.toInt32.toInt
    · have hcut : size'.toInt = min (size + fb).toInt presentation.toInt32.toInt := by
        rw [← hsize]
        split
        · rename_i hgt
          rw [gt_iff_lt, Int32.lt_iff_toInt_lt] at hgt
          rw [Int32.sub_zero]
          omega
        · rename_i hle
          rw [gt_iff_lt, Int32.lt_iff_toInt_lt] at hle
          omega
      by_cases hreach : 0 ≤ (image - fb).toInt ∧ 0 ≤ (size + fb).toInt
      · refine .inr ⟨by omega, by omega, by omega, by omega, by omega, rfl, by omega, ?_⟩
        exact fun hwrap => absurd (fun h => by omega) hwrap
      · exact .inl ⟨by omega, by omega⟩
    · exact .inl ⟨by omega, by omega⟩
  · have hnonneg : 0 ≤ fb.toInt := Int32.le_iff_toInt_le.mp (Int32.not_lt.mp hneg)
    simp only [if_neg hneg] at himage hfb hsize ⊢
    subst hfb himage
    rw [ge_iff_le, Int32.le_iff_toInt_le, Int32.lt_iff_toInt_lt, Int32.lt_iff_toInt_lt]
    by_cases hscreen : fb.toInt < presentation.toInt32.toInt
    · have hlo := size.le_toInt
      by_cases hsum : fb.toInt + size.toInt < 2147483648
      · have hcut := toInt_clipEnd fb hnonneg hscreen (by omega) hsum
        rw [hsize] at hcut
        by_cases hreach : 0 ≤ image.toInt ∧ 0 ≤ size.toInt
        · refine .inr ⟨by omega, by omega, by omega, by omega, by omega, rfl, by omega, ?_⟩
          exact fun hwrap => absurd (fun h => hsum) hwrap
        · exact .inl ⟨by omega, by omega⟩
      · rw [clipEnd_of_signed_wrap hscreen hnonneg hsum] at hsize
        subst hsize
        have hlt := fb.toInt_lt
        by_cases himage : 0 ≤ image.toInt
        · exact .inr ⟨by omega, by omega, by omega, by omega, by omega, rfl,
            fun hfits => absurd (hfits hnonneg) hsum, fun _ => rfl⟩
        · exact .inl ⟨by omega, by omega⟩
    · exact .inl ⟨by omega, by omega⟩

end Blits

section Rectangles

/-- A rectangle that is marked and drawn. -/
structure DrawnRect where
  x : UInt32
  y : UInt32
  width : UInt32
  height : UInt32
deriving DecidableEq

def DrawnRect.box (r : DrawnRect) : Box :=
  wordBox r.x r.y r.width r.height

/-- What one pass of the loop over the regions clears. -/
def clearedRect (first : GrImageRegion) (W H : UInt32) (region : GrImageRegion) :
    Option DrawnRect :=
  match clipRegionAxis region.x first.width W, clipRegionAxis region.y first.height H with
  | some (x, width), some (y, height) => some ⟨x, y, width, height⟩
  | _, _ => none

def clearedRects (regions : List GrImageRegion) (W H : UInt32) : List DrawnRect :=
  match regions with
  | [] => []
  | first :: _ => regions.filterMap (clearedRect first W H)

/-- What a blit draws, unless it returns early. -/
def blitRect (blit : GrBlit) (W H : UInt32) : Option DrawnRect :=
  let (imageX, fbX, width) := clipBlitAxis blit.imageX blit.fbX blit.width W
  let (imageY, fbY, height) := clipBlitAxis blit.imageY blit.fbY blit.height H
  if imageX < 0 ∨ imageY < 0 ∨ width < 0 ∨ height < 0 then none
  else if fbX ≥ W.toInt32 ∨ fbY ≥ H.toInt32 then none
  else some ⟨fbX.toUInt32, fbY.toUInt32, width.toUInt32, height.toUInt32⟩

/-- The rectangles that a call draws in a known pixel format. -/
def drawnRects (W H : UInt32) : GraphicsCall → List DrawnRect
  | .swapBuffers => []
  | .clearScreen _ => [⟨0, 0, W, H⟩]
  | .clearScreenRegions regions _ => clearedRects regions W H
  | .blitImageToFramebuffer blit => (blitRect blit W H).toList

/-- Marks and clears a rectangle. -/
def clearRect (color : GrGraphicsColor) (d : CpuGrGraphicsDrvData) (r : DrawnRect) :
    CpuGrGraphicsDrvData :=
  let d := { d with
    swapBufferInfo :=
      cpuGrMarkScreenRegionForSwapping r.x r.y r.width r.height d.swapBufferInfo }
  match d.framebufferFormat with
  | .rgb8Reserved8 =>
      cpuGrClearScreenRegionRGB d r.x r.y r.width r.height color.r color.g color.b
  | .bgr8Reserved8 =>
      cpuGrClearScreenRegionBGR d r.x r.y r.width r.height color.r color.g color.b
  | .max => d

theorem clearScreenRegion_eq
    (first region : GrImageRegion) (color : GrGraphicsColor) (d : CpuGrGraphicsDrvData) :
    clearScreenRegion first color d region =
      (clearedRect first d.presentationWidth d.presentationHeight region).elim d
        (clearRect color d) := by
  unfold clearScreenRegion clearedRect
  cases clipRegionAxis region.x first.width d.presentationWidth with
  | none => rfl
  | some clipX =>
      cases clipRegionAxis region.y first.height d.presentationHeight with
      | none => rfl
      | some clipY => rfl

/-- Clearing a rectangle changes neither the size of the screen nor its format. -/
theorem clearRect_screen
    (color : GrGraphicsColor) (d : CpuGrGraphicsDrvData) (r : DrawnRect) :
    (clearRect color d r).presentationWidth = d.presentationWidth ∧
      (clearRect color d r).presentationHeight = d.presentationHeight ∧
      (clearRect color d r).swapBufferInfo =
        cpuGrMarkScreenRegionForSwapping r.x r.y r.width r.height d.swapBufferInfo := by
  unfold clearRect
  dsimp only
  split <;> exact ⟨rfl, rfl, rfl⟩

/-- The loop over the regions clears what is left of them, one after another. -/
theorem foldl_clearScreenRegion_eq
    (first : GrImageRegion) (color : GrGraphicsColor) (regions : List GrImageRegion) :
    ∀ d : CpuGrGraphicsDrvData,
      regions.foldl (clearScreenRegion first color) d =
        (regions.filterMap
          (clearedRect first d.presentationWidth d.presentationHeight)).foldl
            (clearRect color) d := by
  induction regions with
  | nil =>
      intro d
      rfl
  | cons region rest ih =>
      intro d
      rw [List.foldl_cons, ih, clearScreenRegion_eq]
      cases hrect : clearedRect first d.presentationWidth d.presentationHeight region with
      | none =>
          rw [List.filterMap_cons_none hrect]
          rfl
      | some r =>
          obtain ⟨hwidth, hheight, -⟩ := clearRect_screen color d r
          rw [List.filterMap_cons_some hrect, List.foldl_cons]
          simp only [Option.elim_some, hwidth, hheight]

theorem clearScreenRegions_eq
    (regions : List GrImageRegion) (color : GrGraphicsColor) (d : CpuGrGraphicsDrvData) :
    cpuGrGraphicsClearScreenRegions regions color d =
      (clearedRects regions d.presentationWidth d.presentationHeight).foldl
        (clearRect color) d := by
  cases regions with
  | nil => rfl
  | cons first rest => exact foldl_clearScreenRegion_eq first color (first :: rest) d

variable (blend : UInt8 → UInt8 → UInt8 → UInt8)

/-- A blit that does not return early marks its rectangle and copies to it. -/
theorem blit_eq
    (blit : GrBlit) (d : CpuGrGraphicsDrvData) :
    cpuGrGraphicsBlitImageToFramebuffer blend blit d =
      (blitRect blit d.presentationWidth d.presentationHeight).elim d fun r =>
        let d := { d with
          swapBufferInfo :=
            cpuGrMarkScreenRegionForSwapping r.x r.y r.width r.height d.swapBufferInfo }
        { d with
          renderFramebuffer :=
            blitToRender blend blit
              (clipBlitAxis blit.imageX blit.fbX blit.width d.presentationWidth).1
              (clipBlitAxis blit.imageY blit.fbY blit.height d.presentationHeight).1
              r.x.toInt32 r.y.toInt32 r.width.toInt32 r.height.toInt32 d } := by
  unfold cpuGrGraphicsBlitImageToFramebuffer blitRect
  dsimp only
  split
  · rfl
  · split <;> rfl

end Rectangles

section Writes

variable {d : CpuGrGraphicsDrvData}

/-- Clearing the whole screen is clearing the rectangle of the screen. -/
theorem clearScreenPixels_writesOnly
    (hd : d.Addressable) {bytes : List UInt8} (hbytes : bytes.length ≤ 4) :
    WritesOnly d d.visible d.renderFramebuffer (clearScreenPixels d bytes).renderFramebuffer := by
  have hbox : (wordBox 0 0 d.presentationWidth d.presentationHeight).Within
      d.presentationWidth.toNat d.presentationHeight.toNat :=
    ⟨Nat.le_of_eq (Nat.zero_add _), Nat.le_of_eq (Nat.zero_add _)⟩
  refine WritesOnly.mono ?_ (cells_subset_visible hbox)
  refine forEach_writesOnly (fun h hh w hw fb => ⟨bytes, hbytes, ?_⟩) _
  have hoffset := clearPixels_offset hd hbox hh hw
  rw [UInt32.zero_mul, UInt32.zero_mul] at hoffset
  exact congrArg (fun offset => writePixel offset bytes fb) hoffset

/-- Marking and clearing a rectangle on the screen. -/
theorem clearRect_writesOnly
    (hd : d.Addressable) (color : GrGraphicsColor) {r : DrawnRect}
    (hr : r.box.Within d.presentationWidth.toNat d.presentationHeight.toNat) :
    ∃ info fb, clearRect color d r = { d with swapBufferInfo := info, renderFramebuffer := fb } ∧
      WritesOnly d d.visible d.renderFramebuffer fb := by
  have hvisible := cells_subset_visible hr
  unfold clearRect
  dsimp only
  split
  · exact ⟨_, _, rfl, (clearRegionPixels_writesOnly hd hr (by simp)).mono hvisible⟩
  · exact ⟨_, _, rfl, (clearRegionPixels_writesOnly hd hr (by simp)).mono hvisible⟩
  · exact ⟨_, _, rfl, fun _ _ => rfl⟩

theorem clearRects_writesOnly
    (color : GrGraphicsColor) (rects : List DrawnRect) :
    ∀ d : CpuGrGraphicsDrvData, d.Addressable →
      (∀ r ∈ rects, r.box.Within d.presentationWidth.toNat d.presentationHeight.toNat) →
        WritesOnly d d.visible d.renderFramebuffer
          (rects.foldl (clearRect color) d).renderFramebuffer := by
  induction rects with
  | nil =>
      exact fun d _ _ _ _ => rfl
  | cons r rest ih =>
      intro d hd hrects
      rcases clearRect_writesOnly hd color (hrects r List.mem_cons_self) with
        ⟨info, fb, hclear, hkept⟩
      have hrest := ih { d with swapBufferInfo := info, renderFramebuffer := fb }
        ⟨hd.pixelBytes_eq, hd.width_le, hd.row_lt, hd.frame_lt, hd.frame_le⟩
        (fun r' hr' => hrects r' (List.mem_cons_of_mem r hr'))
      rw [List.foldl_cons, hclear]
      exact hkept.trans hrest

end Writes

section OnScreen

variable {W H : UInt32}

/-- No end that decides about a drawn rectangle wraps around. -/
def EndsFit (W H : UInt32) : GraphicsCall → Prop
  | .swapBuffers => True
  | .clearScreen _ => True
  | .clearScreenRegions regions _ =>
      ∀ first ∈ regions.head?, ∀ region ∈ regions,
        RegionReaches region.x first.width W → RegionReaches region.y first.height H →
          RegionSumFits region.x first.width ∧ RegionSumFits region.y first.height
  | .blitImageToFramebuffer blit =>
      BlitReaches blit.imageX blit.fbX blit.width W →
        BlitReaches blit.imageY blit.fbY blit.height H →
          BlitEndFits blit.fbX blit.width ∧ BlitEndFits blit.fbY blit.height

/-- A clipped axis of a region is on the screen exactly when its end does not wrap around. -/
theorem clipRegionAxis_within_iff
    {pos : Int32} {size presentation start size' : UInt32}
    (hclip : clipRegionAxis pos size presentation = some (start, size')) :
    start.toNat + size'.toNat ≤ presentation.toNat ↔ RegionSumFits pos size := by
  rcases clipRegionAxis_cases pos size presentation with
    ⟨-, hnone⟩ | ⟨hreach, start₁, size₁, hsome, hstart, hfits, hwrap⟩
  · rw [hnone] at hclip
    cases hclip
  · rw [hsome] at hclip
    cases hclip
    constructor
    · intro hwithin
      by_contra hnot
      have hsame := hwrap hnot
      have hpresentation := presentation.toNat_lt
      subst hsame
      apply hnot
      intro hpos
      omega
    · intro hsum
      have hend := hfits hsum
      omega

/-- So is a clipped axis of a blit. -/
theorem clipBlitAxis_within_iff
    {image fb size image' fb' size' : Int32} {presentation : UInt32}
    (hclip : clipBlitAxis image fb size presentation = (image', fb', size'))
    (hreach : BlitReaches image fb size presentation) :
    fb'.toUInt32.toNat + size'.toUInt32.toNat ≤ presentation.toNat ↔ BlitEndFits fb size := by
  have hpresentation := toInt_toInt32 presentation
  have hbound := presentation.toNat_lt
  have hzero : (0 : Int32).toInt = 0 := rfl
  rcases clipBlitAxis_cases hclip with
    ⟨hnot, -⟩ | ⟨-, -, hsize, hfb, hmax, -, hfits, hwrap⟩
  · exact absurd hreach hnot
  · rw [Int32.not_lt, Int32.le_iff_toInt_le] at hsize
    rw [ge_iff_le, Int32.not_le, Int32.lt_iff_toInt_lt] at hfb
    have hstart := toNat_toUInt32_of_nonneg (a := fb') (by omega)
    have hwidth := toNat_toUInt32_of_nonneg (a := size') hsize
    have hknown : presentation.toInt32.toInt = presentation.toNat := by
      split at hpresentation <;> omega
    constructor
    · intro hwithin hnonneg
      by_contra hnot
      have hsame := hwrap fun h => hnot (h hnonneg)
      subst hsame
      omega
    · intro hend
      have hsum := hfits hend
      omega

theorem clipped_nonneg
    {image fb size image' fb' size' : Int32} {presentation : UInt32}
    (hclip : clipBlitAxis image fb size presentation = (image', fb', size'))
    (hreach : BlitReaches image fb size presentation) :
    0 ≤ fb'.toInt ∧ 0 ≤ size'.toInt := by
  rcases clipBlitAxis_cases hclip with ⟨hnot, -⟩ | ⟨-, -, hsize, -, hmax, -⟩
  · exact absurd hreach hnot
  · rw [Int32.not_lt, Int32.le_iff_toInt_le] at hsize
    rw [hmax]
    exact ⟨le_max_right _ _, hsize⟩

/-- A blit draws a rectangle exactly if both axes reach the screen. -/
theorem blitRect_cases
    (blit : GrBlit) (W H : UInt32) :
    (blitRect blit W H = none ∧ ¬ (BlitReaches blit.imageX blit.fbX blit.width W ∧
      BlitReaches blit.imageY blit.fbY blit.height H)) ∨
      BlitReaches blit.imageX blit.fbX blit.width W ∧
        BlitReaches blit.imageY blit.fbY blit.height H ∧
        ∃ imageX fbX width imageY fbY height,
          clipBlitAxis blit.imageX blit.fbX blit.width W = (imageX, fbX, width) ∧
          clipBlitAxis blit.imageY blit.fbY blit.height H = (imageY, fbY, height) ∧
          blitRect blit W H =
            some ⟨fbX.toUInt32, fbY.toUInt32, width.toUInt32, height.toUInt32⟩ := by
  rcases hclipX : clipBlitAxis blit.imageX blit.fbX blit.width W with ⟨imageX, fbX, width⟩
  rcases hclipY : clipBlitAxis blit.imageY blit.fbY blit.height H with ⟨imageY, fbY, height⟩
  unfold blitRect
  rw [hclipX, hclipY]
  dsimp only
  rcases clipBlitAxis_cases hclipX with
    ⟨hnotX, hearly⟩ | ⟨hreachX, himageX, hwidth, hfbX, -⟩
  · refine .inl ⟨?_, fun h => hnotX h.1⟩
    rcases hearly with h | h | h <;> simp [h]
  rcases clipBlitAxis_cases hclipY with
    ⟨hnotY, hearly⟩ | ⟨hreachY, himageY, hheight, hfbY, -⟩
  · refine .inl ⟨?_, fun h => hnotY h.2⟩
    rcases hearly with h | h | h <;> simp [h]
  · refine .inr ⟨hreachX, hreachY, _, _, _, _, _, _, rfl, rfl, ?_⟩
    rw [if_neg (by tauto), if_neg (by tauto)]

/-- A cleared rectangle lies on the screen exactly when its ends do not wrap around. -/
theorem within_clearedRect_iff
    (first region : GrImageRegion) (W H : UInt32) :
    (∀ r ∈ clearedRect first W H region, r.box.Within W.toNat H.toNat) ↔
      (RegionReaches region.x first.width W → RegionReaches region.y first.height H →
        RegionSumFits region.x first.width ∧ RegionSumFits region.y first.height) := by
  unfold clearedRect
  rcases clipRegionAxis_cases region.x first.width W with
    ⟨hnotX, hnone⟩ | ⟨hreachX, x, width, hclipX, -⟩
  · simp [hnone, hnotX]
  rcases clipRegionAxis_cases region.y first.height H with
    ⟨hnotY, hnone⟩ | ⟨hreachY, y, height, hclipY, -⟩
  · simp [hnone, hclipX, hnotY]
  · rw [← clipRegionAxis_within_iff hclipX, ← clipRegionAxis_within_iff hclipY, hclipX, hclipY]
    simp [hreachX, hreachY, DrawnRect.box, wordBox, Box.Within]

/-- The drawn rectangles lie on the screen exactly when no end wraps around. -/
theorem within_rects_iff
    (W H : UInt32) (call : GraphicsCall) :
    (∀ r ∈ drawnRects W H call, r.box.Within W.toNat H.toNat) ↔ EndsFit W H call := by
  cases call with
  | swapBuffers =>
      simp [drawnRects, EndsFit]
  | clearScreen color =>
      simp [drawnRects, EndsFit, DrawnRect.box, wordBox, Box.Within]
  | clearScreenRegions regions color =>
      cases regions with
      | nil =>
          simp [drawnRects, clearedRects, EndsFit]
      | cons first rest =>
          simp only [drawnRects, clearedRects, EndsFit, List.head?_cons, Option.mem_some_iff,
            forall_eq', List.mem_filterMap, ← within_clearedRect_iff first]
          constructor
          · intro hall region hregion r hr
            exact hall r ⟨region, hregion, hr⟩
          · rintro hall r ⟨region, hregion, hr⟩
            exact hall region hregion r hr
  | blitImageToFramebuffer blit =>
      rcases blitRect_cases blit W H with
        ⟨hnone, hnot⟩ | ⟨hreachX, hreachY, imageX, fbX, width, imageY, fbY, height, hclipX, hclipY,
          hsome⟩
      · simp only [drawnRects, hnone, EndsFit]
        simp
        tauto
      · simp only [drawnRects, hsome, EndsFit, hreachX, hreachY, true_imp_iff]
        rw [← clipBlitAxis_within_iff hclipX hreachX, ← clipBlitAxis_within_iff hclipY hreachY]
        simp [DrawnRect.box, wordBox, Box.Within]

/-- The recorded region, if there is one, lies on the screen. -/
def RegionWithin (d : CpuGrGraphicsDrvData) : Prop :=
  d.swapBufferInfo.swapOp = .region →
    d.swapBufferInfo.box.Within d.presentationWidth.toNat d.presentationHeight.toNat

theorem RegionWithin.clearRects
    (color : GrGraphicsColor) (rects : List DrawnRect) :
    ∀ d : CpuGrGraphicsDrvData,
      (∀ r ∈ rects, r.box.Within d.presentationWidth.toNat d.presentationHeight.toNat) →
        RegionWithin d → RegionWithin (rects.foldl (clearRect color) d) := by
  induction rects with
  | nil =>
      intro d _ hd
      exact hd
  | cons r rest ih =>
      intro d hrects hd
      obtain ⟨hwidth, hheight, hinfo⟩ := clearRect_screen color d r
      refine ih _ (fun r' hr' => ?_) ?_
      · rw [hwidth, hheight]
        exact hrects r' (List.mem_cons_of_mem r hr')
      · intro hop
        rw [hinfo] at hop ⊢
        rw [hwidth, hheight]
        exact within_mark hd (hrects r List.mem_cons_self) hop

variable (blend : UInt8 → UInt8 → UInt8 → UInt8)

/-- Each call that draws on the screen only keeps the recorded region there. -/
theorem RegionWithin.run
    {call : GraphicsCall} {d : CpuGrGraphicsDrvData}
    (hrects : ∀ r ∈ drawnRects d.presentationWidth d.presentationHeight call,
      r.box.Within d.presentationWidth.toNat d.presentationHeight.toNat)
    (hd : RegionWithin d) :
    RegionWithin (runGraphicsCall blend call d) := by
  cases call with
  | swapBuffers =>
      intro hop
      cases hop
  | clearScreen color =>
      intro hop
      have hfull : (cpuGrGraphicsClearScreen color d).swapBufferInfo.swapOp = .full := by
        unfold cpuGrGraphicsClearScreen
        dsimp only
        split <;> rfl
      rw [runGraphicsCall, hfull] at hop
      cases hop
  | clearScreenRegions regions color =>
      rw [runGraphicsCall, clearScreenRegions_eq]
      exact RegionWithin.clearRects color _ d hrects hd
  | blitImageToFramebuffer blit =>
      rw [runGraphicsCall, blit_eq]
      cases hrect : blitRect blit d.presentationWidth d.presentationHeight with
      | none =>
          exact hd
      | some r =>
          exact within_mark hd (hrects r (by simp [drawnRects, hrect]))

/-- A call that draws rectangles on the screen writes to visible pixels only. -/
theorem runGraphicsCall_writesOnly
    {call : GraphicsCall} {d : CpuGrGraphicsDrvData} (hd : d.Addressable)
    (hrects : ∀ r ∈ drawnRects d.presentationWidth d.presentationHeight call,
      r.box.Within d.presentationWidth.toNat d.presentationHeight.toNat) :
    WritesOnly d d.visible d.renderFramebuffer
      (runGraphicsCall blend call d).renderFramebuffer := by
  cases call with
  | swapBuffers =>
      rw [runGraphicsCall, cpuGrSwapBuffers]
      split <;> exact fun _ _ => rfl
  | clearScreen color =>
      rw [runGraphicsCall, cpuGrGraphicsClearScreen]
      dsimp only
      split
      · exact clearScreenPixels_writesOnly hd (Nat.le_refl 4)
      · exact clearScreenPixels_writesOnly hd (Nat.le_refl 4)
      · exact fun _ _ => rfl
  | clearScreenRegions regions color =>
      rw [runGraphicsCall, clearScreenRegions_eq]
      exact clearRects_writesOnly color _ d hd hrects
  | blitImageToFramebuffer blit =>
      rw [runGraphicsCall, blit_eq]
      rcases blitRect_cases blit d.presentationWidth d.presentationHeight with
        ⟨hnone, -⟩ | ⟨hreachX, hreachY, imageX, fbX, width, imageY, fbY, height, hclipX, hclipY,
          hsome⟩
      · rw [hnone]
        exact fun _ _ => rfl
      · have hbox := hrects _ (by rw [drawnRects, hsome]; exact List.mem_singleton_self _)
        rw [hsome, Option.elim_some]
        rcases clipped_nonneg hclipX hreachX with ⟨hx, hwidth⟩
        rcases clipped_nonneg hclipY hreachY with ⟨hy, hheight⟩
        refine WritesOnly.mono ?_ (cells_subset_visible hbox)
        exact blitToRender_writesOnly blend (d := { d with swapBufferInfo := _ }) hd blit hx hy
          hwidth hheight hbox

/-- The pixels that the call writes, the rectangles that it hands over for swapping and the
region that is recorded in the end lie on the screen; in a frame whose bytes have offsets of
32 bits no byte off the screen is written. -/
structure StaysOnScreen (call : GraphicsCall) (d : CpuGrGraphicsDrvData) : Prop where
  pixels : ∀ r ∈ drawnRects d.presentationWidth d.presentationHeight call,
    ∀ w < r.width.toNat, ∀ h < r.height.toNat,
      r.x.toNat + w < d.presentationWidth.toNat ∧ r.y.toNat + h < d.presentationHeight.toNat
  marked : ∀ r ∈ drawnRects d.presentationWidth d.presentationHeight call,
    r.box.Within d.presentationWidth.toNat d.presentationHeight.toNat
  recorded : RegionWithin d → RegionWithin (runGraphicsCall blend call d)
  kept : d.Addressable →
    WritesOnly d d.visible d.renderFramebuffer (runGraphicsCall blend call d).renderFramebuffer

/-- A call stays on the screen exactly when no end wraps around. -/
theorem runGraphicsCall_onScreen_iff
    (call : GraphicsCall) (d : CpuGrGraphicsDrvData) :
    StaysOnScreen blend call d ↔
      EndsFit d.presentationWidth d.presentationHeight call := by
  rw [← within_rects_iff]
  constructor
  · intro h
    exact h.marked
  · intro hrects
    refine ⟨fun r hr w hw h hh => ?_, hrects, RegionWithin.run blend hrects,
      fun hd => runGraphicsCall_writesOnly blend hd hrects⟩
    obtain ⟨hwidth, hheight⟩ := hrects r hr
    exact ⟨Nat.lt_of_lt_of_le (Nat.add_lt_add_left hw _) hwidth,
      Nat.lt_of_lt_of_le (Nat.add_lt_add_left hh _) hheight⟩

/-- Regions and blits whose ends wrap around leave a screen of two by two pixels. -/
theorem smallFrame_not_onScreen :
    smallFrame.presentationWidth.toNat < 65536 ∧ smallFrame.presentationHeight.toNat < 65536 ∧
      smallFrame.presentationWidth ≤ smallFrame.presentationPixelStride ∧
      RegionWithin smallFrame ∧
      ¬ StaysOnScreen (fun source _ _ => source)
        (.clearScreenRegions [⟨1, 0, 4294967295, 1⟩] ⟨1, 2, 3⟩) smallFrame ∧
      ¬ StaysOnScreen (fun source _ _ => source)
        (.blitImageToFramebuffer
          { image := fun _ => 0, imageFormat := .rgb8, imageX := 0, imageY := 0,
            imageRowStride := 6, fbX := 1, fbY := 0, width := 2147483647, height := 1 })
        smallFrame := by
  refine ⟨by decide, by decide, by decide, nofun, fun h => ?_, fun h => ?_⟩
  · have hpixel := h.pixels ⟨1, 0, 4294967295, 1⟩ (by decide) 1 (by decide) 0 (by decide)
    exact absurd hpixel (by decide)
  · have hpixel := h.pixels ⟨1, 0, 2147483647, 1⟩ (by decide) 1 (by decide) 0 (by decide)
    exact absurd hpixel (by decide)

end OnScreen

end Graphics
end DexprOS
