import DexprOS.Drivers.Graphics.CpuGraphicsClipping
import DexprOS.Drivers.Graphics.CpuGraphicsPainting
import Mathlib.Data.Fin.VecNotation

/-!
# Clearing a list of regions

Which visible pixels `CpuGrGraphicsClearScreenRegions` clears.  Each region is cleared with
the size of the first one, so the call does what its caller asks for only where the sizes
make no difference.

Main facts:
* `mem_clipRegionAxis`: clipping keeps what is on the screen;
* `clearScreenRegion_fills`: one pass clears the visible pixels of one region;
* `clearScreenRegions_fills`: the call clears the regions with the first one's size;
* `clearScreenRegions_clears_iff`: when these are the regions that the caller passes.
-/

namespace DexprOS
namespace Graphics

open Damage Painting Word32

section Regions

/-- The pixels of a region, on the screen or off it. -/
def regionCells (x y : Int32) (width height : UInt32) : Set (Nat × Nat) :=
  {p | (x.toInt ≤ p.1 ∧ (p.1 : Int) < x.toInt + width.toNat) ∧
    (y.toInt ≤ p.2 ∧ (p.2 : Int) < y.toInt + height.toNat)}

def GrImageRegion.cells (region : GrImageRegion) : Set (Nat × Nat) :=
  regionCells region.x region.y region.width region.height

/-- Sizes below `2 ^ 31` and positions above `- 2 ^ 31`. -/
structure GrImageRegion.Moderate (region : GrImageRegion) : Prop where
  x_gt : -2147483648 < region.x.toInt
  y_gt : -2147483648 < region.y.toInt
  width_lt : region.width.toNat < 2147483648
  height_lt : region.height.toNat < 2147483648

/-- Some of the regions has the pixel. -/
def InSomeRegion (regions : List GrImageRegion) (p : Nat × Nat) : Prop :=
  ∃ region ∈ regions, p ∈ region.cells

/-- Some of the regions would have the pixel, if they all had the size of the first one. -/
def InSomeRegionOfFirstSize (regions : List GrImageRegion) (p : Nat × Nat) : Prop :=
  ∃ first ∈ regions.head?, ∃ region ∈ regions,
    p ∈ regionCells region.x region.y first.width first.height

end Regions

section Clipping

variable {d : CpuGrGraphicsDrvData}

/-- Clipping one axis keeps the coordinates that are on the screen. -/
theorem mem_clipRegionAxis
    {pos : Int32} {size presentation : UInt32}
    (hpos : -2147483648 < pos.toInt) (hsize : size.toNat < 2147483648)
    {x : Nat} (hx : x < presentation.toNat) :
    (pos.toInt ≤ x ∧ (x : Int) < pos.toInt + size.toNat) ↔
      ∃ start size', clipRegionAxis pos size presentation = some (start, size') ∧
        start.toNat ≤ x ∧ x < start.toNat + size'.toNat := by
  rcases clipRegionAxis_cases pos size presentation with
    ⟨hreach, hnone⟩ | ⟨hreach, start, size', hsome, hstart, hfits, -⟩
  · unfold RegionReaches at hreach
    simp only [hnone, reduceCtorEq, false_and, exists_false, iff_false]
    omega
  · have hend := hfits fun hnonneg => by
      have := pos.toInt_lt
      omega
    simp only [hsome, Option.some.injEq, Prod.mk.injEq]
    constructor
    · intro h
      exact ⟨start, size', ⟨rfl, rfl⟩, by omega⟩
    · rintro ⟨_, _, ⟨rfl, rfl⟩, h⟩
      omega

/-- The visible pixels of a region are those of the rectangle that is left of it. -/
theorem mem_clearedRect_iff
    {first region : GrImageRegion} (hfirst : first.Moderate) (hregion : region.Moderate)
    {p : Nat × Nat} (hp : p ∈ d.visible) :
    p ∈ regionCells region.x region.y first.width first.height ↔
      ∃ r, clearedRect first d.presentationWidth d.presentationHeight region = some r ∧
        p ∈ r.box.cells := by
  have hx := mem_clipRegionAxis hregion.x_gt hfirst.width_lt hp.1
  have hy := mem_clipRegionAxis hregion.y_gt hfirst.height_lt hp.2
  rw [regionCells, Set.mem_ofPred_eq, hx, hy]
  unfold clearedRect
  constructor
  · rintro ⟨⟨x, width, hclipX, hx⟩, ⟨y, height, hclipY, hy⟩⟩
    exact ⟨⟨x, y, width, height⟩, by rw [hclipX, hclipY], hx.1, hx.2, hy⟩
  · rintro ⟨r, hr, hcells⟩
    cases hclipX : clipRegionAxis region.x first.width d.presentationWidth with
    | none =>
        rw [hclipX] at hr
        cases hr
    | some clipX =>
        cases hclipY : clipRegionAxis region.y first.height d.presentationHeight with
        | none =>
            rw [hclipX, hclipY] at hr
            cases hr
        | some clipY =>
            rw [hclipX, hclipY] at hr
            cases hr
            exact ⟨⟨_, _, rfl, hcells.1, hcells.2.1⟩, _, _, rfl, hcells.2.2⟩

/-- Sizes and positions like these do not wrap around. -/
theorem clearedRect_within
    {first region : GrImageRegion} (hfirst : first.Moderate) (W H : UInt32) {r : DrawnRect}
    (hr : clearedRect first W H region = some r) :
    r.box.Within W.toNat H.toNat := by
  refine (within_clearedRect_iff first region W H).mpr (fun _ _ => ⟨fun _ => ?_, fun _ => ?_⟩) r hr
  · have := region.x.toInt_lt
    have := hfirst.width_lt
    omega
  · have := region.y.toInt_lt
    have := hfirst.height_lt
    omega

end Clipping

section Filling

variable {d : CpuGrGraphicsDrvData}

/-- The bytes that clearing writes to a pixel. -/
def clearedBytes (format : CpuGrFramebufferFormat) (color : GrGraphicsColor) : List UInt8 :=
  match format with
  | .rgb8Reserved8 => [color.r, color.g, color.b, 0]
  | .bgr8Reserved8 => [color.b, color.g, color.r, 0]
  | .max => []

/-- A pixel of these bytes. -/
def pixelOf (bytes : List UInt8) : Fin 4 → UInt8 :=
  fun k => bytes[k.val]?.getD 0

/-- What the visible pixels of a framebuffer are. -/
def CpuGrGraphicsDrvData.shows (d : CpuGrGraphicsDrvData) (fb : Framebuffer)
    (p : d.visible) : Fin 4 → UInt8 :=
  d.pixel fb p.val

/-- Writing a whole pixel. -/
theorem writePixel_fills_pixel
    (hd : d.Addressable) {bytes : List UInt8} (hbytes : bytes.length = 4)
    {q : Nat × Nat} (hq : q.1 < d.presentationPixelStride.toNat) :
    Fills (fun _ => True) d.shows {p | p.val = q} (pixelOf bytes)
      (writePixel (d.pixelOffset q : Nat) bytes) where
  inv := fun _ _ => trivial
  keeps := fun fb _ p hp =>
    pixel_writePixel_of_ne hd (Nat.lt_of_lt_of_le p.property.1 hd.width_le) hq hp
      (Nat.le_of_eq hbytes) fb
  fills := by
    rintro fb - p rfl
    funext k
    have hk := k.isLt
    unfold CpuGrGraphicsDrvData.shows CpuGrGraphicsDrvData.pixel writePixel pixelOf
    rw [if_pos (by omega)]
    have hindex : (((d.pixelOffset p.val + k.val : Nat) : Int) - d.pixelOffset p.val).toNat =
        k.val := by
      omega
    rw [hindex, List.getElem?_eq_getElem (by omega)]
    rfl

/-- The loops over a rectangle on the screen. -/
theorem clearPixels_fills_box
    (hd : d.Addressable) {x y width height : UInt32}
    (hbox : (wordBox x y width height).Within d.presentationWidth.toNat
      d.presentationHeight.toNat)
    {bytes : List UInt8} (hbytes : bytes.length = 4) :
    Fills (fun _ => True) d.shows {p | p.val ∈ (wordBox x y width height).cells}
      (pixelOf bytes)
      (clearPixels
        ((y * (d.presentationPixelStride * d.presentationPixelBytes)).toNat +
          (x * d.presentationPixelBytes).toNat : Nat)
        (d.presentationPixelStride * d.presentationPixelBytes) d.presentationPixelBytes width
        height bytes) := by
  have hloops : Fills (fun _ => True) d.shows
      (rasterPlaces width.toNat height.toNat
        fun h w => {p : d.visible | p.val = (x.toNat + w, y.toNat + h)}) (pixelOf bytes)
      (clearPixels
        ((y * (d.presentationPixelStride * d.presentationPixelBytes)).toNat +
          (x * d.presentationPixelBytes).toNat : Nat)
        (d.presentationPixelStride * d.presentationPixelBytes) d.presentationPixelBytes width
        height bytes) := by
    refine Fills.forEach fun h hh w hw => ?_
    rw [clearPixels_offset hd hbox hh hw]
    exact writePixel_fills_pixel hd hbytes
      (Nat.lt_of_lt_of_le (Nat.add_lt_add_left hw _) (Nat.le_trans hbox.1 hd.width_le))
  refine hloops.congr ?_
  ext p
  simp only [rasterPlaces, Box.cells, wordBox, Set.mem_ofPred_eq, Prod.ext_iff]
  constructor
  · rintro ⟨h, hh, w, hw, hx, hy⟩
    omega
  · rintro ⟨hx, hx', hy, hy'⟩
    exact ⟨p.val.2 - y.toNat, by omega, p.val.1 - x.toNat, by omega, by omega, by omega⟩

theorem clearRect_frame
    (color : GrGraphicsColor) (d : CpuGrGraphicsDrvData) (r : DrawnRect) :
    (clearRect color d r).frame = d.frame := by
  unfold clearRect
  dsimp only
  split <;> rfl

/-- One rectangle of the call, in a known pixel format. -/
theorem clearRect_fills
    (hd : d.Addressable) (hformat : d.framebufferFormat ≠ .max) (color : GrGraphicsColor)
    {r : DrawnRect}
    (hr : r.box.Within d.presentationWidth.toNat d.presentationHeight.toNat) :
    Fills (fun d' => d'.frame = d.frame) (fun d' => d.shows d'.renderFramebuffer)
      {p | p.val ∈ r.box.cells} (pixelOf (clearedBytes d.framebufferFormat color))
      (fun d' => clearRect color d' r) := by
  have hbytes : (clearedBytes d.framebufferFormat color).length = 4 := by
    unfold clearedBytes
    cases hknown : d.framebufferFormat with
    | rgb8Reserved8 => rfl
    | bgr8Reserved8 => rfl
    | max => exact absurd hknown hformat
  refine (clearPixels_fills_box hd hr hbytes).comap (fun _ _ => trivial) (fun d' hd' => ?_)
    fun d' hd' => ?_
  · rw [clearRect_frame, hd']
  · obtain ⟨-, -, hpixelBytes, hstride, hknown⟩ := frame_eq_iff.mp hd'
    simp only [CpuGrGraphicsDrvData.frame] at hpixelBytes hstride hknown
    rw [← hpixelBytes, ← hstride, ← hknown]
    rw [← hknown] at hformat
    unfold clearRect
    cases hcase : d'.framebufferFormat with
    | rgb8Reserved8 =>
        dsimp only
        rfl
    | bgr8Reserved8 =>
        dsimp only
        rfl
    | max => exact absurd hcase hformat

end Filling

section Calls

variable {d : CpuGrGraphicsDrvData}

/-- Rectangles one after another. -/
theorem clearRects_fills
    (hd : d.Addressable) (hformat : d.framebufferFormat ≠ .max) (color : GrGraphicsColor)
    {rects : List DrawnRect}
    (hrects : ∀ r ∈ rects, r.box.Within d.presentationWidth.toNat d.presentationHeight.toNat) :
    Fills (fun d' => d'.frame = d.frame) (fun d' => d.shows d'.renderFramebuffer)
      {p | ∃ r ∈ rects, p.val ∈ r.box.cells} (pixelOf (clearedBytes d.framebufferFormat color))
      (fun d' => rects.foldl (clearRect color) d') :=
  Fills.foldl fun r hr => clearRect_fills hd hformat color (hrects r hr)

/-- The pixels that the call clears are those of the regions with the first one's size. -/
theorem clearScreenRegions_fills
    (hd : d.Addressable) (hformat : d.framebufferFormat ≠ .max)
    (regions : List GrImageRegion) (hregions : ∀ region ∈ regions, region.Moderate)
    (color : GrGraphicsColor) :
    Fills (fun d' => d'.frame = d.frame) (fun d' => d.shows d'.renderFramebuffer)
      {p | InSomeRegionOfFirstSize regions p.val}
      (pixelOf (clearedBytes d.framebufferFormat color))
      (cpuGrGraphicsClearScreenRegions regions color) := by
  cases regions with
  | nil =>
      refine fills_id.congr ?_
      ext p
      simp [InSomeRegionOfFirstSize]
  | cons first rest =>
      have hfirst := hregions first List.mem_cons_self
      have hwithin : ∀ r ∈ clearedRects (first :: rest) d.presentationWidth d.presentationHeight,
          r.box.Within d.presentationWidth.toNat d.presentationHeight.toNat := by
        intro r hr
        rcases List.mem_filterMap.mp hr with ⟨region, -, hrect⟩
        exact clearedRect_within hfirst _ _ hrect
      have hplaces : {p : d.visible | ∃ r ∈ clearedRects (first :: rest) d.presentationWidth
            d.presentationHeight, p.val ∈ r.box.cells} =
          {p | InSomeRegionOfFirstSize (first :: rest) p.val} := by
        ext p
        simp only [Set.mem_ofPred_eq, InSomeRegionOfFirstSize, List.head?_cons,
          Option.mem_some_iff, exists_eq_left', clearedRects, List.mem_filterMap]
        constructor
        · rintro ⟨r, ⟨region, hregion, hrect⟩, hcells⟩
          exact ⟨region, hregion, (mem_clearedRect_iff hfirst (hregions region hregion)
            p.property).mpr ⟨r, hrect, hcells⟩⟩
        · rintro ⟨region, hregion, hcells⟩
          rcases (mem_clearedRect_iff hfirst (hregions region hregion) p.property).mp hcells with
            ⟨r, hrect, hr⟩
          exact ⟨r, ⟨region, hregion, hrect⟩, hr⟩
      have hfills := clearRects_fills hd hformat color hwithin
      have hrun (d' : CpuGrGraphicsDrvData) (hd' : d'.frame = d.frame) :
          cpuGrGraphicsClearScreenRegions (first :: rest) color d' =
            (clearedRects (first :: rest) d.presentationWidth d.presentationHeight).foldl
              (clearRect color) d' := by
        obtain ⟨hwidth, hheight, -⟩ := frame_eq_iff.mp hd'
        rw [clearScreenRegions_eq, hwidth, hheight]
        rfl
      rw [hplaces] at hfills
      exact hfills.of_eq hrun

end Calls

section Result

variable (regions : List GrImageRegion) (color : GrGraphicsColor) (d : CpuGrGraphicsDrvData)

/-- The visible pixels of the regions get the colour and no other visible pixel changes. -/
structure ClearsEachRegion (d' : CpuGrGraphicsDrvData) : Prop where
  cleared : ∀ p ∈ d.visible, InSomeRegion regions p → d'.color p = color
  kept : ∀ p ∈ d.visible, ¬ InSomeRegion regions p →
    d.pixel d'.renderFramebuffer p = d.pixel d.renderFramebuffer p

/-- Visible pixels that only the regions with their own sizes have show the colour before the
call, and those that only the regions with the first one's size have are cleared already. -/
structure SizesMakeNoDifference : Prop where
  missed : ∀ p ∈ d.visible, InSomeRegion regions p → ¬ InSomeRegionOfFirstSize regions p →
    d.color p = color
  extra : ∀ p ∈ d.visible, InSomeRegionOfFirstSize regions p → ¬ InSomeRegion regions p →
    d.pixel d.renderFramebuffer p = pixelOf (clearedBytes d.framebufferFormat color)

variable {regions color d}

theorem pixelColor_clearedBytes
    {format : CpuGrFramebufferFormat} (hformat : format ≠ .max) (color : GrGraphicsColor) :
    (pixelColor format fun i =>
      if hi : i < 4 then pixelOf (clearedBytes format color) ⟨i, hi⟩ else 0) = color := by
  cases format with
  | rgb8Reserved8 => rfl
  | bgr8Reserved8 => rfl
  | max => exact absurd rfl hformat

/-- Pixels of the same bytes have the same colour, in frames that are the same. -/
theorem color_of_frame
    {d' : CpuGrGraphicsDrvData} (hframe : d'.frame = d.frame) (p : Nat × Nat) :
    d'.color p = pixelColor d.framebufferFormat fun i =>
      if hi : i < 4 then d.pixel d'.renderFramebuffer p ⟨i, hi⟩ else 0 := by
  obtain ⟨-, -, hpixelBytes, hstride, hformat⟩ := frame_eq_iff.mp hframe
  simp only [CpuGrGraphicsDrvData.frame] at hpixelBytes hstride hformat
  unfold CpuGrGraphicsDrvData.color
  rw [hformat]
  refine pixelColor_congr.mpr fun i hi => ?_
  rw [dif_pos (by omega)]
  unfold CpuGrGraphicsDrvData.pixel CpuGrGraphicsDrvData.pixelOffset
  rw [hpixelBytes, hstride]

/-- A call that fills exactly the pixels of the regions clears each of them. -/
theorem clearsEachRegion_of_fills
    {f : CpuGrGraphicsDrvData → CpuGrGraphicsDrvData} (hformat : d.framebufferFormat ≠ .max)
    (hf : Fills (fun d' => d'.frame = d.frame) (fun d' => d.shows d'.renderFramebuffer)
      {p | InSomeRegion regions p.val} (pixelOf (clearedBytes d.framebufferFormat color)) f) :
    ClearsEachRegion regions color d (f d) where
  cleared := by
    intro p hp hin
    have hpixel := hf.fills d rfl ⟨p, hp⟩ hin
    rw [color_of_frame (hf.inv d rfl)]
    unfold CpuGrGraphicsDrvData.shows at hpixel
    rw [hpixel, pixelColor_clearedBytes hformat]
  kept := fun p hp hnot => hf.keeps d rfl ⟨p, hp⟩ hnot

/-- Clearing the regions one by one clears each of them. -/
theorem clearRegions_singly
    (hd : d.Addressable) (hformat : d.framebufferFormat ≠ .max)
    (hregions : ∀ region ∈ regions, region.Moderate) :
    ClearsEachRegion regions color d
      (regions.foldl (fun d region => cpuGrGraphicsClearScreenRegions [region] color d) d) := by
  refine clearsEachRegion_of_fills hformat ((Fills.foldl fun region hregion =>
    clearScreenRegions_fills hd hformat [region] ?_ color).congr ?_)
  · intro region' hregion'
    rw [List.mem_singleton.mp hregion']
    exact hregions region hregion
  · ext p
    simp [InSomeRegion, InSomeRegionOfFirstSize, GrImageRegion.cells]

/-- The call clears each of the regions exactly if the size of the first one makes no
difference. -/
theorem clearScreenRegions_clears_iff
    (regions : List GrImageRegion) (color : GrGraphicsColor) (d : CpuGrGraphicsDrvData)
    (hd : d.Addressable) (hformat : d.framebufferFormat ≠ .max)
    (hregions : ∀ region ∈ regions, region.Moderate) :
    ClearsEachRegion regions color d (cpuGrGraphicsClearScreenRegions regions color d) ↔
      SizesMakeNoDifference regions color d := by
  have hfills := clearScreenRegions_fills hd hformat regions hregions color
  have hcolor := color_of_frame (hfills.inv d rfl)
  have hkept (p : Nat × Nat) (hp : p ∈ d.visible)
      (hnot : ¬ InSomeRegionOfFirstSize regions p) :
      d.pixel (cpuGrGraphicsClearScreenRegions regions color d).renderFramebuffer p =
        d.pixel d.renderFramebuffer p :=
    hfills.keeps d rfl ⟨p, hp⟩ hnot
  have hfilled (p : Nat × Nat) (hp : p ∈ d.visible) (hin : InSomeRegionOfFirstSize regions p) :
      d.pixel (cpuGrGraphicsClearScreenRegions regions color d).renderFramebuffer p =
        pixelOf (clearedBytes d.framebufferFormat color) :=
    hfills.fills d rfl ⟨p, hp⟩ hin
  constructor
  · intro h
    constructor
    · intro p hp hin hnot
      rw [← h.cleared p hp hin, hcolor, hkept p hp hnot, color_of_frame rfl]
    · intro p hp hin hnot
      rw [← hfilled p hp hin, h.kept p hp hnot]
  · intro h
    constructor
    · intro p hp hin
      rw [hcolor]
      by_cases hfirst : InSomeRegionOfFirstSize regions p
      · rw [hfilled p hp hfirst, pixelColor_clearedBytes hformat]
      · rw [hkept p hp hfirst, ← color_of_frame rfl]
        exact h.missed p hp hin hfirst
    · intro p hp hnot
      by_cases hfirst : InSomeRegionOfFirstSize regions p
      · rw [hfilled p hp hfirst, h.extra p hp hfirst hnot]
      · exact hkept p hp hfirst

/-- So it does if all regions have the same size. -/
theorem sizesMakeNoDifference_of_same
    (hsame : ∀ first ∈ regions.head?, ∀ region ∈ regions,
      region.width = first.width ∧ region.height = first.height) :
    SizesMakeNoDifference regions color d := by
  have hregions (p : Nat × Nat) :
      InSomeRegion regions p ↔ InSomeRegionOfFirstSize regions p := by
    unfold InSomeRegion InSomeRegionOfFirstSize GrImageRegion.cells
    cases regions with
    | nil =>
        simp
    | cons first rest =>
        have hsizes := hsame first rfl
        constructor
        · rintro ⟨region, hregion, hcells⟩
          obtain ⟨hwidth, hheight⟩ := hsizes region hregion
          exact ⟨first, rfl, region, hregion, by rwa [← hwidth, ← hheight]⟩
        · rintro ⟨first', hfirst, region, hregion, hcells⟩
          cases Option.some.inj hfirst
          obtain ⟨hwidth, hheight⟩ := hsizes region hregion
          exact ⟨region, hregion, by rwa [hwidth, hheight]⟩
  exact ⟨fun p _ hin hnot => absurd ((hregions p).mp hin) hnot,
    fun p _ hin hnot => absurd ((hregions p).mpr hin) hnot⟩

/-- Two regions of one size, one of them partly off the screen. -/
theorem clearScreenRegions_clears_smallFrame :
    ClearsEachRegion [⟨-1, 0, 2, 1⟩, ⟨1, 1, 2, 1⟩] ⟨1, 2, 3⟩ smallFrame
      (cpuGrGraphicsClearScreenRegions [⟨-1, 0, 2, 1⟩, ⟨1, 1, 2, 1⟩] ⟨1, 2, 3⟩ smallFrame) := by
  refine (clearScreenRegions_clears_iff _ _ _ smallFrame_addressable nofun ?_).mpr
    (sizesMakeNoDifference_of_same ?_)
  · intro region hregion
    simp only [List.mem_cons, List.not_mem_nil, or_false] at hregion
    rcases hregion with rfl | rfl
    · exact ⟨by decide, by decide, by decide, by decide⟩
    · exact ⟨by decide, by decide, by decide, by decide⟩
  · simp

/-- The second region is twice as wide as the first one and loses half of its pixels. -/
theorem smallFrame_not_cleared :
    ¬ ClearsEachRegion [⟨0, 0, 1, 1⟩, ⟨0, 1, 2, 1⟩] ⟨1, 2, 3⟩ smallFrame
      (cpuGrGraphicsClearScreenRegions [⟨0, 0, 1, 1⟩, ⟨0, 1, 2, 1⟩] ⟨1, 2, 3⟩ smallFrame) := by
  intro h
  have hcolor := h.cleared (1, 1) (by exact ⟨by decide, by decide⟩)
    ⟨⟨0, 1, 2, 1⟩, by simp, ⟨by decide, by decide⟩, by decide, by decide⟩
  revert hcolor
  decide

end Result

end Graphics
end DexprOS
