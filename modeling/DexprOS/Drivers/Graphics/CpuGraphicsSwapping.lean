import DexprOS.Drivers.Graphics.CpuGraphicsDriver
import DexprOS.Library.Word32
import Mathlib.Tactic.Ring

/-!
# No update of the screen is lost

The swap region of the CPU graphics driver covers all visible pixels in which the
framebuffers differ, so that swapping makes them equal.

Main facts:
* `forEach_writesOnly`: loops over a box write to no other pixel;
* `dirty_mark`: marking covers the old region and the new one;
* `clipRegionAxis_within`, `clipBlitAxis_within`: clipped rectangles are on the screen;
* `SwapTracked.clearScreen`, `SwapTracked.clearRegions`, `SwapTracked.blit`,
  `SwapTracked.swap`: each call keeps the tracking;
* `runGraphicsCalls_tracked`: no sequence of calls loses an update.
-/

namespace DexprOS
namespace Graphics

open Damage Word32

section Screen

/-- The frame's bytes can be addressed in 32 bits and are all swapped by a full swap. -/
structure CpuGrGraphicsDrvData.Addressable (d : CpuGrGraphicsDrvData) : Prop where
  pixelBytes_eq : d.presentationPixelBytes = 4
  width_le : d.presentationWidth.toNat ≤ d.presentationPixelStride.toNat
  row_lt : d.presentationPixelStride.toNat * 4 < 2147483648
  frame_lt : d.presentationHeight.toNat * (d.presentationPixelStride.toNat * 4) < 4294967296
  frame_le : d.presentationHeight.toNat * (d.presentationPixelStride.toNat * 4) ≤
    d.mainFramebufferSize

variable (d : CpuGrGraphicsDrvData)

def CpuGrGraphicsDrvData.visible : Set (Nat × Nat) :=
  {p | p.1 < d.presentationWidth.toNat ∧ p.2 < d.presentationHeight.toNat}

/-- Offset of a pixel's first byte. -/
def CpuGrGraphicsDrvData.pixelOffset (p : Nat × Nat) : Nat :=
  rasterIndex d.presentationPixelStride.toNat p.1 p.2 * d.presentationPixelBytes.toNat

/-- The four bytes of a pixel. -/
def CpuGrGraphicsDrvData.pixel (fb : Framebuffer) (p : Nat × Nat) : Fin 4 → UInt8 :=
  fun k => fb (d.pixelOffset p + k.val : Nat)

/-- The recorded region. -/
def CpuGrSwapBufferInfo.box (info : CpuGrSwapBufferInfo) : Box where
  x := info.regionStartX.toNat
  y := info.regionStartY.toNat
  width := info.regionWidth.toNat
  height := info.regionHeight.toNat

/-- The pixels that the next swap copies. -/
def CpuGrSwapBufferInfo.dirty (info : CpuGrSwapBufferInfo) : Set (Nat × Nat) :=
  match info.swapOp with
  | .none => ∅
  | .full => Set.univ
  | .region => info.box.cells

/-- The driver's invariant. -/
structure SwapTracked (d : CpuGrGraphicsDrvData) : Prop extends d.Addressable where
  within : d.swapBufferInfo.swapOp = .region →
    d.swapBufferInfo.box.Within d.presentationWidth.toNat d.presentationHeight.toNat
  tracks : Tracks d.visible (d.pixel d.mainFramebuffer) (d.pixel d.renderFramebuffer)
    d.swapBufferInfo.dirty

/-- A visible pixel in which the framebuffers differ is in the recorded region, unless
the next swap copies the whole frame. -/
def SwapCoversDifference : Prop :=
  ∀ p ∈ d.visible, d.pixel d.mainFramebuffer p ≠ d.pixel d.renderFramebuffer p →
    d.swapBufferInfo.swapOp = .full ∨
      d.swapBufferInfo.swapOp = .region ∧ p ∈ d.swapBufferInfo.box.cells

def VisiblePixelsAgree : Prop :=
  ∀ p ∈ d.visible, d.pixel d.mainFramebuffer p = d.pixel d.renderFramebuffer p

end Screen

section Marking

/-- The box of four words. -/
def wordBox (x y width height : UInt32) : Box where
  x := x.toNat
  y := y.toNat
  width := width.toNat
  height := height.toNat

variable {info : CpuGrSwapBufferInfo} {x y width height W H : UInt32}

/-- One axis of the hull, in words. -/
theorem hull_axis
    {oldStart oldSize start size W : UInt32}
    (hold : oldStart.toNat + oldSize.toNat ≤ W.toNat) (hnew : start.toNat + size.toNat ≤ W.toNat) :
    (if oldStart < start then oldStart else start).toNat = min oldStart.toNat start.toNat ∧
      ((if oldStart + oldSize > start + size then oldStart + oldSize else start + size) -
          (if oldStart < start then oldStart else start)).toNat =
        max (oldStart.toNat + oldSize.toNat) (start.toNat + size.toNat) -
          min oldStart.toNat start.toNat := by
  have hW := W.toNat_lt
  have hfirst : (if oldStart < start then oldStart else start).toNat =
      min oldStart.toNat start.toNat := by
    simp only [UInt32.lt_iff_toNat_lt]
    split <;> omega
  have hlast : (if oldStart + oldSize > start + size then oldStart + oldSize
      else start + size).toNat =
        max (oldStart.toNat + oldSize.toNat) (start.toNat + size.toNat) := by
    have holdEnd := toNat_add_of_lt (a := oldStart) (b := oldSize) (by omega)
    have hnewEnd := toNat_add_of_lt (a := start) (b := size) (by omega)
    simp only [gt_iff_lt, UInt32.lt_iff_toNat_lt, holdEnd, hnewEnd]
    split <;> omega
  refine ⟨hfirst, ?_⟩
  rw [UInt32.toNat_sub_of_le _ _ (UInt32.le_iff_toNat_le.mpr (by omega)), hfirst, hlast]

/-- Marking in a region takes the hull, because no end wraps around. -/
theorem box_mark_region
    (hop : info.swapOp = .region) (hinfo : info.box.Within W.toNat H.toNat)
    (hnew : (wordBox x y width height).Within W.toNat H.toNat) :
    (cpuGrMarkScreenRegionForSwapping x y width height info).box =
      info.box.hull (wordBox x y width height) := by
  obtain ⟨hstartX, hwidth⟩ := hull_axis hinfo.1 hnew.1
  obtain ⟨hstartY, hheight⟩ := hull_axis hinfo.2 hnew.2
  unfold cpuGrMarkScreenRegionForSwapping
  simp only [hop]
  exact Box.mk.injEq _ _ _ _ _ _ _ _ ▸ ⟨hstartX, hstartY, hwidth, hheight⟩

theorem swapOp_mark
    (x y width height : UInt32) (info : CpuGrSwapBufferInfo) :
    (cpuGrMarkScreenRegionForSwapping x y width height info).swapOp =
      if info.swapOp = .full then .full else .region := by
  unfold cpuGrMarkScreenRegionForSwapping
  cases hop : info.swapOp <;> simp [hop]

theorem within_mark
    (hinfo : info.swapOp = .region → info.box.Within W.toNat H.toNat)
    (hnew : (wordBox x y width height).Within W.toNat H.toNat)
    (hop : (cpuGrMarkScreenRegionForSwapping x y width height info).swapOp = .region) :
    (cpuGrMarkScreenRegionForSwapping x y width height info).box.Within W.toNat H.toNat := by
  cases hold : info.swapOp with
  | none =>
      unfold cpuGrMarkScreenRegionForSwapping
      rw [hold]
      exact hnew
  | full =>
      rw [swapOp_mark, if_pos hold] at hop
      cases hop
  | region =>
      rw [box_mark_region hold (hinfo hold) hnew]
      exact Box.hull_within (hinfo hold) hnew

theorem dirty_mark
    (hinfo : info.swapOp = .region → info.box.Within W.toNat H.toNat)
    (hnew : (wordBox x y width height).Within W.toNat H.toNat) :
    info.dirty ⊆ (cpuGrMarkScreenRegionForSwapping x y width height info).dirty ∧
      (wordBox x y width height).cells ⊆
        (cpuGrMarkScreenRegionForSwapping x y width height info).dirty := by
  cases hold : info.swapOp with
  | none =>
      unfold cpuGrMarkScreenRegionForSwapping CpuGrSwapBufferInfo.dirty
      simp only [hold]
      exact ⟨Set.empty_subset _, subset_rfl⟩
  | full =>
      unfold cpuGrMarkScreenRegionForSwapping CpuGrSwapBufferInfo.dirty
      simp only [hold]
      exact ⟨subset_rfl, Set.subset_univ _⟩
  | region =>
      have hnewOp : (cpuGrMarkScreenRegionForSwapping x y width height info).swapOp = .region := by
        rw [swapOp_mark, hold]
        rfl
      unfold CpuGrSwapBufferInfo.dirty
      rw [hold, hnewOp]
      dsimp only
      rw [box_mark_region hold (hinfo hold) hnew]
      exact ⟨Box.cells_subset_hull_left _ _, Box.cells_subset_hull_right _ _⟩

end Marking

section Pixels

variable {d : CpuGrGraphicsDrvData} {p q : Nat × Nat}

/-- No byte changes but those of these pixels. -/
def WritesOnly (d : CpuGrGraphicsDrvData) (cells : Set (Nat × Nat)) (fb fb' : Framebuffer) :
    Prop :=
  ∀ a : Int, (∀ q ∈ cells, ∀ k < 4, a ≠ (d.pixelOffset q + k : Nat)) → fb' a = fb a

theorem WritesOnly.mono
    {cells cells' : Set (Nat × Nat)} {fb fb' : Framebuffer}
    (h : WritesOnly d cells fb fb') (hsub : cells ⊆ cells') :
    WritesOnly d cells' fb fb' :=
  fun a ha => h a fun q hq => ha q (hsub hq)

theorem WritesOnly.trans
    {cells : Set (Nat × Nat)} {fb fb' fb'' : Framebuffer}
    (h : WritesOnly d cells fb fb') (h' : WritesOnly d cells fb' fb'') :
    WritesOnly d cells fb fb'' :=
  fun a ha => (h' a ha).trans (h a ha)

/-- A byte of a pixel belongs to no other pixel. -/
theorem pixelOffset_add_inj
    (hd : d.Addressable) (hp : p.1 < d.presentationPixelStride.toNat)
    (hq : q.1 < d.presentationPixelStride.toNat) {k l : Nat} (hk : k < 4) (hl : l < 4)
    (heq : d.pixelOffset p + k = d.pixelOffset q + l) :
    p = q ∧ k = l := by
  have hbytesPerPixel : d.presentationPixelBytes.toNat = 4 := by
    rw [hd.pixelBytes_eq]
    rfl
  unfold CpuGrGraphicsDrvData.pixelOffset at heq
  rw [hbytesPerPixel] at heq
  have hindex : rasterIndex d.presentationPixelStride.toNat p.1 p.2 =
      rasterIndex d.presentationPixelStride.toNat q.1 q.2 := by
    omega
  obtain ⟨hx, hy⟩ := rasterIndex_inj hp hq hindex
  exact ⟨Prod.ext hx hy, by rw [hx, hy] at heq; omega⟩

/-- The other pixels stay as they are. -/
theorem WritesOnly.pixel_eq
    {cells : Set (Nat × Nat)} {fb fb' : Framebuffer}
    (h : WritesOnly d cells fb fb') (hd : d.Addressable)
    (hcells : ∀ q ∈ cells, q.1 < d.presentationPixelStride.toNat)
    (hp : p.1 < d.presentationPixelStride.toNat) (hnot : p ∉ cells) :
    d.pixel fb' p = d.pixel fb p := by
  funext k
  refine h _ fun q hq l hl heq => hnot ?_
  obtain ⟨rfl, -⟩ := pixelOffset_add_inj hd hp (hcells q hq) k.isLt hl (Int.ofNat_inj.mp heq)
  exact hq

/-- A written byte is one of the pixel's. -/
theorem writePixel_of_ne
    {offset n : Nat} {bytes : List UInt8} (hbytes : bytes.length ≤ n) {a : Int}
    (ha : ∀ k < n, a ≠ (offset + k : Nat)) (fb : Framebuffer) :
    writePixel offset bytes fb a = fb a := by
  unfold writePixel
  split
  · rename_i hle
    have hend : n ≤ (a - offset).toNat := by
      by_contra hlt
      exact ha (a - offset).toNat (by omega) (by omega)
    rw [List.getElem?_eq_none (by omega), Option.getD_none]
  · rfl

/-- Writing a pixel leaves the others alone. -/
theorem pixel_writePixel_of_ne
    (hd : d.Addressable) (hp : p.1 < d.presentationPixelStride.toNat)
    (hq : q.1 < d.presentationPixelStride.toNat) (hne : p ≠ q)
    {bytes : List UInt8} (hbytes : bytes.length ≤ 4) (fb : Framebuffer) :
    d.pixel (writePixel (d.pixelOffset q : Nat) bytes fb) p = d.pixel fb p := by
  have hwrites : WritesOnly d {q} fb (writePixel (d.pixelOffset q : Nat) bytes fb) :=
    fun a ha => writePixel_of_ne hbytes (ha q rfl) fb
  refine hwrites.pixel_eq hd (fun q' hq' => ?_) hp hne
  rw [Set.mem_singleton_iff.mp hq']
  exact hq

/-- Loops that write the pixels of a box write to no other pixel. -/
theorem forEach_writesOnly
    {box : Box} {f : Nat → Nat → Framebuffer → Framebuffer}
    (hf : ∀ h < box.height, ∀ w < box.width, ∀ fb, ∃ bytes : List UInt8, bytes.length ≤ 4 ∧
      f h w fb = writePixel (d.pixelOffset (box.x + w, box.y + h) : Nat) bytes fb)
    (fb : Framebuffer) :
    WritesOnly d box.cells fb (forEach box.width box.height f fb) := by
  refine forEach_induct (motive := fun fb' => WritesOnly d box.cells fb fb') (fun _ _ => rfl)
    fun h hh w hw fb' hfb' => hfb'.trans ?_
  obtain ⟨bytes, hbytes, hwrite⟩ := hf h hh w hw fb'
  have hcell : (box.x + w, box.y + h) ∈ box.cells :=
    ⟨Nat.le_add_right _ _, Nat.add_lt_add_left hw _, Nat.le_add_right _ _,
      Nat.add_lt_add_left hh _⟩
  rw [hwrite]
  exact fun a ha => writePixel_of_ne hbytes (ha _ hcell) fb'

/-- The pixels of a box on the screen are visible. -/
theorem cells_subset_visible
    {box : Box}
    (hbox : box.Within d.presentationWidth.toNat d.presentationHeight.toNat) :
    box.cells ⊆ d.visible :=
  fun _ hcell => ⟨Nat.lt_of_lt_of_le hcell.2.1 hbox.1, Nat.lt_of_lt_of_le hcell.2.2.2 hbox.2⟩

theorem pixelOffset_add
    (hd : d.Addressable) (x y w h : Nat) :
    d.pixelOffset (x + w, y + h) =
      y * (d.presentationPixelStride.toNat * 4) + x * 4 +
        h * (d.presentationPixelStride.toNat * 4) + w * 4 := by
  unfold CpuGrGraphicsDrvData.pixelOffset rasterIndex
  rw [hd.pixelBytes_eq]
  show ((y + h) * d.presentationPixelStride.toNat + (x + w)) * 4 = _
  ring

/-- Bytes of a row, as the driver computes them. -/
theorem toNat_byteStride
    (hd : d.Addressable) :
    (d.presentationPixelStride * 4).toNat = d.presentationPixelStride.toNat * 4 := by
  have hrow := hd.row_lt
  exact toNat_mul_of_lt (b := 4) (by show _ * 4 < _; omega)

/-- Offset of a row of the screen. -/
theorem toNat_row
    (hd : d.Addressable) {y : UInt32}
    (hy : y.toNat < d.presentationHeight.toNat) :
    (y * (d.presentationPixelStride * 4)).toNat =
      y.toNat * (d.presentationPixelStride.toNat * 4) := by
  have hframe : y.toNat * (d.presentationPixelStride.toNat * 4) ≤
      d.presentationHeight.toNat * (d.presentationPixelStride.toNat * 4) :=
    Nat.mul_le_mul_right _ (Nat.le_of_lt hy)
  have hstride := toNat_byteStride hd
  rw [toNat_mul_of_lt (by rw [hstride]; exact Nat.lt_of_le_of_lt hframe hd.frame_lt), hstride]

/-- Offset of a pixel in its row. -/
theorem toNat_column
    (hd : d.Addressable) {x : UInt32}
    (hx : x.toNat < d.presentationPixelStride.toNat) :
    (x * 4).toNat = x.toNat * 4 := by
  have hrow := hd.row_lt
  exact toNat_mul_of_lt (b := 4) (by show _ * 4 < _; omega)

end Pixels

section Clearing

variable {d : CpuGrGraphicsDrvData}

/-- Where the clearing loops write, for a rectangle on the screen. -/
theorem clearPixels_offset
    (hd : d.Addressable) {x y width height : UInt32}
    (hbox : (wordBox x y width height).Within d.presentationWidth.toNat
      d.presentationHeight.toNat)
    {h w : Nat} (hh : h < height.toNat) (hw : w < width.toNat) :
    (((y * (d.presentationPixelStride * d.presentationPixelBytes)).toNat +
          (x * d.presentationPixelBytes).toNat : Nat) : Int) +
        (h.toUInt32 * (d.presentationPixelStride * d.presentationPixelBytes)).toNat +
        (w.toUInt32 * d.presentationPixelBytes).toNat =
      (d.pixelOffset (x.toNat + w, y.toNat + h) : Nat) := by
  have hx : x.toNat + w < d.presentationPixelStride.toNat :=
    Nat.lt_of_lt_of_le (Nat.add_lt_add_left hw _) (Nat.le_trans hbox.1 hd.width_le)
  have hy : y.toNat + h < d.presentationHeight.toNat :=
    Nat.lt_of_lt_of_le (Nat.add_lt_add_left hh _) hbox.2
  have hw' := toNat_toUInt32 (Nat.lt_trans hw width.toNat_lt)
  have hh' := toNat_toUInt32 (Nat.lt_trans hh height.toNat_lt)
  rw [hd.pixelBytes_eq, toNat_row hd (y := y) (by omega), toNat_column hd (x := x) (by omega),
    toNat_row hd (y := h.toUInt32) (by omega), toNat_column hd (x := w.toUInt32) (by omega),
    hw', hh', pixelOffset_add hd, ← Int.natCast_add, ← Int.natCast_add]

/-- Clearing a region on the screen writes to the pixels of the region only. -/
theorem clearRegionPixels_writesOnly
    (hd : d.Addressable) {x y width height : UInt32}
    (hbox : (wordBox x y width height).Within d.presentationWidth.toNat
      d.presentationHeight.toNat)
    {bytes : List UInt8} (hbytes : bytes.length ≤ 4) :
    WritesOnly d (wordBox x y width height).cells d.renderFramebuffer
      (clearRegionPixels d x y width height bytes).renderFramebuffer := by
  refine forEach_writesOnly (fun h hh w hw fb => ⟨bytes, hbytes, ?_⟩) _
  rw [clearPixels_offset hd hbox hh hw]
  rfl

end Clearing

section Blitting

variable {d : CpuGrGraphicsDrvData}

/-- Where the blitting loops write, for a rectangle on the screen. -/
theorem blitPixels_offset
    (hd : d.Addressable) {fbX fbY width height : Int32}
    (hx : 0 ≤ fbX.toInt) (hy : 0 ≤ fbY.toInt)
    (hwidth : 0 ≤ width.toInt) (hheight : 0 ≤ height.toInt)
    (hbox : (wordBox fbX.toUInt32 fbY.toUInt32 width.toUInt32 height.toUInt32).Within
      d.presentationWidth.toNat d.presentationHeight.toNat)
    {h w : Nat} (hh : h < height.toUInt32.toNat) (hw : w < width.toUInt32.toNat) :
    ((fbY.toUInt32 * (d.presentationPixelStride * 4)).toNat : Int) + (fbX * 4).toInt +
        (h.toUInt32 * (d.presentationPixelStride * 4)).toNat + (Int32.ofNat w * 4).toInt =
      (d.pixelOffset (fbX.toUInt32.toNat + w, fbY.toUInt32.toNat + h) : Nat) := by
  have hcastX := toNat_toUInt32_of_nonneg hx
  have hcastY := toNat_toUInt32_of_nonneg hy
  have hcastWidth := toNat_toUInt32_of_nonneg hwidth
  have hcastHeight := toNat_toUInt32_of_nonneg hheight
  have hrow := hd.row_lt
  have hwidthLe := hd.width_le
  have hboxX : fbX.toUInt32.toNat + width.toUInt32.toNat ≤ d.presentationWidth.toNat := hbox.1
  have hboxY : fbY.toUInt32.toNat + height.toUInt32.toNat ≤ d.presentationHeight.toNat := hbox.2
  have hh' := toNat_toUInt32 (Nat.lt_trans hh height.toUInt32.toNat_lt)
  have hfour (a : Int32) (ha : 0 ≤ a.toInt) (hlt : a.toInt * 4 < 2147483648) :
      (a * 4).toInt = a.toInt * 4 :=
    toInt_mul_of_range (b := 4) (by show _ ≤ _ * (4 : Int); omega) hlt
  have hcolumn : (fbX * 4).toInt = fbX.toUInt32.toNat * 4 := by
    rw [hfour fbX hx (by omega), hcastX]
  have hpixelOffset : (Int32.ofNat w * 4).toInt = w * 4 := by
    have hofNat := toInt_ofNat_of_lt (n := w) (by omega)
    rw [hfour (Int32.ofNat w) (by omega) (by omega), hofNat]
  rw [pixelOffset_add hd, toNat_row hd (y := fbY.toUInt32) (by omega),
    toNat_row hd (y := h.toUInt32) (by omega), hh', hcolumn, hpixelOffset]
  push_cast
  ring

/-- Blitting to a rectangle on the screen writes to the pixels of the rectangle only. -/
theorem blitPixels_writesOnly
    (hd : d.Addressable) {srcPixelBytes : Int32}
    {pixel : (Nat → UInt8) → (Nat → UInt8) → List UInt8}
    (hpixel : ∀ src dst, (pixel src dst).length ≤ 4)
    {image : Nat → UInt8} {imageX imageY : Int32} {imageRowStride : UInt32}
    {fbX fbY width height : Int32}
    (hx : 0 ≤ fbX.toInt) (hy : 0 ≤ fbY.toInt)
    (hwidth : 0 ≤ width.toInt) (hheight : 0 ≤ height.toInt)
    (hbox : (wordBox fbX.toUInt32 fbY.toUInt32 width.toUInt32 height.toUInt32).Within
      d.presentationWidth.toNat d.presentationHeight.toNat)
    (fb : Framebuffer) :
    WritesOnly d (wordBox fbX.toUInt32 fbY.toUInt32 width.toUInt32 height.toUInt32).cells fb
      (blitPixels srcPixelBytes pixel image imageX imageY imageRowStride fbX fbY
        (d.presentationPixelStride * 4) width height fb) := by
  have hcastWidth := toNat_toUInt32_of_nonneg hwidth
  have hcastHeight := toNat_toUInt32_of_nonneg hheight
  unfold blitPixels
  rw [show width.toInt.toNat = width.toUInt32.toNat by omega,
    show height.toInt.toNat = height.toUInt32.toNat by omega]
  refine forEach_writesOnly (fun h hh w hw fb => ?_) fb
  dsimp only
  rw [blitPixels_offset hd hx hy hwidth hheight hbox hh hw]
  exact ⟨_, hpixel _ _, rfl⟩

theorem blitToRender_writesOnly
    (blend : UInt8 → UInt8 → UInt8 → UInt8) (hd : d.Addressable) (blit : GrBlit)
    {imageX imageY fbX fbY width height : Int32}
    (hx : 0 ≤ fbX.toInt) (hy : 0 ≤ fbY.toInt)
    (hwidth : 0 ≤ width.toInt) (hheight : 0 ≤ height.toInt)
    (hbox : (wordBox fbX.toUInt32 fbY.toUInt32 width.toUInt32 height.toUInt32).Within
      d.presentationWidth.toNat d.presentationHeight.toNat) :
    WritesOnly d (wordBox fbX.toUInt32 fbY.toUInt32 width.toUInt32 height.toUInt32).cells
      d.renderFramebuffer (blitToRender blend blit imageX imageY fbX fbY width height d) := by
  unfold blitToRender
  dsimp only
  split
  · exact blitPixels_writesOnly hd (fun _ _ => by simp) hx hy hwidth hheight hbox _
  · exact blitPixels_writesOnly hd (fun _ _ => by simp) hx hy hwidth hheight hbox _
  · exact blitPixels_writesOnly hd (fun _ _ => by simp) hx hy hwidth hheight hbox _
  · exact blitPixels_writesOnly hd (fun _ _ => by simp) hx hy hwidth hheight hbox _
  · exact fun _ _ => rfl

end Blitting

section Clipping

/-- A region's coordinate and size do not overflow 32 bits when they are added. -/
def RegionSumFits (pos : Int32) (size : UInt32) : Prop :=
  0 ≤ pos.toInt → pos.toInt + size.toNat < 4294967296

/-- A blit's coordinate and size do not overflow 32 bits when they are added. -/
def BlitSumFits (fb size : Int32) : Prop :=
  -2147483648 ≤ fb.toInt + size.toInt ∧ fb.toInt + size.toInt < 2147483648

/-- The end of a region is cut off at the end of the screen. -/
theorem clipEnd_le
    {start size presentation : UInt32}
    (hstart : start.toNat < presentation.toNat)
    (hsum : start.toNat + size.toNat < 4294967296) :
    start.toNat + (if start + size > presentation then presentation - start else size).toNat ≤
      presentation.toNat := by
  split
  · rw [UInt32.toNat_sub_of_le _ _ (UInt32.le_iff_toNat_le.mpr (Nat.le_of_lt hstart))]
    omega
  · rename_i hle
    rw [gt_iff_lt, UInt32.lt_iff_toNat_lt, toNat_add_of_lt hsum] at hle
    omega

theorem clipRegionAxis_within
    {pos : Int32} {size presentation start size' : UInt32}
    (hfits : RegionSumFits pos size)
    (hclip : clipRegionAxis pos size presentation = some (start, size')) :
    start.toNat + size'.toNat ≤ presentation.toNat := by
  unfold clipRegionAxis at hclip
  dsimp only at hclip
  -- Only a region that starts on the screen can overflow; the other starts at zero.
  have hsum : (if pos ≥ 0 then pos.toUInt32 else 0).toNat +
      (if pos < 0 then size - (-pos).toUInt32 else size).toNat < 4294967296 := by
    by_cases hneg : pos < 0
    · rw [if_neg (Int32.not_le.mpr hneg), if_pos hneg]
      exact (Nat.zero_add _).symm ▸ UInt32.toNat_lt _
    · have hge := Int32.not_lt.mp hneg
      have hnonneg := Int32.le_iff_toInt_le.mp hge
      rw [if_pos hge, if_neg hneg]
      have hcast := toNat_toUInt32_of_nonneg hnonneg
      have := hfits hnonneg
      omega
  generalize (if pos ≥ 0 then pos.toUInt32 else 0) = first at hclip hsum
  split at hclip
  · cases hclip
  · rename_i hstart
    split at hclip
    · cases hclip
    · simp only [Option.some.injEq, Prod.mk.injEq] at hclip
      rw [ge_iff_le, UInt32.le_iff_toNat_le, Nat.not_le] at hstart
      rw [← hclip.1, ← hclip.2]
      exact clipEnd_le hstart hsum

/-- The end of a blit is cut off at the end of the screen. -/
theorem clipEnd_le_signed
    {fb size presentation : Int32}
    (hfb : 0 ≤ fb.toInt) (hlt : fb.toInt < presentation.toInt)
    (hlo : -2147483648 ≤ fb.toInt + size.toInt) (hhi : fb.toInt + size.toInt < 2147483648) :
    fb.toInt + (if fb + size > presentation then presentation - fb else size).toInt ≤
      presentation.toInt := by
  have hmax := presentation.toInt_lt
  split
  · rw [toInt_sub_of_range (by omega) (by omega)]
    omega
  · rename_i hle
    rw [gt_iff_lt, Int32.lt_iff_toInt_lt, toInt_add_of_range hlo hhi] at hle
    omega

theorem clipBlitAxis_within
    {image fb size imagePos fbPos size' : Int32} {presentation : UInt32}
    (hfits : BlitSumFits fb size)
    (hclip : clipBlitAxis image fb size presentation = (imagePos, fbPos, size'))
    (hsize : ¬ size' < 0) (hpos : ¬ fbPos ≥ presentation.toInt32) :
    0 ≤ fbPos.toInt ∧ 0 ≤ size'.toInt ∧ fbPos.toInt + size'.toInt ≤ presentation.toNat := by
  obtain ⟨hlo, hhi⟩ := hfits
  rw [ge_iff_le, Int32.not_le, Int32.lt_iff_toInt_lt] at hpos
  rw [Int32.not_lt, Int32.le_iff_toInt_le] at hsize
  have hcast : presentation.toInt32.toInt ≤ presentation.toNat := by
    rw [toInt_toInt32]
    split <;> omega
  unfold clipBlitAxis at hclip
  simp only [Prod.mk.injEq] at hclip
  obtain ⟨-, hfb, hsize'⟩ := hclip
  rw [hfb] at hsize'
  have hstart : 0 ≤ fbPos.toInt ∧
      fbPos.toInt + (if fb < 0 then size + fb else size).toInt = fb.toInt + size.toInt := by
    rw [← hfb]
    split
    · rw [toInt_add_of_range (by omega) (by omega)]
      exact ⟨Int.le_refl 0, by show (0 : Int) + _ = _; omega⟩
    · rename_i hneg
      exact ⟨Int32.le_iff_toInt_le.mp (Int32.not_lt.mp hneg), rfl⟩
  have hend := clipEnd_le_signed hstart.1 hpos (hstart.2 ▸ hlo) (hstart.2 ▸ hhi)
  rw [hsize'] at hend
  exact ⟨hstart.1, hsize, Int.le_trans hend hcast⟩

end Clipping

section Calls

variable {d : CpuGrGraphicsDrvData}

/-- Drawing in a box that is marked keeps the tracking. -/
theorem SwapTracked.draw
    (hd : SwapTracked d) {x y width height : UInt32}
    (hbox : (wordBox x y width height).Within d.presentationWidth.toNat
      d.presentationHeight.toNat)
    {fb : Framebuffer}
    (hfb : WritesOnly d (wordBox x y width height).cells d.renderFramebuffer fb) :
    SwapTracked { d with
      swapBufferInfo := cpuGrMarkScreenRegionForSwapping x y width height d.swapBufferInfo
      renderFramebuffer := fb } where
  pixelBytes_eq := hd.pixelBytes_eq
  width_le := hd.width_le
  row_lt := hd.row_lt
  frame_lt := hd.frame_lt
  frame_le := hd.frame_le
  within := within_mark hd.within hbox
  tracks := by
    obtain ⟨hold, hnew⟩ := dirty_mark hd.within hbox
    refine hd.tracks.draw (fun p hp hnot => ?_) hold hnew
    refine hfb.pixel_eq hd.toAddressable (fun q hq => ?_)
      (Nat.lt_of_lt_of_le hp.1 hd.width_le) hnot
    exact Nat.lt_of_lt_of_le (cells_subset_visible hbox hq).1 hd.width_le

/-- A full swap may follow any change of the render framebuffer. -/
theorem SwapTracked.drawAll
    (hd : SwapTracked d) (fb : Framebuffer) :
    SwapTracked { d with
      swapBufferInfo := { d.swapBufferInfo with swapOp := .full }
      renderFramebuffer := fb } where
  pixelBytes_eq := hd.pixelBytes_eq
  width_le := hd.width_le
  row_lt := hd.row_lt
  frame_lt := hd.frame_lt
  frame_le := hd.frame_le
  within := fun hop => by cases hop
  tracks := fun _ _ _ => trivial

theorem SwapTracked.clearScreen
    (hd : SwapTracked d) (color : GrGraphicsColor) :
    SwapTracked (cpuGrGraphicsClearScreen color d) := by
  unfold cpuGrGraphicsClearScreen
  dsimp only
  split
  · exact hd.drawAll _
  · exact hd.drawAll _
  · exact hd.drawAll _

theorem SwapTracked.clearRegion
    (hd : SwapTracked d) {first region : GrImageRegion} (color : GrGraphicsColor)
    (hx : RegionSumFits region.x first.width) (hy : RegionSumFits region.y first.height) :
    SwapTracked (clearScreenRegion first color d region) := by
  unfold clearScreenRegion
  split
  · rename_i startX width startY height hclipX hclipY
    have hbox : (wordBox startX startY width height).Within d.presentationWidth.toNat
        d.presentationHeight.toNat :=
      ⟨clipRegionAxis_within hx hclipX, clipRegionAxis_within hy hclipY⟩
    dsimp only
    split
    · exact hd.draw hbox (clearRegionPixels_writesOnly hd.toAddressable hbox (Nat.le_refl 4))
    · exact hd.draw hbox (clearRegionPixels_writesOnly hd.toAddressable hbox (Nat.le_refl 4))
    · exact hd.draw hbox fun _ _ => rfl
  · exact hd

theorem SwapTracked.clearRegions
    (hd : SwapTracked d) (regions : List GrImageRegion) (color : GrGraphicsColor)
    (hfits : ∀ first ∈ regions.head?, ∀ region ∈ regions,
      RegionSumFits region.x first.width ∧ RegionSumFits region.y first.height) :
    SwapTracked (cpuGrGraphicsClearScreenRegions regions color d) := by
  cases regions with
  | nil =>
      exact hd
  | cons first rest =>
      have hfits := hfits first rfl
      exact List.foldlRecOn (first :: rest) _ hd fun d hd region hregion =>
        hd.clearRegion color (hfits region hregion).1 (hfits region hregion).2

theorem SwapTracked.blit
    (hd : SwapTracked d) (blend : UInt8 → UInt8 → UInt8 → UInt8) (blit : GrBlit)
    (hx : BlitSumFits blit.fbX blit.width) (hy : BlitSumFits blit.fbY blit.height) :
    SwapTracked (cpuGrGraphicsBlitImageToFramebuffer blend blit d) := by
  unfold cpuGrGraphicsBlitImageToFramebuffer
  rcases hclipX : clipBlitAxis blit.imageX blit.fbX blit.width d.presentationWidth with
    ⟨imageX, fbX, width⟩
  rcases hclipY : clipBlitAxis blit.imageY blit.fbY blit.height d.presentationHeight with
    ⟨imageY, fbY, height⟩
  dsimp only
  split
  · exact hd
  · rename_i hsizes
    split
    · exact hd
    · rename_i hstarts
      simp only [not_or] at hsizes hstarts
      obtain ⟨hfbX, hwidth, hendX⟩ := clipBlitAxis_within hx hclipX hsizes.2.2.1 hstarts.1
      obtain ⟨hfbY, hheight, hendY⟩ := clipBlitAxis_within hy hclipY hsizes.2.2.2 hstarts.2
      have hbox : (wordBox fbX.toUInt32 fbY.toUInt32 width.toUInt32 height.toUInt32).Within
          d.presentationWidth.toNat d.presentationHeight.toNat := by
        have hcastX := toNat_toUInt32_of_nonneg hfbX
        have hcastY := toNat_toUInt32_of_nonneg hfbY
        have hcastWidth := toNat_toUInt32_of_nonneg hwidth
        have hcastHeight := toNat_toUInt32_of_nonneg hheight
        unfold Box.Within wordBox
        dsimp only
        omega
      exact hd.draw hbox (blitToRender_writesOnly blend
        (d := { d with swapBufferInfo := _ }) hd.toAddressable blit hfbX hfbY hwidth hheight hbox)

end Calls

section Swap

variable {d : CpuGrGraphicsDrvData}

/-- A byte after copying several rows, each to where it is read from. -/
theorem foldl_copyBytes
    (src : Framebuffer) (offset : Nat → Int) (count : Nat) (rows : List Nat) (dst : Framebuffer)
    (i : Int) :
    rows.foldl (fun fb h => copyBytes src (offset h) count fb) dst i =
      if ∃ h ∈ rows, offset h ≤ i ∧ i < offset h + count then src i else dst i := by
  induction rows generalizing dst with
  | nil =>
      simp
  | cons h rows ih =>
      rw [List.foldl_cons, ih]
      by_cases hrest : ∃ h ∈ rows, offset h ≤ i ∧ i < offset h + count
      · rw [if_pos hrest, if_pos]
        obtain ⟨h', hmem, hin⟩ := hrest
        exact ⟨h', List.mem_cons_of_mem h hmem, hin⟩
      · rw [if_neg hrest, copyBytes]
        refine if_congr ⟨fun hin => ⟨h, List.mem_cons_self, hin⟩, ?_⟩ rfl rfl
        rintro ⟨h', hmem, hin⟩
        obtain rfl | hmem := List.mem_cons.mp hmem
        · exact hin
        · exact absurd ⟨h', hmem, hin⟩ hrest

/-- Each byte of the main framebuffer is kept or becomes that of the render
framebuffer. -/
theorem swapRegionRows_byte
    (d : CpuGrGraphicsDrvData) (i : Int) :
    swapRegionRows d i = d.renderFramebuffer i ∨ swapRegionRows d i = d.mainFramebuffer i := by
  unfold swapRegionRows
  rw [foldl_copyBytes]
  split
  · exact .inl rfl
  · exact .inr rfl

/-- The rows of the region are copied. -/
theorem pixel_swapRegionRows
    (hd : d.Addressable)
    (hbox : d.swapBufferInfo.box.Within d.presentationWidth.toNat d.presentationHeight.toNat)
    {p : Nat × Nat}
    (hp : p ∈ d.swapBufferInfo.box.cells) :
    d.pixel (swapRegionRows d) p = d.pixel d.renderFramebuffer p := by
  funext k
  have hk := k.isLt
  have hrow := hd.row_lt
  have hwidthLe := hd.width_le
  obtain ⟨x, y⟩ := p
  obtain ⟨hx, hx', hy, hy'⟩ := hp
  dsimp only [CpuGrSwapBufferInfo.box] at hx hx' hy hy'
  have hboxX : d.swapBufferInfo.regionStartX.toNat + d.swapBufferInfo.regionWidth.toNat ≤
      d.presentationWidth.toNat := hbox.1
  have hoffset := pixelOffset_add hd d.swapBufferInfo.regionStartX.toNat
    d.swapBufferInfo.regionStartY.toNat (x - d.swapBufferInfo.regionStartX.toNat)
    (y - d.swapBufferInfo.regionStartY.toNat)
  rw [Nat.add_sub_cancel' hx, Nat.add_sub_cancel' hy] at hoffset
  have hregionWidth : (d.swapBufferInfo.regionWidth * 4).toNat =
      d.swapBufferInfo.regionWidth.toNat * 4 :=
    toNat_mul_of_lt (b := 4) (by show _ * 4 < _; omega)
  have hregionStart : (d.swapBufferInfo.regionStartX * 4).toNat =
      d.swapBufferInfo.regionStartX.toNat * 4 :=
    toNat_mul_of_lt (b := 4) (by show _ * 4 < _; omega)
  unfold CpuGrGraphicsDrvData.pixel swapRegionRows
  rw [hd.pixelBytes_eq, toNat_byteStride hd, hregionWidth, hregionStart, foldl_copyBytes, if_pos]
  refine ⟨y - d.swapBufferInfo.regionStartY.toNat, List.mem_range.mpr (by omega), ?_⟩
  rw [hoffset]
  generalize d.swapBufferInfo.regionStartY.toNat * _ = rows
  generalize (y - d.swapBufferInfo.regionStartY.toNat) * _ = row
  omega

/-- A full swap copies the bytes of every visible pixel. -/
theorem pixel_swapAll
    (hd : d.Addressable) {p : Nat × Nat}
    (hp : p ∈ d.visible) :
    d.pixel (copyBytes d.renderFramebuffer 0 d.mainFramebufferSize d.mainFramebuffer) p =
      d.pixel d.renderFramebuffer p := by
  funext k
  have hk := k.isLt
  have hindex := rasterIndex_lt (Nat.lt_of_lt_of_le hp.1 hd.width_le) hp.2
  have hframe := hd.frame_le
  rw [← Nat.mul_assoc] at hframe
  have hoffset : d.pixelOffset p =
      rasterIndex d.presentationPixelStride.toNat p.1 p.2 * 4 := by
    unfold CpuGrGraphicsDrvData.pixelOffset
    rw [hd.pixelBytes_eq]
    rfl
  refine if_pos ⟨Int.natCast_nonneg _, ?_⟩
  rw [hoffset]
  omega

theorem SwapTracked.agree_swap
    (hd : SwapTracked d) :
    VisiblePixelsAgree (cpuGrSwapBuffers d) := by
  show ∀ p ∈ d.visible, d.pixel (cpuGrSwapBuffers d).mainFramebuffer p =
    d.pixel d.renderFramebuffer p
  have htracks := hd.tracks
  unfold CpuGrSwapBufferInfo.dirty at htracks
  unfold cpuGrSwapBuffers
  dsimp only
  cases hop : d.swapBufferInfo.swapOp with
  | none =>
      rw [hop] at htracks
      exact htracks.swap (fun _ _ hp => hp.elim) fun _ _ heq => heq
  | full =>
      exact fun p hp => pixel_swapAll hd.toAddressable hp
  | region =>
      rw [hop] at htracks
      refine htracks.swap (fun p _ hp => pixel_swapRegionRows hd.toAddressable (hd.within hop) hp)
        fun p _ heq => ?_
      funext k
      obtain hbyte | hbyte := swapRegionRows_byte d (d.pixelOffset p + k.val : Nat)
      · exact hbyte
      · exact hbyte.trans (congrFun heq k)

theorem SwapTracked.swap
    (hd : SwapTracked d) :
    SwapTracked (cpuGrSwapBuffers d) where
  pixelBytes_eq := hd.pixelBytes_eq
  width_le := hd.width_le
  row_lt := hd.row_lt
  frame_lt := hd.frame_lt
  frame_le := hd.frame_le
  within := fun hop => by cases hop
  tracks := tracks_of_eqOn hd.agree_swap

end Swap

section Run

variable (blend : UInt8 → UInt8 → UInt8 → UInt8)

/-- The coordinate sums of the call do not overflow 32 bits. -/
def CoordinatesFit : GraphicsCall → Prop
  | .swapBuffers => True
  | .clearScreen _ => True
  | .clearScreenRegions regions _ =>
      ∀ first ∈ regions.head?, ∀ region ∈ regions,
        RegionSumFits region.x first.width ∧ RegionSumFits region.y first.height
  | .blitImageToFramebuffer blit =>
      BlitSumFits blit.fbX blit.width ∧ BlitSumFits blit.fbY blit.height

/-- The step lemma. -/
theorem SwapTracked.run
    {d : CpuGrGraphicsDrvData} {call : GraphicsCall}
    (hd : SwapTracked d) (hfits : CoordinatesFit call) :
    SwapTracked (runGraphicsCall blend call d) := by
  cases call with
  | swapBuffers => exact hd.swap
  | clearScreen color => exact hd.clearScreen color
  | clearScreenRegions regions color => exact hd.clearRegions regions color hfits
  | blitImageToFramebuffer blit => exact hd.blit blend blit hfits.1 hfits.2

def runGraphicsCalls (calls : List GraphicsCall) (d : CpuGrGraphicsDrvData) :
    CpuGrGraphicsDrvData :=
  calls.foldl (fun d call => runGraphicsCall blend call d) d

theorem SwapTracked.runCalls
    {d : CpuGrGraphicsDrvData} {calls : List GraphicsCall}
    (hd : SwapTracked d) (hfits : ∀ call ∈ calls, CoordinatesFit call) :
    SwapTracked (runGraphicsCalls blend calls d) :=
  List.foldlRecOn calls _ hd fun _ hd call hcall => hd.run blend (hfits call hcall)

theorem SwapTracked.covers
    {d : CpuGrGraphicsDrvData}
    (hd : SwapTracked d) :
    SwapCoversDifference d := by
  intro p hp hne
  have hdirty := hd.tracks p hp hne
  unfold CpuGrSwapBufferInfo.dirty at hdirty
  cases hop : d.swapBufferInfo.swapOp with
  | none =>
      rw [hop] at hdirty
      exact hdirty.elim
  | full =>
      exact .inl rfl
  | region =>
      rw [hop] at hdirty
      exact .inr ⟨rfl, hdirty⟩

/-- From equal framebuffers on, no sequence of calls loses an update. -/
theorem runGraphicsCalls_tracked
    (calls : List GraphicsCall) (d : CpuGrGraphicsDrvData)
    (haddressable : d.Addressable) (hnone : d.swapBufferInfo.swapOp = .none)
    (hagree : VisiblePixelsAgree d) (hfits : ∀ call ∈ calls, CoordinatesFit call) :
    SwapCoversDifference (runGraphicsCalls blend calls d) ∧
      VisiblePixelsAgree (cpuGrSwapBuffers (runGraphicsCalls blend calls d)) := by
  have htracked : SwapTracked d :=
    { toAddressable := haddressable
      within := fun hop => by rw [hnone] at hop; cases hop
      tracks := tracks_of_eqOn hagree }
  have hrun := htracked.runCalls blend hfits
  exact ⟨hrun.covers, hrun.agree_swap⟩

/-- A frame of two by two pixels. -/
def smallFrame : CpuGrGraphicsDrvData where
  presentationWidth := 2
  presentationHeight := 2
  presentationPixelBytes := 4
  presentationPixelStride := 2
  mainFramebuffer := fun _ => 0
  mainFramebufferSize := 16
  renderFramebuffer := fun _ => 0
  framebufferFormat := .bgr8Reserved8
  swapBufferInfo := ⟨.none, 0, 0, 0, 0⟩

theorem smallFrame_addressable :
    smallFrame.Addressable where
  pixelBytes_eq := rfl
  width_le := by decide
  row_lt := by decide
  frame_lt := by decide
  frame_le := by decide

/-- Two regions, one of them off the screen, and a swap in between. -/
theorem runGraphicsCalls_tracked_smallFrame :
    SwapCoversDifference
        (runGraphicsCalls (fun source _ _ => source)
          [.clearScreenRegions [⟨0, 1, 1, 1⟩, ⟨-5, 0, 1, 1⟩] ⟨1, 2, 3⟩, .swapBuffers,
            .clearScreenRegions [⟨1, 0, 7, 1⟩] ⟨1, 2, 3⟩] smallFrame) ∧
      VisiblePixelsAgree
        (cpuGrSwapBuffers
          (runGraphicsCalls (fun source _ _ => source)
            [.clearScreenRegions [⟨0, 1, 1, 1⟩, ⟨-5, 0, 1, 1⟩] ⟨1, 2, 3⟩, .swapBuffers,
              .clearScreenRegions [⟨1, 0, 7, 1⟩] ⟨1, 2, 3⟩] smallFrame)) := by
  refine runGraphicsCalls_tracked _ _ smallFrame smallFrame_addressable rfl (fun _ _ => rfl) ?_
  simp [CoordinatesFit, RegionSumFits]

end Run

end Graphics
end DexprOS
